import LintBridge.Proofs.Json.Fields
import LintBridge.Proofs.Json.Tokens

namespace LintBridge

/-- Whether a number reads back from its text. -/
def Number.Steady (n : Number) : Prop :=
  (Document.number (Json.numberChars n)).any fun (t, rest) =>
    rest.isEmpty && decide (t.value? = some n)

instance (n : Number) : Decidable n.Steady := inferInstanceAs (Decidable (_ = true))

/-- A value whose numbers are integers of 64 bits, with the fields of its objects in ascending
order, and with at most so many levels of nesting. -/
inductive Json.Plain : Nat → Json → Prop
  | null {depth : Nat} : Plain depth .null
  | bool {depth : Nat} (b : Bool) : Plain depth (.bool b)
  | int {depth : Nat} {i : Int} : -0x8000000000000000 ≤ i → i ≤ 0xffffffffffffffff →
      Plain depth (.int i)
  | str {depth : Nat} (s : String) : Plain depth (.str s)
  | arr {depth : Nat} {items : List Json} : (∀ v ∈ items, Plain depth v) →
      Plain (depth + 1) (.arr items)
  | obj {depth : Nat} {fields : List (String × Json)} :
      fields.Pairwise (fun f g => f.1 < g.1) → (∀ f ∈ fields, Plain depth f.2) →
      Plain (depth + 1) (.obj fields)

/-- A value whose numbers read back, with the fields of its objects in ascending order, and with at
most so many levels of nesting. -/
inductive Json.Steady : Nat → Json → Prop
  | null {depth : Nat} : Steady depth .null
  | bool {depth : Nat} (b : Bool) : Steady depth (.bool b)
  | num {depth : Nat} {n : Number} : n.Steady → Steady depth (.num n)
  | str {depth : Nat} (s : String) : Steady depth (.str s)
  | arr {depth : Nat} {items : List Json} : (∀ v ∈ items, Steady depth v) →
      Steady (depth + 1) (.arr items)
  | obj {depth : Nat} {fields : List (String × Json)} :
      fields.Pairwise (fun f g => f.1 < g.1) → (∀ f ∈ fields, Steady depth f.2) →
      Steady (depth + 1) (.obj fields)

/-- How the text of a value is laid out: the blanks before an item or a closing bracket at a level,
and those behind a colon. -/
structure Json.Layout where
  gap : Nat → List Char
  space : List Char
  blank_gap : ∀ level, (gap level).all Document.isJsonBlank
  blank_space : space.all Document.isJsonBlank

namespace Json

namespace Layout

/-- Without any blank. -/
def compact : Layout := ⟨fun _ => [], [], fun _ => rfl, rfl⟩

/-- One item a line. -/
def pretty : Layout where
  gap := newline
  space := [' ']
  blank_gap level := List.all_eq_true.mpr fun c member => by
    rcases List.mem_cons.mp member with rfl | member
    · rfl
    · rw [List.eq_of_mem_replicate member]
      rfl
  blank_space := rfl

mutual
/-- A value whose first line stands at a level. -/
def chars (l : Layout) (level : Nat) : Json → List Char
  | .null => ['n', 'u', 'l', 'l']
  | .bool true => ['t', 'r', 'u', 'e']
  | .bool false => ['f', 'a', 'l', 's', 'e']
  | .num n => numberChars n
  | .str s => quoteChars s
  | .arr [] => ['[', ']']
  | .arr (v :: vs) => '[' :: (l.gap (level + 1) ++ (l.chars (level + 1) v ++ l.items level vs))
  | .obj [] => ['{', '}']
  | .obj ((name, v) :: fs) =>
    '{' :: (l.gap (level + 1) ++ (quoteChars name ++
      ':' :: (l.space ++ (l.chars (level + 1) v ++ l.fields level fs))))

/-- The items of an array behind the first, and the closing bracket. -/
def items (l : Layout) (level : Nat) : List Json → List Char
  | [] => l.gap level ++ [']']
  | v :: vs => ',' :: (l.gap (level + 1) ++ (l.chars (level + 1) v ++ l.items level vs))

/-- The fields of an object behind the first, and the closing brace. -/
def fields (l : Layout) (level : Nat) : List (String × Json) → List Char
  | [] => l.gap level ++ ['}']
  | (name, v) :: fs =>
    ',' :: (l.gap (level + 1) ++ (quoteChars name ++
      ':' :: (l.space ++ (l.chars (level + 1) v ++ l.fields level fs))))
end

mutual
theorem chars_compact (level : Nat) : (v : Json) → compact.chars level v = v.compactChars
  | .null => rfl
  | .bool true => rfl
  | .bool false => rfl
  | .num _ => rfl
  | .str _ => rfl
  | .arr [] => rfl
  | .arr (v :: vs) => by
    simp only [chars, compactChars, chars_compact (level + 1) v, items_compact level vs]
    rfl
  | .obj [] => rfl
  | .obj ((name, v) :: fs) => by
    simp only [chars, compactChars, chars_compact (level + 1) v, fields_compact level fs]
    rfl

theorem items_compact (level : Nat) : (vs : List Json) → compact.items level vs = compactItems vs
  | [] => rfl
  | v :: vs => by
    simp only [items, compactItems, chars_compact (level + 1) v, items_compact level vs]
    rfl

theorem fields_compact (level : Nat) :
    (fs : List (String × Json)) → compact.fields level fs = compactFields fs
  | [] => rfl
  | (name, v) :: fs => by
    simp only [fields, compactFields, chars_compact (level + 1) v, fields_compact level fs]
    rfl
end

mutual
theorem chars_pretty (level : Nat) : (v : Json) → pretty.chars level v = v.prettyChars level
  | .null => rfl
  | .bool true => rfl
  | .bool false => rfl
  | .num _ => rfl
  | .str _ => rfl
  | .arr [] => rfl
  | .arr (v :: vs) => by
    simp only [chars, prettyChars, chars_pretty (level + 1) v, items_pretty level vs,
      List.append_assoc]
    rfl
  | .obj [] => rfl
  | .obj ((name, v) :: fs) => by
    simp only [chars, prettyChars, chars_pretty (level + 1) v, fields_pretty level fs,
      List.append_assoc]
    rfl

theorem items_pretty (level : Nat) :
    (vs : List Json) → pretty.items level vs = prettyItems level vs
  | [] => rfl
  | v :: vs => by
    simp only [items, prettyItems, chars_pretty (level + 1) v, items_pretty level vs,
      List.append_assoc]
    rfl

theorem fields_pretty (level : Nat) :
    (fs : List (String × Json)) → pretty.fields level fs = prettyFields level fs
  | [] => rfl
  | (name, v) :: fs => by
    simp only [fields, prettyFields, chars_pretty (level + 1) v, fields_pretty level fs,
      List.append_assoc]
    rfl
end

end Layout

end Json

theorem Number.steady_iff {n : Number} : n.Steady ↔
    ∃ t, Document.number (Json.numberChars n) = some (t, []) ∧ t.value? = some n := by
  simp only [Number.Steady, Option.any_eq_true, Prod.exists, Bool.and_eq_true, List.isEmpty_iff,
    decide_eq_true_eq]
  constructor
  · rintro ⟨t, _, read, rfl, meant⟩
    exact ⟨t, read, meant⟩
  · rintro ⟨t, read, meant⟩
    exact ⟨t, [], read, rfl, meant⟩

/-- An integer of 64 bits, with or without a sign, is steady. -/
theorem Number.steady_int {i : Int} (low : -0x8000000000000000 ≤ i)
    (high : i ≤ 0xffffffffffffffff) : (Number.int i).Steady := by
  obtain ⟨t, read, meant⟩ := Document.number_intChars low high Document.Ends.nil
  rw [List.append_nil] at read
  exact Number.steady_iff.mpr ⟨t, read, meant⟩

theorem Json.Plain.steady {depth : Nat} {v : Json} (plain : v.Plain depth) : v.Steady depth := by
  induction plain with
  | null => exact .null
  | bool b => exact .bool b
  | int low high => exact .num (Number.steady_int low high)
  | str s => exact .str s
  | arr _ ih => exact .arr ih
  | obj sorted _ ih => exact .obj sorted ih

namespace Json

mutual
/-- The numbers in a value. -/
def numbers : Json → List Number
  | .num n => [n]
  | .arr items => itemNumbers items
  | .obj fields => fieldNumbers fields
  | _ => []

/-- The numbers in the items of an array. -/
def itemNumbers : List Json → List Number
  | [] => []
  | v :: vs => v.numbers ++ itemNumbers vs

/-- The numbers in the fields of an object. -/
def fieldNumbers : List (String × Json) → List Number
  | [] => []
  | (_, v) :: fs => v.numbers ++ fieldNumbers fs
end

theorem mem_itemNumbers {n : Number} {items : List Json} :
    n ∈ itemNumbers items ↔ ∃ v ∈ items, n ∈ v.numbers := by
  induction items with
  | nil => simp [itemNumbers]
  | cons v vs ih => simp [itemNumbers, ih]

theorem mem_fieldNumbers {n : Number} {fields : List (String × Json)} :
    n ∈ fieldNumbers fields ↔ ∃ f ∈ fields, n ∈ f.2.numbers := by
  induction fields with
  | nil => simp [fieldNumbers]
  | cons f fs ih => simp [fieldNumbers, ih]

/-- The numbers of a steady value are steady. -/
theorem Steady.numbers {depth : Nat} {v : Json} (steady : v.Steady depth) :
    ∀ n ∈ v.numbers, n.Steady := by
  induction steady with
  | null | bool | str => exact fun n within => nomatch within
  | num steady =>
    intro n within
    rw [Json.numbers, List.mem_singleton] at within
    exact within ▸ steady
  | arr _ ih =>
    intro n within
    obtain ⟨v, member, within⟩ := mem_itemNumbers.mp within
    exact ih v member n within
  | obj _ _ ih =>
    intro n within
    obtain ⟨f, member, within⟩ := mem_fieldNumbers.mp within
    exact ih f member n within

end Json

namespace Document

section Values

variable {l : Json.Layout} {level : Nat}

theorem skip_cons {c : Char} (shown : isJsonBlank c = false) (cs : List Char) :
    skip (c :: cs) = c :: cs := by
  rw [skip, List.dropWhile_cons, shown]
  rfl

theorem skip_append {blanks : List Char} (blank : blanks.all isJsonBlank) (cs : List Char) :
    skip (blanks ++ cs) = skip cs := by
  rw [skip, List.dropWhile_append_of_pos (List.all_eq_true.mp blank), skip]

theorem skip_gap {c : Char} (shown : isJsonBlank c = false) (rest : List Char) :
    skip (l.gap level ++ c :: rest) = c :: rest := by
  rw [skip_append (l.blank_gap level), skip_cons shown]

theorem skip_comma (cs : List Char) : skip (',' :: cs) = ',' :: cs := skip_cons rfl cs

theorem value_append {blanks : List Char} (blank : blanks.all isJsonBlank) (fuel : Nat)
    (cs : List Char) : value fuel (blanks ++ cs) = value fuel cs := by
  cases fuel with
  | zero => rfl
  | succ fuel => rw [value, value, skip_append blank]

theorem items_append {blanks : List Char} (blank : blanks.all isJsonBlank) (fuel : Nat)
    (cs : List Char) : items fuel (blanks ++ cs) = items fuel cs := by
  cases fuel with
  | zero => rfl
  | succ fuel => rw [items, items, value_append blank]

theorem fields_append {blanks : List Char} (blank : blanks.all isJsonBlank) (fuel : Nat)
    (cs : List Char) : fields fuel (blanks ++ cs) = fields fuel cs := by
  cases fuel with
  | zero => rfl
  | succ fuel => rw [fields, fields, skip_append blank]

theorem Ends.blank {c : Char} (blank : isJsonBlank c) (rest : List Char) : Ends (c :: rest) := by
  refine .cons ?_ rest
  simp only [isJsonBlank, Bool.or_eq_true, beq_iff_eq] at blank
  rcases blank with ((rfl | rfl) | rfl) | rfl <;> decide

theorem Ends.blanks {blanks : List Char} (blank : blanks.all isJsonBlank) {rest : List Char}
    (ends : Ends rest) : Ends (blanks ++ rest) := by
  cases blanks with
  | nil => exact ends
  | cons c blanks =>
    rw [List.all_cons, Bool.and_eq_true] at blank
    exact .blank blank.1 _

theorem Starts.shown {c : Char} (start : Starts c) : isJsonBlank c = false := by
  cases blank : isJsonBlank c with
  | false => rfl
  | true =>
    simp only [isJsonBlank, Bool.or_eq_true, beq_iff_eq] at blank
    rcases blank with ((rfl | rfl) | rfl) | rfl <;> exact absurd start (by decide)

/-- The text of a value begins with a character that is no blank and closes nothing. -/
theorem chars_eq_cons {v : Json} (numbers : ∀ n ∈ v.numbers, n.Steady) :
    ∃ c cs, l.chars level v = c :: cs ∧ isJsonBlank c = false ∧ c ≠ ']' := by
  cases v with
  | null => exact ⟨_, _, by rw [Json.Layout.chars], rfl, by decide⟩
  | bool b => cases b <;> exact ⟨_, _, by rw [Json.Layout.chars], rfl, by decide⟩
  | num n =>
    obtain ⟨t, read, _⟩ := Number.steady_iff.mp (numbers n (by simp [Json.numbers]))
    obtain ⟨c, cs, written, start⟩ := starts_of_number read
    refine ⟨c, cs, by rw [Json.Layout.chars, written], start.shown, ?_⟩
    rintro rfl
    exact absurd start (by decide)
  | str s => exact ⟨_, _, by rw [Json.Layout.chars, Json.quoteChars], rfl, by decide⟩
  | arr items => cases items <;> exact ⟨_, _, by rw [Json.Layout.chars], rfl, by decide⟩
  | obj fields => cases fields <;> exact ⟨_, _, by rw [Json.Layout.chars], rfl, by decide⟩

/-- The text of a value, laid out in a way, reads back as the value, whatever follows it. -/
def ReadsBack (l : Json.Layout) (v : Json) : Prop :=
  ∀ (level fuel : Nat) (rest : List Char), (l.chars level v).length < fuel → Ends rest →
    value fuel (l.chars level v ++ rest) = some (ofJson v, rest)

theorem readsBack_num {n : Number} (steady : n.Steady) : ReadsBack l (.num n) := by
  intro level fuel rest enough ends
  obtain ⟨t, alone, meant⟩ := Number.steady_iff.mp steady
  have read := number_append alone ends
  obtain ⟨c, cs, written, start⟩ := starts_of_number alone
  cases fuel with
  | zero => cases enough
  | succ fuel =>
    rw [Json.Layout.chars, written, List.cons_append, value, skip_cons start.shown]
    rw [written, List.cons_append] at read
    split
    case h_7 => simp only [read, Option.map_some, meant, List.nil_append, ofJson]
    all_goals
      rename_i same
      rw [(List.cons.inj same).1] at start
      exact absurd start (by decide)

theorem readsBack_str (s : String) : ReadsBack l (.str s) := by
  intro level fuel rest enough ends
  cases fuel with
  | zero => cases enough
  | succ fuel =>
    rw [Json.Layout.chars, Json.quoteChars, List.cons_append, List.append_assoc, value,
      skip_cons rfl]
    simp only [List.singleton_append, quotedText_quoteChars, Option.map_some, ofJson]

theorem items_items {v : Json} {vs : List Json} (each : ∀ w ∈ v :: vs, ReadsBack l w)
    {fuel : Nat} {rest : List Char}
    (enough : (l.chars (level + 1) v).length + (l.items level vs).length < fuel) :
    items fuel (l.chars (level + 1) v ++ (l.items level vs ++ rest)) =
      some (ofItems (v :: vs), rest) := by
  induction vs generalizing v fuel with
  | nil =>
    cases fuel with
    | zero => cases enough
    | succ fuel =>
      rw [Json.Layout.items, List.length_append, List.length_singleton] at enough
      rw [Json.Layout.items, List.append_assoc, List.singleton_append]
      have first := each v List.mem_cons_self (level + 1) fuel (l.gap level ++ ']' :: rest)
        (by omega) (.blanks (l.blank_gap level) (.cons (by decide) rest))
      rw [items, first]
      simp only [Option.bind_eq_bind, Option.bind_some, skip_gap (c := ']') rfl, ofItems]
  | cons w ws ih =>
    cases fuel with
    | zero => cases enough
    | succ fuel =>
      rw [Json.Layout.items] at enough
      simp only [List.length_cons, List.length_append] at enough
      rw [Json.Layout.items, List.cons_append, List.append_assoc, List.append_assoc]
      have first := each v List.mem_cons_self (level + 1) fuel
        (',' :: (l.gap (level + 1) ++ (l.chars (level + 1) w ++ (l.items level ws ++ rest))))
        (by omega) (.cons (by decide) _)
      have short : (l.chars (level + 1) w).length + (l.items level ws).length < fuel := by omega
      have others := ih (fun u member => each u (List.mem_cons_of_mem v member)) short
      rw [items, first]
      simp only [Option.bind_eq_bind, Option.bind_some, skip_comma,
        items_append (l.blank_gap _), others, ofItems]
      rfl

/-- The last field of an object. -/
theorem fields_last {name : String} {v : Json} {fuel : Nat} {behind rest : List Char}
    (read : value fuel (l.chars level v ++ behind) = some (ofJson v, behind))
    (last : skip behind = '}' :: rest) :
    fields (fuel + 1) (Json.quoteChars name ++ ':' :: (l.space ++ (l.chars level v ++ behind))) =
      some ([(some name, ofJson v)], rest) := by
  have colon : ∀ cs, skip (':' :: cs) = ':' :: cs := skip_cons rfl
  rw [fields, Json.quoteChars, List.cons_append, List.append_assoc, skip_cons rfl]
  simp only [List.singleton_append, quotedText_quoteChars, Option.bind_eq_bind, Option.bind_some,
    colon, value_append l.blank_space, read, last]

/-- A field that others follow. -/
theorem fields_next {name : String} {v : Json} {fuel : Nat} {rest behind : List Char}
    {others : List (Option String × Document)}
    (read : value fuel (l.chars level v ++ ',' :: rest) = some (ofJson v, ',' :: rest))
    (later : fields fuel rest = some (others, behind)) :
    fields (fuel + 1)
        (Json.quoteChars name ++ ':' :: (l.space ++ (l.chars level v ++ ',' :: rest))) =
      some ((some name, ofJson v) :: others, behind) := by
  have colon : ∀ cs, skip (':' :: cs) = ':' :: cs := skip_cons rfl
  rw [fields, Json.quoteChars, List.cons_append, List.append_assoc, skip_cons rfl]
  simp only [List.singleton_append, quotedText_quoteChars, Option.bind_eq_bind, Option.bind_some,
    colon, value_append l.blank_space, read, skip_comma, later, Option.pure_def]

theorem fields_fields {name : String} {v : Json} {fs : List (String × Json)}
    (each : ∀ f ∈ (name, v) :: fs, ReadsBack l f.2) {fuel : Nat} {rest : List Char}
    (enough : (l.chars (level + 1) v).length + (l.fields level fs).length < fuel) :
    fields fuel (Json.quoteChars name ++
        ':' :: (l.space ++ (l.chars (level + 1) v ++ (l.fields level fs ++ rest)))) =
      some (ofFields ((name, v) :: fs), rest) := by
  have this : ReadsBack l v := each (name, v) List.mem_cons_self
  induction fs generalizing name v fuel with
  | nil =>
    cases fuel with
    | zero => cases enough
    | succ fuel =>
      rw [Json.Layout.fields, List.length_append, List.length_singleton] at enough
      rw [Json.Layout.fields, List.append_assoc, List.singleton_append,
        fields_last (this _ fuel _ (by omega)
          (.blanks (l.blank_gap level) (.cons (by decide) rest))) (skip_gap rfl rest)]
      rfl
  | cons g gs ih =>
    obtain ⟨other, w⟩ := g
    cases fuel with
    | zero => cases enough
    | succ fuel =>
      rw [Json.Layout.fields] at enough
      simp only [List.length_cons, List.length_append] at enough
      have later : ∀ f ∈ (other, w) :: gs, ReadsBack l f.2 :=
        fun f member => each f (List.mem_cons_of_mem _ member)
      have short : (l.chars (level + 1) w).length + (l.fields level gs).length < fuel := by omega
      have others := ih later short (later (other, w) List.mem_cons_self)
      simp only [Json.Layout.fields, List.cons_append, List.append_assoc]
      rw [← fields_append (l.blank_gap (level + 1))] at others
      rw [fields_next (this _ fuel _ (by omega) (.cons (by decide) _)) others]
      rfl

theorem readsBack_arr {items : List Json} (each : ∀ v ∈ items, ReadsBack l v)
    (numbers : ∀ v ∈ items, ∀ n ∈ v.numbers, n.Steady) : ReadsBack l (.arr items) := by
  intro level fuel rest enough ends
  cases fuel with
  | zero => cases enough
  | succ fuel =>
    cases items with
    | nil =>
      rw [Json.Layout.chars, List.cons_append, value, skip_cons rfl]
      rfl
    | cons v vs =>
      rw [Json.Layout.chars, List.length_cons, List.length_append, List.length_append] at enough
      have short : (l.chars (level + 1) v).length + (l.items level vs).length < fuel := by omega
      have inner : Document.items fuel (l.chars (level + 1) v ++ (l.items level vs ++ rest)) =
          some (ofItems (v :: vs), rest) := items_items each short
      have first : ∃ c cs, l.chars (level + 1) v = c :: cs ∧ isJsonBlank c = false ∧ c ≠ ']' :=
        chars_eq_cons (numbers v List.mem_cons_self)
      obtain ⟨c, cs, written, shown, other⟩ := first
      rw [Json.Layout.chars, List.cons_append, List.append_assoc, List.append_assoc, value,
        skip_cons rfl]
      rw [written, List.cons_append] at inner ⊢
      simp only [skip_append (l.blank_gap (level + 1)), skip_cons shown]
      split
      · rename_i same
        exact absurd (List.cons.inj same).1 other
      · simp only [inner, Option.map_some, ofJson]

theorem readsBack_obj {fields : List (String × Json)} (each : ∀ f ∈ fields, ReadsBack l f.2) :
    ReadsBack l (.obj fields) := by
  intro level fuel rest enough ends
  cases fuel with
  | zero => cases enough
  | succ fuel =>
    rcases fields with _ | ⟨⟨name, v⟩, fs⟩
    · rw [Json.Layout.chars, List.cons_append, value, skip_cons rfl]
      rfl
    · simp only [Json.Layout.chars, List.length_cons, List.length_append] at enough
      have short : (l.chars (level + 1) v).length + (l.fields level fs).length < fuel := by omega
      have inner : Document.fields fuel (Json.quoteChars name ++
          ':' :: (l.space ++ (l.chars (level + 1) v ++ (l.fields level fs ++ rest)))) =
            some (ofFields ((name, v) :: fs), rest) := fields_fields each short
      simp only [Json.quoteChars, List.cons_append, List.append_assoc] at inner
      simp only [Json.Layout.chars, Json.quoteChars, List.cons_append, List.append_assoc]
      rw [value, skip_cons rfl]
      simp only [skip_append (l.blank_gap (level + 1)),
        skip_cons (show isJsonBlank '"' = false from rfl)]
      split
      · rename_i same
        cases (List.cons.inj same).1
      · simp only [inner, Option.map_some, ofJson]

mutual
/-- The text of a value whose numbers read back does so as well, and ends where the value does. -/
theorem readsBack : (v : Json) → (∀ n ∈ v.numbers, n.Steady) → ReadsBack l v
  | .null, _ => by
    intro level fuel rest enough ends
    cases fuel with
    | zero => cases enough
    | succ fuel =>
      rw [Json.Layout.chars, List.cons_append, value, skip_cons rfl]
      rfl
  | .bool b, _ => by
    intro level fuel rest enough ends
    cases fuel with
    | zero => cases enough
    | succ fuel =>
      cases b <;> rw [Json.Layout.chars, List.cons_append, value, skip_cons rfl] <;> rfl
  | .num n, numbers => readsBack_num (numbers n (by simp [Json.numbers]))
  | .str s, _ => readsBack_str s
  | .arr items, numbers => by
    rw [Json.numbers] at numbers
    exact readsBack_arr (readsBack_items items numbers) fun v member n within =>
      numbers n (Json.mem_itemNumbers.mpr ⟨v, member, within⟩)
  | .obj fields, numbers => by
    rw [Json.numbers] at numbers
    exact readsBack_obj (readsBack_fields fields numbers)

theorem readsBack_items : (vs : List Json) → (∀ n ∈ Json.itemNumbers vs, n.Steady) →
    ∀ v ∈ vs, ReadsBack l v
  | [], _, _, member => by cases member
  | v :: vs, numbers, w, member => by
    rw [Json.itemNumbers] at numbers
    rcases List.mem_cons.mp member with same | later
    · exact same ▸ readsBack v fun n within => numbers n (List.mem_append_left _ within)
    · exact readsBack_items vs (fun n within => numbers n (List.mem_append_right _ within)) w later

theorem readsBack_fields : (fs : List (String × Json)) →
    (∀ n ∈ Json.fieldNumbers fs, n.Steady) → ∀ f ∈ fs, ReadsBack l f.2
  | [], _, _, member => by cases member
  | (name, v) :: fs, numbers, f, member => by
    rw [Json.fieldNumbers] at numbers
    rcases List.mem_cons.mp member with same | later
    · exact same ▸ readsBack v fun n within => numbers n (List.mem_append_left _ within)
    · exact readsBack_fields fs (fun n within => numbers n (List.mem_append_right _ within)) f later
end

end Values

end Document

/-- An object of plain values is plain. -/
theorem Json.Plain.object {depth : Nat} {fields : List (String × Json)}
    (plain : ∀ f ∈ fields, f.2.Plain depth) : (Json.object fields).Plain (depth + 1) :=
  .obj (Json.pairwise_sortFields fields) fun f member => plain f (Json.mem_sortFields member)

theorem Json.plain_fields {fields : List (String × Json)} (plain : ∀ f ∈ fields, f.2.Plain 126) :
    (Json.object fields).Plain Document.maxDepth := .object plain

namespace Document

section Meaning

theorem values?_ofItems {depth : Nat} {items : List Json}
    (each : ∀ v ∈ items, value? depth (ofJson v) = some v) :
    values? depth (ofItems items) = some items := by
  induction items with
  | nil => rw [ofItems, values?]
  | cons v vs ih =>
    have first := each v List.mem_cons_self
    have others := ih fun w member => each w (List.mem_cons_of_mem v member)
    simp only [ofItems, values?, first, others]

theorem fieldValues?_ofFields {depth : Nat} {fields : List (String × Json)}
    (each : ∀ f ∈ fields, value? depth (ofJson f.2) = some f.2) :
    fieldValues? depth (ofFields fields) = some fields := by
  induction fields with
  | nil => rw [ofFields, fieldValues?]
  | cons f fs ih =>
    have first := each f List.mem_cons_self
    have others := ih fun g member => each g (List.mem_cons_of_mem f member)
    simp only [ofFields, fieldValues?, first, others]

/-- A steady value is what its document stands for. -/
theorem value?_ofJson {depth : Nat} {v : Json} (steady : v.Steady depth) :
    value? depth (ofJson v) = some v := by
  induction steady with
  | null => simp only [ofJson, value?]
  | bool b => simp only [ofJson, value?]
  | num _ => simp only [ofJson, value?, Option.map_some]
  | str s => simp only [ofJson, value?, Option.map_some]
  | arr _ ih => simp only [ofJson, value?, values?_ofItems ih, Option.map_some]
  | obj sorted _ ih =>
    simp only [ofJson, value?, fieldValues?_ofFields ih, Option.map_some, Json.object,
      Json.sortFields_of_pairwise sorted]

mutual
/-- A value that was read is steady but for its numbers. -/
theorem steady_of_value? {depth : Nat} {v : Json} : (d : Document) → value? depth d = some v →
    (∀ n ∈ v.numbers, n.Steady) → v.Steady depth
  | .null, read, _ => by
    simp only [value?, Option.some.injEq] at read
    exact read ▸ .null
  | .bool b, read, _ => by
    simp only [value?, Option.some.injEq] at read
    exact read ▸ .bool b
  | .num n, read, numbers => by
    simp only [value?, Option.map_eq_some_iff] at read
    obtain ⟨n, _, rfl⟩ := read
    exact .num (numbers n (by simp only [Json.numbers, List.mem_singleton]))
  | .str s, read, _ => by
    simp only [value?, Option.map_eq_some_iff] at read
    obtain ⟨s, _, rfl⟩ := read
    exact .str s
  | .arr items, read, numbers => by
    cases depth with
    | zero => simp only [value?, reduceCtorEq] at read
    | succ depth =>
      simp only [value?, Option.map_eq_some_iff] at read
      obtain ⟨vs, read, rfl⟩ := read
      rw [Json.numbers] at numbers
      exact .arr fun v member => steady_of_values? items read member fun n within =>
        numbers n (Json.mem_itemNumbers.mpr ⟨v, member, within⟩)
  | .obj fields, read, numbers => by
    cases depth with
    | zero => simp only [value?, reduceCtorEq] at read
    | succ depth =>
      simp only [value?, Option.map_eq_some_iff] at read
      obtain ⟨fs, read, rfl⟩ := read
      rw [Json.object, Json.numbers] at numbers
      refine .obj (Json.pairwise_sortFields fs) fun f member => ?_
      exact steady_of_fieldValues? fields read (Json.mem_sortFields member) fun n within =>
        numbers n (Json.mem_fieldNumbers.mpr ⟨f, member, within⟩)

theorem steady_of_values? {depth : Nat} {vs : List Json} {v : Json} : (ds : List Document) →
    values? depth ds = some vs → v ∈ vs → (∀ n ∈ v.numbers, n.Steady) → v.Steady depth
  | [], read, member, _ => by
    simp only [values?, Option.some.injEq] at read
    cases read
    cases member
  | d :: ds, read, member, numbers => by
    rw [values?] at read
    split at read
    · rename_i first others
      cases read
      rcases List.mem_cons.mp member with rfl | later
      · exact steady_of_value? d first numbers
      · exact steady_of_values? ds others later numbers
    · cases read

theorem steady_of_fieldValues? {depth : Nat} {fs : List (String × Json)} {f : String × Json} :
    (ds : List (Option String × Document)) → fieldValues? depth ds = some fs → f ∈ fs →
    (∀ n ∈ f.2.numbers, n.Steady) → f.2.Steady depth
  | [], read, member, _ => by
    simp only [fieldValues?, Option.some.injEq] at read
    cases read
    cases member
  | (name, d) :: ds, read, member, numbers => by
    unfold fieldValues? at read
    split at read
    · rename_i first others
      cases read
      rcases List.mem_cons.mp member with rfl | later
      · exact steady_of_value? d first numbers
      · exact steady_of_fieldValues? ds others later numbers
    · cases read
end

end Meaning

/-- A whole text of a value, with blanks behind it, is the document of the value. -/
theorem read?_chars {l : Json.Layout} {v : Json} (numbers : ∀ n ∈ v.numbers, n.Steady)
    (level : Nat) {blanks : List Char} (blank : blanks.all isJsonBlank) :
    read? (String.ofList (l.chars level v ++ blanks)) = some (ofJson v) := by
  have ends : Ends blanks := List.append_nil blanks ▸ Ends.blanks blank Ends.nil
  have read := readsBack (l := l) v numbers level ((l.chars level v ++ blanks).length + 1) blanks
    (by rw [List.length_append]; omega) ends
  have rest := skip_append blank []
  rw [List.append_nil] at rest
  simp only [read?, String.toList_ofList, readChars?, read, Option.bind_eq_bind, Option.bind_some,
    rest]
  rfl

end Document

/-- A plain value reads back from its text. -/
theorem Json.read?_compactChars {v : Json} (plain : v.Plain Document.maxDepth) :
    Json.read? (String.ofList v.compactChars) = some v := by
  have document := Document.read?_chars (l := .compact) plain.steady.numbers 0
    (show List.all [] Document.isJsonBlank from rfl)
  rw [List.append_nil, Layout.chars_compact] at document
  rw [Json.read?, document, Option.bind_some, Document.value?_ofJson plain.steady]

end LintBridge

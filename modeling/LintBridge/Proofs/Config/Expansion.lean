import LintBridge.Config.Environment
import LintBridge.Proofs.Text.Lines
import Mathlib.Data.List.Infix

namespace LintBridge

namespace Environment

/-- The mark that opens a group. -/
def opening : List Char := ['$', '\x7b']

/-- How a text reads: literal text to the end, or up to a mark without a brace behind it, or up to a
group, which is closed by the nearest brace. -/
inductive Reading
  | literal (text : List Char) (plain : ¬opening <:+: text)
  | unclosed (front tail : List Char) (plain : ¬opening <:+: front) (unclosed : '\x7d' ∉ tail)
  | group (front name : List Char) (rest : Reading) (plain : ¬opening <:+: front)
      (nearest : '\x7d' ∉ name)

/-- The text that reads so. -/
def Reading.written : Reading → List Char
  | literal text _ => text
  | unclosed front tail _ _ => front ++ opening ++ tail
  | group front name rest _ _ => front ++ opening ++ name ++ '\x7d' :: rest.written

/-- What stands for a name: the text that its variable holds, and nothing where there is no name, no
variable or no text in it. -/
inductive Means (env : Environment) : (name value : List Char) → Prop
  | nameless : Means env [] []
  | unset {name : List Char} : env.bytes? (String.ofList name) = none → Means env name []
  | illFormed {name : List Char} {bytes : Bytes} : env.bytes? (String.ofList name) = some bytes →
      (∀ value, bytes ≠ utf8Chars value) → Means env name []
  | held {name value : List Char} : name ≠ [] →
      env.bytes? (String.ofList name) = some (utf8Chars value) → Means env name value

/-- What a reading comes to: all as it is written, but for the values that stand for its groups. -/
inductive Fills (env : Environment) : Reading → List Char → Prop
  | literal {text : List Char} {plain : ¬opening <:+: text} : Fills env (.literal text plain) text
  | unclosed {front tail : List Char} {plain : ¬opening <:+: front} {unclosed : '\x7d' ∉ tail} :
      Fills env (.unclosed front tail plain unclosed) (front ++ opening ++ tail)
  | group {front name value filled : List Char} {rest : Reading} {plain : ¬opening <:+: front}
      {nearest : '\x7d' ∉ name} : Means env name value → Fills env rest filled →
      Fills env (.group front name rest plain nearest) (front ++ value ++ filled)

/-- Whether each mark of a text has a brace behind it. -/
def Closed (cs : List Char) : Prop := ∀ behind, opening ++ behind <:+ cs → '\x7d' ∈ behind

/-- Whether no mark stands where two texts meet. -/
def Apart (cs more : List Char) : Prop := ¬(['$'] <:+ cs ∧ ['\x7b'] <+: more)

instance (cs : List Char) : Decidable (Closed cs) :=
  decidable_of_iff (∀ rest ∈ cs.tails, opening <+: rest → '\x7d' ∈ rest.drop 2) <| by
    constructor
    · intro closed behind marked
      exact closed (opening ++ behind) ((List.mem_tails _ _).mpr marked)
        (List.prefix_append opening behind)
    · rintro closed _ member ⟨behind, rfl⟩
      exact closed behind ((List.mem_tails _ _).mp member)

instance (cs more : List Char) : Decidable (Apart cs more) :=
  inferInstanceAs (Decidable ¬(['$'] <:+ cs ∧ ['\x7b'] <+: more))

section Marks

variable {cs front front' behind behind' : List Char}

/-- A text with a mark reads up to the first one. -/
theorem first_opening (marked : opening <:+: cs) :
    ∃ front behind, ¬opening <:+: front ∧ cs = front ++ opening ++ behind := by
  induction cs with
  | nil => cases List.eq_nil_of_infix_nil marked
  | cons c cs ih =>
    by_cases here : opening <+: c :: cs
    · obtain ⟨behind, same⟩ := here
      exact ⟨[], behind, by decide, same.symm⟩
    · have later := (List.infix_cons_iff.mp marked).resolve_left here
      obtain ⟨front, behind, plain, rfl⟩ := ih later
      refine ⟨c :: front, behind, fun inside => ?_, rfl⟩
      have start := (List.infix_cons_iff.mp inside).resolve_right plain
      rw [List.append_assoc] at here
      exact here (start.trans (List.prefix_append (c :: front) (opening ++ behind)))

theorem eq_nil_of_opening (plain : ¬opening <:+: front ++ cs)
    (same : opening ++ behind = cs ++ (opening ++ behind')) : cs = [] := by
  rcases cs with _ | ⟨c, _ | ⟨d, cs⟩⟩
  · rfl
  · cases same
  · cases same
    exact absurd ⟨front, cs, by simp [opening]⟩ plain

theorem first_opening_unique (plain : ¬opening <:+: front) (plain' : ¬opening <:+: front')
    (same : front ++ opening ++ behind = front' ++ opening ++ behind') :
    front = front' ∧ behind = behind' := by
  rw [List.append_assoc, List.append_assoc, List.append_eq_append_iff] at same
  rcases same with ⟨more, rfl, same⟩ | ⟨more, rfl, same⟩
  · cases eq_nil_of_opening plain' same
    exact ⟨(List.append_nil front).symm, List.append_cancel_left same⟩
  · cases eq_nil_of_opening plain same
    exact ⟨List.append_nil front', (List.append_cancel_left same).symm⟩

theorem nearest_unique {name name' rest rest' : List Char} (nearest : '\x7d' ∉ name)
    (nearest' : '\x7d' ∉ name') (same : name ++ '\x7d' :: rest = name' ++ '\x7d' :: rest') :
    name = name' ∧ rest = rest' := by
  rcases List.append_eq_append_iff.mp same with
    ⟨_ | ⟨c, more⟩, rfl, tail⟩ | ⟨_ | ⟨c, more⟩, rfl, tail⟩
  · exact ⟨(List.append_nil name).symm, (List.cons.inj tail).2⟩
  · obtain ⟨rfl, _⟩ := List.cons.inj tail
    exact absurd (List.mem_append_right name List.mem_cons_self) nearest'
  · exact ⟨List.append_nil name', (List.cons.inj tail).2.symm⟩
  · obtain ⟨rfl, _⟩ := List.cons.inj tail
    exact absurd (List.mem_append_right name' List.mem_cons_self) nearest

theorem apart_opening (cs more : List Char) : Apart cs (opening ++ more) := by
  rintro ⟨_, next⟩
  have brace : '\x7b' = '$' := (List.cons_prefix_cons.mp next).1
  exact absurd brace (by decide)

end Marks

namespace Reading

theorem written_literal {text : List Char} {plain : ¬opening <:+: text} :
    (literal text plain).written = text := rfl

theorem written_unclosed {front tail : List Char} {plain : ¬opening <:+: front}
    {unclosed : '\x7d' ∉ tail} : (Reading.unclosed front tail plain unclosed).written =
      front ++ opening ++ tail := rfl

theorem written_group {front name : List Char} {rest : Reading} {plain : ¬opening <:+: front}
    {nearest : '\x7d' ∉ name} : (group front name rest plain nearest).written =
      front ++ opening ++ (name ++ '\x7d' :: rest.written) :=
  List.append_assoc _ name _

/-- Every text reads somehow. -/
theorem exists_written (cs : List Char) : ∃ r : Reading, r.written = cs := by
  generalize most : cs.length = n
  -- what is behind a group is shorter, but not by one character
  induction n using Nat.strongRecOn generalizing cs with
  | ind n ih =>
    by_cases marked : opening <:+: cs
    · obtain ⟨front, behind, plain, rfl⟩ := first_opening marked
      by_cases closed : '\x7d' ∈ behind
      · obtain ⟨name, rest, rfl, nearest⟩ := List.eq_append_cons_of_mem closed
        have shorter : rest.length < n := by
          simp only [List.length_append, List.length_cons] at most
          omega
        obtain ⟨r, rfl⟩ := ih rest.length shorter rest rfl
        exact ⟨.group front name r plain nearest, written_group⟩
      · exact ⟨.unclosed front behind plain closed, rfl⟩
    · exact ⟨.literal cs marked, rfl⟩

/-- No text reads in two ways. -/
theorem written_injective : Function.Injective written := by
  intro r r' same
  induction r generalizing r' with
  | literal text plain =>
    cases r' with
    | literal => cases same; rfl
    | unclosed front tail => exact absurd ⟨front, tail, same.symm⟩ plain
    | group front => exact absurd ⟨front, _, (same.trans written_group).symm⟩ plain
  | unclosed front tail plain unclosed =>
    cases r' with
    | literal text plain' => exact absurd ⟨front, tail, same⟩ plain'
    | unclosed front' tail' plain' =>
      obtain ⟨rfl, rfl⟩ := first_opening_unique plain plain' same
      rfl
    | group front' name rest plain' =>
      obtain ⟨_, rfl⟩ := first_opening_unique plain plain' (same.trans written_group)
      exact absurd (List.mem_append_right name List.mem_cons_self) unclosed
  | group front name rest plain nearest ih =>
    rw [written_group] at same
    cases r' with
    | literal text plain' => exact absurd ⟨front, _, same⟩ plain'
    | unclosed front' tail plain' unclosed =>
      obtain ⟨_, rfl⟩ := first_opening_unique plain plain' same
      exact absurd (List.mem_append_right name List.mem_cons_self) unclosed
    | group front' name' rest' plain' nearest' =>
      rw [written_group] at same
      obtain ⟨rfl, behind⟩ := first_opening_unique plain plain' same
      obtain ⟨rfl, rests⟩ := nearest_unique nearest nearest' behind
      cases ih rests
      rfl

end Reading

variable {env : Environment} {name value : List Char}

theorem text_ofList (named : name ≠ []) : env.text (String.ofList name) =
    ((env.bytes? (String.ofList name)).bind utf8Chars?).getD [] := by
  refine if_neg fun empty => named ?_
  simpa using empty

theorem means_iff : env.Means name value ↔ env.text (String.ofList name) = value := by
  constructor
  · intro means
    cases means with
    | nameless => rfl
    | unset missing => simp [text, missing]
    | illFormed found bad =>
      have unread := Option.eq_none_iff_forall_ne_some.mpr fun value read =>
        bad value (utf8Chars?_eq_some_iff.mp read)
      simp [text, found, unread]
    | held named found =>
      rw [text_ofList named, found, Option.bind_some, utf8Chars?_utf8Chars, Option.getD_some]
  · rintro rfl
    by_cases named : name = []
    · subst named
      exact .nameless
    rw [text_ofList named]
    cases found : env.bytes? (String.ofList name) with
    | none => exact .unset found
    | some bytes =>
      rw [Option.bind_some]
      cases read : utf8Chars? bytes with
      | none =>
        refine .illFormed found fun value same => ?_
        rw [utf8Chars?_eq_some_iff.mpr same] at read
        cases read
      | some value =>
        rw [utf8Chars?_eq_some_iff.mp read] at found
        exact .held named found

section Stretches

variable {c : Char} {cs front behind tail : List Char}

theorem expandFrom_nil : env.expandFrom none [] = [] := rfl

theorem expandFrom_cons (apart : Apart [c] cs) :
    env.expandFrom none (c :: cs) = c :: env.expandFrom none cs := by
  rw [expandFrom]
  rintro rest rfl rfl
  exact apart ⟨List.suffix_rfl, rest, rfl⟩

theorem expandFrom_brace (group cs : List Char) : env.expandFrom (some group) ('\x7d' :: cs) =
    env.text (String.ofList group.reverse) ++ env.expandFrom none cs := rfl

theorem expandFrom_within (other : '\x7d' ≠ c) (group cs : List Char) :
    env.expandFrom (some group) (c :: cs) = env.expandFrom (some (c :: group)) cs := by
  rw [expandFrom]
  exact fun same => other same.symm

theorem expandFrom_plain (plain : ¬opening <:+: front) (apart : Apart front behind) :
    env.expandFrom none (front ++ behind) = front ++ env.expandFrom none behind := by
  induction front with
  | nil => rfl
  | cons c front ih =>
    have plain' : ¬opening <:+: front := fun inside => plain (List.infix_cons inside)
    have apart' : Apart front behind := fun ⟨last, next⟩ =>
      apart ⟨last.trans (List.suffix_cons c front), next⟩
    -- a mark that begins here lies in the text, or where the two texts meet
    have here : Apart [c] (front ++ behind) := by
      rintro ⟨last, next⟩
      cases front with
      | nil => exact apart ⟨last, next⟩
      | cons d front =>
        obtain rfl : '$' = c := (List.cons.inj (last.eq_of_length rfl)).1
        obtain rfl : '\x7b' = d := (List.cons_prefix_cons.mp next).1
        exact plain ⟨[], front, rfl⟩
    rw [List.cons_append, expandFrom_cons here, ih plain' apart', List.cons_append]

theorem expandFrom_closed (nearest : '\x7d' ∉ name) (group cs : List Char) :
    env.expandFrom (some group) (name ++ '\x7d' :: cs) =
      env.text (String.ofList (group.reverse ++ name)) ++ env.expandFrom none cs := by
  induction name generalizing group with
  | nil => rw [List.nil_append, expandFrom_brace, List.append_nil]
  | cons c name ih =>
    obtain ⟨other, nearest⟩ := not_or.mp (mt List.mem_cons.mpr nearest)
    rw [List.cons_append, expandFrom_within other, ih nearest, List.reverse_cons,
      List.append_assoc, List.singleton_append]

theorem expandFrom_open (unclosed : '\x7d' ∉ tail) (group : List Char) :
    env.expandFrom (some group) tail = opening ++ (group.reverse ++ tail) := by
  induction tail generalizing group with
  | nil =>
    rw [List.append_nil]
    rfl
  | cons c tail ih =>
    obtain ⟨other, unclosed⟩ := not_or.mp (mt List.mem_cons.mpr unclosed)
    rw [expandFrom_within other, ih unclosed, List.reverse_cons, List.append_assoc,
      List.singleton_append]

theorem expandFrom_literal (plain : ¬opening <:+: cs) : env.expandFrom none cs = cs := by
  have apart : Apart cs [] := fun ⟨_, next⟩ => List.cons_ne_nil _ _ (List.prefix_nil.mp next)
  have whole : env.expandFrom none (cs ++ []) = cs ++ env.expandFrom none [] :=
    expandFrom_plain plain apart
  rwa [List.append_nil, expandFrom_nil, List.append_nil] at whole

theorem expandFrom_unclosed (plain : ¬opening <:+: front) (unclosed : '\x7d' ∉ tail) :
    env.expandFrom none (front ++ opening ++ tail) = front ++ opening ++ tail := by
  rw [List.append_assoc, expandFrom_plain plain (apart_opening front tail)]
  exact congrArg _ (expandFrom_open unclosed [])

theorem expandFrom_group (plain : ¬opening <:+: front) (nearest : '\x7d' ∉ name)
    (cs : List Char) : env.expandFrom none (front ++ opening ++ (name ++ '\x7d' :: cs)) =
      front ++ env.text (String.ofList name) ++ env.expandFrom none cs := by
  rw [List.append_assoc, expandFrom_plain plain (apart_opening front _), List.append_assoc]
  exact congrArg _ (expandFrom_closed nearest [] cs)

end Stretches

/-- A text expands to what its reading comes to, and to nothing else. -/
theorem fills_iff {r : Reading} {filled : List Char} :
    env.Fills r filled ↔ env.expandFrom none r.written = filled := by
  induction r generalizing filled with
  | literal text plain =>
    rw [Reading.written_literal, expandFrom_literal plain]
    constructor
    · rintro ⟨⟩
      rfl
    · rintro rfl
      exact .literal
  | unclosed front tail plain unclosed =>
    rw [Reading.written_unclosed, expandFrom_unclosed plain unclosed]
    constructor
    · rintro ⟨⟩
      rfl
    · rintro rfl
      exact .unclosed
  | group front name rest plain nearest ih =>
    rw [Reading.written_group, expandFrom_group plain nearest]
    constructor
    · rintro (_ | _ | ⟨means, fills⟩)
      rw [means_iff.mp means, ih.mp fills]
    · rintro rfl
      exact .group (means_iff.mpr rfl) (ih.mpr rfl)

/-- Behind a text in which no group is left open, another is expanded on its own. -/
theorem expandFrom_append {cs more : List Char} (closed : Closed cs) (apart : Apart cs more) :
    env.expandFrom none (cs ++ more) = env.expandFrom none cs ++ env.expandFrom none more := by
  obtain ⟨r, rfl⟩ := Reading.exists_written cs
  induction r with
  | literal text plain =>
    rw [Reading.written_literal, expandFrom_plain plain apart, expandFrom_literal plain]
  | unclosed front tail plain unclosed =>
    rw [Reading.written_unclosed, List.append_assoc] at closed
    exact absurd (closed tail (List.suffix_append front _)) unclosed
  | group front name rest plain nearest ih =>
    have suffix : rest.written <:+ (Reading.group front name rest plain nearest).written :=
      (List.suffix_cons '\x7d' rest.written).trans (List.suffix_append _ _)
    have closed' : Closed rest.written := fun behind marked => closed behind (marked.trans suffix)
    have apart' : Apart rest.written more := fun ⟨last, next⟩ => apart ⟨last.trans suffix, next⟩
    calc env.expandFrom none ((Reading.group front name rest plain nearest).written ++ more)
      _ = env.expandFrom none (front ++ opening ++ (name ++ '\x7d' :: (rest.written ++ more))) := by
        rw [Reading.written_group]
        simp only [List.append_assoc, List.cons_append]
      _ = front ++ env.text (String.ofList name) ++
          (env.expandFrom none rest.written ++ env.expandFrom none more) := by
        rw [expandFrom_group plain nearest, ih closed' apart']
      _ = env.expandFrom none (Reading.group front name rest plain nearest).written ++
          env.expandFrom none more := by
        rw [Reading.written_group, expandFrom_group plain nearest]
        simp only [List.append_assoc]

/-- A text reads in one way, and it expands to what that reading comes to under the variables. Texts
expand apart unless the first leaves a group open or a mark stands where they meet. -/
theorem expand_follows_reading (env : Environment) :
    (∀ s : String, (∃! r : Reading, r.written = s.toList) ∧
      ∀ r filled, r.written = s.toList →
        (env.Fills r filled ↔ env.expand s = String.ofList filled)) ∧
    ∀ a b : String, Closed a.toList → Apart a.toList b.toList →
      env.expand (a ++ b) = env.expand a ++ env.expand b := by
  refine ⟨fun s => ⟨?_, fun r filled written => ?_⟩, fun a b closed apart => ?_⟩
  · obtain ⟨r, written⟩ := Reading.exists_written s.toList
    exact ⟨r, written, fun r' written' => Reading.written_injective (written'.trans written.symm)⟩
  · rw [fills_iff, written, expand, String.ofList_inj]
  · rw [expand, String.toList_append, expandFrom_append closed apart, String.ofList_append]
    rfl

/-- Variables of which one holds what looks like a group, and one no text. -/
def nested : Environment := ⟨[("A", utf8 "$\x7bB\x7d"), ("B", utf8 "b"), ("C", [0xff])]⟩

/-- How `é$${A}${x${B}}${C}${}!${B` reads: a mark within a group opens none, and the last one is not
closed. -/
def nestedReading : Reading :=
  .group ['é', '$'] ['A'] (.group [] ['x', '$', '\x7b', 'B'] (.group ['\x7d'] ['C']
    (.group [] [] (.unclosed ['!'] ['B'] (by decide) (by decide)) (by decide) (by decide))
    (by decide) (by decide)) (by decide) (by decide)) (by decide) (by decide)

/-- The value of `A` is not read again, and the text may be cut in front of `${C}`. -/
theorem expand_nested :
    nested.expand ("é$$\x7bA\x7d$\x7bx$\x7bB\x7d\x7d" ++ "$\x7bC\x7d$\x7b\x7d!$\x7bB") =
      "é$$\x7bB\x7d\x7d!$\x7bB" ∧
    nested.expand "é$$\x7bA\x7d$\x7bx$\x7bB\x7d\x7d" ++ nested.expand "$\x7bC\x7d$\x7b\x7d!$\x7bB" =
      "é$$\x7bB\x7d\x7d!$\x7bB" := by
  obtain ⟨reads, joins⟩ := expand_follows_reading nested
  have written : nestedReading.written = ("é$$\x7bA\x7d$\x7bx$\x7bB\x7d\x7d" ++
    "$\x7bC\x7d$\x7b\x7d!$\x7bB").toList := by decide
  have inserted : Means nested ['A'] ['$', '\x7b', 'B', '\x7d'] := .held (by decide) (by decide)
  have unset : Means nested ['x', '$', '\x7b', 'B'] [] := .unset (by decide)
  have illFormed : Means nested ['C'] [] := by
    refine .illFormed (by decide : nested.bytes? "C" = some [0xff]) fun value same => ?_
    have read := utf8Chars?_eq_some_iff.mpr same
    rw [show utf8Chars? [0xff] = none by decide] at read
    cases read
  have fills : nested.Fills nestedReading ("é$$\x7bB\x7d\x7d!$\x7bB").toList :=
    .group inserted (.group unset (.group illFormed (.group .nameless .unclosed)))
  have whole := ((reads _).2 nestedReading _ written).mp fills
  exact ⟨whole, (joins _ _ (by decide) (by decide)).symm.trans whole⟩

end Environment

end LintBridge

import LintBridge.Proofs.Json.Sought
import Mathlib.Data.List.Forall2

namespace LintBridge

namespace Document

/-- What a list of fields has under a name. -/
def under (name : String) (fields : List (Option String × Document)) : List Document :=
  fields.filterMap fun f => if f.1 = some name then some f.2 else none

/-- What a document has for a field: whatever stands under its name in an object, or at its place in
an array. -/
def parts (name : String) (place : Nat) : Document → List Document
  | .obj fields => under name fields
  | .arr items => items[place]?.toList
  | _ => []

/-- What stands in an array. -/
def elements : Document → List Document
  | .arr items => items
  | _ => []

variable {name key : String} {d : Document} {fields : List (Option String × Document)}

theorem under_cons_self : under name ((some name, d) :: fields) = d :: under name fields := by
  simp [under]

theorem under_cons_of_ne (other : name ≠ key) :
    under key ((some name, d) :: fields) = under key fields := by
  simp [under, other]

theorem under_append (before after : List (Option String × Document)) :
    under name (before ++ after) = under name before ++ under name after :=
  List.filterMap_append ..

end Document

open Document

namespace Record

section Shape

variable {α : Type}

/-- The place of a field among the others. -/
def placeOf : {α : Type} → Record α → String → Nat
  | _, .build _, _ => 0
  | _, .field before known _ _ _, name => if known = name then before.size else before.placeOf name

/-- Whether nothing has been read yet, and each field that may be missing may be missing in an array
too. -/
def Untouched : {α : Type} → Record α → Prop
  | _, .build _ => True
  | _, .field before _ _ absent found => before.Untouched ∧ found = none ∧ ∀ b, absent ≠ .named b

section Fields

variable {β : Type} {before : Record (β → α)} {before' : Record (Option β → α)} {name : String}
  {read : Decoder β}

@[simp]
theorem untouched_build (a : α) : (Record.build a).Untouched := trivial

@[simp]
theorem untouched_required : (before.required name read).Untouched ↔ before.Untouched := by
  simp [required, Untouched]

@[simp]
theorem untouched_optional : (before'.optional name read).Untouched ↔ before'.Untouched := by
  simp [optional, Untouched]

@[simp]
theorem untouched_defaulted (value : β) :
    (before.defaulted name read value).Untouched ↔ before.Untouched := by
  simp [defaulted, Untouched]

end Fields

/-- The first part that a document has for a field. -/
def look (r : Record α) (d : Document) (name : String) : Option Document :=
  (d.parts name (r.placeOf name)).head?

/-- Whether a document has one part at most for each field, and none that a field cannot be told
for. -/
def Suits (r : Record α) : Document → Prop
  | .obj fields => (∀ f ∈ fields, f.1 ≠ none) ∧ ∀ name ∈ r.names, (under name fields).length ≤ 1
  | .arr items => items.length ≤ r.size
  | _ => False

theorem Suits.parts_eq {r : Record α} {d : Document} (suits : r.Suits d) {name : String}
    (named : name ∈ r.names) : d.parts name (r.placeOf name) = (r.look d name).toList := by
  have single {l : List Document} (short : l.length ≤ 1) : l = l.head?.toList := by
    match l with
    | [] | [_] => rfl
    | _ :: _ :: _ => simp at short
  cases d with
  | obj fields => exact single (suits.2 name named)
  | arr items => cases found : items[r.placeOf name]? <;> simp [look, parts, found]
  | _ => exact suits.elim

theorem placeOf_lt {r : Record α} {name : String} (named : name ∈ r.names) :
    r.placeOf name < r.size := by
  induction r with
  | build a => cases named
  | field before known read absent found ih =>
    rw [placeOf, size]
    split
    · exact Nat.lt_succ_self _
    · rename_i other
      exact Nat.lt_succ_of_lt (ih ((List.mem_cons.mp named).resolve_left (Ne.symm other)))

theorem placeOf_injective {r : Record α} {name key : String} (named : name ∈ r.names)
    (named' : key ∈ r.names) (same : r.placeOf name = r.placeOf key) : name = key := by
  induction r with
  | build a => cases named
  | field before known read absent found ih =>
    rw [placeOf, placeOf] at same
    split at same <;> split at same <;> rename_i left right
    · exact left.symm.trans right
    · have low := placeOf_lt ((List.mem_cons.mp named').resolve_left (Ne.symm right))
      omega
    · have low := placeOf_lt ((List.mem_cons.mp named).resolve_left (Ne.symm left))
      omega
    · exact ih ((List.mem_cons.mp named).resolve_left (Ne.symm left))
        ((List.mem_cons.mp named').resolve_left (Ne.symm right)) same

end Shape

section Objects

variable {α : Type} {r r' : Record α} {name : String} {d : Document}
  {look : String → Option Document} {fields : List (Option String × Document)} {a : α}

theorem feed_of_not_mem (unknown : name ∉ r.names) : r.feed name d = .ok none := by
  induction r with
  | build a => rfl
  | field before known read absent found ih =>
    obtain ⟨other, unknown⟩ := not_or.mp (mt List.mem_cons.mpr unknown)
    rw [feed.eq_def]
    dsimp only
    rw [if_neg (Ne.symm other), ih unknown]
    rfl

theorem feed_of_mem (known : name ∈ r.names) : r.feed name d ≠ .ok none := by
  induction r with
  | build a => cases known
  | field before own read absent found ih =>
    intro passed
    rw [feed.eq_def] at passed
    dsimp only at passed
    split at passed
    · cases found with
      | some b => cases passed
      | none =>
        obtain ⟨b, _, same⟩ := of_map passed
        cases same
    · rename_i other
      obtain ⟨fed, inner, same⟩ := of_map passed
      cases fed with
      | some before' => cases same
      | none => exact ih ((List.mem_cons.mp known).resolve_left (Ne.symm other)) inner

/-- A field that was taken in is not found again. -/
theorem look_of_feed (fed : r.feed name d = .ok (some r')) (sought : r'.sought? look = some a) :
    look name = none := by
  induction r with
  | build a => cases fed
  | field before known read absent found ih =>
    rw [feed.eq_def] at fed
    dsimp only at fed
    split at fed
    · rename_i here
      cases found with
      | some b => cases fed
      | none =>
        obtain ⟨b, _, same⟩ := of_map fed
        cases same
        obtain ⟨make, _, sought⟩ := Option.bind_eq_some_iff.mp sought
        subst here
        cases again : look known with
        | none => rfl
        | some d => rw [again] at sought; cases sought
    · obtain ⟨next, inner, same⟩ := of_map fed
      obtain ⟨before', rfl, rfl⟩ := Option.map_eq_some_iff.mp same
      obtain ⟨make, before_sought, _⟩ := Option.bind_eq_some_iff.mp sought
      exact ih inner before_sought

theorem suits_cons_of_mem (known : name ∈ r.names) :
    r.Suits (.obj ((some name, d) :: fields)) ↔ under name fields = [] ∧ r.Suits (.obj fields) := by
  constructor
  · rintro ⟨told, each⟩
    have here := each name known
    rw [under_cons_self, List.length_cons] at here
    have alone : under name fields = [] := List.eq_nil_of_length_eq_zero (by omega)
    refine ⟨alone, (List.forall_mem_cons.mp told).2, fun key member => ?_⟩
    by_cases same : name = key
    · rw [← same, alone]
      exact Nat.zero_le 1
    · rw [← under_cons_of_ne (d := d) same]
      exact each key member
  · rintro ⟨alone, told, each⟩
    refine ⟨List.forall_mem_cons.mpr ⟨nofun, told⟩, fun key member => ?_⟩
    by_cases same : name = key
    · rw [← same, under_cons_self, alone]
      exact Nat.le_refl 1
    · rw [under_cons_of_ne same]
      exact each key member

theorem suits_cons_of_not_mem (unknown : name ∉ r.names) :
    r.Suits (.obj ((some name, d) :: fields)) ↔ r.Suits (.obj fields) := by
  have others (key : String) (member : key ∈ r.names) :
      under key ((some name, d) :: fields) = under key fields :=
    under_cons_of_ne fun same => unknown (same ▸ member)
  refine and_congr (List.forall_mem_cons.trans (and_iff_right nofun)) ?_
  exact forall₂_congr fun key member => by rw [others key member]

theorem head?_under_cons :
    (fun key => (under key ((some name, d) :: fields)).head?) =
      behind (fun key => (under key fields).head?) name d := by
  funext key
  by_cases same : name = key
  · rw [← same, under_cons_self, behind, if_pos rfl, List.head?_cons]
  · rw [under_cons_of_ne same, behind, if_neg same]

/-- What comes of the fields of an object, taken in one after the other. -/
theorem finish_feedAll_iff (distinct : r.names.Nodup) :
    (∃ r', r.feedAll fields = .ok r' ∧ r'.finish = .ok a) ↔
      r.Suits (.obj fields) ∧ r.sought? (fun name => (under name fields).head?) = some a := by
  induction fields generalizing r with
  | nil =>
    have finished : r.finish = .ok a ↔ r.sought? (fun _ => none) = some a := by
      rw [← toOption_finish]
      exact ⟨fun done => by rw [done]; rfl, of_toOption⟩
    simpa [feedAll, Suits, under] using finished
  | cons f fields ih =>
    obtain ⟨_ | name, d⟩ := f
    · refine iff_of_false ?_ ?_
      · rintro ⟨r', fed, _⟩
        cases fed
      · rintro ⟨⟨told, _⟩, _⟩
        exact told _ List.mem_cons_self rfl
    rw [feedAll, head?_under_cons]
    by_cases known : name ∈ r.names
    · have onward {r₁ : Record α} (first : r.feed name d = .ok (some r₁)) :
          r₁.Suits (.obj fields) ↔ r.Suits (.obj fields) := by
        rw [Suits, Suits, names_feed first]
      rw [suits_cons_of_mem known]
      constructor
      · rintro ⟨r', fed, finished⟩
        split at fed
        · cases fed
        · rename_i passed
          exact absurd passed (feed_of_mem known)
        · rename_i r₁ first
          have distinct₁ : r₁.names.Nodup := names_feed first ▸ distinct
          obtain ⟨suits, sought⟩ := (ih distinct₁).mp ⟨r', fed, finished⟩
          have missing := look_of_feed first sought
          refine ⟨⟨List.head?_eq_none_iff.mp missing, (onward first).mp suits⟩, ?_⟩
          rw [sought?_behind distinct missing, first]
          exact sought
      · rintro ⟨⟨alone, suits⟩, sought⟩
        have missing : (under name fields).head? = none := by rw [alone]; rfl
        rw [sought?_behind distinct missing] at sought
        split
        · rename_i e first
          rw [first] at sought
          cases sought
        · rename_i passed
          exact absurd passed (feed_of_mem known)
        · rename_i r₁ first
          rw [first] at sought
          have distinct₁ : r₁.names.Nodup := names_feed first ▸ distinct
          exact (ih distinct₁).mpr ⟨(onward first).mpr suits, sought⟩
    · have same : r.sought? (behind (fun key => (under key fields).head?) name d) =
          r.sought? fun key => (under key fields).head? :=
        sought?_congr fun key member => if_neg fun here : name = key => known (here ▸ member)
      rw [feed_of_not_mem known, same, suits_cons_of_not_mem known]
      exact ih distinct

end Objects

section Arrays

variable {α : Type} {r : Record α} {items rest : List Document} {a : α}

/-- What comes of the items of an array, each at the place of its field. -/
theorem place_iff (shape : String) (total : Nat) (distinct : r.names.Nodup)
    (untouched : r.Untouched) : r.place shape total items = .ok (a, rest) ↔
      rest = items.drop r.size ∧ r.sought? (fun name => items[r.placeOf name]?) = some a := by
  induction r generalizing rest with
  | build a' =>
    rw [place, sought?, size, List.drop_zero, Except.ok.injEq, Prod.mk.injEq, Option.some.injEq,
      and_comm, eq_comm]
  | field before name read absent found ih =>
    obtain ⟨fresh, others⟩ := List.nodup_cons.mp distinct
    obtain ⟨untouched, rfl, positional⟩ := untouched
    have own : (field before name read absent none).placeOf name = before.size := if_pos rfl
    have earlier : before.sought?
        (fun key => items[(field before name read absent none).placeOf key]?) =
          before.sought? fun key => items[before.placeOf key]? := by
      refine sought?_congr fun key member => ?_
      rw [placeOf, if_neg]
      rintro rfl
      exact fresh member
    rw [place, sought?, earlier, own]
    cases made : before.sought? fun key => items[before.placeOf key]? with
    | none =>
      refine iff_of_false ?_ ?_
      · intro placed
        obtain ⟨⟨make, behind⟩, first, _⟩ := of_bind placed
        rw [((ih others untouched).mp first).2] at made
        cases made
      · rintro ⟨_, sought⟩
        cases sought
    | some make =>
      rw [(ih others untouched).mpr ⟨rfl, made⟩]
      dsimp only [bind, Except.bind]
      rw [size, ← List.drop_drop]
      have item : items[before.size]? = (items.drop before.size).head? := by
        rw [List.head?_drop]
      rw [item]
      cases items.drop before.size with
      | nil =>
        cases absent with
        | required => simp
        | named b => exact absurd rfl (positional b)
        | always b => simp [and_comm, eq_comm]
      | cons d behind =>
        dsimp only [List.head?_cons]
        cases read d <;> simp [Except.map, Except.toOption, and_comm, eq_comm]

end Arrays

theorem decoder_obj_eq_ok_iff {α : Type} {r : Record α} {a : α} (distinct : r.names.Nodup)
    (shape : String) (fields : List (Option String × Document)) :
    decoder shape r (.obj fields) = .ok a ↔
      r.Suits (.obj fields) ∧ r.sought? (r.look (.obj fields)) = some a := by
  refine Iff.trans ?_ (finish_feedAll_iff distinct)
  rw [decoder]
  cases r.feedAll fields with
  | error e => simp
  | ok r' => simp

/-- A structure is read from a document that is suited to it, each field from the part for it. -/
theorem decoder_eq_ok_iff {α : Type} {r : Record α} {a : α} (distinct : r.names.Nodup)
    (untouched : r.Untouched) (shape : String) (d : Document) :
    decoder shape r d = .ok a ↔ r.Suits d ∧ r.sought? (r.look d) = some a := by
  cases d with
  | obj fields => exact decoder_obj_eq_ok_iff distinct shape fields
  | arr items =>
    have look : r.look (.arr items) = fun name => items[r.placeOf name]? := by
      funext name
      rw [Record.look, parts]
      cases items[r.placeOf name]? <;> rfl
    rw [look, decoder, Suits]
    constructor
    · intro decoded
      obtain ⟨⟨a', rest⟩, placed, decoded⟩ := of_bind decoded
      obtain ⟨rfl, sought⟩ := (place_iff shape _ distinct untouched).mp placed
      dsimp only at decoded
      split at decoded
      · rename_i nothing
        cases decoded
        exact ⟨List.drop_eq_nil_iff.mp (List.isEmpty_iff.mp nothing), sought⟩
      · cases decoded
    · rintro ⟨short, sought⟩
      rw [(place_iff shape r.size distinct untouched).mpr ⟨rfl, sought⟩]
      have nothing : items.drop r.size = [] := List.drop_eq_nil_iff.mpr short
      simp only [bind, Except.bind, nothing, List.isEmpty_nil, if_true]
  | null | bool | num | str =>
    refine iff_of_false (fun decoded => ?_) (fun both => both.1)
    rw [decoder] at decoded
    · unfold mismatch at decoded
      split at decoded <;> cases decoded
    all_goals rintro _ ⟨⟩

section Titled

variable {α β : Type} {make : String → α → β} {title key shape : String} {read : Decoder α}
  {default : α}

/-- The fields of a structure with a title and something that may be left out. -/
abbrev titled (make : String → α → β) (title key : String) (read : Decoder α) (default : α) :
    Record β := ((build make).required title Decoder.text).defaulted key read default

theorem nodup_names_titled (apart : title ≠ key) :
    (titled make title key read default).names.Nodup := by
  simpa [names, defaulted, required] using apart.symm

theorem placeOf_title (apart : title ≠ key) :
    (titled make title key read default).placeOf title = 0 := by
  simp [placeOf, defaulted, required, size, apart.symm]

theorem placeOf_key : (titled make title key read default).placeOf key = 1 := by
  simp [placeOf, defaulted, required, size]

/-- What a structure with a title is read from. -/
theorem of_titled (apart : title ≠ key) {d : Document} {b : β}
    (decoded : decoder shape (titled make title key read default) d = .ok b) :
    ∃ (name : String) (found : Option Document) (a : α), b = make name a ∧
      (d.parts title 0).head?.bind (fun d => (Decoder.text d).toOption) = some name ∧
      d.parts key 1 = found.toList ∧
      found.elim (some default) (fun d => (read d).toOption) = some a := by
  obtain ⟨suits, sought⟩ :=
    (decoder_eq_ok_iff (nodup_names_titled apart) (by simp) _ _).mp decoded
  have parts := suits.parts_eq (show key ∈ _ from List.mem_cons_self)
  rw [sought?_defaulted, sought?_required] at sought
  obtain ⟨make', named, sought⟩ := Option.bind_eq_some_iff.mp sought
  obtain ⟨a, given, rfl⟩ := Option.map_eq_some_iff.mp sought
  obtain ⟨make'', built, named⟩ := Option.bind_eq_some_iff.mp named
  cases built
  obtain ⟨part, there, named⟩ := Option.bind_eq_some_iff.mp named
  obtain ⟨name, told, rfl⟩ := Option.map_eq_some_iff.mp named
  rw [placeOf_key] at parts
  rw [look, placeOf_title apart] at there
  exact ⟨name, _, a, rfl, by rw [there]; exact told, parts, given⟩

end Titled

end Record

namespace Decoder

variable {α : Type} {read : Decoder α} {d : Document} {as : List α}

/-- Whether some documents are read one by one. -/
def Reads (read : Decoder α) (ds : List Document) (as : List α) : Prop :=
  List.Forall₂ (fun d a => read d = .ok a) ds as

theorem Reads.exists_of_mem {ds : List Document} (reads : read.Reads ds as) (member : d ∈ ds) :
    ∃ a, read d = .ok a := by
  induction reads with
  | nil => cases member
  | cons first _ ih =>
    obtain rfl | later := List.mem_cons.mp member
    · exact ⟨_, first⟩
    · exact ih later

theorem reads_of_mapM {ds : List Document} (mapped : ds.mapM read = .ok as) : read.Reads ds as := by
  induction ds generalizing as with
  | nil =>
    cases mapped
    exact .nil
  | cons d ds ih =>
    rw [List.mapM_cons] at mapped
    obtain ⟨a, first, mapped⟩ := of_bind mapped
    obtain ⟨rest, others, mapped⟩ := of_bind mapped
    cases mapped
    exact .cons first (ih others)

theorem of_list (listed : list read d = .ok as) :
    ∃ ds, d = .arr ds ∧ read.Reads ds as := by
  cases d with
  | arr ds => exact ⟨ds, rfl, reads_of_mapM listed⟩
  | _ =>
    rw [list] at listed
    · unfold Document.mismatch at listed
      split at listed <;> cases listed
    all_goals rintro _ ⟨⟩

theorem reads_elements (listed : list read d = .ok as) : read.Reads d.elements as := by
  obtain ⟨ds, rfl, reads⟩ := of_list listed
  exact reads

/-- A list that may be left out holds nothing then. -/
theorem reads_of_defaulted {found : Option Document}
    (listed : found.elim (some []) (fun d => (list read d).toOption) = some as) :
    read.Reads (found.toList.flatMap Document.elements) as := by
  cases found with
  | none =>
    cases listed
    exact .nil
  | some d =>
    rw [Option.toList_some, List.flatMap_singleton]
    exact reads_elements (of_toOption listed)

theorem of_nullable {o : Option α} (decoded : nullable read d = .ok o) :
    d = .null ∧ o = none ∨ ∃ a, read d = .ok a ∧ o = some a := by
  unfold nullable at decoded
  split at decoded
  · cases decoded
    exact .inl ⟨rfl, rfl⟩
  · obtain ⟨a, value, rfl⟩ := of_map decoded
    exact .inr ⟨a, value, rfl⟩

end Decoder

end LintBridge

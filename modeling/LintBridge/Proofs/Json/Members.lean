import LintBridge.Proofs.Config.ReadBack
import LintBridge.Proofs.Json.Parts

namespace LintBridge

theorem toOption_eq_some_iff {ε : Type u} {α : Type v} {r : Except ε α} {a : α} :
    r.toOption = some a ↔ r = .ok a := ⟨of_toOption, fun same => by rw [same]; rfl⟩

open Document

namespace Decoder

variable {α : Type} {read : Decoder α} {d : Document} {as : List α}

theorem text_eq_ok_iff {s : String} : text d = .ok s ↔ d = .str (some s) := by
  unfold text
  split
  · rw [Except.ok.injEq, Document.str.injEq, Option.some.injEq]
  · rename_i other
    exact iff_of_false (mismatch_ne_ok _ d) (other s)

theorem boolean_eq_ok_iff {b : Bool} : boolean d = .ok b ↔ d = .bool b := by
  unfold boolean
  split
  · rw [Except.ok.injEq, Document.bool.injEq]
  · rename_i other
    exact iff_of_false (mismatch_ne_ok _ d) (other b)

theorem list_eq_ok_iff : list read d = .ok as ↔ ∃ ds, d = .arr ds ∧ read.Reads ds as := by
  refine ⟨of_list, ?_⟩
  rintro ⟨ds, rfl, reads⟩
  rw [list]
  induction reads with
  | nil => rfl
  | cons first _ ih => rw [List.mapM_cons, first, ih]; rfl

end Decoder

namespace Record

variable {α β : Type} {a : α} {name : String} {read : Decoder β} {look : String → Option Document}

theorem sought?_required_iff {before : Record (β → α)} :
    (before.required name read).sought? look = some a ↔ ∃ make b, before.sought? look = some make ∧
      (∃ d, look name = some d ∧ read d = .ok b) ∧ make b = a := by
  rw [sought?_required]
  simp only [Option.bind_eq_some_iff, Option.map_eq_some_iff, toOption_eq_some_iff]
  grind

theorem sought?_defaulted_iff {before : Record (β → α)} {value : β} :
    (before.defaulted name read value).sought? look = some a ↔
      ∃ make b, before.sought? look = some make ∧
        (look name = none ∧ b = value ∨ ∃ d, look name = some d ∧ read d = .ok b) ∧
        make b = a := by
  rw [sought?_defaulted]
  cases look name <;> simp [Option.bind_eq_some_iff, toOption_eq_some_iff]

variable {r : Record α} {d part : Document}

/-- A document that suits a record has no part for a field, or one. -/
theorem Suits.parts_eq_nil_iff (suits : r.Suits d) (known : name ∈ r.names) :
    d.parts name (r.placeOf name) = [] ↔ r.look d name = none := by
  rw [suits.parts_eq known]
  cases r.look d name <;> simp

theorem Suits.parts_eq_singleton_iff (suits : r.Suits d) (known : name ∈ r.names) :
    d.parts name (r.placeOf name) = [part] ↔ r.look d name = some part := by
  rw [suits.parts_eq known]
  cases r.look d name <;> simp

theorem sought?_optional_iff {before : Record (Option β → α)} :
    (before.optional name read).sought? look = some a ↔
      ∃ make b, before.sought? look = some make ∧
        Decoder.nullable read ((look name).getD .null) = .ok b ∧ make b = a := by
  rw [optional, sought?]
  cases look name <;>
    simp [Option.bind_eq_some_iff, toOption_eq_some_iff, Decoder.nullable]

theorem sought?_nullable_iff {before : Record (Option β → α)} :
    (before.nullable name read).sought? look = some a ↔
      ∃ make b, before.sought? look = some make ∧
        Decoder.nullable read ((look name).getD .null) = .ok b ∧ make b = a := by
  rw [nullable, sought?]
  cases look name <;>
    simp [Option.bind_eq_some_iff, toOption_eq_some_iff, Decoder.nullable]

end Record

/-- What a missing field means in an array. -/
def Absent.inArray {β : Type} : Absent β → Absent β
  | .named _ => .required
  | absent => absent

namespace Record

section Places

variable {α : Type} {r : Record α} {look : String → Option Document} {items : List Document} {a : α}

/-- Whether nothing has been read yet. -/
def Fresh : {α : Type} → Record α → Prop
  | _, .build _ => True
  | _, .field before _ _ _ found => before.Fresh ∧ found = none

/-- The fields as an array has them: what only an object may leave out has to be there. -/
def placed : {α : Type} → Record α → Record α
  | _, .build a => .build a
  | _, .field before name read absent found => .field before.placed name read absent.inArray found

/-- The fields that only an object may leave out. -/
def named : {α : Type} → Record α → List String
  | _, .build _ => []
  | _, .field before name _ (.named _) _ => name :: before.named
  | _, .field before _ _ _ _ => before.named

theorem untouched_placed (fresh : r.Fresh) : r.placed.Untouched := by
  induction r with
  | build a => trivial
  | field before name read absent found ih =>
    refine ⟨ih fresh.1, fresh.2, fun b => ?_⟩
    cases absent <;> exact nofun

theorem names_placed (r : Record α) : r.placed.names = r.names := by
  induction r with
  | build a => rfl
  | field before name read absent found ih => exact congrArg (name :: ·) ih

theorem size_placed (r : Record α) : r.placed.size = r.size := by
  induction r with
  | build a => rfl
  | field before name read absent found ih => exact congrArg (· + 1) ih

theorem placeOf_placed (r : Record α) (name : String) : r.placed.placeOf name = r.placeOf name := by
  induction r with
  | build a => rfl
  | field before known read absent found ih => rw [placed, placeOf, placeOf, ih, size_placed]

theorem place_placed (r : Record α) (shape : String) (total : Nat) (items : List Document) :
    r.placed.place shape total items = r.place shape total items := by
  induction r with
  | build a => rfl
  | field before name read absent found ih =>
    rw [placed, place, place, ih, size_placed]
    refine bind_congr fun read => ?_
    obtain ⟨make, behind⟩ := read
    cases behind <;> cases absent <;> rfl

theorem sought?_placed (fresh : r.Fresh) : r.placed.sought? look = some a ↔
    (∀ name ∈ r.named, look name ≠ none) ∧ r.sought? look = some a := by
  induction r with
  | build a' => simp [placed, named, sought?]
  | field before name read absent found ih =>
    obtain ⟨fresh, rfl⟩ := fresh
    rw [placed, sought?, sought?]
    simp only [bind, Option.bind_eq_some_iff, ih fresh]
    cases there : look name <;> cases absent <;> simp [Absent.inArray, named, there] <;> grind

/-- A structure is read from a document that is suited to it, each field from the part for it; an
array leaves out only what may be left out everywhere. -/
theorem decoder_eq_ok_iff_of_fresh (distinct : r.names.Nodup) (fresh : r.Fresh) (shape : String)
    (d : Document) : decoder shape r d = .ok a ↔ r.Suits d ∧
      (∀ items, d = .arr items → ∀ name ∈ r.named, r.look d name ≠ none) ∧
      r.sought? (r.look d) = some a := by
  cases d with
  | obj fields => simpa using decoder_obj_eq_ok_iff distinct shape fields
  | arr items =>
    have arrays : decoder shape r (.arr items) = decoder shape r.placed (.arr items) := by
      rw [decoder, decoder, size_placed, place_placed]
    have look : r.placed.look (.arr items) = r.look (.arr items) := by
      funext name
      rw [Record.look, Record.look, placeOf_placed]
    rw [arrays, decoder_eq_ok_iff (names_placed r ▸ distinct) (untouched_placed fresh), look,
      sought?_placed fresh, Suits, Suits, size_placed]
    simp
  | null | bool | num | str =>
    refine iff_of_false (fun decoded => ?_) (fun both => both.1)
    rw [decoder] at decoded
    · exact mismatch_ne_ok _ _ decoded
    all_goals rintro _ ⟨⟩

end Places

end Record

/-- What a value has for a member: what stands under its name in an object, or at its place in an
array. -/
def Json.part? (name : String) (place : Nat) : Json → Option Json
  | .obj fields => (Json.obj fields).field? name
  | .arr items => items[place]?
  | _ => none

section Values

variable {v : Json} {fields : List (String × Json)} {items : List Json} {name : String}

/-- A field that stands under its name once. -/
theorem Json.filter_eq_singleton_iff :
    fields.filter (·.1 == name) = [(name, v)] ↔
      (fields.filter (·.1 == name)).length ≤ 1 ∧ (Json.obj fields).field? name = some v := by
  rw [Json.field?, ← List.head?_filter]
  constructor
  · intro single
    rw [single]
    exact ⟨Nat.le_refl 1, rfl⟩
  · rintro ⟨short, found⟩
    obtain ⟨⟨key, value⟩, first, rfl⟩ := Option.map_eq_some_iff.mp found
    obtain rfl : key = name := beq_iff_eq.mp (List.mem_filter.mp (List.mem_of_head? first)).2
    obtain ⟨rest, filtered⟩ := List.head?_eq_some_iff.mp first
    rw [filtered, List.length_cons] at short
    obtain rfl : rest = [] := List.eq_nil_of_length_eq_zero (by omega)
    exact filtered

namespace Document

theorem ofItems_eq_map (items : List Json) : ofItems items = items.map ofJson := by
  induction items with
  | nil => rfl
  | cons v items ih => rw [ofItems, List.map_cons, ih]

theorem ofFields_eq_map (fields : List (String × Json)) :
    ofFields fields = fields.map fun f => (some f.1, ofJson f.2) := by
  induction fields with
  | nil => rfl
  | cons f fields ih => rw [ofFields, List.map_cons, ih]

theorem under_ofFields (name : String) (fields : List (String × Json)) :
    under name (ofFields fields) = (fields.filter (·.1 == name)).map fun f => ofJson f.2 := by
  induction fields with
  | nil => rfl
  | cons f fields ih =>
    obtain ⟨key, value⟩ := f
    rw [ofFields]
    by_cases same : key = name
    · subst same
      rw [under_cons_self, ih, List.filter_cons, beq_self_eq_true]
      rfl
    · rw [under_cons_of_ne same, ih, List.filter_cons, beq_false_of_ne same]
      rfl

theorem head?_parts_ofJson (name : String) (place : Nat) (v : Json) :
    ((ofJson v).parts name place).head? = (v.part? name place).map ofJson := by
  cases v with
  | obj fields =>
    rw [ofJson, parts, under_ofFields, List.head?_map, List.head?_filter, Json.part?, Json.field?,
      Option.map_map]
    rfl
  | arr items =>
    rw [ofJson, parts, ofItems_eq_map, List.getElem?_map, Json.part?]
    cases items[place]? <;> rfl
  | _ => rfl

end Document

namespace Record

variable {α : Type} {r : Record α}

theorem suits_ofJson_obj : r.Suits (ofJson (.obj fields)) ↔
    ∀ name ∈ r.names, (fields.filter (·.1 == name)).length ≤ 1 := by
  simp only [ofJson, Suits, under_ofFields, List.length_map]
  refine and_iff_right fun f member => ?_
  rw [ofFields_eq_map] at member
  obtain ⟨g, _, rfl⟩ := List.mem_map.mp member
  exact Option.some_ne_none _

theorem suits_ofJson_arr : r.Suits (ofJson (.arr items)) ↔ items.length ≤ r.size := by
  rw [ofJson, Suits, ofItems_eq_map, List.length_map]

end Record

namespace Decoder

theorem nullable_text_ofJson_iff {o : Option String} :
    nullable text (ofJson v) = .ok o ↔ v = o.elim .null .str := by
  cases v <;> cases o <;> simp [ofJson, nullable, text, mismatch, met?, Except.map]

theorem nullable_boolean_ofJson_iff {o : Option Bool} :
    nullable boolean (ofJson v) = .ok o ↔ v = o.elim .null .bool := by
  cases v <;> cases o <;> simp [ofJson, nullable, boolean, mismatch, met?, Except.map]

theorem reads_text_ofItems_iff {ss : List String} :
    Decoder.Reads text (ofItems items) ss ↔ items = ss.map .str := by
  induction items generalizing ss with
  | nil => cases ss <;> simp [ofItems, Reads]
  | cons v items ih =>
    have first (s : String) : text (ofJson v) = .ok s ↔ v = .str s := by
      rw [text_eq_ok_iff]
      cases v <;> simp [ofJson]
    cases ss with
    | nil => simp [ofItems, Reads]
    | cons s ss =>
      rw [ofItems, Reads, List.forall₂_cons, first, List.map_cons, List.cons.injEq]
      exact and_congr_right fun _ => ih

theorem list_text_ofJson_iff {ss : List String} :
    list text (ofJson v) = .ok ss ↔ v = .arr (ss.map .str) := by
  rw [list_eq_ok_iff]
  cases v with
  | arr items => simp [ofJson, reads_text_ofItems_iff]
  | _ => simp [ofJson]

end Decoder

end Values

end LintBridge

import LintBridge.Json.Record
import LintBridge.Proofs.Files.Replacing
import LintBridge.Proofs.Json.Fields

namespace LintBridge

theorem find?_of_not_mem {β : Type} {fields : List (String × β)} {key : String}
    (absent : key ∉ fields.map Prod.fst) : fields.find? (fun f => f.1 == key) = none :=
  List.find?_eq_none.mpr fun f member found =>
    absent (List.mem_map.mpr ⟨f, member, beq_iff_eq.mp found⟩)

namespace Record

/-- The names of the fields. -/
def names : {α : Type} → Record α → List String
  | _, .build _ => []
  | _, .field before name _ _ _ => name :: before.names

/-- The structure whose fields are looked up by name, unless one cannot be read or is missing. A
field that was found before may not be found again. -/
def sought? : {α : Type} → Record α → (String → Option Document) → Option α
  | _, .build a, _ => some a
  | _, .field before name read absent found, look => do
    let make ← before.sought? look
    match found, look name with
    | none, some d => (read d).toOption.map make
    | some b, none => some (make b)
    | some _, some _ => none
    | none, none =>
      match absent with
      | .required => none
      | .named b => some (make b)
      | .always b => some (make b)

section Fields

variable {α β : Type} (name : String) (read : Decoder β) (look : String → Option Document)

/-- The fields in front of a field are looked up first. -/
theorem sought?_behind_fields (before : Record (β → α)) (absent : Absent β) (found : Option β) :
    (field before name read absent found).sought? look = (do
      let make ← before.sought? look
      match found, look name with
      | none, some d => (read d).toOption.map make
      | some b, none => some (make b)
      | some _, some _ => none
      | none, none =>
        match absent with
        | .required => none
        | .named b => some (make b)
        | .always b => some (make b)) :=
  rfl

theorem sought?_required (before : Record (β → α)) : (before.required name read).sought? look =
    (before.sought? look).bind fun make =>
      (look name).bind fun d => (read d).toOption.map make := by
  rw [required, sought?_behind_fields]
  cases look name <;> rfl

theorem sought?_optional (before : Record (Option β → α)) :
    (before.optional name read).sought? look = (before.sought? look).bind fun make =>
      ((look name).elim (some none) fun d => (Decoder.nullable read d).toOption).map make := by
  rw [optional, sought?_behind_fields]
  cases look name <;> rfl

theorem sought?_defaulted (before : Record (β → α)) (value : β) :
    (before.defaulted name read value).sought? look = (before.sought? look).bind fun make =>
      ((look name).elim (some value) fun d => (read d).toOption).map make := by
  rw [defaulted, sought?_behind_fields]
  cases look name <;> rfl

end Fields

/-- A place to look fields up, with one more field there. -/
def behind (look : String → Option Document) (name : String) (d : Document) :
    String → Option Document := fun key => if name = key then some d else look key

section Lookup

variable {α : Type} {look look' : String → Option Document}

theorem sought?_congr {r : Record α} (same : ∀ name ∈ r.names, look name = look' name) :
    r.sought? look = r.sought? look' := by
  induction r with
  | build a => rfl
  | field before name read absent found ih =>
    have own := same name List.mem_cons_self
    have others := ih fun key member => same key (List.mem_cons_of_mem name member)
    rw [sought?_behind_fields, sought?_behind_fields, own, others]

/-- What is found nowhere is what a record finishes with. -/
theorem toOption_finish (r : Record α) : r.finish.toOption = r.sought? fun _ => none := by
  induction r with
  | build a => rfl
  | field before name read absent found ih =>
    rw [finish, sought?_behind_fields, ← ih]
    cases before.finish with
    | error e => rfl
    | ok make => cases found <;> cases absent <;> rfl

/-- To take a field in is to find it before the rest is looked up. -/
theorem sought?_behind {r : Record α} (distinct : r.names.Nodup) {name : String} {d : Document}
    (once : look name = none) :
    r.sought? (behind look name d) = (r.feed name d).toOption.bind fun fed =>
      (fed.getD r).sought? look := by
  induction r with
  | build a => rfl
  | field before known read absent found ih =>
    obtain ⟨fresh, distinct⟩ := List.nodup_cons.mp distinct
    rw [sought?_behind_fields, feed.eq_def]
    dsimp only
    by_cases here : known = name
    · subst here
      -- the fields before this one have other names, so they are found as they were
      have earlier : before.sought? (behind look known d) = before.sought? look :=
        sought?_congr fun key member => if_neg fun same : known = key => fresh (same ▸ member)
      have there : behind look known d known = some d := if_pos rfl
      rw [if_pos rfl, earlier, there]
      cases found with
      | some b => cases before.sought? look <;> rfl
      | none =>
        dsimp only
        cases value : read d with
        | error e => cases before.sought? look <;> rfl
        | ok b =>
          have next : (field before known read absent (some b)).sought? look =
              (before.sought? look).map (· b) := by
            rw [sought?_behind_fields, once]
            cases before.sought? look <;> rfl
          exact Eq.trans (by cases before.sought? look <;> rfl) next.symm
    · have there : behind look name d known = look known := if_neg (Ne.symm here)
      rw [if_neg here, there, ih distinct]
      cases before.feed name d with
      | error e => rfl
      | ok fed => cases fed <;> rfl

end Lookup

theorem names_feed {α : Type} {r r' : Record α} {name : String} {d : Document}
    (fed : r.feed name d = .ok (some r')) : r'.names = r.names := by
  induction r with
  | build a => cases fed
  | field before known read absent found ih =>
    rw [feed.eq_def] at fed
    dsimp only at fed
    split at fed
    · cases found with
      | some b => cases fed
      | none =>
        obtain ⟨b, _, same⟩ := of_map fed
        cases same
        rfl
    · obtain ⟨next, inner, same⟩ := of_map fed
      obtain ⟨before', rfl, rfl⟩ := Option.map_eq_some_iff.mp same
      exact congrArg (known :: ·) (ih inner)

/-- What stands under a name in a list of fields. -/
def lookUp (fields : List (String × Json)) (name : String) : Option Document :=
  (fields.find? fun f => f.1 == name).map fun f => Document.ofJson f.2

theorem toOption_feedAll {α : Type} {r : Record α} (distinct : r.names.Nodup)
    {fields : List (String × Json)} (once : (fields.map Prod.fst).Nodup) :
    ((r.feedAll (Document.ofFields fields)).bind finish).toOption = r.sought? (lookUp fields) := by
  induction fields generalizing r with
  | nil => exact toOption_finish r
  | cons f fs ih =>
    obtain ⟨name, v⟩ := f
    obtain ⟨fresh, once⟩ := List.nodup_cons.mp once
    have absent : lookUp fs name = none :=
      Option.map_eq_none_iff.mpr (find?_of_not_mem fresh)
    have split : lookUp ((name, v) :: fs) = behind (lookUp fs) name (Document.ofJson v) := by
      funext key
      by_cases here : name = key <;> simp [lookUp, behind, here]
    rw [split, sought?_behind distinct absent, Document.ofFields, feedAll]
    cases fed : r.feed name (Document.ofJson v) with
    | error e => rfl
    | ok next =>
      cases next with
      | none => exact ih distinct once
      | some next => exact ih (names_feed fed ▸ distinct) once

/-- A structure is read from an object by the names of its fields. -/
theorem toOption_decoder {α : Type} {r : Record α} (distinct : r.names.Nodup) (shape : String)
    (fields : List (String × Json)) :
    (decoder shape r (Document.ofJson (Json.object fields))).toOption =
      r.sought? fun name => ((Json.object fields).field? name).map Document.ofJson := by
  have once : ((Json.sortFields fields).map Prod.fst).Nodup := by
    refine List.pairwise_map.mpr ((Json.pairwise_sortFields fields).imp fun less => ?_)
    exact String.ne_of_lt less
  have look : lookUp (Json.sortFields fields) = fun name =>
      ((Json.object fields).field? name).map Document.ofJson := by
    funext name
    rw [Json.object, Json.field?, Option.map_map]
    rfl
  rw [← look, ← toOption_feedAll distinct once, Json.object, Document.ofJson, decoder]
  cases r.feedAll (Document.ofFields (Json.sortFields fields)) <;> rfl

end Record

namespace Json

/-- An object of the fields that have a value. -/
def present (fields : List (String × Option Json)) : Json :=
  object (fields.filterMap fun f => f.2.map (f.1, ·))

variable {fields : List (String × Option Json)}

theorem field?_present (once : (fields.map Prod.fst).Nodup) (key : String) :
    (present fields).field? key = (fields.find? fun f => f.1 == key).bind Prod.snd := by
  -- the last of the fields with one name would count, but here it is the only one
  have apart {fs : List (String × Json)} (once : (fs.map Prod.fst).Nodup) :
      (fs.reverse.find? fun f => f.1 == key) = fs.find? fun f => f.1 == key := by
    induction fs with
    | nil => rfl
    | cons f fs ih =>
      obtain ⟨fresh, once⟩ := List.nodup_cons.mp once
      rw [List.reverse_cons, List.find?_append, ih once]
      by_cases here : f.1 = key
      · simp [find?_of_not_mem (here ▸ fresh), here]
      · simp [here]
  have kept : ((fields.filterMap fun f => f.2.map (f.1, ·)).map Prod.fst).Sublist
      (fields.map Prod.fst) := by
    clear once
    induction fields with
    | nil => exact .slnil
    | cons f fs ih =>
      obtain ⟨name, _ | v⟩ := f
      · exact ih.cons name
      · exact ih.cons_cons name
  rw [present, field?_object, apart (kept.nodup once)]
  clear kept apart
  induction fields with
  | nil => rfl
  | cons f fs ih =>
    obtain ⟨name, v⟩ := f
    obtain ⟨fresh, once⟩ := List.nodup_cons.mp once
    have others := ih once
    by_cases here : name = key
    · subst here
      cases v with
      | some v => simp
      | none =>
        rw [find?_of_not_mem fresh] at others
        simpa using others
    · cases v <;> simpa [here] using others

end Json

/-- A structure is read from the fields that have a value, each by its name. -/
theorem Record.toOption_decoder_present {α : Type} {r : Record α} (distinct : r.names.Nodup)
    (shape : String) {fields : List (String × Option Json)}
    (once : (fields.map Prod.fst).Nodup) :
    (decoder shape r (Document.ofJson (Json.present fields))).toOption = r.sought? fun name =>
      ((fields.find? fun f => f.1 == name).bind Prod.snd).map Document.ofJson := by
  rw [Json.present, toOption_decoder distinct]
  exact Record.sought?_congr fun name _ => congrArg _ (Json.field?_present once name)

end LintBridge

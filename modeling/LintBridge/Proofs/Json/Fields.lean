import LintBridge.Json.Basic

namespace LintBridge

namespace Json

section Fields

variable {α : Type}

theorem insertField_of_forall_lt {name : String} {value : α} {fields : List (String × α)}
    (below : ∀ f ∈ fields, f.1 < name) :
    insertField name value fields = fields ++ [(name, value)] := by
  induction fields with
  | nil => rfl
  | cons f fs ih =>
    have less := below f List.mem_cons_self
    have others := ih fun g member => below g (List.mem_cons_of_mem f member)
    rw [insertField, if_neg (String.lt_asymm less), if_neg (String.ne_of_lt less).symm, others]
    rfl

/-- Fields in ascending order stay as they are. -/
theorem sortFields_of_pairwise {fields : List (String × α)}
    (sorted : fields.Pairwise (fun f g => f.1 < g.1)) : sortFields fields = fields := by
  have behind : ∀ (fs front : List (String × α)),
      (front ++ fs).Pairwise (fun f g => f.1 < g.1) →
      fs.foldl (fun sorted field => insertField field.1 field.2 sorted) front = front ++ fs := by
    intro fs
    induction fs with
    | nil => exact fun front _ => (List.append_nil front).symm
    | cons f fs ih =>
      intro front order
      have below : ∀ g ∈ front, g.1 < f.1 := fun g member =>
        (List.pairwise_append.mp order).2.2 g member f List.mem_cons_self
      have same : front ++ f :: fs = (front ++ [f]) ++ fs := by simp
      rw [List.foldl_cons, insertField_of_forall_lt below, same]
      exact ih (front ++ [f]) (same ▸ order)
  exact behind fields [] sorted

theorem mem_insertField {name : String} {value : α} {fields : List (String × α)}
    {f : String × α} (member : f ∈ insertField name value fields) :
    f = (name, value) ∨ f ∈ fields := by
  induction fields with
  | nil => exact .inl (List.mem_singleton.mp member)
  | cons g fs ih =>
    rw [insertField] at member
    split at member
    · exact (List.mem_cons.mp member)
    split at member
    · rcases List.mem_cons.mp member with here | later
      · exact .inl here
      · exact .inr (List.mem_cons_of_mem g later)
    · rcases List.mem_cons.mp member with here | later
      · exact .inr (here ▸ List.mem_cons_self)
      · exact (ih later).imp_right (List.mem_cons_of_mem g)

theorem pairwise_insertField {name : String} {value : α} {fields : List (String × α)}
    (sorted : fields.Pairwise (fun f g => f.1 < g.1)) :
    (insertField name value fields).Pairwise (fun f g => f.1 < g.1) := by
  induction fields with
  | nil => exact List.pairwise_singleton _ _
  | cons g fs ih =>
    obtain ⟨above, order⟩ := List.pairwise_cons.mp sorted
    rw [insertField]
    split
    · rename_i less
      refine List.pairwise_cons.mpr ⟨fun f member => ?_, sorted⟩
      rcases List.mem_cons.mp member with rfl | later
      · exact less
      · exact String.lt_trans less (above f later)
    split
    · rename_i same
      exact List.pairwise_cons.mpr ⟨fun f member => same ▸ above f member, order⟩
    · rename_i notLess notSame
      refine List.pairwise_cons.mpr ⟨fun f member => ?_, ih order⟩
      rcases mem_insertField member with rfl | old
      · exact String.not_le.mp fun le =>
          notSame (String.le_antisymm le (String.not_lt.mp notLess))
      · exact above f old

theorem find?_insertField (key name : String) (value : α) (fields : List (String × α)) :
    (insertField name value fields).find? (fun f => f.1 == key) =
      if name = key then some (name, value) else fields.find? (fun f => f.1 == key) := by
  induction fields with
  | nil => by_cases same : name = key <;> simp [insertField, same]
  | cons g fs ih =>
    obtain ⟨other, _⟩ := g
    rw [insertField]
    split
    · by_cases same : name = key <;> simp [same]
    split
    · rename_i same
      by_cases key : name = key <;> simp [← same, key]
    · rename_i _ different
      by_cases here : other = key
      · have apart : name ≠ key := fun same => different (same.trans here.symm)
        simp [here, apart]
      · simp [here, ih]

theorem find?_sortFields (key : String) (fields : List (String × α)) :
    (sortFields fields).find? (fun f => f.1 == key) =
      fields.reverse.find? (fun f => f.1 == key) := by
  have behind : ∀ (fs front : List (String × α)),
      (fs.foldl (fun sorted field => insertField field.1 field.2 sorted) front).find?
        (fun f => f.1 == key) =
      (fs.reverse.find? fun f => f.1 == key).or (front.find? fun f => f.1 == key) := by
    intro fs
    induction fs with
    | nil => exact fun front => rfl
    | cons f fs ih =>
      intro front
      obtain ⟨name, value⟩ := f
      rw [List.foldl_cons, ih, find?_insertField, List.reverse_cons, List.find?_append,
        Option.or_assoc]
      by_cases here : name = key <;> simp [here]
  rw [sortFields, behind, List.find?_nil, Option.or_none]

/-- The field of an object is the last one of its name. -/
theorem field?_object (key : String) (fields : List (String × Json)) :
    (object fields).field? key = (fields.reverse.find? fun f => f.1 == key).map (·.2) := by
  rw [object, field?, find?_sortFields]

theorem mem_sortFields {fields : List (String × α)} {f : String × α}
    (member : f ∈ sortFields fields) : f ∈ fields := by
  have behind : ∀ (fs front : List (String × α)),
      f ∈ fs.foldl (fun sorted field => insertField field.1 field.2 sorted) front →
      f ∈ fs ∨ f ∈ front := by
    intro fs
    induction fs with
    | nil => exact fun front member => .inr member
    | cons g fs ih =>
      intro front member
      rcases ih _ member with later | now
      · exact .inl (List.mem_cons_of_mem g later)
      · rcases mem_insertField now with here | old
        · exact .inl (here ▸ List.mem_cons_self)
        · exact .inr old
  exact (behind fields [] member).resolve_right List.not_mem_nil

theorem pairwise_sortFields (fields : List (String × α)) :
    (sortFields fields).Pairwise (fun f g => f.1 < g.1) := by
  have behind : ∀ (fs front : List (String × α)), front.Pairwise (fun f g => f.1 < g.1) →
      (fs.foldl (fun sorted field => insertField field.1 field.2 sorted) front).Pairwise
        (fun f g => f.1 < g.1) := by
    intro fs
    induction fs with
    | nil => exact fun front order => order
    | cons f fs ih => exact fun front order => ih _ (pairwise_insertField order)
  exact behind fields [] .nil

end Fields

end Json

end LintBridge

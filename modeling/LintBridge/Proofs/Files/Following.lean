import LintBridge.Proofs.Files.Replacing
import LintBridge.Proofs.Path.Segments

namespace LintBridge

/-- The segments among some pieces. -/
def Path.shown (pieces : List Bytes) : List Bytes := pieces.filter fun piece => !isIdle piece

namespace FileTree

/-- Where some segments lead from a location. -/
def follow : Location → List Bytes → Location
  | l, [] => l
  | l, s :: ss => if s = Path.dotDot then follow l.dropLast ss else follow (l ++ [s]) ss

/-- What is entered by name on the way. -/
def entered : Location → List Bytes → List Location
  | _, [] => []
  | l, s :: ss =>
    if s = Path.dotDot then entered l.dropLast ss else (l ++ [s]) :: entered (l ++ [s]) ss

theorem entered_append (l : Location) (ss rest : List Bytes) :
    entered l (ss ++ rest) = entered l ss ++ entered (follow l ss) rest := by
  induction ss generalizing l with
  | nil => rfl
  | cons s ss ih =>
    rw [List.cons_append, entered, entered, follow]
    split
    · exact ih _
    · rw [ih, List.cons_append]

section Walking

variable {t : FileTree}

theorem look_eq {parent : Location} {name : Bytes} {found : Option FileItem}
    (looked : t.look parent name = .ok found) : found = t.item? (parent ++ [name]) := by
  unfold look at looked
  split at looked
  · cases looked
  · exact (Except.ok.inj looked).symm

theorem look_directory {l : Location} {s : Bytes} (found : t.look l s = .ok (some .directory)) :
    t.item? (l ++ [s]) = some .directory := by
  unfold look at found
  split at found
  · cases found
  · exact Except.ok.inj found

theorem origin_congr {t' : FileTree} (same : t'.here = t.here) (p : Path) :
    t'.origin p = t.origin p := by
  rw [origin, origin, same]

theorem walk_shown (t : FileTree) (l : Location) (pieces : List Bytes) :
    t.walk l (Path.shown pieces) = t.walk l pieces := by
  induction pieces generalizing l with
  | nil => rfl
  | cons piece pieces ih =>
    cases idle : Path.isIdle piece with
    | true =>
      rw [Path.shown, List.filter_cons_of_neg (by simp [idle]), walk, if_pos idle]
      exact ih l
    | false =>
      rw [Path.shown, List.filter_cons_of_pos (by simp [idle]), walk, walk, idle]
      simp only [Bool.false_eq_true, if_false]
      split
      · exact ih _
      · split
        · rfl
        · rfl
        · rfl
        · exact ih _

theorem createFrom_shown (t : FileTree) (l : Location) (fresh : Bool) (pieces : List Bytes) :
    t.createFrom l fresh (Path.shown pieces) = t.createFrom l fresh pieces := by
  induction pieces generalizing t l fresh with
  | nil => rfl
  | cons piece pieces ih =>
    cases idle : Path.isIdle piece with
    | true =>
      rw [Path.shown, List.filter_cons_of_neg (by simp [idle]), createFrom, if_pos idle]
      exact ih t l fresh
    | false =>
      -- what is left is idle just when no segment is left
      have rest : (Path.shown pieces).all Path.isIdle = pieces.all Path.isIdle := by
        rw [Bool.eq_iff_iff, List.all_eq_true, List.all_eq_true]
        constructor
        · intro none piece member
          by_contra telling
          exact telling (none piece (List.mem_filter.mpr ⟨member, by simpa using telling⟩))
        · exact fun all piece member => all piece (List.mem_filter.mp member).1
      rw [Path.shown, List.filter_cons_of_pos (by simp [idle]), createFrom, createFrom, idle]
      simp only [Bool.false_eq_true, if_false]
      split
      · exact ih t _ fresh
      · split
        · rfl
        · exact ih _ _ true
        · exact ih t _ fresh
        · exact congrArg (fun b => (t, some (if (fresh || b) = true then Fault.occupied
            else .notDirectory))) rest

variable {l m : Location} {ss rest : List Bytes}

theorem walk_append (t : FileTree) (l : Location) (ss rest : List Bytes) :
    t.walk l (ss ++ rest) = (t.walk l ss).bind fun m => t.walk m rest := by
  induction ss generalizing l with
  | nil => rfl
  | cons s ss ih =>
    rw [List.cons_append, walk, walk]
    split
    · exact ih l
    · split
      · exact ih _
      · split
        · rfl
        · rfl
        · rfl
        · exact ih _

/-- A walk that comes through has followed its segments. -/
theorem walk_eq_follow (telling : ∀ s ∈ ss, Path.isIdle s = false)
    (walked : t.walk l ss = .ok m) : m = follow l ss := by
  induction ss generalizing l with
  | nil => exact (Except.ok.inj walked).symm
  | cons s ss ih =>
    have others : ∀ s ∈ ss, Path.isIdle s = false := fun s member =>
      telling s (List.mem_cons_of_mem _ member)
    rw [walk, telling s List.mem_cons_self] at walked
    rw [follow]
    simp only [Bool.false_eq_true, if_false] at walked
    split
    · rename_i back
      rw [if_pos back] at walked
      exact ih others walked
    · rename_i onward
      rw [if_neg onward] at walked
      split at walked
      · cases walked
      · cases walked
      · cases walked
      · exact ih others walked

/-- Where a walk comes through, no directory is missing. -/
theorem createFrom_walked (walked : t.walk l ss = .ok m) (fresh : Bool) (rest : List Bytes) :
    t.createFrom l fresh (ss ++ rest) = t.createFrom m fresh rest := by
  induction ss generalizing l with
  | nil =>
    cases walked
    rfl
  | cons s ss ih =>
    rw [List.cons_append, createFrom]
    rw [walk] at walked
    split
    · rename_i idle
      rw [if_pos idle] at walked
      exact ih walked
    rename_i telling
    rw [if_neg telling] at walked
    split
    · rename_i back
      rw [if_pos back] at walked
      exact ih walked
    rename_i onward
    rw [if_neg onward] at walked
    cases there : t.look l s with
    | error fault => rw [there] at walked; cases walked
    | ok found =>
      rw [there] at walked
      cases found with
      | none => cases walked
      | some item =>
        cases item with
        | file => cases walked
        | directory => exact ih walked

end Walking

section Making

variable {t : FileTree} {l k : Location} {ss : List Bytes}

theorem here_put (t : FileTree) (l : Location) (item : FileItem) :
    (t.put l item).here = t.here := by
  unfold put
  split <;> rfl

/-- Making directories makes them where none was, on the way, and changes nothing else. -/
theorem item?_createFrom (t : FileTree) (l : Location) (fresh : Bool) {ss : List Bytes}
    (telling : ∀ s ∈ ss, Path.isIdle s = false) (k : Location) :
    (t.createFrom l fresh ss).1.item? k = t.item? k ∨
      k ∈ entered l ss ∧ t.item? k = none ∧
        (t.createFrom l fresh ss).1.item? k = some .directory := by
  induction ss generalizing t l fresh with
  | nil => exact .inl rfl
  | cons s ss ih =>
    have others : ∀ s ∈ ss, Path.isIdle s = false := fun s member =>
      telling s (List.mem_cons_of_mem _ member)
    rw [createFrom, entered, telling s List.mem_cons_self]
    simp only [Bool.false_eq_true, if_false]
    split
    · exact ih t _ fresh others
    cases there : t.look l s with
    | error fault => exact .inl rfl
    | ok found =>
      cases found with
      | some item =>
        cases item with
        | file => exact .inl rfl
        | directory =>
          exact (ih t (l ++ [s]) fresh others).imp_right fun ⟨member, missing, made⟩ =>
            ⟨List.mem_cons_of_mem _ member, missing, made⟩
      | none =>
        have named : l ++ [s] ≠ [] := List.append_ne_nil_of_right_ne_nil l (List.cons_ne_nil s [])
        have missing : t.item? (l ++ [s]) = none := by
          unfold look at there
          split at there
          · cases there
          · exact Except.ok.inj there
        have put : (t.put (l ++ [s]) .directory).item? k =
            if k = l ++ [s] then some .directory else t.item? k := item?_put named
        rcases ih (t.put (l ++ [s]) .directory) (l ++ [s]) true others with
          same | ⟨member, absent, made⟩
        · by_cases own : k = l ++ [s]
          · rw [if_pos own] at put
            exact .inr ⟨own ▸ List.mem_cons_self, own ▸ missing, same.trans put⟩
          · rw [if_neg own] at put
            exact .inl (same.trans put)
        · by_cases own : k = l ++ [s]
          · exact .inr ⟨own ▸ List.mem_cons_self, own ▸ missing, made⟩
          · rw [if_neg own] at put
            exact .inr ⟨List.mem_cons_of_mem _ member, put ▸ absent, made⟩

theorem here_createFrom (t : FileTree) (l : Location) (fresh : Bool) (pieces : List Bytes) :
    (t.createFrom l fresh pieces).1.here = t.here := by
  induction pieces generalizing t l fresh with
  | nil => rfl
  | cons piece pieces ih =>
    rw [createFrom]
    split
    · exact ih t l fresh
    split
    · exact ih t _ fresh
    split
    · rfl
    · rw [ih, here_put]
    · exact ih t _ fresh
    · rfl

section Entry

variable {s : Bytes} (telling : Path.isIdle s = false) (onward : s ≠ Path.dotDot) (fresh : Bool)
  (ss : List Bytes)

include telling onward

theorem walk_entry (found : t.look l s = .ok (some .directory)) :
    t.walk l (s :: ss) = t.walk (l ++ [s]) ss := by
  rw [walk, telling, if_neg Bool.false_ne_true, if_neg onward, found]

theorem createFrom_entry (found : t.look l s = .ok (some .directory)) :
    t.createFrom l fresh (s :: ss) = t.createFrom (l ++ [s]) fresh ss := by
  rw [createFrom, telling, if_neg Bool.false_ne_true, if_neg onward, found]

theorem createFrom_missing (absent : t.look l s = .ok none) :
    t.createFrom l fresh (s :: ss) =
      (t.put (l ++ [s]) .directory).createFrom (l ++ [s]) true ss := by
  rw [createFrom, telling, if_neg Bool.false_ne_true, if_neg onward, absent]

end Entry

/-- Once all directories are made, the way is there. -/
theorem walk_createFrom {fresh : Bool} (telling : ∀ s ∈ ss, Path.isIdle s = false)
    (made : (t.createFrom l fresh ss).2 = none) :
    (t.createFrom l fresh ss).1.walk l ss = .ok (follow l ss) := by
  induction ss generalizing t l fresh with
  | nil => rfl
  | cons s ss ih =>
    have others : ∀ s ∈ ss, Path.isIdle s = false := fun s member =>
      telling s (List.mem_cons_of_mem _ member)
    have shown := telling s List.mem_cons_self
    by_cases back : s = Path.dotDot
    · have step : t.createFrom l fresh (s :: ss) = t.createFrom l.dropLast fresh ss := by
        rw [createFrom, shown, if_neg Bool.false_ne_true, if_pos back]
      rw [step] at made ⊢
      rw [walk, follow, shown, if_neg Bool.false_ne_true, if_pos back, if_pos back]
      exact ih others made
    -- the directory that is found or made here stays
    have enter {t₁ : FileTree} {fresh' : Bool} (short : ¬maxName < s.length)
        (step : t.createFrom l fresh (s :: ss) = t₁.createFrom (l ++ [s]) fresh' ss)
        (stands : t₁.item? (l ++ [s]) = some .directory) :
        (t.createFrom l fresh (s :: ss)).1.walk l (s :: ss) = .ok (follow l (s :: ss)) := by
      rw [step] at made ⊢
      have kept : (t₁.createFrom (l ++ [s]) fresh' ss).1.item? (l ++ [s]) = some .directory := by
        rcases item?_createFrom t₁ (l ++ [s]) fresh' others (l ++ [s]) with same | ⟨_, _, made⟩
        · exact same.trans stands
        · exact made
      have looked : (t₁.createFrom (l ++ [s]) fresh' ss).1.look l s = .ok (some .directory) := by
        rw [look, if_neg short, kept]
      rw [walk_entry shown back ss looked, follow, if_neg back]
      exact ih others made
    cases there : t.look l s with
    | error fault =>
      rw [createFrom, shown, if_neg Bool.false_ne_true, if_neg back, there] at made
      cases made
    | ok found =>
      have short := short_of_look there
      cases found with
      | none =>
        have named : l ++ [s] ≠ [] := List.append_ne_nil_of_right_ne_nil l (List.cons_ne_nil s [])
        exact enter short (createFrom_missing shown back fresh ss there)
          ((item?_put named).trans (if_pos rfl))
      | some item =>
        cases item with
        | file =>
          rw [createFrom, shown, if_neg Bool.false_ne_true, if_neg back, there] at made
          cases made
        | directory =>
          exact enter short (createFrom_entry shown back fresh ss there) (look_directory there)

end Making

/-- A path that leads to an entry of a directory leads there by its last segment. -/
theorem of_resolve_entry {t : FileTree} {p : Path} {parent : Location} {name : Bytes}
    {slashed : Bool} (led : t.resolve p = .ok (.entry parent name slashed)) :
    name ≠ Path.dotDot ∧ ∃ before, p.segments = before ++ [name] ∧
      t.walk (t.origin p) before = .ok parent := by
  obtain ⟨_, _, led⟩ := of_bind led
  dsimp only at led
  split at led
  · obtain ⟨_, _, same⟩ := of_bind led
    cases same
  rename_i last before named
  split at led
  · obtain ⟨_, _, same⟩ := of_bind led
    cases same
  rename_i telling
  obtain ⟨_, walked, same⟩ := of_bind led
  cases same
  rw [Bool.or_eq_true, not_or, Bool.not_eq_true, beq_iff_eq] at telling
  refine ⟨telling.2, Path.shown before.reverse, ?_, (walk_shown _ _ _).trans walked⟩
  have parts := (p.pieces.reverse.takeWhile_append_dropWhile (p := List.isEmpty)).symm
  rw [named] at parts
  have turned := congrArg List.reverse parts
  rw [List.reverse_reverse, List.reverse_append, List.reverse_cons, List.append_assoc] at turned
  have none : (p.pieces.reverse.takeWhile List.isEmpty).reverse.filter
      (fun piece => !Path.isIdle piece) = [] := by
    refine List.filter_eq_nil_iff.mpr fun piece member => ?_
    have empty := List.mem_takeWhile_imp (List.mem_reverse.mp member)
    simp [Path.isIdle, empty]
  rw [Path.segments, turned, List.filter_append, List.filter_append, none,
    List.filter_cons_of_pos (by simp [telling.1])]
  rfl

end FileTree

end LintBridge

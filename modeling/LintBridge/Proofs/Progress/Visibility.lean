import LintBridge.Progress.Tracker
import Mathlib.Data.List.Chain
import Mathlib.Data.List.Nodup

namespace LintBridge

/-- A call of a tracker. -/
inductive TrackerCall where
  | enqueue (id : OperationId)
  | dequeue (id : OperationId)
  | narrow (id : OperationId)
  | clear
  deriving DecidableEq

/-- The runs of an operation after a call: one that starts is added, one that ends is taken away
if there is one, and all are forgotten at once. -/
def TrackerCall.count (id : OperationId) (n : Nat) : TrackerCall → Nat
  | enqueue other => if other = id then n + 1 else n
  | dequeue other => if other = id then n - 1 else n
  | narrow _ => n
  | clear => 0

/-- What events tell of the visibility. -/
def visibilities (events : List ProgressEvent) : List Bool :=
  events.filterMap fun
    | .visible b => some b
    | _ => none

theorem visibilities_append (a b : List ProgressEvent) :
    visibilities (a ++ b) = visibilities a ++ visibilities b :=
  List.filterMap_append

namespace Tracker

/-- Carry out a call. -/
def call (t : Tracker) : TrackerCall → Tracked
  | .enqueue id => t.enqueue id
  | .dequeue id => t.dequeue id
  | .narrow id => t.narrow id
  | .clear => t.clear

/-- The tracker after some calls, and all that it told. -/
def course (t : Tracker) : List TrackerCall → Tracker × List ProgressEvent
  | [] => (t, [])
  | c :: rest =>
    let next := (t.call c).tracker.course rest
    (next.1, (t.call c).events ++ next.2)

theorem course_append (t : Tracker) (calls calls' : List TrackerCall) :
    t.course (calls ++ calls') = (((t.course calls).1.course calls').1,
      (t.course calls).2 ++ ((t.course calls).1.course calls').2) := by
  induction calls generalizing t with
  | nil => rfl
  | cons c rest ih => simp only [List.cons_append, course, ih, List.append_assoc]

section Runs

variable {active : List (OperationId × Nat)} {visible : Bool} {generation : Nat}

theorem runs_cons (a : OperationId × Nat) (id : OperationId) :
    runs ⟨a :: active, visible, generation⟩ id =
      if a.1 = id then a.2 else runs ⟨active, visible, generation⟩ id := by
  by_cases same : a.1 = id
  · simp [runs, same]
  · simp [runs, same]

theorem runs_of_not_mem {id : OperationId} (absent : id ∉ active.map Prod.fst) :
    runs ⟨active, visible, generation⟩ id = 0 := by
  induction active with
  | nil => rfl
  | cons a rest ih =>
    rw [runs_cons, if_neg (List.ne_of_not_mem_cons absent).symm]
    exact ih (List.not_mem_of_not_mem_cons absent)

theorem isActive_iff_mem {id : OperationId} :
    isActive ⟨active, visible, generation⟩ id = true ↔ id ∈ active.map Prod.fst := by
  simp only [isActive, List.any_eq_true, beq_iff_eq, List.mem_map]

theorem isActive_iff_runs (positive : ∀ a ∈ active, 0 < a.2) (id : OperationId) :
    isActive ⟨active, visible, generation⟩ id = true ↔
      0 < runs ⟨active, visible, generation⟩ id := by
  rw [isActive_iff_mem]
  induction active with
  | nil => simp [runs]
  | cons a rest ih =>
    rw [runs_cons, List.map_cons, List.mem_cons]
    by_cases same : a.1 = id
    · rw [if_pos same]
      exact iff_of_true (.inl same.symm) (positive a List.mem_cons_self)
    · rw [if_neg same, or_iff_right (Ne.symm same)]
      exact ih fun b inRest => positive b (List.mem_cons_of_mem _ inRest)

theorem runs_addRun (id other : OperationId) :
    runs ⟨addRun id active, visible, generation⟩ other =
      runs ⟨active, visible, generation⟩ other + if id = other then 1 else 0 := by
  induction active with
  | nil =>
    have none : runs ⟨[], visible, generation⟩ other = 0 := rfl
    rw [addRun, runs_cons, none, Nat.zero_add]
  | cons a rest ih =>
    obtain ⟨first, n⟩ := a
    rw [addRun, runs_cons]
    by_cases same : first = id
    · subst same
      rw [if_pos rfl, runs_cons]
      split <;> rfl
    · rw [if_neg same, runs_cons, ih]
      by_cases equal : first = other
      · subst equal
        rw [if_pos rfl, if_pos rfl, if_neg (Ne.symm same), Nat.add_zero]
      · rw [if_neg equal, if_neg equal]

theorem keys_addRun (id : OperationId) :
    (addRun id active).map Prod.fst =
      if id ∈ active.map Prod.fst then active.map Prod.fst else active.map Prod.fst ++ [id] := by
  induction active with
  | nil => rfl
  | cons a rest ih =>
    obtain ⟨first, n⟩ := a
    rw [addRun]
    by_cases same : first = id
    · subst same
      simp
    · rw [if_neg same, List.map_cons, List.map_cons, ih]
      simp only [List.mem_cons, Ne.symm same, false_or]
      split <;> rfl

theorem pos_addRun {id : OperationId} (positive : ∀ a ∈ active, 0 < a.2) :
    ∀ a ∈ addRun id active, 0 < a.2 := by
  induction active with
  | nil =>
    intro a member
    cases List.mem_singleton.mp member
    exact Nat.one_pos
  | cons first rest ih =>
    intro a member
    have others : ∀ a ∈ rest, 0 < a.2 := fun b inRest => positive b (List.mem_cons_of_mem _ inRest)
    rw [addRun] at member
    split at member
    · rcases List.mem_cons.mp member with rfl | inRest
      · exact Nat.succ_pos _
      · exact others a inRest
    · rcases List.mem_cons.mp member with rfl | inRest
      · exact positive _ List.mem_cons_self
      · exact ih others a inRest

theorem runs_dropRun (distinct : (active.map Prod.fst).Nodup) (id other : OperationId) :
    runs ⟨dropRun id active, visible, generation⟩ other =
      runs ⟨active, visible, generation⟩ other - if id = other then 1 else 0 := by
  induction active with
  | nil =>
    rw [dropRun]
    exact (Nat.zero_sub _).symm
  | cons a rest ih =>
    obtain ⟨first, n⟩ := a
    obtain ⟨absent, distinct⟩ := List.nodup_cons.mp distinct
    rw [dropRun, runs_cons]
    by_cases same : first = id
    · subst same
      rw [if_pos rfl]
      by_cases equal : first = other
      · subst equal
        rw [if_pos rfl, if_pos rfl]
        split
        · rw [runs_of_not_mem absent]
          omega
        · rw [runs_cons, if_pos rfl]
      · rw [if_neg equal, if_neg equal, Nat.sub_zero]
        split
        · rfl
        · rw [runs_cons, if_neg equal]
    · rw [if_neg same, runs_cons, ih distinct]
      by_cases equal : first = other
      · subst equal
        rw [if_pos rfl, if_pos rfl, if_neg (Ne.symm same), Nat.sub_zero]
      · rw [if_neg equal, if_neg equal]

theorem keys_dropRun (id : OperationId) :
    ((dropRun id active).map Prod.fst).Sublist (active.map Prod.fst) := by
  induction active with
  | nil => exact .slnil
  | cons a rest ih =>
    rw [dropRun]
    split
    · split
      · exact (List.Sublist.refl _).cons _
      · exact .refl _
    · exact ih.cons_cons _

theorem pos_dropRun {id : OperationId} (positive : ∀ a ∈ active, 0 < a.2) :
    ∀ a ∈ dropRun id active, 0 < a.2 := by
  induction active with
  | nil => exact positive
  | cons first rest ih =>
    intro a member
    have others : ∀ a ∈ rest, 0 < a.2 := fun b inRest => positive b (List.mem_cons_of_mem _ inRest)
    rw [dropRun] at member
    split at member
    · split at member
      · exact others a member
      · rcases List.mem_cons.mp member with rfl | inRest
        · dsimp only
          omega
        · exact others a inRest
    · rcases List.mem_cons.mp member with rfl | inRest
      · exact positive _ List.mem_cons_self
      · exact ih others a inRest

/-- To drop a run that was added leaves the runs as they were. -/
theorem dropRun_addRun (positive : ∀ a ∈ active, 0 < a.2) (id : OperationId) :
    dropRun id (addRun id active) = active := by
  induction active with
  | nil => exact if_pos rfl
  | cons a rest ih =>
    obtain ⟨first, n⟩ := a
    have some : 0 < n := positive _ List.mem_cons_self
    rw [addRun]
    by_cases same : first = id
    · rw [if_pos same, dropRun, if_pos same, if_neg (by omega), Nat.add_sub_cancel]
    · rw [if_neg same, dropRun, if_neg same, ih fun b inRest =>
        positive b (List.mem_cons_of_mem _ inRest)]

theorem pos_addRuns (positive : ∀ a ∈ active, 0 < a.2) (ids : List OperationId) :
    ∀ a ∈ ids.foldr addRun active, 0 < a.2 := by
  induction ids with
  | nil => exact positive
  | cons id ids ih => exact pos_addRun ih

end Runs

/-- What holds of a tracker after any calls. -/
structure Sound (t : Tracker) : Prop where
  distinct : (t.active.map Prod.fst).Nodup
  positive : ∀ a ∈ t.active, 0 < a.2
  busy : t.visible = true → t.active ≠ []

theorem Sound.isActive_iff {t : Tracker} (sound : t.Sound) (id : OperationId) :
    t.isActive id = true ↔ 0 < t.runs id := isActive_iff_runs sound.positive id

theorem active_ne_nil_iff (t : Tracker) : t.active ≠ [] ↔ ∃ id, t.isActive id = true := by
  obtain ⟨active, visible, generation⟩ := t
  simp only [isActive_iff_mem]
  constructor
  · intro busy
    obtain ⟨a, member⟩ := List.exists_mem_of_ne_nil active busy
    exact ⟨a.1, List.mem_map_of_mem member⟩
  · rintro ⟨id, member⟩ (rfl : active = [])
    cases member

theorem enqueue_active (t : Tracker) (id : OperationId) :
    (t.enqueue id).tracker.active = addRun id t.active := by
  simp only [enqueue]
  split <;> rfl

theorem enqueue_visible (t : Tracker) (id : OperationId) :
    (t.enqueue id).tracker.visible = true := by
  simp only [enqueue]
  split
  · assumption
  · rfl

theorem dequeue_of_not_isActive {t : Tracker} {id : OperationId} (idle : ¬t.isActive id = true) :
    t.dequeue id = ⟨t, [], false⟩ := by
  rw [dequeue, if_neg idle]

theorem dequeue_active {t : Tracker} {id : OperationId} (runs : t.isActive id = true) :
    (t.dequeue id).tracker.active = dropRun id t.active := by
  rw [dequeue, if_pos runs]
  dsimp only
  split <;> rfl

/-- The end of the run that was added last leaves the runs as they were before it. -/
theorem dequeue_of_addRun {t : Tracker} {id : OperationId} {active : List (OperationId × Nat)}
    (positive : ∀ a ∈ active, 0 < a.2) (added : t.active = addRun id active) :
    (t.dequeue id).tracker.active = active := by
  have runs : t.isActive id = true := by
    obtain ⟨_, visible, generation⟩ := t
    subst added
    rw [isActive_iff_mem, keys_addRun]
    split
    · assumption
    · exact List.mem_append_right _ (List.mem_singleton_self id)
  rw [dequeue_active runs, added, dropRun_addRun positive]

theorem dequeue_visible {t : Tracker} {id : OperationId} (runs : t.isActive id = true) :
    (t.dequeue id).tracker.visible = (t.visible && !(dropRun id t.active).isEmpty) := by
  rw [dequeue, if_pos runs]
  dsimp only
  split
  · rename_i both
    obtain ⟨empty, _⟩ := Bool.and_eq_true_iff.mp both
    rw [empty, Bool.not_true, Bool.and_false]
    rfl
  · rename_i either
    cases visible : t.visible with
    | false => rfl
    | true =>
      rw [visible, Bool.and_true, Bool.not_eq_true] at either
      rw [either]
      rfl

theorem narrow_visible (t : Tracker) (id : OperationId) :
    (t.narrow id).tracker.visible = t.concerns id := by
  unfold narrow
  cases concerns : t.concerns id <;> cases visible : t.visible <;> simp [shown, hidden, visible]

theorem clear_active (t : Tracker) : t.clear.tracker.active = [] := by
  simp only [clear]
  split <;> rfl

theorem clear_visible (t : Tracker) : t.clear.tracker.visible = false := by
  simp only [clear]
  split
  · rfl
  · rename_i hidden
    exact Bool.eq_false_iff.mpr hidden

theorem addRun_ne_nil (id : OperationId) (active : List (OperationId × Nat)) :
    addRun id active ≠ [] := by
  cases active with
  | nil => exact List.cons_ne_nil _ _
  | cons a rest =>
    rw [addRun]
    split <;> exact List.cons_ne_nil _ _

/-- A call tells of the visibility just when it changes it. -/
theorem visibilities_call (t : Tracker) (c : TrackerCall) :
    visibilities (t.call c).events =
      if (t.call c).tracker.visible = t.visible then [] else [(t.call c).tracker.visible] := by
  cases c with
  | enqueue id =>
    cases visible : t.visible <;> simp [call, enqueue, visible, shown, visibilities]
  | dequeue id =>
    simp only [call, dequeue]
    split
    · split
      · rename_i both
        obtain ⟨_, visible⟩ := Bool.and_eq_true_iff.mp both
        simp only [hidden, visibilities]
        rw [show t.visible = true from visible]
        rfl
      · exact (if_pos rfl).symm
    · exact (if_pos rfl).symm
  | narrow id =>
    cases concerns : t.concerns id <;> cases visible : t.visible <;>
      simp [call, narrow, concerns, visible, shown, hidden, visibilities]
  | clear =>
    cases visible : t.visible <;> simp [call, clear, visible, hidden, visibilities]

theorem Sound.call {t : Tracker} (sound : t.Sound) (c : TrackerCall) :
    (t.call c).tracker.Sound := by
  cases c with
  | enqueue id =>
    have active : (t.call (.enqueue id)).tracker.active = addRun id t.active := t.enqueue_active id
    refine ⟨?_, active ▸ pos_addRun sound.positive, fun _ => active ▸ addRun_ne_nil id t.active⟩
    rw [active, keys_addRun]
    split
    · exact sound.distinct
    · rename_i new
      simpa only [List.concat_eq_append] using sound.distinct.concat new
  | dequeue id =>
    by_cases runs : t.isActive id = true
    · have active : (t.call (.dequeue id)).tracker.active = dropRun id t.active :=
        dequeue_active runs
      refine ⟨active ▸ (keys_dropRun id).nodup sound.distinct, active ▸ pos_dropRun sound.positive,
        fun visible => ?_⟩
      have both := (dequeue_visible runs).symm.trans visible
      obtain ⟨_, left⟩ := Bool.and_eq_true_iff.mp both
      rw [active]
      intro empty
      rw [empty] at left
      cases left
    · rw [Tracker.call, dequeue_of_not_isActive runs]
      exact sound
  | narrow id =>
    have active : (t.call (.narrow id)).tracker.active = t.active := t.narrow_active id
    refine ⟨active ▸ sound.distinct, active ▸ sound.positive, fun visible => ?_⟩
    have concerns : t.concerns id = true := (t.narrow_visible id).symm.trans visible
    rw [active, active_ne_nil_iff]
    rcases Bool.or_eq_true_iff.mp concerns with own | system
    · exact ⟨id, own⟩
    · exact ⟨.system, system⟩
  | clear =>
    have active : (t.call .clear).tracker.active = [] := t.clear_active
    refine ⟨?_, ?_, fun visible => ?_⟩
    · rw [active]
      exact List.nodup_nil
    · rw [active]
      intro a member
      cases member
    · cases t.clear_visible.symm.trans visible

theorem Sound.runs_call {t : Tracker} (sound : t.Sound) (c : TrackerCall) (id : OperationId) :
    (t.call c).tracker.runs id = c.count id (t.runs id) := by
  -- the runs are read off the table alone, whatever is shown
  have table (t t' : Tracker) (same : t.active = t'.active) : t.runs id = t'.runs id := by
    unfold runs
    rw [same]
  cases c with
  | enqueue other =>
    rw [Tracker.call, table _ ⟨addRun other t.active, true, 0⟩ (t.enqueue_active other),
      runs_addRun, table t ⟨t.active, true, 0⟩ rfl, TrackerCall.count]
    split <;> rfl
  | dequeue other =>
    rw [TrackerCall.count]
    by_cases runs : t.isActive other = true
    · rw [Tracker.call, table _ ⟨dropRun other t.active, true, 0⟩ (dequeue_active runs),
        runs_dropRun sound.distinct, table t ⟨t.active, true, 0⟩ rfl]
      split <;> rfl
    · rw [Tracker.call, dequeue_of_not_isActive runs]
      split
      · rename_i same
        subst same
        have none : t.runs other = 0 :=
          Nat.eq_zero_of_not_pos fun positive => runs ((sound.isActive_iff other).mpr positive)
        rw [none]
      · rfl
  | narrow other => exact table _ t (t.narrow_active other)
  | clear => exact table _ idle t.clear_active

/-- Unless it is narrowed, progress is shown just while an operation runs. -/
theorem visible_call {t : Tracker} {c : TrackerCall} (other : ∀ id, c ≠ .narrow id)
    (shown : t.visible = true ↔ t.active ≠ []) :
    (t.call c).tracker.visible = true ↔ (t.call c).tracker.active ≠ [] := by
  cases c with
  | enqueue id =>
    have active : (t.call (.enqueue id)).tracker.active = addRun id t.active := t.enqueue_active id
    rw [active]
    exact iff_of_true (t.enqueue_visible id) (addRun_ne_nil id t.active)
  | dequeue id =>
    by_cases runs : t.isActive id = true
    · have active : (t.call (.dequeue id)).tracker.active = dropRun id t.active :=
        dequeue_active runs
      have before : t.visible = true := shown.mpr (t.active_ne_nil_iff.mpr ⟨id, runs⟩)
      rw [active, Tracker.call, dequeue_visible runs, before, Bool.true_and, Bool.not_eq_true',
        List.isEmpty_eq_false_iff]
    · rw [Tracker.call, dequeue_of_not_isActive runs]
      exact shown
  | narrow id => exact absurd rfl (other id)
  | clear =>
    have active : (t.call .clear).tracker.active = [] := t.clear_active
    have visible : (t.call .clear).tracker.visible = false := t.clear_visible
    rw [active, visible]
    simp

theorem Sound.course {t : Tracker} (sound : t.Sound) (calls : List TrackerCall) :
    (t.course calls).1.Sound := by
  induction calls generalizing t with
  | nil => exact sound
  | cons c rest ih => exact ih (sound.call c)

theorem Sound.runs_course {t : Tracker} (sound : t.Sound) (calls : List TrackerCall)
    (id : OperationId) :
    (t.course calls).1.runs id = calls.foldl (TrackerCall.count id) (t.runs id) := by
  induction calls generalizing t with
  | nil => rfl
  | cons c rest ih =>
    rw [List.foldl_cons, ← sound.runs_call c id]
    exact ih (sound.call c)

theorem visible_course {t : Tracker} {calls : List TrackerCall}
    (other : ∀ id, .narrow id ∉ calls) (shown : t.visible = true ↔ t.active ≠ []) :
    (t.course calls).1.visible = true ↔ (t.course calls).1.active ≠ [] := by
  induction calls generalizing t with
  | nil => exact shown
  | cons c rest ih =>
    have first : ∀ id, c ≠ .narrow id := fun id same => other id (same ▸ List.mem_cons_self)
    exact ih (fun id member => other id (List.mem_cons_of_mem c member)) (visible_call first shown)

/-- What is told of the visibility alternates, from what was shown before to what is shown now. -/
theorem visibilities_course (t : Tracker) (calls : List TrackerCall) :
    (t.visible :: visibilities (t.course calls).2).IsChain (· ≠ ·) ∧
    (visibilities (t.course calls).2).getLastD t.visible = (t.course calls).1.visible := by
  induction calls generalizing t with
  | nil => exact ⟨.singleton _, rfl⟩
  | cons c rest ih =>
    obtain ⟨alternates, last⟩ := ih (t.call c).tracker
    rw [course, visibilities_append, visibilities_call]
    by_cases same : (t.call c).tracker.visible = t.visible
    · rw [if_pos same, List.nil_append, ← same]
      exact ⟨alternates, last⟩
    · rw [if_neg same, List.singleton_append, List.getLastD_cons]
      exact ⟨.cons_cons (Ne.symm same) alternates, last⟩

theorem idle_sound : idle.Sound :=
  ⟨List.nodup_nil, fun _ member => (List.not_mem_nil member).elim, fun visible => nomatch visible⟩

theorem changed_enqueue (t : Tracker) (id : OperationId) :
    (t.enqueue id).changed = true ↔ .visible true ∈ (t.enqueue id).events := by
  simp only [enqueue]
  split <;> simp [shown]

theorem changed_dequeue (t : Tracker) (id : OperationId) :
    (t.dequeue id).changed = true ↔ .visible false ∈ (t.dequeue id).events := by
  simp only [dequeue]
  split
  · split <;> simp [hidden]
  · simp

/-- A tracker after any calls. What it told of the visibility alternates, shown first, and ends with
what is so now. Progress is shown only while an operation runs, and always then unless it was
narrowed. Every operation has the runs that the calls leave of it; to end one that has none does
nothing. To narrow progress leaves the runs alone. A call that starts or ends a run says that it
changed the visibility just when it told so. -/
theorem progress_after_calls (calls : List TrackerCall) :
    let t := (idle.course calls).1
    let told := visibilities (idle.course calls).2
    (false :: told).IsChain (· ≠ ·) ∧ told.getLastD false = t.visible ∧
    (t.visible = true → ∃ id, t.isActive id = true) ∧
    ((∀ id, .narrow id ∉ calls) → (t.visible = true ↔ ∃ id, t.isActive id = true)) ∧
    (∀ id, t.runs id = calls.foldl (TrackerCall.count id) 0 ∧
      (t.isActive id = true ↔ 0 < t.runs id)) ∧
    (∀ id, t.runs id = 0 → t.dequeue id = ⟨t, [], false⟩) ∧
    (∀ id, (∀ other, (t.narrow id).tracker.runs other = t.runs other) ∧
      ((t.narrow id).tracker.visible = true ↔
        t.isActive id = true ∨ t.isActive .system = true)) ∧
    (∀ id, ((t.enqueue id).changed = true ↔ .visible true ∈ (t.enqueue id).events) ∧
      ((t.dequeue id).changed = true ↔ .visible false ∈ (t.dequeue id).events)) := by
  intro t told
  have sound : t.Sound := idle_sound.course calls
  obtain ⟨alternates, last⟩ := idle.visibilities_course calls
  refine ⟨alternates, last, fun visible => ?_, fun other => ?_, fun id => ?_, fun id none => ?_,
    fun id => ⟨fun other => ?_, ?_⟩, fun id => ⟨t.changed_enqueue id, t.changed_dequeue id⟩⟩
  · exact t.active_ne_nil_iff.mp (sound.busy visible)
  · rw [← active_ne_nil_iff]
    exact visible_course other (by decide)
  · exact ⟨idle_sound.runs_course calls id, sound.isActive_iff id⟩
  · refine dequeue_of_not_isActive fun active => ?_
    have positive := (sound.isActive_iff id).mp active
    omega
  · exact sound.runs_call (.narrow id) other
  · rw [narrow_visible, concerns, Bool.or_eq_true]

/-- Progress that is narrowed to another document is hidden while an operation runs. -/
theorem hidden_while_busy :
    let id : OperationId := ⟨"a"⟩
    let calls : List TrackerCall := [.enqueue id, .enqueue id, .narrow ⟨"b"⟩, .dequeue id]
    let t := (idle.course calls).1
    visibilities (idle.course calls).2 = [true, false] ∧ t.visible = false ∧ t.runs id = 1 := by
  obtain ⟨_, last, _, _, runs, _⟩ := progress_after_calls
    [.enqueue ⟨"a"⟩, .enqueue ⟨"a"⟩, .narrow ⟨"b"⟩, .dequeue ⟨"a"⟩]
  exact ⟨by decide, last.symm.trans (by decide), (runs ⟨"a"⟩).1.trans (by decide)⟩

end Tracker

end LintBridge

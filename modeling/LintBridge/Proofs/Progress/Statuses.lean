import LintBridge.Proofs.Progress.Visibility
import Mathlib.Data.List.Count

namespace LintBridge

namespace Tracker

variable {t : Tracker} {id : OperationId}

/-- The runs of an operation that a tracker forgets over some calls. -/
def forgotten (id : OperationId) (t : Tracker) : List TrackerCall → Nat
  | [] => 0
  | c :: rest => (if c = .clear then t.runs id else 0) + (t.call c).tracker.forgotten id rest

theorem forgotten_append (t : Tracker) (calls calls' : List TrackerCall) (id : OperationId) :
    t.forgotten id (calls ++ calls') =
      t.forgotten id calls + (t.course calls).1.forgotten id calls' := by
  induction calls generalizing t with
  | nil => simp [forgotten, course]
  | cons c rest ih => simp only [List.cons_append, forgotten, course, ih, Nat.add_assoc]

theorem forgotten_of_not_mem {calls : List TrackerCall} (kept : .clear ∉ calls) :
    t.forgotten id calls = 0 := by
  induction calls generalizing t with
  | nil => rfl
  | cons c rest ih =>
    have other : c ≠ .clear := fun same => kept (same ▸ List.mem_cons_self)
    rw [forgotten, if_neg other, ih fun member => kept (List.mem_cons_of_mem c member)]

/-- The run that a call starts or ends. -/
def run? (t : Tracker) : TrackerCall → Option (OperationId × Bool)
  | .enqueue id => some (id, true)
  | .dequeue id => if t.isActive id then some (id, false) else none
  | _ => none

/-- A call tells of the run that it starts or ends alone. -/
theorem count_operation (t : Tracker) (c : TrackerCall) (id : OperationId) (started : Bool) :
    (t.call c).events.count (.operation id started) =
      if t.run? c = some (id, started) then 1 else 0 := by
  cases c with
  | enqueue other =>
    cases visible : t.visible <;> simp [call, enqueue, run?, visible, shown, List.count_cons]
  | dequeue other =>
    simp only [call, dequeue, run?]
    split
    · split <;> simp [hidden, List.count_cons]
    · rfl
  | narrow other =>
    simp only [call, narrow]
    split
    · simp [run?, shown]
    · split <;> simp [run?, hidden]
  | clear => cases visible : t.visible <;> simp [call, clear, run?, visible, hidden]

theorem run?_eq_started_iff {c : TrackerCall} :
    t.run? c = some (id, true) ↔ c = .enqueue id := by
  cases c <;> simp [run?]

theorem run?_eq_ended_iff {c : TrackerCall} :
    t.run? c = some (id, false) ↔ c = .dequeue id ∧ t.isActive id = true := by
  cases c with
  | dequeue other =>
    by_cases same : other = id
    · subst same
      simp [run?]
    · simp [run?, same]
  | _ => simp [run?]

/-- What starts with a call goes on, and what ends with it has run. -/
theorem Sound.balance_call (sound : t.Sound) (c : TrackerCall) (id : OperationId) :
    t.runs id + (t.call c).events.count (.operation id true) =
      (t.call c).events.count (.operation id false) + (t.call c).tracker.runs id +
        if c = .clear then t.runs id else 0 := by
  simp only [count_operation, run?_eq_started_iff, run?_eq_ended_iff, sound.runs_call c id]
  cases c with
  | enqueue other => by_cases same : other = id <;> simp [TrackerCall.count, same]
  | dequeue other =>
    by_cases same : other = id
    · subst same
      have active := sound.isActive_iff other
      by_cases runs : t.isActive other = true
      · have positive := active.mp runs
        simp only [TrackerCall.count, runs, reduceCtorEq, and_self, if_true, if_false]
        omega
      · have none : t.runs other = 0 :=
          Nat.eq_zero_of_not_pos fun positive => runs (active.mpr positive)
        simp [TrackerCall.count, runs, none]
    · simp [TrackerCall.count, same]
  | narrow other => simp [TrackerCall.count]
  | clear => simp [TrackerCall.count]

theorem Sound.balance_course (sound : t.Sound) (calls : List TrackerCall) (id : OperationId) :
    t.runs id + (t.course calls).2.count (.operation id true) =
      (t.course calls).2.count (.operation id false) + (t.course calls).1.runs id +
        t.forgotten id calls := by
  induction calls generalizing t with
  | nil => simp [Tracker.course, forgotten]
  | cons c rest ih =>
    have first := sound.balance_call c id
    have others := ih (sound.call c)
    simp only [Tracker.course, forgotten, List.count_append]
    omega

/-- At no time have more runs ended than have started. -/
theorem Sound.ended_le (sound : t.Sound) (calls : List TrackerCall) (id : OperationId)
    {told : List ProgressEvent} (part : told <+: (t.course calls).2) :
    told.count (.operation id false) ≤ t.runs id + told.count (.operation id true) := by
  induction calls generalizing t told with
  | nil =>
    rw [List.prefix_nil.mp part]
    exact Nat.zero_le _
  | cons c rest ih =>
    have first := sound.balance_call c id
    rcases List.prefix_or_prefix_of_prefix part (List.prefix_append _ _) with within | ⟨later, rfl⟩
    · -- an end within a call is of a run from before it
      have fewer := within.sublist.count_le (.operation id false)
      have ended : (t.call c).events.count (.operation id false) ≤ t.runs id := by
        rw [count_operation]
        split
        · exact (sound.isActive_iff id).mp (run?_eq_ended_iff.mp ‹_›).2
        · exact Nat.zero_le _
      omega
    · have others := ih (sound.call c) ((List.prefix_append_right_inj _).mp part)
      simp only [List.count_append]
      omega

end Tracker

end LintBridge

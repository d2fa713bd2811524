import LintBridge.Memo
import Mathlib.Order.Nat
import Mathlib.Tactic.ByContra

namespace LintBridge

namespace Memo

variable {ε α : Type}

/-- All that can become of a memo but to be forgotten. -/
inductive Step (m : Memo ε α) : Memo ε α → Prop
  | stay : Step m m
  | join : Step m m.join.1
  | launch (n : Nat) : Step m (m.launch n)
  | finish (n : Nat) (result : Except ε α) : Step m (m.finish n result)
  | settle {n result} : m.attempt? n = some (.finished result) → Step m (m.settle n result)

/-- An attempt has not ended. -/
def InFlight (m : Memo ε α) (n : Nat) : Prop :=
  m.attempt? n = some .agreed ∨ m.attempt? n = some .running

/-- An attempt has failed. -/
def HasFailed (m : Memo ε α) (n : Nat) : Prop :=
  ∃ e, m.attempt? n = some (.finished (.error e))

theorem lt_of_attempt? {m : Memo ε α} {n : Nat} {a : Attempt ε α}
    (found : m.attempt? n = some a) : n < m.attempts.length :=
  (List.getElem?_eq_some_iff.mp found).1

theorem isAgreed_iff {m : Memo ε α} {n : Nat} :
    m.isAgreed n = true ↔ m.attempt? n = some .agreed := by
  unfold isAgreed
  split
  · rename_i found
    exact iff_of_true rfl found
  · rename_i other
    exact iff_of_false Bool.false_ne_true other

theorem isRunning_iff {m : Memo ε α} {n : Nat} :
    m.isRunning n = true ↔ m.attempt? n = some .running := by
  unfold isRunning
  split
  · rename_i found
    exact iff_of_true rfl found
  · rename_i other
    exact iff_of_false Bool.false_ne_true other

theorem launch_of_agreed {m : Memo ε α} {n : Nat} (agreed : m.attempt? n = some .agreed) :
    m.launch n = { m with attempts := m.attempts.set n .running } :=
  if_pos (isAgreed_iff.mpr agreed)

theorem finish_of_running {m : Memo ε α} {n : Nat} (running : m.attempt? n = some .running)
    (result : Except ε α) :
    m.finish n result = { m with attempts := m.attempts.set n (.finished result) } :=
  if_pos (isRunning_iff.mpr running)

theorem launch_slot (m : Memo ε α) (n : Nat) : (m.launch n).slot = m.slot := by
  unfold launch
  split <;> rfl

theorem finish_slot (m : Memo ε α) (n : Nat) (result : Except ε α) :
    (m.finish n result).slot = m.slot := by
  unfold finish
  split <;> rfl

theorem launch_length (m : Memo ε α) (n : Nat) :
    (m.launch n).attempts.length = m.attempts.length := by
  unfold launch
  split
  · exact List.length_set
  · rfl

theorem finish_length (m : Memo ε α) (n : Nat) (result : Except ε α) :
    (m.finish n result).attempts.length = m.attempts.length := by
  unfold finish
  split
  · exact List.length_set
  · rfl

theorem settle_attempts (m : Memo ε α) (n : Nat) (result : Except ε α) :
    (m.settle n result).attempts = m.attempts := by
  unfold settle
  split
  · split
    · split <;> rfl
    · rfl
  · rfl

/-- To join an attempt changes a memo only where nothing is kept and nothing is being made. -/
theorem join_of_slot_ne {m : Memo ε α} (filled : m.slot ≠ .empty) : m.join.1 = m := by
  unfold join
  split
  · rfl
  · rfl
  · rename_i empty
    exact absurd empty filled

theorem join_of_empty {m : Memo ε α} (empty : m.slot = .empty) :
    m.join = (⟨.pending m.attempts.length, m.attempts ++ [.agreed]⟩,
      .waiting m.attempts.length) := by
  rw [join, empty]

theorem join_of_ready {m : Memo ε α} {value : α} (kept : m.slot = .ready value) :
    m.join = (m, .answered (.ok value)) := by
  rw [join, kept]

theorem join_of_pending {m : Memo ε α} {n : Nat} (waits : m.slot = .pending n) :
    m.join = (m, .waiting n) := by
  rw [join, waits]

/-- A caller that waits goes on waiting, or takes what its attempt came to. -/
theorem step_waiting (m : Memo ε α) (n : Nat) :
    (m.step (.waiting n)).2 = .waiting n ∨ ∃ result,
      m.attempt? n = some (.finished result) ∧ (m.step (.waiting n)).2 = .answered result := by
  rw [step]
  split
  · exact .inl rfl
  · rename_i result found
    exact .inr ⟨result, found, rfl⟩
  · exact .inl rfl

theorem step_of_finished {m : Memo ε α} {n : Nat} {result : Except ε α}
    (found : m.attempt? n = some (.finished result)) :
    m.step (.waiting n) = (m.settle n result, .answered result) := by
  rw [step, found]

theorem attempt?_of_join {m : Memo ε α} {n : Nat} {a : Attempt ε α}
    (found : m.join.1.attempt? n = some a) :
    m.attempt? n = some a ∨ n = m.attempts.length ∧ a = .agreed := by
  by_cases empty : m.slot = .empty
  · have within := lt_of_attempt? found
    rw [join_of_empty empty, List.length_append] at within
    rw [join_of_empty empty, attempt?] at found
    rcases Nat.lt_or_ge n m.attempts.length with old | new
    · rw [List.getElem?_append_left old] at found
      exact .inl found
    · rw [List.getElem?_append_right new] at found
      exact .inr ⟨Nat.le_antisymm (Nat.lt_succ_iff.mp within) new,
        List.mem_singleton.mp (List.mem_of_getElem? found)⟩
  · rw [join_of_slot_ne empty] at found
    exact .inl found

/-- Where an attempt stands afterwards, when one that stood at `before` goes on to `after`. -/
theorem attempt?_of_set {m : Memo ε α} {i n : Nat} {before after a : Attempt ε α}
    (stood : m.attempt? i = some before) (found : (m.attempts.set i after)[n]? = some a) :
    m.attempt? n = some a ∨ i = n ∧ a = after := by
  by_cases same : i = n
  · subst same
    rw [List.getElem?_set_self (lt_of_attempt? stood)] at found
    exact .inr ⟨rfl, (Option.some.inj found).symm⟩
  · rw [List.getElem?_set_ne same] at found
    exact .inl found

/-- An attempt runs that ran before, or that is set going. -/
theorem attempt?_of_launch {m : Memo ε α} {i n : Nat} {a : Attempt ε α}
    (found : (m.launch i).attempt? n = some a) :
    m.attempt? n = some a ∨ i = n ∧ a = .running ∧ m.attempt? n = some .agreed := by
  by_cases agreed : m.attempt? i = some .agreed
  · rw [launch_of_agreed agreed] at found
    rcases attempt?_of_set agreed found with same | ⟨same, runs⟩
    · exact .inl same
    · exact .inr ⟨same, runs, same ▸ agreed⟩
  · rw [Memo.launch, if_neg fun h => agreed (isAgreed_iff.mp h)] at found
    exact .inl found

/-- An attempt has ended that had ended before, or whose run ends. -/
theorem attempt?_of_finish {m : Memo ε α} {i n : Nat} {result : Except ε α} {a : Attempt ε α}
    (found : (m.finish i result).attempt? n = some a) :
    m.attempt? n = some a ∨ i = n ∧ a = .finished result ∧ m.attempt? n = some .running := by
  by_cases running : m.attempt? i = some .running
  · rw [finish_of_running running] at found
    rcases attempt?_of_set running found with same | ⟨same, ends⟩
    · exact .inl same
    · exact .inr ⟨same, ends, same ▸ running⟩
  · rw [Memo.finish, if_neg fun h => running (isRunning_iff.mp h)] at found
    exact .inl found

theorem attempt?_of_step {m : Memo ε α} {c : Caller ε α} {n : Nat} {a : Attempt ε α}
    (found : (m.step c).1.attempt? n = some a) :
    m.attempt? n = some a ∨ (n = m.attempts.length ∧ a = .agreed) ∨
      c = .waiting n ∧ a = .running ∧ m.attempt? n = some .agreed := by
  cases c with
  | asking =>
    rcases attempt?_of_join found with same | agreed
    · exact .inl same
    · exact .inr (.inl agreed)
  | waiting i =>
    rw [step] at found
    split at found
    · rcases attempt?_of_launch found with same | ⟨rfl, launched⟩
      · exact .inl same
      · exact .inr (.inr ⟨rfl, launched⟩)
    · unfold attempt? at found
      rw [settle_attempts] at found
      exact .inl found
    · exact .inl found
  | answered result => exact .inl found

/-- A step of a caller is one of the memo. -/
theorem step_step (m : Memo ε α) (c : Caller ε α) : m.Step (m.step c).1 := by
  cases c with
  | asking => exact .join
  | waiting n =>
    rw [step]
    split
    · exact .launch n
    · rename_i result found
      exact .settle found
    · exact .stay
  | answered result => exact .stay

theorem Step.length_le {m m' : Memo ε α} (step : m.Step m') :
    m.attempts.length ≤ m'.attempts.length := by
  cases step with
  | stay => exact Nat.le_refl _
  | join =>
    by_cases empty : m.slot = .empty
    · rw [join_of_empty empty, List.length_append]
      exact Nat.le_add_right _ _
    · exact Nat.le_of_eq (congrArg (fun m => m.attempts.length) (join_of_slot_ne empty).symm)
  | launch n => exact Nat.le_of_eq (m.launch_length n).symm
  | finish n result => exact Nat.le_of_eq (m.finish_length n result).symm
  | settle => exact Nat.le_of_eq (congrArg List.length (m.settle_attempts _ _)).symm

/-- An attempt is begun where the slot is empty only, and one at a time. -/
theorem Step.begins {m m' : Memo ε α} (step : m.Step m')
    (more : m'.attempts.length ≠ m.attempts.length) :
    m.slot = .empty ∧ m'.attempts.length = m.attempts.length + 1 := by
  cases step with
  | stay => exact absurd rfl more
  | join =>
    by_cases empty : m.slot = .empty
    · rw [join_of_empty empty, List.length_append]
      exact ⟨empty, rfl⟩
    · rw [join_of_slot_ne empty] at more
      exact absurd rfl more
  | launch n => exact absurd (m.launch_length n) more
  | finish n result => exact absurd (m.finish_length n result) more
  | settle => exact absurd (congrArg List.length (m.settle_attempts _ _)) more

/-- What an attempt came to stands. -/
theorem Step.finished {m m' : Memo ε α} (step : m.Step m') {n : Nat} {result : Except ε α}
    (found : m.attempt? n = some (.finished result)) :
    m'.attempt? n = some (.finished result) := by
  -- another attempt that goes on is one that has not ended
  have other {i : Nat} (a : Attempt ε α) (going : m.attempt? i ≠ some (.finished result)) :
      (m.attempts.set i a)[n]? = some (.finished result) := by
    have differ : i ≠ n := fun same => going (same ▸ found)
    exact (List.getElem?_set_ne differ).trans found
  cases step with
  | stay => exact found
  | join =>
    by_cases empty : m.slot = .empty
    · rw [join_of_empty empty]
      exact (List.getElem?_append_left (lt_of_attempt? found)).trans found
    · rw [join_of_slot_ne empty]
      exact found
  | launch i =>
    by_cases agreed : m.attempt? i = some .agreed
    · rw [launch_of_agreed agreed]
      exact other _ (by simp [agreed])
    · rw [Memo.launch, if_neg fun h => agreed (isAgreed_iff.mp h)]
      exact found
  | finish i =>
    by_cases running : m.attempt? i = some .running
    · rw [finish_of_running running]
      exact other _ (by simp [running])
    · rw [Memo.finish, if_neg fun h => running (isRunning_iff.mp h)]
      exact found
  | settle =>
    unfold attempt?
    rw [settle_attempts]
    exact found

/-- An attempt that the slot does not wait for is never waited for again. -/
theorem Step.slot_ne_pending {m m' : Memo ε α} (step : m.Step m') {n : Nat}
    (old : n < m.attempts.length) (other : m.slot ≠ .pending n) : m'.slot ≠ .pending n := by
  cases step with
  | stay => exact other
  | join =>
    by_cases empty : m.slot = .empty
    · rw [join_of_empty empty]
      intro same
      have newest : m.attempts.length = n := Slot.pending.inj same
      omega
    · rw [join_of_slot_ne empty]
      exact other
  | launch i =>
    rw [launch_slot]
    exact other
  | finish i result =>
    rw [finish_slot]
    exact other
  | settle =>
    unfold Memo.settle
    split
    · split
      · split <;> simp
      · exact other
    · exact other

/-- The value that a memo keeps is kept, and no attempt is begun. -/
theorem Step.ready {m m' : Memo ε α} (step : m.Step m') {value : α}
    (kept : m.slot = .ready value) :
    m'.slot = .ready value ∧ m'.attempts.length = m.attempts.length := by
  refine ⟨?_, ?_⟩
  · cases step with
    | stay => exact kept
    | join => rw [join_of_slot_ne (by simp [kept]), kept]
    | launch n => rw [launch_slot, kept]
    | finish n result => rw [finish_slot, kept]
    | settle => rw [settle_of_slot_ne (by simp [kept]), kept]
  · by_contra more
    have empty := (step.begins more).1
    rw [kept] at empty
    cases empty

/-- What holds of the attempts from a number on, when the value was last forgotten before the first
of them: all but the newest have failed, and the newest has failed too, or is waited for, or has
come to the value that is kept. -/
structure Since (first : Nat) (m : Memo ε α) : Prop where
  within : first ≤ m.attempts.length
  failed : ∀ n, first ≤ n → n + 1 < m.attempts.length → m.HasFailed n
  newest : ∀ n, first ≤ n → n + 1 = m.attempts.length → m.HasFailed n ∨ m.slot = .pending n ∨
    ∃ value, m.slot = .ready value ∧ m.attempt? n = some (.finished (.ok value))
  pending : ∀ n, m.slot = .pending n → first ≤ n ∧ n + 1 = m.attempts.length
  ready : ∀ value, m.slot = .ready value → ∃ n, first ≤ n ∧ n + 1 = m.attempts.length ∧
    m.attempt? n = some (.finished (.ok value))

theorem forget_since (m : Memo ε α) : m.forget.Since m.attempts.length := by
  have none : m.forget.attempts = m.attempts := rfl
  refine ⟨Nat.le_refl _, fun n from_ until_ => ?_, fun n from_ until_ => ?_, nofun, nofun⟩
  · rw [none] at until_
    omega
  · rw [none] at until_
    omega

theorem new_since : (new : Memo ε α).Since 0 := forget_since new

section Since

variable {m m' : Memo ε α} {first n : Nat}

/-- An attempt that goes on towards its end leaves all this as it is. -/
theorem Since.of_attempts (since : m.Since first) (slot : m'.slot = m.slot)
    (length : m'.attempts.length = m.attempts.length)
    (stands : ∀ n result, m.attempt? n = some (.finished result) →
      m'.attempt? n = some (.finished result)) : m'.Since first := by
  have failed {n : Nat} : m.HasFailed n → m'.HasFailed n := fun ⟨e, found⟩ => ⟨e, stands n _ found⟩
  refine ⟨length ▸ since.within, fun n from_ until_ => ?_, fun n from_ until_ => ?_,
    fun n waits => ?_, fun value kept => ?_⟩
  · exact failed (since.failed n from_ (length ▸ until_))
  · rw [slot]
    rcases since.newest n from_ (length ▸ until_) with fails | waits | ⟨value, kept, found⟩
    · exact .inl (failed fails)
    · exact .inr (.inl waits)
    · exact .inr (.inr ⟨value, kept, stands n _ found⟩)
  · rw [length]
    exact since.pending n (slot ▸ waits)
  · obtain ⟨n, from_, newest, found⟩ := since.ready value (slot ▸ kept)
    exact ⟨n, from_, newest.trans length.symm, stands n _ found⟩

theorem Since.join (since : m.Since first) : m.join.1.Since first := by
  by_cases empty : m.slot = .empty
  · -- nothing is kept and nothing being made: the newest attempt, if any, has failed as well
    have failed (n : Nat) (from_ : first ≤ n) (until_ : n < m.attempts.length) : m.HasFailed n := by
      rcases Nat.lt_or_eq_of_le until_ with older | newest
      · exact since.failed n from_ older
      · rcases since.newest n from_ newest with fails | waits | ⟨_, kept, _⟩
        · exact fails
        · cases empty.symm.trans waits
        · cases empty.symm.trans kept
    have within := since.within
    have longer : m.join.1.attempts.length = m.attempts.length + 1 := by
      rw [join_of_empty empty, List.length_append]
      rfl
    have slot : m.join.1.slot = .pending m.attempts.length := by rw [join_of_empty empty]
    refine ⟨by omega, fun n from_ until_ => ?_, fun n from_ until_ => ?_, fun n waits => ?_,
      fun value kept => ?_⟩
    · obtain ⟨e, found⟩ := failed n from_ (by omega)
      exact ⟨e, Step.join.finished found⟩
    · have same : n = m.attempts.length := by omega
      exact .inr (.inl (same ▸ slot))
    · have same : n = m.attempts.length := Slot.pending.inj (waits.symm.trans slot)
      omega
    · cases slot.symm.trans kept
  · rw [join_of_slot_ne empty]
    exact since

theorem Since.settle (since : m.Since first) {result : Except ε α}
    (found : m.attempt? n = some (.finished result)) : (m.settle n result).Since first := by
  by_cases waits : m.slot = .pending n
  · obtain ⟨from_, last⟩ := since.pending n waits
    cases result with
    | ok value =>
      have settled : m.settle n (.ok value) = { m with slot := .ready value } := by
        rw [Memo.settle, waits]
        exact if_pos rfl
      rw [settled]
      refine ⟨since.within, since.failed, fun i _ untilI => ?_, nofun, fun other kept => ?_⟩
      · have same : i = n := by
          dsimp only at untilI
          omega
        exact .inr (.inr ⟨value, rfl, same ▸ found⟩)
      · cases kept
        exact ⟨n, from_, last, found⟩
    | error e =>
      have settled : m.settle n (.error e) = { m with slot := .empty } := by
        rw [Memo.settle, waits]
        exact if_pos rfl
      rw [settled]
      refine ⟨since.within, since.failed, fun i _ untilI => ?_, nofun, nofun⟩
      have same : i = n := by
        dsimp only at untilI
        omega
      exact .inl ⟨e, same ▸ found⟩
  · rw [settle_of_slot_ne waits]
    exact since

theorem Since.step (since : m.Since first) (step : m.Step m') : m'.Since first := by
  cases step with
  | stay => exact since
  | join => exact since.join
  | launch i =>
    exact since.of_attempts (m.launch_slot i) (m.launch_length i)
      fun _ _ => (Step.launch i).finished
  | finish i result =>
    exact since.of_attempts (m.finish_slot i result) (m.finish_length i result)
      fun _ _ => (Step.finish i result).finished
  | settle found => exact since.settle found

/-- An attempt made since then that has not failed is the newest, and it is waited for or has come
to the value that is kept. -/
theorem Since.of_not_failed (since : m.Since first) (from_ : first ≤ n)
    (old : n < m.attempts.length) (well : ¬m.HasFailed n) :
    n + 1 = m.attempts.length ∧ (m.slot = .pending n ∨
      ∃ value, m.slot = .ready value ∧ m.attempt? n = some (.finished (.ok value))) := by
  rcases Nat.lt_or_eq_of_le old with older | newest
  · exact absurd (since.failed n from_ older) well
  · exact ⟨newest, (since.newest n from_ newest).resolve_left well⟩

/-- Who joins comes to the newest attempt, or to the value that it has come to. -/
theorem Since.join_newest (since : m.Since first) :
    ∃ n, first ≤ n ∧ n + 1 = m.join.1.attempts.length ∧ (m.join.2 = .waiting n ∨
      ∃ value, m.attempt? n = some (.finished (.ok value)) ∧
        m.join.2 = .answered (.ok value)) := by
  cases slot : m.slot with
  | empty =>
    rw [join_of_empty slot]
    exact ⟨m.attempts.length, since.within, by simp, .inl rfl⟩
  | pending n =>
    obtain ⟨from_, last⟩ := since.pending n slot
    rw [join_of_pending slot]
    exact ⟨n, from_, last, .inl rfl⟩
  | ready value =>
    obtain ⟨n, from_, last, found⟩ := since.ready value slot
    rw [join_of_ready slot]
    exact ⟨n, from_, last, .inr ⟨value, found, rfl⟩⟩

/-- An attempt made since then that has not ended is the one that is waited for. -/
theorem Since.pending_of_inFlight (since : m.Since first) (from_ : first ≤ n)
    (going : m.InFlight n) : m.slot = .pending n := by
  have goes (result : Except ε α) : m.attempt? n ≠ some (.finished result) := by
    rcases going with agreed | running
    · simp [agreed]
    · simp [running]
  have old : n < m.attempts.length := by
    rcases going with agreed | running
    · exact lt_of_attempt? agreed
    · exact lt_of_attempt? running
  rcases (since.of_not_failed from_ old fun ⟨e, found⟩ => goes _ found).2 with waits | ⟨v, _, found⟩
  · exact waits
  · exact absurd found (goes _)

end Since

/-- A memo in the course of time: each step is one of the memo, or forgets the value. -/
structure Course (memo : Nat → Memo ε α) (forgets : Nat → Prop) : Prop where
  start : memo 0 = new
  step : ∀ t, ¬forgets t → (memo t).Step (memo (t + 1))
  forget : ∀ t, forgets t → memo (t + 1) = (memo t).forget

section Course

variable {memo : Nat → Memo ε α} {forgets : Nat → Prop} {s t n : Nat}

theorem Course.length_le (course : Course memo forgets) (later : s ≤ t) :
    (memo s).attempts.length ≤ (memo t).attempts.length := by
  induction t, later using Nat.le_induction with
  | base => exact Nat.le_refl _
  | succ t _ ih =>
    by_cases forgot : forgets t
    · rw [course.forget t forgot]
      exact ih
    · exact ih.trans (course.step t forgot).length_le

/-- What an attempt came to stands for good. -/
theorem Course.finished (course : Course memo forgets) {result : Except ε α} (later : s ≤ t)
    (found : (memo s).attempt? n = some (.finished result)) :
    (memo t).attempt? n = some (.finished result) := by
  induction t, later using Nat.le_induction with
  | base => exact found
  | succ t _ ih =>
    by_cases forgot : forgets t
    · rw [course.forget t forgot]
      exact ih
    · exact (course.step t forgot).finished ih

theorem Course.finished_unique (course : Course memo forgets) {result result' : Except ε α}
    (found : (memo s).attempt? n = some (.finished result))
    (found' : (memo t).attempt? n = some (.finished result')) : result = result' := by
  have early := course.finished (Nat.le_max_left s t) found
  have late := course.finished (Nat.le_max_right s t) found'
  exact Attempt.finished.inj (Option.some.inj (early.symm.trans late))

/-- An attempt that the slot does not wait for is never waited for again. -/
theorem Course.slot_ne_pending (course : Course memo forgets) (later : s ≤ t)
    (old : n < (memo s).attempts.length) (other : (memo s).slot ≠ .pending n) :
    (memo t).slot ≠ .pending n := by
  induction t, later using Nat.le_induction with
  | base => exact other
  | succ t between ih =>
    by_cases forgot : forgets t
    · rw [course.forget t forgot]
      exact fun waits => nomatch waits
    · exact (course.step t forgot).slot_ne_pending (old.trans_le (course.length_le between)) ih

/-- The value that a memo keeps is kept until it is forgotten, and no attempt is begun. -/
theorem Course.ready (course : Course memo forgets) {value : α} (later : s ≤ t)
    (kept : (memo s).slot = .ready value) (remembered : ∀ i, s ≤ i → i < t → ¬forgets i) :
    (memo t).slot = .ready value ∧
      (memo t).attempts.length = (memo s).attempts.length := by
  induction t, later using Nat.le_induction with
  | base => exact ⟨kept, rfl⟩
  | succ t between ih =>
    obtain ⟨slot, length⟩ := ih fun i from_ until_ => remembered i from_ (by omega)
    obtain ⟨slot', length'⟩ := (course.step t (remembered t between (by omega))).ready slot
    exact ⟨slot', length'.trans length⟩

/-- The attempts that were begun since the value was last forgotten are those from a number on. -/
theorem Course.since (course : Course memo forgets) (t : Nat) :
    ∃ first, (memo t).Since first ∧
      ∀ n, n < first ↔ ∃ s, s < t ∧ forgets s ∧ n < (memo s).attempts.length := by
  induction t with
  | zero =>
    refine ⟨0, course.start ▸ new_since,
      fun n => ⟨fun below => absurd below (Nat.not_lt_zero n), ?_⟩⟩
    rintro ⟨s, before, _⟩
    exact absurd before (Nat.not_lt_zero s)
  | succ t ih =>
    obtain ⟨first, since, count⟩ := ih
    by_cases forgot : forgets t
    · refine ⟨(memo t).attempts.length, ?_, fun n => ⟨fun old => ?_, ?_⟩⟩
      · rw [course.forget t forgot]
        exact forget_since _
      · exact ⟨t, Nat.lt_succ_self t, forgot, old⟩
      · rintro ⟨s, before, _, old⟩
        exact old.trans_le (course.length_le (Nat.lt_succ_iff.mp before))
    · refine ⟨first, since.step (course.step t forgot), fun n => (count n).trans ⟨?_, ?_⟩⟩
      · rintro ⟨s, before, rest⟩
        exact ⟨s, before.trans (Nat.lt_succ_self t), rest⟩
      · rintro ⟨s, before, forgotS, old⟩
        have differ : s ≠ t := fun same => forgot (same ▸ forgotS)
        exact ⟨s, by omega, forgotS, old⟩

/-- While nothing is forgotten, all that is begun is not forgotten. -/
theorem Course.since_of_remembered (course : Course memo forgets)
    (remembered : ∀ i, s ≤ i → i < t → ¬forgets i) :
    ∃ first, (memo t).Since first ∧ first ≤ (memo s).attempts.length := by
  obtain ⟨first, since, count⟩ := course.since t
  refine ⟨first, since, ?_⟩
  by_contra more
  obtain ⟨i, before, forgot, old⟩ := (count _).mp (Nat.not_le.mp more)
  rcases Nat.lt_or_ge i s with early | late
  · exact absurd (course.length_le early.le) (Nat.not_le.mpr old)
  · exact remembered i late before forgot

end Course

end Memo

end LintBridge

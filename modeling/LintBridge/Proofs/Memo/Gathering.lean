import LintBridge.Proofs.Memo.Attempts
import Mathlib.Order.Nat
import Mathlib.Tactic.IntervalCases

namespace LintBridge

section Seat

variable {β : Type} {seats : List (Option β)} {j k : Nat}

/-- Who has come by a number, unless they have left. -/
def seat? (seats : List (Option β)) (k : Nat) : Option β := (seats[k]?).join

theorem lt_of_seat? {b : β} (found : seat? seats k = some b) : k < seats.length := by
  by_contra beyond
  rw [seat?, List.getElem?_eq_none (Nat.not_lt.mp beyond)] at found
  cases found

theorem seat?_set_self (here : k < seats.length) (b : Option β) : seat? (seats.set k b) k = b := by
  rw [seat?, List.getElem?_set_self here]
  rfl

theorem seat?_set_of_ne (differ : j ≠ k) (b : Option β) :
    seat? (seats.set j b) k = seat? seats k := by
  rw [seat?, List.getElem?_set_ne differ]
  rfl

theorem seat?_append (here : k < seats.length) (b : Option β) :
    seat? (seats ++ [b]) k = seat? seats k :=
  congrArg Option.join (List.getElem?_append_left here)

theorem seat?_append_self (b : Option β) : seat? (seats ++ [b]) seats.length = b :=
  congrArg Option.join List.getElem?_concat_length

end Seat

/-- A memo with its callers by number. One that has left is none. -/
structure Gathering (ε α : Type) where
  memo : Memo ε α
  callers : List (Option (Caller ε α))

namespace Gathering

variable {ε α : Type}

/-- What can happen at a memo. -/
inductive Move (ε α : Type) where
  /-- A caller comes. -/
  | call
  | goOn (caller : Nat)
  /-- The run of an attempt ends. -/
  | finish (attempt : Nat) (result : Except ε α)
  | drop (caller : Nat)
  | forget

/-- A caller that has not left. -/
def caller? (g : Gathering ε α) (k : Nat) : Option (Caller ε α) := seat? g.callers k

/-- Carry out a move. One of a caller that is not there does nothing. -/
def move (g : Gathering ε α) : Move ε α → Gathering ε α
  | .call => { g with callers := g.callers ++ [some .asking] }
  | .goOn k =>
    match g.caller? k with
    | some c => ⟨(g.memo.step c).1, g.callers.set k (some (g.memo.step c).2)⟩
    | none => g
  | .finish n result => { g with memo := g.memo.finish n result }
  | .drop k => { g with callers := g.callers.set k none }
  | .forget => { g with memo := g.memo.forget }

/-- A gathering in the course of some moves: after so many of them. -/
def course (moves : Nat → Move ε α) : Nat → Gathering ε α
  | 0 => ⟨.new, []⟩
  | t + 1 => (course moves t).move (moves t)

/-- Whether the value was forgotten after an attempt was begun. -/
def Forgotten (moves : Nat → Move ε α) (t n : Nat) : Prop :=
  ∃ s, s < t ∧ moves s = .forget ∧ n < (course moves s).memo.attempts.length

theorem move_goOn {g : Gathering ε α} {k : Nat} {c : Caller ε α} (found : g.caller? k = some c) :
    g.move (.goOn k) = ⟨(g.memo.step c).1, g.callers.set k (some (g.memo.step c).2)⟩ := by
  rw [move, found]

/-- Whatever happens is a step of the memo, but to forget the value. -/
theorem move_memo (g : Gathering ε α) {mv : Move ε α} (remembers : mv ≠ .forget) :
    g.memo.Step (g.move mv).memo := by
  cases mv with
  | forget => exact absurd rfl remembers
  | call | drop k => exact .stay
  | finish n result => exact .finish n result
  | goOn k =>
    cases found : g.caller? k with
    | none =>
      rw [move, found]
      exact .stay
    | some c =>
      rw [move_goOn found]
      exact g.memo.step_step c

/-- What a move makes of a caller. -/
def turn (g : Gathering ε α) (k : Nat) (c : Caller ε α) : Move ε α → Option (Caller ε α)
  | .goOn j => if j = k then some (g.memo.step c).2 else some c
  | .drop j => if j = k then none else some c
  | _ => some c

theorem turn_cases (g : Gathering ε α) (k : Nat) (c : Caller ε α) (mv : Move ε α) :
    g.turn k c mv = some c ∨ mv = .drop k ∧ g.turn k c mv = none ∨
      mv = .goOn k ∧ g.turn k c mv = some (g.memo.step c).2 := by
  cases mv with
  | call | finish | forget => exact .inl rfl
  | drop j =>
    by_cases same : j = k
    · exact .inr (.inl ⟨congrArg Move.drop same, if_pos same⟩)
    · exact .inl (if_neg same)
  | goOn j =>
    by_cases same : j = k
    · exact .inr (.inr ⟨congrArg Move.goOn same, if_pos same⟩)
    · exact .inl (if_neg same)

/-- Where a caller stands comes from where it stood. -/
theorem caller?_move (g : Gathering ε α) {k : Nat} (here : k < g.callers.length) (mv : Move ε α) :
    (g.move mv).caller? k = (g.caller? k).bind (g.turn k · mv) := by
  cases mv with
  | call => exact (seat?_append here _).trans (Option.bind_fun_some _).symm
  | finish | forget => exact (Option.bind_fun_some _).symm
  | drop j =>
    by_cases same : j = k
    · subst same
      rw [move, caller?, seat?_set_self here]
      cases g.caller? j <;> simp [turn]
    · rw [move, caller?, seat?_set_of_ne same]
      simp [turn, same, caller?]
  | goOn j =>
    by_cases same : j = k
    · subst same
      rw [move]
      split
      · rename_i c found
        rw [caller?, seat?_set_self here, found]
        simp [turn]
      · rename_i gone
        rw [gone]
        rfl
    · have stays : (g.caller? k).bind (g.turn k · (.goOn j)) = g.caller? k := by simp [turn, same]
      rw [stays, move]
      split
      · exact seat?_set_of_ne same _
      · rfl

theorem move_caller {g : Gathering ε α} {k : Nat} {c : Caller ε α} (found : g.caller? k = some c)
    (mv : Move ε α) :
    (g.move mv).caller? k = some c ∨ mv = .drop k ∧ (g.move mv).caller? k = none ∨
      mv = .goOn k ∧ (g.move mv).caller? k = some (g.memo.step c).2 := by
  rw [g.caller?_move (lt_of_seat? found), found]
  exact g.turn_cases k c mv

theorem caller_of_move {g : Gathering ε α} {k : Nat} (here : k < g.callers.length)
    {mv : Move ε α} {c : Caller ε α} (found : (g.move mv).caller? k = some c) :
    ∃ before, g.caller? k = some before ∧
      (c = before ∨ mv = .goOn k ∧ c = (g.memo.step before).2) := by
  rw [g.caller?_move here] at found
  obtain ⟨before, stood, turned⟩ := Option.bind_eq_some_iff.mp found
  refine ⟨before, stood, ?_⟩
  rcases g.turn_cases k before mv with same | ⟨_, gone⟩ | ⟨own, next⟩
  · exact .inl (Option.some.inj (turned.symm.trans same))
  · cases turned.symm.trans gone
  · exact .inr ⟨own, Option.some.inj (turned.symm.trans next)⟩

theorem callers_length_le (g : Gathering ε α) (mv : Move ε α) :
    g.callers.length ≤ (g.move mv).callers.length := by
  cases mv with
  | call => exact List.length_append ▸ Nat.le_add_right _ _
  | finish | forget => exact Nat.le_refl _
  | drop k => exact Nat.le_of_eq List.length_set.symm
  | goOn k =>
    rw [move]
    split
    · exact Nat.le_of_eq List.length_set.symm
    · exact Nat.le_refl _

/-- One that has just come is asking. -/
theorem asking_of_new {g : Gathering ε α} {k : Nat} (new : g.callers.length ≤ k) {mv : Move ε α}
    {c : Caller ε α} (found : (g.move mv).caller? k = some c) : c = .asking := by
  have here := lt_of_seat? found
  cases mv with
  | call =>
    have longer : (g.move .call).callers.length = g.callers.length + 1 := List.length_append
    have last : k = g.callers.length := by omega
    subst last
    have asks : (g.move .call).caller? g.callers.length = some .asking :=
      seat?_append_self _
    exact Option.some.inj (found.symm.trans asks)
  | finish | forget => exact absurd here (Nat.not_lt.mpr new)
  | drop j => exact absurd (List.length_set ▸ here) (Nat.not_lt.mpr new)
  | goOn j =>
    rw [move] at here
    split at here
    · exact absurd (List.length_set ▸ here) (Nat.not_lt.mpr new)
    · exact absurd here (Nat.not_lt.mpr new)

section Course

variable (moves : Nat → Move ε α)

theorem course_memo :
    Memo.Course (fun t => (course moves t).memo) fun t => moves t = .forget where
  start := rfl
  step t remembers := (course moves t).move_memo remembers
  forget t forgets := by
    rw [course, forgets]
    rfl

theorem course_goOn {t k : Nat} {c : Caller ε α} (stood : (course moves t).caller? k = some c)
    (own : moves t = .goOn k) :
    (course moves (t + 1)).memo = ((course moves t).memo.step c).1 ∧
      (course moves (t + 1)).caller? k = some ((course moves t).memo.step c).2 := by
  have moved : course moves (t + 1) = ⟨((course moves t).memo.step c).1,
      (course moves t).callers.set k (some ((course moves t).memo.step c).2)⟩ := by
    rw [course, own, move_goOn stood]
  rw [moved]
  exact ⟨rfl, seat?_set_self (lt_of_seat? stood) _⟩

/-- A caller waits for an attempt that was begun. -/
theorem waits_for_begun (t : Nat) {k n : Nat}
    (waits : (course moves t).caller? k = some (.waiting n)) :
    n < (course moves t).memo.attempts.length := by
  induction t with
  | zero => cases waits
  | succ t ih =>
    have grows := (course_memo moves).length_le (Nat.le_succ t)
    rcases Nat.lt_or_ge k (course moves t).callers.length with here | new
    · obtain ⟨before, stood, same | ⟨own, next⟩⟩ := caller_of_move here waits
      · exact (ih (same ▸ stood)).trans_le grows
      · cases before with
        | asking =>
          obtain ⟨_, since, _⟩ := (course_memo moves).since t
          obtain ⟨m, _, newest, joined⟩ := since.join_newest
          rw [(course_goOn moves stood own).1]
          rcases joined with waits' | ⟨_, _, told⟩
          · cases next.trans waits'
            exact Nat.lt_of_succ_le (Nat.le_of_eq newest)
          · cases next.trans told
        | waiting m =>
          rcases (course moves t).memo.step_waiting m with still | ⟨result, _, answered⟩
          · cases next.trans still
            exact (ih stood).trans_le grows
          · cases next.trans answered
        | answered result => cases next
    · cases asking_of_new new waits

/-- A caller that has come to an attempt, and does not leave, waits until it has its result. -/
theorem waiting_course {s t k n : Nat} (later : s ≤ t)
    (waits : (course moves s).caller? k = some (.waiting n))
    (stays : ∀ i, s ≤ i → i < t → moves i ≠ .drop k) :
    (course moves t).caller? k = some (.waiting n) ∨ ∃ result,
      (course moves t).memo.attempt? n = some (.finished result) ∧
      (course moves t).caller? k = some (.answered result) := by
  induction t, later using Nat.le_induction with
  | base => exact .inl waits
  | succ t between ih =>
    have here : moves t ≠ .drop k := stays t between (Nat.lt_succ_self t)
    rcases ih fun i from_ until_ => stays i from_ (by omega) with waiting | ⟨result, ended, has⟩
    · rcases move_caller waiting (moves t) with same | ⟨leaves, _⟩ | ⟨_, next⟩
      · exact .inl same
      · exact absurd leaves here
      · rcases (course moves t).memo.step_waiting n with still | ⟨result, ended, answered⟩
        · exact .inl (next.trans (congrArg some still))
        · exact .inr ⟨result, (course_memo moves).finished (Nat.le_succ t) ended,
            next.trans (congrArg some answered)⟩
    · have ended' := (course_memo moves).finished (Nat.le_succ t) ended
      rcases move_caller has (moves t) with same | ⟨leaves, _⟩ | ⟨_, next⟩
      · exact .inr ⟨result, ended', same⟩
      · exact absurd leaves here
      · exact .inr ⟨result, ended', next⟩

/-- A caller that asks once the slot does not wait for an attempt any more has nothing from it: if
it is told of a failure, it is that of another attempt that it waited for. -/
theorem apart_course {s t k n : Nat} (later : s ≤ t)
    (asks : (course moves s).caller? k = some .asking)
    (old : n < (course moves s).memo.attempts.length)
    (other : (course moves s).memo.slot ≠ .pending n) {c : Caller ε α}
    (found : (course moves t).caller? k = some c) :
    c = .asking ∨ (∃ m, m ≠ n ∧ c = .waiting m) ∨ (∃ value, c = .answered (.ok value)) ∨
    ∃ m e, m ≠ n ∧ c = .answered (.error e) ∧
      (course moves t).memo.attempt? m = some (.finished (.error e)) ∧
      ∃ i, s ≤ i ∧ i < t ∧ (course moves i).caller? k = some (.waiting m) := by
  have there : k < (course moves s).callers.length := lt_of_seat? asks
  induction t, later using Nat.le_induction generalizing c with
  | base => exact .inl (Option.some.inj (found.symm.trans asks))
  | succ t between ih =>
    have here : k < (course moves t).callers.length := by
      clear ih found
      induction t, between using Nat.le_induction with
      | base => exact there
      | succ t _ ih => exact ih.trans_le (callers_length_le _ _)
    obtain ⟨before, stood, same | ⟨_, next⟩⟩ := caller_of_move here found
    · subst same
      rcases ih stood with
        asking | waiting | value | ⟨m, e, differ, told, failed, i, from_, until_, at_⟩
      · exact .inl asking
      · exact .inr (.inl waiting)
      · exact .inr (.inr (.inl value))
      · exact .inr (.inr (.inr ⟨m, e, differ, told,
          (course_memo moves).finished (Nat.le_succ t) failed, i, from_, by omega, at_⟩))
    · rcases ih stood with rfl | ⟨m, differ, rfl⟩ | ⟨value, rfl⟩ |
        ⟨m, e, differ, rfl, failed, i, from_, until_, at_⟩
      · replace next : c = (course moves t).memo.join.2 := next
        cases slot : (course moves t).memo.slot with
        | ready value =>
          rw [Memo.join_of_ready slot] at next
          exact .inr (.inr (.inl ⟨value, next⟩))
        | pending m =>
          rw [Memo.join_of_pending slot] at next
          have apart := (course_memo moves).slot_ne_pending between old other
          exact .inr (.inl ⟨m, fun same => apart (same ▸ slot), next⟩)
        | empty =>
          rw [Memo.join_of_empty slot] at next
          have grows := (course_memo moves).length_le between
          exact .inr (.inl ⟨_, by omega, next⟩)
      · rcases (course moves t).memo.step_waiting m with still | ⟨result, ended, answered⟩
        · exact .inr (.inl ⟨m, differ, next.trans still⟩)
        · cases result with
          | ok value => exact .inr (.inr (.inl ⟨value, next.trans answered⟩))
          | error e =>
            exact .inr (.inr (.inr ⟨m, e, differ, next.trans answered,
              (course_memo moves).finished (Nat.le_succ t) ended, t, between, Nat.lt_succ_self t,
              stood⟩))
      · exact .inr (.inr (.inl ⟨value, next⟩))
      · exact .inr (.inr (.inr ⟨m, e, differ, next,
          (course_memo moves).finished (Nat.le_succ t) failed, i, from_, by omega, at_⟩))

/-- Of the attempts that were not forgotten, one at most has not ended: the one waited for. -/
theorem pending_of_inFlight {t n : Nat} (going : (course moves t).memo.InFlight n)
    (kept : ¬Forgotten moves t n) : (course moves t).memo.slot = .pending n := by
  obtain ⟨first, since, count⟩ := (course_memo moves).since t
  exact since.pending_of_inFlight (Nat.not_lt.mp fun below => kept ((count n).mp below)) going

/-- A caller that waits and goes on sets its attempt going, or is told what it came to. -/
theorem goOn_of_waiting {t k n : Nat} (waits : (course moves t).caller? k = some (.waiting n))
    (own : moves t = .goOn k) :
    ((course moves t).memo.attempt? n = some .agreed ∧
      (course moves (t + 1)).memo.attempt? n = some .running) ∨
    (course moves t).memo.attempt? n = some .running ∨ ∃ result,
      (course moves t).memo.attempt? n = some (.finished result) ∧
      (course moves (t + 1)).caller? k = some (.answered result) := by
  obtain ⟨memo, caller⟩ := course_goOn moves waits own
  have begun := waits_for_begun moves t waits
  obtain ⟨a, found⟩ : ∃ a, (course moves t).memo.attempt? n = some a :=
    ⟨_, List.getElem?_eq_getElem begun⟩
  cases a with
  | agreed =>
    refine .inl ⟨found, ?_⟩
    rw [memo, Memo.step, found]
    change ((course moves t).memo.launch n).attempt? n = some .running
    rw [Memo.launch_of_agreed found]
    exact List.getElem?_set_self begun
  | running => exact .inr (.inl found)
  | finished result =>
    refine .inr (.inr ⟨result, found, ?_⟩)
    rw [caller, Memo.step_of_finished found]

/-- A caller that comes begins an attempt where nothing is kept, and else waits for the one that is
under way. -/
theorem goOn_of_asking {t k : Nat} (asks : (course moves t).caller? k = some .asking)
    (own : moves t = .goOn k) :
    ((course moves t).memo.slot = .empty →
      (course moves (t + 1)).caller? k =
        some (.waiting (course moves t).memo.attempts.length) ∧
      (course moves (t + 1)).memo.slot = .pending (course moves t).memo.attempts.length) ∧
    ∀ n, (course moves t).memo.slot = .pending n →
      (course moves (t + 1)).caller? k = some (.waiting n) ∧
      (course moves (t + 1)).memo = (course moves t).memo := by
  obtain ⟨memo, caller⟩ := course_goOn moves asks own
  have joins : (course moves t).memo.step .asking = (course moves t).memo.join := rfl
  rw [joins] at memo caller
  refine ⟨fun empty => ?_, fun n pending => ?_⟩
  · rw [Memo.join_of_empty empty] at memo caller
    exact ⟨caller, memo ▸ rfl⟩
  · rw [Memo.join_of_pending pending] at memo caller
    exact ⟨caller, memo⟩

/-- Where a value is kept a caller is told it, and no attempt is made. -/
theorem goOn_of_ready {t k : Nat} {value : α} (kept : (course moves t).memo.slot = .ready value)
    (asks : (course moves t).caller? k = some .asking) (own : moves t = .goOn k) :
    (course moves (t + 1)).caller? k = some (.answered (.ok value)) ∧
      (course moves (t + 1)).memo = (course moves t).memo := by
  obtain ⟨memo, caller⟩ := course_goOn moves asks own
  have joins : (course moves t).memo.step .asking =
      ((course moves t).memo, .answered (.ok value)) :=
    Memo.join_of_ready kept
  rw [joins] at memo caller
  exact ⟨caller, memo⟩

/-- Once a caller is told that its attempt has failed, the slot does not wait for that attempt. -/
theorem released_of_failure {s k n : Nat} {e : ε}
    (waits : (course moves s).caller? k = some (.waiting n))
    (failed : (course moves s).memo.attempt? n = some (.finished (.error e)))
    (own : moves s = .goOn k) : (course moves (s + 1)).memo.slot ≠ .pending n := by
  have settled : (course moves (s + 1)).memo = (course moves s).memo.settle n (.error e) := by
    rw [(course_goOn moves waits own).1, Memo.step_of_finished failed]
  rw [settled]
  by_cases pending : (course moves s).memo.slot = .pending n
  · rw [Memo.settle, pending]
    simp
  · rw [Memo.settle_of_slot_ne pending]
    exact pending

/-- An attempt that was forgotten does not touch the slot, neither as its run ends nor as a caller
of it goes on. -/
theorem slot_of_forgotten {t n : Nat} (forgot : Forgotten moves t n)
    (acts : (∃ result, moves t = .finish n result) ∨
      ∃ k, moves t = .goOn k ∧ (course moves t).caller? k = some (.waiting n)) :
    (course moves (t + 1)).memo.slot = (course moves t).memo.slot := by
  obtain ⟨first, since, count⟩ := (course_memo moves).since t
  have before : n < first := (count n).mpr forgot
  have other : (course moves t).memo.slot ≠ .pending n := fun waits => by
    have from_ := (since.pending n waits).1
    omega
  rcases acts with ⟨result, ends⟩ | ⟨k, own, waits⟩
  · rw [course, ends]
    exact Memo.finish_slot _ n result
  · rw [(course_goOn moves waits own).1, Memo.step]
    split
    · exact Memo.launch_slot _ n
    · rw [Memo.settle_of_slot_ne other]
    · rfl

end Course

/-- A memo whose callers come, go on and leave in any order, while attempts end and the value is
forgotten at any time. An attempt is begun where the slot is empty only, by a caller that looks
then, so that one at most goes on that was not forgotten. Who has come to an attempt gets what it
comes to, and nothing else. A value that is kept is told without another attempt until it is
forgotten; it is one that an attempt has come to that was not forgotten. Once a caller was told that
an attempt failed, nobody who asks later is told of that failure, and an attempt that was forgotten
does not touch the slot. -/
theorem answers_are_shared (moves : Nat → Move ε α) :
    let memo t := (course moves t).memo
    let caller? t k := (course moves t).caller? k
    (∀ t, (memo (t + 1)).attempts.length ≠ (memo t).attempts.length →
      (memo t).slot = .empty ∧ (memo (t + 1)).attempts.length = (memo t).attempts.length + 1) ∧
    (∀ t k, caller? t k = some .asking → moves t = .goOn k →
      ((memo t).slot = .empty →
        caller? (t + 1) k = some (.waiting (memo t).attempts.length) ∧
        (memo (t + 1)).slot = .pending (memo t).attempts.length) ∧
      ∀ n, (memo t).slot = .pending n →
        caller? (t + 1) k = some (.waiting n) ∧ memo (t + 1) = memo t) ∧
    (∀ t m n, (memo t).InFlight m → ¬Forgotten moves t m → (memo t).InFlight n →
      ¬Forgotten moves t n → m = n) ∧
    (∀ s t k n, s ≤ t → caller? s k = some (.waiting n) →
      (∀ i, s ≤ i → i < t → moves i ≠ .drop k) →
      caller? t k = some (.waiting n) ∨ ∃ result,
        (memo t).attempt? n = some (.finished result) ∧ caller? t k = some (.answered result)) ∧
    (∀ t k n, caller? t k = some (.waiting n) → moves t = .goOn k →
      (memo t).attempt? n = some .agreed ∧ (memo (t + 1)).attempt? n = some .running ∨
      (memo t).attempt? n = some .running ∨ ∃ result,
        (memo t).attempt? n = some (.finished result) ∧
        caller? (t + 1) k = some (.answered result)) ∧
    (∀ s t value, s ≤ t → (memo s).slot = .ready value →
      (∀ i, s ≤ i → i < t → moves i ≠ .forget) →
      (memo t).slot = .ready value ∧ (memo t).attempts.length = (memo s).attempts.length ∧
      ∀ k, caller? t k = some .asking → moves t = .goOn k →
        caller? (t + 1) k = some (.answered (.ok value)) ∧ memo (t + 1) = memo t) ∧
    (∀ t value, (memo t).slot = .ready value → ∃ n, ¬Forgotten moves t n ∧
      (memo t).attempt? n = some (.finished (.ok value))) ∧
    (∀ s k n e, caller? s k = some (.waiting n) →
      (memo s).attempt? n = some (.finished (.error e)) → moves s = .goOn k →
      ∀ i t j c, s < i → i ≤ t → caller? i j = some .asking → caller? t j = some c →
        c ≠ .waiting n ∧ ∀ e', c = .answered (.error e') → ∃ m, m ≠ n ∧
          (memo t).attempt? m = some (.finished (.error e')) ∧
          ∃ u, i ≤ u ∧ u < t ∧ caller? u j = some (.waiting m)) ∧
    (∀ t n, Forgotten moves t n →
      ((∃ result, moves t = .finish n result) ∨
        ∃ k, moves t = .goOn k ∧ caller? t k = some (.waiting n)) →
      (memo (t + 1)).slot = (memo t).slot) := by
  intro memo caller?
  refine ⟨fun t more => ?_, fun t k asks own => goOn_of_asking moves asks own,
    fun t m n goesM keptM goesN keptN => ?_,
    fun s t k n later waits stays => waiting_course moves later waits stays,
    fun t k n waits own => goOn_of_waiting moves waits own,
    fun s t value later kept remembered => ?_, fun t value kept => ?_,
    fun s k n e waits failed own i t j c after later asks found => ?_,
    fun t n forgot acts => slot_of_forgotten moves forgot acts⟩
  · have remembers : moves t ≠ .forget := fun forgets =>
      more (congrArg (fun m => m.attempts.length) ((course_memo moves).forget t forgets))
    exact ((course_memo moves).step t remembers).begins more
  · have waitsM := pending_of_inFlight moves goesM keptM
    have waitsN := pending_of_inFlight moves goesN keptN
    exact Slot.pending.inj (waitsM.symm.trans waitsN)
  · obtain ⟨slot, length⟩ := (course_memo moves).ready later kept remembered
    exact ⟨slot, length, fun k asks own => goOn_of_ready moves slot asks own⟩
  · obtain ⟨first, since, count⟩ := (course_memo moves).since t
    obtain ⟨n, from_, _, found⟩ := since.ready value kept
    exact ⟨n, fun forgot => Nat.not_lt.mpr from_ ((count n).mpr forgot), found⟩
  · have released := released_of_failure moves waits failed own
    have old : n < (memo (s + 1)).attempts.length :=
      (waits_for_begun moves s waits).trans_le ((course_memo moves).length_le (Nat.le_succ s))
    have apart := (course_memo moves).slot_ne_pending after old released
    have old' := old.trans_le ((course_memo moves).length_le after)
    rcases apart_course moves later asks old' apart found with rfl | ⟨m, differ, rfl⟩ | ⟨v, rfl⟩ |
      ⟨m, e'', differ, rfl, failed', u, from_, until_, waited⟩
    · simp
    · simpa using differ
    · simp
    · refine ⟨by simp, fun e' told => ?_⟩
      cases told
      exact ⟨m, differ, failed', u, from_, until_, waited⟩

/-- Two callers share an attempt that is forgotten while it goes on, and a third one begins another
that ends before it. When that is forgotten too, two more fail one after the other. -/
def overtaken : List (Move Nat Nat) :=
  [.call, .goOn 0, .goOn 0, .call, .goOn 1, .forget, .call, .goOn 2, .goOn 2, .finish 1 (.ok 7),
    .goOn 2, .finish 0 (.ok 5), .goOn 0, .goOn 1, .forget,
    .call, .goOn 3, .goOn 3, .finish 2 (.error 1), .goOn 3,
    .call, .goOn 4, .goOn 4, .finish 3 (.error 2), .goOn 4]

/-- Both get what their attempt came to, and what was begun later is kept. The last one is told of
its own failure. -/
theorem answers_of_overtaken :
    let moves t := (overtaken[t]?).getD .forget
    (course moves 14).caller? 0 = some (.answered (.ok 5)) ∧
    (course moves 14).caller? 1 = some (.answered (.ok 5)) ∧
    (course moves 13).memo.slot = (course moves 12).memo.slot ∧
    (course moves 12).memo.slot = .ready 7 ∧
    (course moves 25).caller? 4 = some (.answered (.error 2)) ∧
    ∃ m, m ≠ 2 ∧ (course moves 25).memo.attempt? m = some (.finished (.error 2)) := by
  obtain ⟨_, _, _, shared, _, kept, _, failure, forgotten⟩ :=
    answers_are_shared fun t => (overtaken[t]?).getD .forget
  have stays (k : Nat) (i : Nat) : (overtaken[i]?).getD .forget ≠ .drop k := by
    rcases Nat.lt_or_ge i 25 with inside | beyond
    · interval_cases i <;> exact nofun
    · rw [List.getElem?_eq_none beyond]
      exact nofun
  have first := shared 2 14 0 0 (by decide) rfl fun i _ _ => stays 0 i
  have second := shared 5 14 1 0 (by decide) rfl fun i _ _ => stays 1 i
  have ready := kept 11 12 7 (by decide) rfl fun i from_ until_ => by
    have same : i = 11 := by omega
    subst same
    exact nofun
  obtain ⟨m, differ, failed, _⟩ :=
    (failure 19 3 2 1 rfl rfl rfl 21 25 4 (.answered (.error 2)) (by decide) (by decide) rfl rfl).2
      2 rfl
  refine ⟨?_, ?_, forgotten 12 0 ⟨5, by decide, rfl, by decide⟩ (.inr ⟨0, rfl, rfl⟩), ready.1,
    rfl, m, differ, failed⟩
  · rcases first with waits | ⟨result, ended, answered⟩
    · cases waits
    · cases ended
      exact answered
  · rcases second with waits | ⟨result, ended, answered⟩
    · cases waits
    · cases ended
      exact answered

end Gathering

end LintBridge

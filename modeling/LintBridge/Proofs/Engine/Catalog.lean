import LintBridge.Engine.Client
import LintBridge.Proofs.Memo.Gathering

namespace LintBridge

/-- A client with its calls by number. One that was abandoned is none. -/
structure Desk where
  client : EngineClient
  calls : List (Option Call)

namespace Desk

/-- What can happen at a client. -/
inductive Move where
  | ask (a : Ask)
  | goOn (call : Nat)
  /-- The engine's run of a call ends. -/
  | receive (call : Nat) (result : Except EngineError String)
  /-- The engine's run of an attempt ends. -/
  | finish (kept : Kept) (attempt : Nat) (result : Except EngineError String)
  | drop (call : Nat)

def call? (d : Desk) (k : Nat) : Option Call := seat? d.calls k

/-- Carry out a move. One of a call that is not there does nothing. -/
def move (d : Desk) : Move → Desk
  | .ask a => { d with calls := d.calls ++ [some (.ofAsk a)] }
  | .goOn k =>
    match d.call? k with
    | some c => ⟨(d.client.step c).1, d.calls.set k (some (d.client.step c).2.1)⟩
    | none => d
  | .receive k result =>
    match d.call? k with
    | some c => { d with calls := d.calls.set k (some (c.receive result)) }
    | none => d
  | .finish kept n result => { d with client := d.client.finish kept n result }
  | .drop k => { d with calls := d.calls.set k none }

/-- A client in the course of some moves: after so many of them. -/
def course (engine : Engine) (token : Token) (moves : Nat → Move) : Nat → Desk
  | 0 => ⟨.new engine token, []⟩
  | t + 1 => (course engine token moves t).move (moves t)

/-- A move forgets the catalog: a call that changed it returns. -/
def Forgets (d : Desk) (mv : Move) : Prop :=
  ∃ k a out, mv = .goOn k ∧ d.call? k = some (.ran a out)

/-- A move starts the engine for an attempt at the catalog. -/
def Starts (d : Desk) (mv : Move) (n : Nat) : Prop :=
  ∃ k, mv = .goOn k ∧ d.call? k = some (.catalog (.waiting n)) ∧
    (d.client.step (.catalog (.waiting n))).2.2 = some (d.client.command .catalog)

theorem move_goOn {d : Desk} {k : Nat} {c : Call} (found : d.call? k = some c) :
    d.move (.goOn k) = ⟨(d.client.step c).1, d.calls.set k (some (d.client.step c).2.1)⟩ := by
  rw [move, found]

theorem move_receive_client (d : Desk) (k : Nat) (result : Except EngineError String) :
    (d.move (.receive k result)).client = d.client := by
  rw [move]
  split <;> rfl

theorem starts_of_agreed {d : Desk} {k n : Nat}
    (waits : d.call? k = some (.catalog (.waiting n)))
    (agreed : d.client.catalog.attempt? n = some .agreed) : d.Starts (.goOn k) n := by
  refine ⟨k, rfl, waits, ?_⟩
  rw [EngineClient.step]
  exact if_pos (Memo.isAgreed_iff.mpr agreed)

theorem agreed_of_starts {d : Desk} {mv : Move} {n : Nat} (starts : d.Starts mv n) :
    d.client.catalog.attempt? n = some .agreed := by
  obtain ⟨k, _, _, starts⟩ := starts
  rw [EngineClient.step] at starts
  by_contra other
  have idle : d.client.catalog.isAgreed n = false :=
    Bool.eq_false_iff.mpr fun agreed => other (Memo.isAgreed_iff.mp agreed)
  simp [idle] at starts

/-- Whether a call is about to make the catalog forgotten. -/
def outdates : Call → Bool
  | .ran .. => true
  | _ => false

/-- Whether a call waits for an attempt at the catalog. -/
def awaits (n : Nat) : Call → Bool
  | .catalog (.waiting m) => m == n
  | _ => false

theorem forgets_iff {d : Desk} {k : Nat} :
    d.Forgets (.goOn k) ↔ (d.call? k).any outdates = true := by
  constructor
  · rintro ⟨_, a, out, ⟨⟩, found⟩
    rw [found]
    rfl
  · intro ran
    obtain ⟨c, found, ran⟩ := Option.any_eq_true _ _ |>.mp ran
    cases c with
    | ran a out => exact ⟨k, a, out, rfl, found⟩
    | _ => cases ran

theorem starts_iff {d : Desk} {k n : Nat} : d.Starts (.goOn k) n ↔
    ((d.call? k).any (awaits n) && d.client.catalog.isAgreed n) = true := by
  rw [Bool.and_eq_true]
  constructor
  · intro starts
    refine ⟨?_, Memo.isAgreed_iff.mpr (agreed_of_starts starts)⟩
    obtain ⟨_, ⟨⟩, waits, _⟩ := starts
    rw [waits]
    exact beq_self_eq_true n
  · rintro ⟨waits, agreed⟩
    obtain ⟨c, found, waits⟩ := Option.any_eq_true _ _ |>.mp waits
    unfold awaits at waits
    split at waits
    · rename_i m
      cases beq_iff_eq.mp waits
      exact starts_of_agreed found (Memo.isAgreed_iff.mp agreed)
    · cases waits

instance (d : Desk) : (mv : Move) → Decidable (d.Forgets mv)
  | .goOn _ => decidable_of_iff _ forgets_iff.symm
  | .ask _ | .receive .. | .finish .. | .drop _ => .isFalse nofun

instance (d : Desk) (n : Nat) : (mv : Move) → Decidable (d.Starts mv n)
  | .goOn _ => decidable_of_iff _ starts_iff.symm
  | .ask _ | .receive .. | .finish .. | .drop _ => .isFalse nofun

/-- Whatever happens is a step of the catalog, but to forget it. -/
theorem move_catalog (d : Desk) {mv : Move} (remembers : ¬d.Forgets mv) :
    d.client.catalog.Step (d.move mv).client.catalog := by
  cases mv with
  | ask | drop => exact .stay
  | receive k result =>
    rw [move_receive_client]
    exact .stay
  | finish kept n result =>
    cases kept with
    | version => exact .stay
    | catalog => exact .finish n _
  | goOn k =>
    cases found : d.call? k with
    | none =>
      rw [move, found]
      exact .stay
    | some c =>
      rw [move_goOn found]
      cases c with
      | catalog caller => exact d.client.catalog.step_step caller
      | ran a out => exact absurd ⟨k, a, out, rfl, found⟩ remembers
      | version | asking | running | done => exact .stay

theorem move_of_forgets {d : Desk} {mv : Move} (forgets : d.Forgets mv) :
    (d.move mv).client.catalog = d.client.catalog.forget := by
  obtain ⟨k, a, out, rfl, found⟩ := forgets
  rw [move_goOn found]
  rfl

/-- An attempt stands where it stood, or was agreed on, or its run starts or ends. -/
theorem attempt_of_move {d : Desk} {mv : Move} {n : Nat} {a : Attempt EngineError (List Linter)}
    (found : (d.move mv).client.catalog.attempt? n = some a) :
    d.client.catalog.attempt? n = some a ∨
      (n = d.client.catalog.attempts.length ∧ a = .agreed) ∨ a = .running ∧ d.Starts mv n ∨
      ∃ answer, a = .finished (answer.bind Ask.readCatalog) ∧ mv = .finish .catalog n answer ∧
        d.client.catalog.attempt? n = some .running := by
  cases mv with
  | ask | drop => exact .inl found
  | receive k result =>
    rw [move_receive_client] at found
    exact .inl found
  | finish kept i answer =>
    cases kept with
    | version => exact .inl found
    | catalog =>
      rcases Memo.attempt?_of_finish found with same | ⟨rfl, ended, ran⟩
      · exact .inl same
      · exact .inr (.inr (.inr ⟨answer, ended, rfl, ran⟩))
  | goOn k =>
    cases stood : d.call? k with
    | none =>
      rw [move, stood] at found
      exact .inl found
    | some c =>
      rw [move_goOn stood] at found
      cases c with
      | catalog caller =>
        rcases Memo.attempt?_of_step found with same | agreed | ⟨rfl, runs, agreed⟩
        · exact .inl same
        · exact .inr (.inl agreed)
        · exact .inr (.inr (.inl ⟨runs, starts_of_agreed stood agreed⟩))
      | version | asking | running | ran | done => exact .inl found

/-- What a move makes of a call. -/
def turn (d : Desk) (k : Nat) (c : Call) : Move → Option Call
  | .goOn j => if j = k then some (d.client.step c).2.1 else some c
  | .receive j result => if j = k then some (c.receive result) else some c
  | .drop j => if j = k then none else some c
  | _ => some c

/-- Where a call stands comes from where it stood. -/
theorem call?_move (d : Desk) {k : Nat} (here : k < d.calls.length) (mv : Move) :
    (d.move mv).call? k = (d.call? k).bind (d.turn k · mv) := by
  cases mv with
  | ask => exact (seat?_append here _).trans (Option.bind_fun_some _).symm
  | finish => exact (Option.bind_fun_some _).symm
  | drop j =>
    by_cases same : j = k
    · subst same
      rw [move, call?, seat?_set_self here]
      cases d.call? j <;> simp [turn]
    · rw [move, call?, seat?_set_of_ne same]
      simp [turn, same, call?]
  | goOn j | receive j result =>
    by_cases same : j = k
    · subst same
      rw [move]
      split
      · rename_i c found
        rw [call?, seat?_set_self here, found]
        simp [turn]
      · rename_i gone
        rw [gone]
        rfl
    · simp only [turn, if_neg same, Option.bind_fun_some]
      rw [move]
      split
      · exact seat?_set_of_ne same _
      · rfl

theorem call_of_move {d : Desk} {k : Nat} (here : k < d.calls.length) {mv : Move} {c : Call}
    (found : (d.move mv).call? k = some c) :
    ∃ before, d.call? k = some before ∧ d.turn k before mv = some c := by
  rw [d.call?_move here] at found
  exact Option.bind_eq_some_iff.mp found

theorem calls_length_le (d : Desk) (mv : Move) : d.calls.length ≤ (d.move mv).calls.length := by
  cases mv with
  | ask => exact List.length_append ▸ Nat.le_add_right _ _
  | finish => exact Nat.le_refl _
  | drop k => exact Nat.le_of_eq List.length_set.symm
  | goOn k | receive k result =>
    rw [move]
    split
    · exact Nat.le_of_eq List.length_set.symm
    · exact Nat.le_refl _

/-- A call has the answer of an attempt at the catalog, or waits for it. -/
def Shares (d : Desk) (k n : Nat) : Prop :=
  d.call? k = some (.catalog (.waiting n)) ∨ ∃ result,
    d.client.catalog.attempt? n = some (.finished result) ∧
    d.call? k = some (.done (result.map .linters))

/-- A call that no run is awaited for is moved by its own steps only. -/
theorem turn_of_rests {d : Desk} {k : Nat} {mv : Move} {c c' : Call}
    (rests : ∀ result, c.receive result = c) (turned : d.turn k c mv = some c') :
    c' = c ∨ mv = .goOn k ∧ c' = (d.client.step c).2.1 := by
  cases mv with
  | ask | finish => exact .inl (Option.some.inj turned).symm
  | goOn j =>
    by_cases same : j = k
    · rw [turn, if_pos same] at turned
      exact .inr ⟨congrArg Move.goOn same, (Option.some.inj turned).symm⟩
    · rw [turn, if_neg same] at turned
      exact .inl (Option.some.inj turned).symm
  | receive j result =>
    rw [turn, rests, ite_self] at turned
    exact .inl (Option.some.inj turned).symm
  | drop j =>
    by_cases same : j = k
    · rw [turn, if_pos same] at turned
      cases turned
    · rw [turn, if_neg same] at turned
      exact .inl (Option.some.inj turned).symm

theorem waiting_turn {d : Desk} {k n : Nat} {mv : Move} {c : Call}
    (turned : d.turn k (.catalog (.waiting n)) mv = some c) :
    c = .catalog (.waiting n) ∨ ∃ result,
      d.client.catalog.attempt? n = some (.finished result) ∧ c = .done (result.map .linters) := by
  rcases turn_of_rests (fun _ => rfl) turned with same | ⟨_, next⟩
  · exact .inl same
  · replace next : c = .ofCatalog (d.client.catalog.step (.waiting n)).2 := next
    rcases d.client.catalog.step_waiting n with still | ⟨result, ended, answered⟩
    · rw [still] at next
      exact .inl next
    · rw [answered] at next
      exact .inr ⟨result, ended, next⟩

theorem done_turn {d : Desk} {k : Nat} {mv : Move} {r : Except EngineError Reply} {c : Call}
    (turned : d.turn k (.done r) mv = some c) : c = .done r := by
  rcases turn_of_rests (fun _ => rfl) turned with same | ⟨_, next⟩
  · exact same
  · exact next

section Course

variable {engine : Engine} {token : Token} {moves : Nat → Move} {s t j k n : Nat}

variable (engine token moves) in
theorem course_catalog : Memo.Course (fun t => (course engine token moves t).client.catalog)
    fun t => (course engine token moves t).Forgets (moves t) where
  start := rfl
  step _ remembers := move_catalog _ remembers
  forget _ forgets := move_of_forgets forgets

theorem course_calls_length_le (later : s ≤ t) :
    (course engine token moves s).calls.length ≤ (course engine token moves t).calls.length := by
  induction t, later using Nat.le_induction with
  | base => exact Nat.le_refl _
  | succ t _ ih => exact ih.trans (calls_length_le _ _)

theorem course_goOn {c : Call} (stood : (course engine token moves t).call? k = some c)
    (own : moves t = .goOn k) :
    (course engine token moves (t + 1)).client =
        ((course engine token moves t).client.step c).1 ∧
      (course engine token moves (t + 1)).call? k =
        some ((course engine token moves t).client.step c).2.1 := by
  have moved : course engine token moves (t + 1) =
      (course engine token moves t).move (.goOn k) := own ▸ rfl
  rw [moved, move_goOn stood]
  exact ⟨rfl, seat?_set_self (lt_of_seat? stood) _⟩

/-- The run of an attempt that goes on was started. -/
theorem started_of_running
    (ran : (course engine token moves t).client.catalog.attempt? n = some .running) :
    ∃ start, start < t ∧ (course engine token moves start).Starts (moves start) n := by
  induction t with
  | zero => cases ran
  | succ t ih =>
    rcases attempt_of_move ran with before | ⟨_, other⟩ | ⟨_, starts⟩ | ⟨_, other, _⟩
    · obtain ⟨start, earlier, starts⟩ := ih before
      exact ⟨start, by omega, starts⟩
    · cases other
    · exact ⟨t, Nat.lt_succ_self t, starts⟩
    · cases other

/-- What an attempt came to was read in what its run came to. -/
theorem ended_of_finished {result : Except EngineError (List Linter)}
    (ended : (course engine token moves t).client.catalog.attempt? n = some (.finished result)) :
    ∃ finish answer, finish < t ∧ moves finish = .finish .catalog n answer ∧
      (course engine token moves finish).client.catalog.attempt? n = some .running ∧
      result = answer.bind Ask.readCatalog := by
  induction t with
  | zero => cases ended
  | succ t ih =>
    rcases attempt_of_move ended with before | ⟨_, other⟩ | ⟨other, _⟩ | ⟨answer, came, ends, ran⟩
    · obtain ⟨finish, answer, earlier, rest⟩ := ih before
      exact ⟨finish, answer, by omega, rest⟩
    · cases other
    · cases other
    · exact ⟨t, answer, Nat.lt_succ_self t, ends, ran, Attempt.finished.inj came⟩

/-- What the run of an attempt came to is what the attempt has come to from then on. -/
theorem finished_of_finish {answer : Except EngineError String} (later : s < t)
    (runs : (course engine token moves s).client.catalog.isRunning n = true)
    (ends : moves s = .finish .catalog n answer) :
    (course engine token moves t).client.catalog.attempt? n =
      some (.finished (answer.bind Ask.readCatalog)) := by
  have ran := Memo.isRunning_iff.mp runs
  have moved : (course engine token moves (s + 1)).client.catalog =
      (course engine token moves s).client.catalog.finish n (answer.bind Ask.readCatalog) := by
    change ((course engine token moves s).move (moves s)).client.catalog = _
    rw [ends]
    rfl
  refine (course_catalog engine token moves).finished (Nat.succ_le_of_lt later) ?_
  change (course engine token moves (s + 1)).client.catalog.attempt? n = _
  rw [moved, Memo.finish_of_running ran]
  exact List.getElem?_set_self (Memo.lt_of_attempt? ran)

/-- An attempt whose run was not started before is one that was agreed on then, or came later. -/
theorem agreed_before (later : s ≤ t)
    (agreed : (course engine token moves t).client.catalog.attempt? n = some .agreed) :
    (course engine token moves s).client.catalog.attempt? n = some .agreed ∨
      (course engine token moves s).client.catalog.attempts.length ≤ n := by
  induction t, later using Nat.le_induction with
  | base => exact .inl agreed
  | succ t between ih =>
    rcases attempt_of_move agreed with before | ⟨new, _⟩ | ⟨other, _⟩ | ⟨_, other, _⟩
    · exact ih before
    · exact .inr (new ▸ (course_catalog engine token moves).length_le between)
    · cases other
    · cases other

/-- A call that shares an attempt goes on sharing it, unless it is abandoned. -/
theorem shares_course (later : s ≤ t) (shares : (course engine token moves s).Shares k n) {c : Call}
    (found : (course engine token moves t).call? k = some c) :
    (course engine token moves t).Shares k n := by
  have there : k < (course engine token moves s).calls.length := by
    rcases shares with waits | ⟨_, _, has⟩
    · exact lt_of_seat? waits
    · exact lt_of_seat? has
  induction t, later using Nat.le_induction generalizing c with
  | base => exact shares
  | succ t between ih =>
    have here := there.trans_le (course_calls_length_le between)
    obtain ⟨before, stood, turned⟩ := call_of_move here found
    rcases ih stood with waits | ⟨result, ended, has⟩
    · cases stood.symm.trans waits
      rcases waiting_turn turned with rfl | ⟨result, ended, rfl⟩
      · exact .inl found
      · exact .inr ⟨result, (course_catalog engine token moves).finished (Nat.le_succ t) ended,
          found⟩
    · cases stood.symm.trans has
      cases done_turn turned
      exact .inr ⟨result, (course_catalog engine token moves).finished (Nat.le_succ t) ended, found⟩

/-- A call that no run is awaited for stands where it stood, or has gone on from there. -/
theorem rests_course {c c' : Call} (rests : ∀ result, c.receive result = c) (later : s ≤ t)
    (stood : (course engine token moves s).call? k = some c)
    (found : (course engine token moves t).call? k = some c') :
    c' = c ∨ ∃ i, s ≤ i ∧ i < t ∧ moves i = .goOn k ∧
      (course engine token moves i).call? k = some c := by
  have there := lt_of_seat? stood
  induction t, later using Nat.le_induction generalizing c' with
  | base => exact .inl (Option.some.inj (found.symm.trans stood))
  | succ t between ih =>
    have here := there.trans_le (course_calls_length_le between)
    obtain ⟨before, stood', turned⟩ := call_of_move here found
    rcases ih stood' with rfl | ⟨i, from_, until_, gone⟩
    · rcases turn_of_rests rests turned with same | ⟨own, _⟩
      · exact .inl same
      · exact .inr ⟨t, between, Nat.lt_succ_self t, own, stood'⟩
    · exact .inr ⟨i, from_, by omega, gone⟩

/-- A call that changes the catalog, and whose run ended well, has made it forgotten when it
returns. -/
theorem forgets_of_returned {a : Ask} {out : String} {r : Except EngineError Reply}
    (changes : a.changesCatalog = true)
    (runs : (course engine token moves s).call? k = some (.running a))
    (ends : moves s = .receive k (.ok out)) (later : s < t)
    (returned : (course engine token moves t).call? k = some (.done r)) :
    ∃ i, s < i ∧ i < t ∧ (course engine token moves i).Forgets (moves i) := by
  have ran : (course engine token moves (s + 1)).call? k = some (.ran a out) := by
    have moved : course engine token moves (s + 1) =
        (course engine token moves s).move (.receive k (.ok out)) := ends ▸ rfl
    rw [moved, call?_move _ (lt_of_seat? runs), runs]
    simp [turn, Call.receive, changes]
  rcases rests_course (fun _ => rfl) later ran returned with same | ⟨i, from_, until_, own, stood⟩
  · cases same
  · exact ⟨i, from_, until_, k, a, out, own, stood⟩

/-- A call that looks at what is kept comes to share the newest attempt, which was begun since the
catalog was last forgotten. -/
theorem shares_of_looks (asks : (course engine token moves t).call? k = some (.catalog .asking))
    (own : moves t = .goOn k) :
    ∃ n, (course engine token moves (t + 1)).Shares k n ∧
      (∀ s, s < t → (course engine token moves s).Forgets (moves s) →
        (course engine token moves s).client.catalog.attempts.length ≤ n) ∧
      n + 1 = (course engine token moves (t + 1)).client.catalog.attempts.length := by
  obtain ⟨first, since, count⟩ := (course_catalog engine token moves).since t
  obtain ⟨n, from_, newest, joined⟩ := since.join_newest
  obtain ⟨client, call⟩ := course_goOn asks own
  have catalog : (course engine token moves (t + 1)).client.catalog =
      (course engine token moves t).client.catalog.join.1 := congrArg EngineClient.catalog client
  replace call : (course engine token moves (t + 1)).call? k =
      some (.ofCatalog (course engine token moves t).client.catalog.join.2) := call
  refine ⟨n, ?_, fun s before forgets => ?_, catalog ▸ newest⟩
  · rcases joined with waits | ⟨value, found, has⟩
    · rw [waits] at call
      exact .inl call
    · rw [has] at call
      refine .inr ⟨.ok value, ?_, call⟩
      rw [catalog]
      exact Memo.Step.join.finished found
  · by_contra more
    have old := (count n).mpr ⟨s, before, forgets, Nat.not_le.mp more⟩
    omega

/-- A call that asks for the catalog after it was forgotten, and is answered, is answered from a run
that was started later than all that was begun before. -/
theorem answer_of_asks {i u : Nat} {r : Except EngineError Reply} (after : t < i)
    (forgets : (course engine token moves t).Forgets (moves t)) (asks : moves i = .ask .catalog)
    (until_ : i < u)
    (told : (course engine token moves u).call? (course engine token moves i).calls.length =
      some (.done r)) :
    ∃ n start finish answer, t < start ∧ start < finish ∧ finish < u ∧
      (course engine token moves start).Starts (moves start) n ∧
      (course engine token moves finish).client.catalog.attempt? n = some .running ∧
      moves finish = .finish .catalog n answer ∧
      r = (answer.bind Ask.readCatalog).map .linters := by
  have run := course_catalog engine token moves
  have moved : course engine token moves (i + 1) =
      (course engine token moves i).move (.ask .catalog) := asks ▸ rfl
  have asking : (course engine token moves (i + 1)).call?
      (course engine token moves i).calls.length = some (.catalog .asking) := by
    rw [moved]
    exact seat?_append_self _
  obtain ⟨looks, from_, before, own, asksThen⟩ :=
    (rests_course (fun _ => rfl) (by omega) asking told).resolve_left (by simp)
  obtain ⟨n, shares, fresh, _⟩ := shares_of_looks asksThen own
  have young := fresh t (by omega) forgets
  rcases shares_course (by omega) shares told with waits | ⟨result, ended, has⟩
  · cases told.symm.trans waits
  · obtain ⟨finish, answer, beforeU, ends, ran, read⟩ := ended_of_finished ended
    obtain ⟨start, earlier, starts⟩ := started_of_running ran
    refine ⟨n, start, finish, answer, ?_, earlier, beforeU, starts, ran, ends, ?_⟩
    · by_contra early
      have there := Memo.lt_of_attempt? (agreed_of_starts starts)
      have grows := run.length_le (by omega : start ≤ t)
      exact absurd young (Nat.not_le.mpr (there.trans_le grows))
    · cases told.symm.trans has
      rw [read]

theorem answer_of_waiting {result : Except EngineError (List Linter)}
    (waits : (course engine token moves t).call? k = some (.catalog (.waiting n)))
    (own : moves t = .goOn k)
    (ended : (course engine token moves t).client.catalog.attempt? n = some (.finished result)) :
    (course engine token moves (t + 1)).call? k = some (.done (result.map .linters)) := by
  refine (course_goOn waits own).2.trans (congrArg some ?_)
  exact congrArg (fun step => Call.ofCatalog step.2) (Memo.step_of_finished ended)

/-- Of the attempts begun while nothing is forgotten, the one that comes to a catalog is the last.
-/
theorem last_of_ended {u : Nat} {l : List Linter}
    (remembered : ∀ i, s ≤ i → i < t → ¬(course engine token moves i).Forgets (moves i))
    (begun : (course engine token moves s).client.catalog.attempts.length ≤ n)
    (old : n < (course engine token moves t).client.catalog.attempts.length)
    (ended : (course engine token moves u).client.catalog.attempt? n =
      some (.finished (.ok l))) :
    n + 1 = (course engine token moves t).client.catalog.attempts.length ∧
      (course engine token moves t).client.catalog.slot ≠ .empty := by
  have run := course_catalog engine token moves
  obtain ⟨first, since, early⟩ := run.since_of_remembered remembered
  have well : ¬(course engine token moves t).client.catalog.HasFailed n := fun ⟨e, failed⟩ => by
    cases run.finished_unique ended failed
  obtain ⟨last, filled⟩ := since.of_not_failed (early.trans begun) old well
  refine ⟨last, fun empty => ?_⟩
  rcases filled with waits | ⟨_, kept, _⟩
  · cases empty.symm.trans waits
  · cases empty.symm.trans kept

/-- Who looks, while nothing is forgotten, after an attempt was begun that comes to a catalog, gets
that catalog. -/
theorem answer_of_looks {u u' : Nat} {l : List Linter} {c : Call}
    (remembered : ∀ i, s ≤ i → i < t + 1 → ¬(course engine token moves i).Forgets (moves i))
    (later : s ≤ t)
    (begun : (course engine token moves s).client.catalog.attempts.length ≤ n)
    (old : n < (course engine token moves t).client.catalog.attempts.length)
    (ended : (course engine token moves u).client.catalog.attempt? n =
      some (.finished (.ok l)))
    (asks : (course engine token moves t).call? k = some (.catalog .asking))
    (own : moves t = .goOn k) (after : t < u')
    (found : (course engine token moves u').call? k = some c) :
    c = .catalog (.waiting n) ∨ c = .done (.ok (.linters l)) := by
  have run := course_catalog engine token moves
  obtain ⟨last, filled⟩ :=
    last_of_ended (fun i from_ until_ => remembered i from_ (by omega)) begun old ended
  have same : (course engine token moves (t + 1)).client.catalog.attempts.length =
      (course engine token moves t).client.catalog.attempts.length := by
    by_contra more
    have step := run.step t (remembered t later (Nat.lt_succ_self t))
    exact filled (step.begins more).1
  obtain ⟨m, shares, _, newest⟩ := shares_of_looks asks own
  have one : m = n := by omega
  subst one
  rcases shares_course (by omega) shares found with waits | ⟨result, ended', has⟩
  · exact .inl (Option.some.inj (found.symm.trans waits))
  · cases run.finished_unique ended ended'
    exact .inr (Option.some.inj (found.symm.trans has))

end Course

/-- A client whose calls begin, go on and are abandoned in any order, while the engine's runs come
to anything. Once a call that changes the catalog has returned after its run ended well, who asks
for the catalog is answered from a run that was started after that one ended. Who goes on comes to
share an attempt, starts its run if nobody has, and is answered when that has ended. While nothing
is forgotten, a run that is started is of an attempt begun since, but for calls that had found
nothing kept before and were about to start it; at most one of the attempts begun since ever comes
to a catalog, and whoever looks after that attempt was begun gets it. -/
theorem catalog_is_fresh (engine : Engine) (token : Token) (moves : Nat → Move) :
    let desk := course engine token moves
    let catalog t := (desk t).client.catalog
    (∀ s t i u k a out r' j r, a.changesCatalog = true → (desk s).call? k = some (.running a) →
      moves s = .receive k (.ok out) → s < t → (desk t).call? k = some (.done r') → t ≤ i →
      moves i = .ask .catalog → j = (desk i).calls.length → i < u →
      (desk u).call? j = some (.done r) →
      ∃ n start finish answer, s < start ∧ start < finish ∧ finish < u ∧
        (desk start).Starts (moves start) n ∧ (catalog finish).isRunning n = true ∧
        moves finish = .finish .catalog n answer ∧
        r = (answer.bind Ask.readCatalog).map .linters) ∧
    (∀ t k, moves t = .goOn k →
      ((desk t).call? k = some (.catalog .asking) → ∃ n, (desk (t + 1)).Shares k n) ∧
      ∀ n, (desk t).call? k = some (.catalog (.waiting n)) →
        ((catalog t).attempt? n = some .agreed → (desk t).Starts (moves t) n) ∧
        ∀ result, (catalog t).attempt? n = some (.finished result) →
          (desk (t + 1)).call? k = some (.done (result.map .linters))) ∧
    ∀ s t, s ≤ t → (∀ i, s ≤ i → i < t → ¬(desk i).Forgets (moves i)) →
      (∀ i n, s ≤ i → i < t → (desk i).Starts (moves i) n →
        (catalog s).attempt? n = some .agreed ∨
        (catalog s).attempts.length ≤ n ∧ n < (catalog t).attempts.length) ∧
      (∀ u m n l l', (catalog s).attempts.length ≤ m → m < (catalog t).attempts.length →
        (catalog s).attempts.length ≤ n → n < (catalog t).attempts.length →
        (catalog u).attempt? m = some (.finished (.ok l)) →
        (catalog u).attempt? n = some (.finished (.ok l')) → m = n) ∧
      ∀ i u u' n l k c, s ≤ i → i < t → (catalog s).attempts.length ≤ n →
        n < (catalog i).attempts.length → (catalog u).attempt? n = some (.finished (.ok l)) →
        (desk i).call? k = some (.catalog .asking) → moves i = .goOn k → i < u' →
        (desk u').call? k = some c → c = .catalog (.waiting n) ∨ c = .done (.ok (.linters l)) := by
  intro desk catalog
  have run : Memo.Course catalog fun t => (desk t).Forgets (moves t) :=
    course_catalog engine token moves
  refine ⟨fun s t i u k a out r' j r changes runs ends later returned after asks new until_ told =>
      ?_,
    fun t k own => ⟨fun asks => ?_, fun n waits =>
      ⟨fun agreed => own ▸ starts_of_agreed waits agreed,
        fun result ended => answer_of_waiting waits own ended⟩⟩,
    fun s t between remembered => ⟨fun i n from_ until_ starts => ?_,
      fun u m n l l' fromM untilM fromN untilN endedM endedN => ?_,
      fun i u u' n l k c from_ until_ begun old ended asks own later found => ?_⟩⟩
  · obtain ⟨x, afterRun, beforeReturn, forgets⟩ :=
      forgets_of_returned changes runs ends later returned
    obtain ⟨n, start, finish, answer, fresh, started, ended, starts, ran, rest⟩ :=
      answer_of_asks (by omega) forgets asks until_ (new ▸ told)
    exact ⟨n, start, finish, answer, afterRun.trans fresh, started, ended, starts,
      Memo.isRunning_iff.mpr ran, rest⟩
  · obtain ⟨n, shares, _⟩ := shares_of_looks asks own
    exact ⟨n, shares⟩
  · have agreed := agreed_of_starts starts
    have there := (Memo.lt_of_attempt? agreed).trans_le (run.length_le (by omega : i ≤ t))
    rcases agreed_before from_ agreed with before | new
    · exact .inl before
    · exact .inr ⟨new, there⟩
  · have lastM := (last_of_ended remembered fromM untilM endedM).1
    have lastN := (last_of_ended remembered fromN untilN endedN).1
    exact Nat.succ.inj (lastM.trans lastN.symm)
  · exact answer_of_looks (fun x from' until' => remembered x from' (by omega)) from_ begun old
      ended asks own later found

theorem readCatalog_empty : Ask.readCatalog "[]" = .ok [] := by
  have document : decodeText (Decoder.list Linter.decoder) (trimBlank "[]") = .ok [] := rfl
  have read : Linter.readCatalog "[]" = .ok [] := by
    unfold Linter.readCatalog
    exact (congrArg (Except.map _) document).trans (congrArg Except.ok List.mergeSort_nil)
  unfold Ask.readCatalog
  rw [read]

/-- A catalog is asked for, and a linter is switched on while that run goes on. Two calls ask for
the catalog afterwards, and the first run ends before theirs. -/
def switchedOn (t : Nat) : Move :=
  [.ask .catalog, .goOn 0, .goOn 0, .ask (.setActive "jshint" true), .goOn 1,
    .receive 1 (.ok "jshint"), .goOn 1, .ask .catalog, .goOn 2, .goOn 2, .ask .catalog, .goOn 3,
    .finish .catalog 0 (.ok "[]"), .goOn 0, .finish .catalog 1 (.ok "[]"), .goOn 2,
    .goOn 3][t]?.getD (.drop 4)

/-- Both are answered from the second run. -/
theorem fresh_after_switchedOn :
    let desk := course ⟨.ofText "/opt/lh", .ofText "/work/app", .nativeBinary, "img"⟩ 0 switchedOn
    (∃ n start finish answer, 5 < start ∧ start < finish ∧ finish < 16 ∧
      (desk start).Starts (switchedOn start) n ∧
      (desk finish).client.catalog.isRunning n = true ∧
      switchedOn finish = .finish .catalog n answer ∧
      .ok (.linters []) = (answer.bind Ask.readCatalog).map Reply.linters) ∧
    (desk 17).call? 3 = some (.done (.ok (.linters []))) := by
  intro desk
  obtain ⟨fresh, _, kept⟩ :=
    catalog_is_fresh ⟨.ofText "/opt/lh", .ofText "/work/app", .nativeBinary, "img"⟩ 0 switchedOn
  have read : (Except.ok "[]").bind Ask.readCatalog = .ok [] := readCatalog_empty
  have first : (desk 16).call? 2 =
      some (.done (((Except.ok "[]").bind Ask.readCatalog).map .linters)) := rfl
  have second : (desk 17).call? 3 =
      some (.done (((Except.ok "[]").bind Ask.readCatalog).map .linters)) := rfl
  have ended : (desk 15).client.catalog.attempt? 1 =
      some (.finished ((Except.ok "[]").bind Ask.readCatalog)) := rfl
  rw [read] at first second ended
  have looks : (desk 11).call? 3 = some (.catalog .asking) := rfl
  have remembered : ∀ i < 12, 7 ≤ i → ¬(desk i).Forgets (switchedOn i) := by decide +kernel
  refine ⟨fresh 5 7 7 16 1 (.setActive "jshint" true) "jshint" (.ok (.text "jshint")) 2
    (.ok (.linters [])) rfl rfl rfl (by decide) rfl (by decide) rfl rfl (by decide) first, ?_⟩
  obtain ⟨_, _, served⟩ := kept 7 12 (by decide) fun i from_ until_ => remembered i until_ from_
  rcases served 11 15 17 1 [] 3 _ (by decide) (by decide) (by decide) (by decide) ended looks rfl
    (by decide) second with waiting | answered
  · cases waiting
  · rw [second, answered]

/-- A linter is switched on while a call has found no catalog and is about to start a run. Behind
the change that run starts, and so does one of a call that asks then, which ends well but with no
catalog, and a third one of a call that asks again. At last the linter is switched off. -/
def crowded (t : Nat) : Move :=
  [.ask (.setActive "jshint" true), .goOn 0, .receive 0 (.ok "jshint"), .ask .catalog, .goOn 1,
    .goOn 0, .goOn 1, .ask .catalog, .goOn 2, .goOn 2, .finish .catalog 0 (.ok "[]"),
    .finish .catalog 1 (.ok "x"), .goOn 2, .ask .catalog, .goOn 3, .goOn 3,
    .finish .catalog 2 (.ok "[]"), .ask (.setActive "jshint" false), .goOn 4,
    .receive 4 (.ok "jshint"), .goOn 4][t]?.getD (.drop 5)

/-- More than one run that starts between two changes of the catalog may end well. Both come to a
catalog where one was agreed on before the first change; and where both were begun since, one of
them ends well with what is no catalog. -/
theorem not_one_run_between_changes :
    (¬∀ (engine : Engine) (token : Token) (moves : Nat → Move) (s t : Nat),
      let desk := course engine token moves
      (desk s).Forgets (moves s) → (desk t).Forgets (moves t) →
      (∀ i < t, s < i → ¬(desk i).Forgets (moves i)) →
      ∀ i j m n l l', s < i → i < t → s < j → j < t →
        (desk i).Starts (moves i) m → (desk j).Starts (moves j) n →
        (desk t).client.catalog.attempt? m = some (.finished (.ok l)) →
        (desk t).client.catalog.attempt? n = some (.finished (.ok l')) → m = n) ∧
    ¬∀ (engine : Engine) (token : Token) (moves : Nat → Move) (s t : Nat),
      let desk := course engine token moves
      (desk s).Forgets (moves s) → (desk t).Forgets (moves t) →
      (∀ i < t, s < i → ¬(desk i).Forgets (moves i)) →
      ∀ i j x y m n out out', s < i → i < t → s < j → j < t →
        (desk s).client.catalog.attempts.length ≤ m →
        (desk s).client.catalog.attempts.length ≤ n →
        (desk i).Starts (moves i) m → (desk j).Starts (moves j) n →
        (desk x).client.catalog.isRunning m = true → moves x = .finish .catalog m (.ok out) →
        (desk y).client.catalog.isRunning n = true → moves y = .finish .catalog n (.ok out') →
        m = n := by
  let engine : Engine := ⟨.ofText "/opt/lh", .ofText "/work/app", .nativeBinary, "img"⟩
  have first : (course engine 0 crowded 5).Forgets (crowded 5) := by decide +kernel
  have second : (course engine 0 crowded 20).Forgets (crowded 20) := by decide +kernel
  have remembered : ∀ i < 20, 5 < i → ¬(course engine 0 crowded i).Forgets (crowded i) := by
    decide +kernel
  have starts₀ : (course engine 0 crowded 6).Starts (crowded 6) 0 := by decide +kernel
  have starts₁ : (course engine 0 crowded 9).Starts (crowded 9) 1 := by decide +kernel
  have starts₂ : (course engine 0 crowded 15).Starts (crowded 15) 2 := by decide +kernel
  have ran₁ : (course engine 0 crowded 11).client.catalog.isRunning 1 = true := by decide +kernel
  have ran₂ : (course engine 0 crowded 16).client.catalog.isRunning 2 = true := by decide +kernel
  constructor
  · intro all
    have ran₀ : (course engine 0 crowded 10).client.catalog.isRunning 0 = true := by
      decide +kernel
    have ended₀ := finished_of_finish (show 10 < 20 by decide) ran₀ rfl
    have ended₂ := finished_of_finish (show 16 < 20 by decide) ran₂ rfl
    rw [show (Except.ok "[]").bind Ask.readCatalog = .ok [] from readCatalog_empty]
      at ended₀ ended₂
    have same := all engine 0 crowded 5 20 first second remembered 6 15 0 2 [] [] (by decide)
      (by decide) (by decide) (by decide) starts₀ starts₂ ended₀ ended₂
    cases same
  · intro all
    have begun : (course engine 0 crowded 5).client.catalog.attempts.length = 1 := by
      decide +kernel
    have same := all engine 0 crowded 5 20 first second remembered 9 15 11 16 1 2 "x" "[]"
      (by decide) (by decide) (by decide) (by decide) begun.le (begun.le.trans (by decide))
      starts₁ starts₂ ran₁ rfl ran₂ rfl
    cases same

end Desk

end LintBridge

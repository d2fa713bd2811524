namespace LintBridge

inductive Slot (α : Type) where
  | empty
  /-- The value is being made by an attempt. -/
  | pending (attempt : Nat)
  | ready (value : α)
  deriving DecidableEq

/-- How far an attempt to make a value has come. -/
inductive Attempt (ε α : Type) where
  /-- Agreed on; the first caller that looks at it sets it going. -/
  | agreed
  | running
  | finished (result : Except ε α)

/-- A value that is made once, with all attempts so far in the order of their numbers. -/
structure Memo (ε α : Type) where
  slot : Slot α
  attempts : List (Attempt ε α)

/-- How far a caller has come. -/
inductive Caller (ε α : Type) where
  | asking
  | waiting (attempt : Nat)
  | answered (result : Except ε α)

namespace Memo

variable {ε α : Type}

def new : Memo ε α := ⟨.empty, []⟩

instance : Inhabited (Memo ε α) := ⟨new⟩

def attempt? (m : Memo ε α) (n : Nat) : Option (Attempt ε α) := m.attempts[n]?

/-- Whether an attempt has been set going and has not ended. -/
def isRunning (m : Memo ε α) (n : Nat) : Bool :=
  match m.attempt? n with
  | some .running => true
  | _ => false

/-- Whether an attempt waits to be set going. -/
def isAgreed (m : Memo ε α) (n : Nat) : Bool :=
  match m.attempt? n with
  | some .agreed => true
  | _ => false

def started (m : Memo ε α) : Nat :=
  m.attempts.countP fun
    | .agreed => false
    | _ => true

/-- A caller takes the value or joins the attempt that makes it, a new one if there is none. -/
def join (m : Memo ε α) : Memo ε α × Caller ε α :=
  match m.slot with
  | .ready value => (m, .answered (.ok value))
  | .pending n => (m, .waiting n)
  | .empty =>
    let n := m.attempts.length
    (⟨.pending n, m.attempts ++ [.agreed]⟩, .waiting n)

def launch (m : Memo ε α) (n : Nat) : Memo ε α :=
  if m.isAgreed n then { m with attempts := m.attempts.set n .running } else m

def finish (m : Memo ε α) (n : Nat) (result : Except ε α) : Memo ε α :=
  if m.isRunning n then { m with attempts := m.attempts.set n (.finished result) } else m

/-- A caller carries the result of an attempt over, if the slot still waits for that attempt. -/
def settle (m : Memo ε α) (n : Nat) (result : Except ε α) : Memo ε α :=
  match m.slot with
  | .pending current =>
    if current = n then
      match result with
      | .ok value => { m with slot := .ready value }
      | .error _ => { m with slot := .empty }
    else m
  | _ => m

def forget (m : Memo ε α) : Memo ε α := { m with slot := .empty }

/-- A caller goes on by one step: it joins, sets its attempt going, or takes the result. While
the attempt is going, and once it has its answer, nothing changes. -/
def step (m : Memo ε α) : Caller ε α → Memo ε α × Caller ε α
  | .asking => m.join
  | .waiting n =>
    match m.attempt? n with
    | some .agreed => (m.launch n, .waiting n)
    | some (.finished result) => (m.settle n result, .answered result)
    | _ => (m, .waiting n)
  | .answered result => (m, .answered result)

theorem settle_of_slot_ne {m : Memo ε α} {n : Nat} (h : m.slot ≠ .pending n)
    (result : Except ε α) : m.settle n result = m := by
  unfold settle
  split
  · rename_i current found
    split
    · rename_i same
      exact absurd (found.trans (congrArg Slot.pending same)) h
    · rfl
  · rfl

end Memo

end LintBridge

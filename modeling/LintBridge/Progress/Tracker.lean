import LintBridge.Progress.Status

namespace LintBridge

/-- What a tracker tells a client, in this order. -/
inductive ProgressEvent where
  /-- A run of an operation started, or ended. -/
  | operation (id : OperationId) (started : Bool)
  | visible (shown : Bool)
  | text (glyph : String)
  deriving DecidableEq

/-- The running operations, each with the number of its runs, never zero. -/
structure Tracker where
  active : List (OperationId × Nat)
  visible : Bool
  /-- How often progress was shown or hidden; a spinner of an earlier number is stale. -/
  generation : Nat
  deriving DecidableEq

/-- A tracker after a call, what it told, and whether the call showed or hid progress. -/
structure Tracked where
  tracker : Tracker
  events : List ProgressEvent
  changed : Bool

namespace Tracker

def idle : Tracker := ⟨[], false, 0⟩

instance : Inhabited Tracker := ⟨idle⟩

/-- The text shown while progress is hidden: a blank cell. -/
def idleGlyph : String := "\u2800"

def runs (t : Tracker) (id : OperationId) : Nat :=
  ((t.active.find? fun a => a.1 == id).map (·.2)).getD 0

def isActive (t : Tracker) (id : OperationId) : Bool := t.active.any fun a => a.1 == id

def isBusy (t : Tracker) : Bool := !t.active.isEmpty

/-- One run more. -/
def addRun (id : OperationId) : List (OperationId × Nat) → List (OperationId × Nat)
  | [] => [(id, 1)]
  | (other, n) :: rest =>
    if other = id then (other, n + 1) :: rest else (other, n) :: addRun id rest

/-- One run less; the last one takes the operation away. -/
def dropRun (id : OperationId) : List (OperationId × Nat) → List (OperationId × Nat)
  | [] => []
  | (other, n) :: rest =>
    if other = id then (if n ≤ 1 then rest else (other, n - 1) :: rest)
    else (other, n) :: dropRun id rest

def shown (t : Tracker) (told : List ProgressEvent) : Tracked :=
  ⟨{ t with visible := true, generation := t.generation + 1 }, told ++ [.visible true], true⟩

/-- Hide progress: the text goes blank first. -/
def hidden (t : Tracker) (told : List ProgressEvent) : Tracked :=
  ⟨{ t with visible := false, generation := t.generation + 1 },
    told ++ [.text idleGlyph, .visible false], true⟩

def enqueue (t : Tracker) (id : OperationId) : Tracked :=
  let t := { t with active := addRun id t.active }
  if t.visible then ⟨t, [.operation id true], false⟩ else t.shown [.operation id true]

/-- A run of an operation ends. For an operation that does not run, nothing happens. -/
def dequeue (t : Tracker) (id : OperationId) : Tracked :=
  if t.isActive id then
    let t := { t with active := dropRun id t.active }
    if t.active.isEmpty && t.visible then t.hidden [.operation id false]
    else ⟨t, [.operation id false], false⟩
  else ⟨t, [], false⟩

/-- Whether progress is to be shown to someone who looks at an operation: it runs, or the one of
everything that concerns no document does. -/
def concerns (t : Tracker) (id : OperationId) : Bool := t.isActive id || t.isActive .system

/-- Narrow progress to an operation. The change is to what `concerns` says. -/
def narrow (t : Tracker) (id : OperationId) : Tracked :=
  if t.concerns id && !t.visible then t.shown []
  else if !t.concerns id && t.visible then t.hidden []
  else ⟨t, [], false⟩

def clear (t : Tracker) : Tracked :=
  let t := { t with active := [] }
  if t.visible then t.hidden [] else ⟨t, [], false⟩

theorem narrow_active (t : Tracker) (id : OperationId) :
    (t.narrow id).tracker.active = t.active := by
  unfold narrow
  split
  · rfl
  · split <;> rfl

end Tracker

end LintBridge

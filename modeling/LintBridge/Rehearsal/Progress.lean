import LintBridge.Progress.Spinner

namespace LintBridge

inductive ProgressStep where
  | enqueue (id : OperationId)
  | dequeue (id : OperationId)
  | narrow (id : OperationId)
  | ask (id : OperationId)
  | clear
  /-- Start a run that is ended by its own name. -/
  | hold (id : OperationId)
  | letGo (id : OperationId)
  | tick (count : Nat)

inductive ProgressAnswer where
  | flag (b : Bool)
  | id (id : OperationId)
  | nothing

structure ProgressRehearsal where
  frames : SpinnerFrames
  tracker : Tracker
  /-- Runs that are held. -/
  held : List OperationId
  /-- Spinners that have not had their first turn. -/
  waiting : List Spinner
  turning : List Spinner
  told : List ProgressEvent

namespace ProgressRehearsal

def new (frames : SpinnerFrames) : ProgressRehearsal := ⟨frames, .idle, [], [], [], []⟩

def apply (r : ProgressRehearsal) (t : Tracked) : ProgressRehearsal :=
  { r with
    tracker := t.tracker
    told := r.told ++ t.events
    waiting := r.waiting ++ (Spinner.ofTracked? r.frames.glyphs t).toList }

/-- Let a spinner show its frame; one that is stale is gone. -/
def turn (r : ProgressRehearsal) (s : Spinner) : ProgressRehearsal :=
  match s.tick? r.frames.glyphs r.tracker with
  | some (e, s) => { r with told := r.told ++ [e], turning := r.turning ++ [s] }
  | none => r

def settle (r : ProgressRehearsal) : ProgressRehearsal :=
  r.waiting.foldl turn { r with waiting := [] }

/-- Move the clock on by an interval: every spinner is due. -/
def tickOnce (r : ProgressRehearsal) : ProgressRehearsal :=
  (r.turning.foldl turn { r with turning := [] }).settle

def tick (r : ProgressRehearsal) : Nat → ProgressRehearsal
  | 0 => r
  | n + 1 => (r.tickOnce).tick n

def step (r : ProgressRehearsal) : ProgressStep → ProgressRehearsal × ProgressAnswer
  | .enqueue id => let t := r.tracker.enqueue id; (r.apply t, .flag t.changed)
  | .dequeue id => let t := r.tracker.dequeue id; (r.apply t, .flag t.changed)
  | .narrow id => (r.apply (r.tracker.narrow id), .flag (r.tracker.concerns id))
  | .ask id => (r, .flag (r.tracker.isActive id))
  | .clear => (r.apply r.tracker.clear, .nothing)
  | .hold id => ({ r.apply (r.tracker.enqueue id) with held := r.held ++ [id] }, .id id)
  | .letGo id =>
    if r.held.contains id then
      ({ r.apply (r.tracker.dequeue id) with held := r.held.erase id }, .flag true)
    else (r, .flag false)
  | .tick n => (r.tick n, .nothing)

/-- Carry out a step, let the spinners follow unless they have to wait, and take what was told. -/
def perform (r : ProgressRehearsal) (s : ProgressStep) (wait : Bool) :
    ProgressRehearsal × ProgressAnswer × List ProgressEvent :=
  let (r, answer) := r.step s
  let r := if wait then r else r.settle
  ({ r with told := [] }, answer, r.told)

end ProgressRehearsal

end LintBridge

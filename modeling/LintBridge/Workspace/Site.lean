import LintBridge.Workspace.Step

namespace LintBridge

/-- A workspace and its tasks by number. One that was abandoned, or whose outcome was taken, is
none. -/
structure Site where
  workspace : Workspace
  tasks : List (Option Task)

inductive Move where
  | spawn (e : Errand)
  | advance (task : Nat)
  | receive (task : Nat) (a : Answer)
  | finish (client : ClientId) (kept : Kept) (n : Nat) (r : Except EngineError String)
  | abandon (task : Nat)

namespace Site

def new (w : Workspace) : Site := ⟨w, []⟩

def task? (s : Site) (n : Nat) : Option Task := (s.tasks[n]?).join

def put (s : Site) (n : Nat) (next : Workspace × Task) : Site :=
  ⟨next.1, s.tasks.set n (some next.2)⟩

def remove (s : Site) (n : Nat) : Site := { s with tasks := s.tasks.set n none }

/-- Carry out a move. One of a task that is not under way does nothing. -/
def move (s : Site) : Move → Site
  | .spawn e => { s with tasks := s.tasks ++ [some ⟨[], .begin e⟩] }
  | .advance n => ((s.task? n).map fun t => s.put n (s.workspace.advance t)).getD s
  | .receive n a => ((s.task? n).map fun t => s.put n (s.workspace.receive t a)).getD s
  | .finish client kept n r => { s with workspace := s.workspace.finish client kept n r }
  | .abandon n =>
    ((s.task? n).map fun t => { s with workspace := s.workspace.abandon t }.remove n).getD s

def run (s : Site) (moves : List Move) : Site := moves.foldl move s

def need? (s : Site) (n : Nat) : Option Need := (s.task? n).bind s.workspace.need?

def outcome? (s : Site) (n : Nat) : Option Outcome := (s.task? n).bind fun t => t.point.outcome?

/-- The command that an attempt of a client runs, and what cancels it. -/
def attemptCommand? (s : Site) (client : ClientId) (kept : Kept) : Option (Token × Command) :=
  (s.workspace.clients[client]?).map fun c => (c.token, c.command (EngineClient.question kept))

/-- The events so far are taken note of. -/
def forgetEvents (s : Site) : Site := { s with workspace := { s.workspace with events := [] } }

end Site

end LintBridge

import LintBridge.Rehearsal.Stage

namespace LintBridge

inductive WorkspaceStep where
  /-- Begin an errand under a name. -/
  | begin (name : String) (e : Errand)
  /-- Carry out an errand at once, before any other task goes on. -/
  | atOnce (e : Errand)
  | «open» (gate : String)
  | revise (s : Script)
  | abandon (name : String)
  | cancel (t : Token)
  /-- Start a run of an operation that goes on until it is let go. -/
  | hold (id : OperationId)
  | letGo (id : OperationId)
  | writeFile (path : String) (body : Bytes)
  /-- Look at something, which changes nothing. -/
  | look

structure WorkspaceRehearsal where
  stage : Stage Site
  /-- The names of the tasks, by number. -/
  names : List String
  held : List OperationId

structure WorkspaceEntry where
  /-- What the errand carried out at once came to. -/
  result : Option Outcome
  /-- What tasks came to, in the order in which they began. -/
  done : List (String × Outcome)
  events : List Event

namespace WorkspaceRehearsal

def new (w : Workspace) (s : Script) : WorkspaceRehearsal := ⟨.new (.new w) s, [], []⟩

def workspace (r : WorkspaceRehearsal) : Workspace := r.stage.play.workspace

def withWorkspace (r : WorkspaceRehearsal) (w : Workspace) : WorkspaceRehearsal :=
  { r with stage := { r.stage with play := { r.stage.play with workspace := w } }.wakeDue }

/-- A task goes on by so many points while it waits for nothing. -/
def carryOut (w : Workspace) (t : Task) : Nat → Workspace × Task
  | 0 => (w, t)
  | fuel + 1 => let (w, t) := w.advance t; carryOut w t fuel

def step (r : WorkspaceRehearsal) : WorkspaceStep → WorkspaceRehearsal × Option Outcome
  | .begin name e =>
    let n := r.stage.play.tasks.length
    let play := r.stage.play.move (.spawn e)
    ({ r with
        stage := { r.stage with play := play, ready := r.stage.ready ++ [n] }
        names := r.names ++ [name] }, none)
  | .atOnce e =>
    let (w, t) := carryOut r.workspace ⟨[], .begin e⟩ Stage.turnFuel
    (r.withWorkspace w, t.point.outcome?)
  | .open gate => ({ r with stage := r.stage.open gate }, none)
  | .revise s => ({ r with stage := { r.stage with script := r.stage.script.replace s } }, none)
  | .abandon name =>
    let gone := (List.range r.names.length).filter fun n =>
      r.names[n]? == some name && (r.stage.play.task? n).isSome
    let stage := gone.foldl (fun s n =>
      { s with play := s.play.move (.abandon n) }.forget n) r.stage
    ({ r with stage := stage }, none)
  | .cancel t =>
    (r.withWorkspace { r.workspace with cancelled := t :: r.workspace.cancelled }, none)
  | .hold id => ({ r.withWorkspace (r.workspace.enqueue id) with held := r.held ++ [id] }, none)
  | .letGo id =>
    let gone := r.held.filter (· == id)
    ({ r.withWorkspace (gone.foldl Workspace.dequeue r.workspace) with
        held := r.held.filter (· != id) }, none)
  | .writeFile path body =>
    let w := r.workspace
    let files := (w.files.write (w.project.child path) body).toOption.getD w.files
    (r.withWorkspace { w with files := files }, none)
  | .look => (r, none)

/-- Carry out a step, let all tasks go on, and take what they came to and what happened. -/
def perform (r : WorkspaceRehearsal) (s : WorkspaceStep) : WorkspaceRehearsal × WorkspaceEntry :=
  let (r, result) := r.step s
  let stage := r.stage.run r.stage.runFuel
  let ended := (List.range r.names.length).filterMap fun n =>
    (stage.play.outcome? n).map fun o => (n, o)
  let events := stage.play.workspace.events
  let site := ended.foldl (fun site t => site.remove t.1) stage.play.forgetEvents
  ({ r with stage := { stage with play := site } },
    ⟨result, ended.map fun t => (r.names.getD t.1 "", t.2), events⟩)

end WorkspaceRehearsal

end LintBridge

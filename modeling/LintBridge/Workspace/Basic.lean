import LintBridge.Config.Project
import LintBridge.Config.Settings
import LintBridge.Diagnostic.Basic
import LintBridge.Engine.Client
import LintBridge.Install.Installer
import LintBridge.Progress.Tracker

namespace LintBridge

inductive Phase where
  | uninitialized
  | initializing
  | ready
  /-- No engine was found and none could be installed. -/
  | error
  deriving DecidableEq

def Phase.name : Phase → String
  | uninitialized => "uninitialized"
  | initializing => "initializing"
  | ready => "ready"
  | error => "error"

structure InstallPolicy where
  proxy : Option String
  strictSsl : Bool
  deriving DecidableEq

abbrev ClientId := Nat

structure Session where
  phase : Phase
  settings : Settings
  client : Option ClientId
  /-- Cancels what the session has under way. -/
  token : Token
  generation : Nat
  deriving DecidableEq

/-- What a workspace does to the world, in order. -/
inductive Event where
  | progress (e : ProgressEvent)
  /-- No engine can be used. -/
  | noEngine
  | publish (uri : String) (items : List Diagnostic)
  /-- The editor is to keep where the engine is. -/
  | saveSettings (engineDir : Path) (mode : Mode)
  /-- The editor is asked how releases are to be loaded. -/
  | askPolicy
  | runs (c : Command)
  | installs (r : InstallRequest)
  deriving DecidableEq

structure Workspace where
  project : Path
  defaults : Defaults
  session : Session
  progress : Tracker
  /-- All clients so far. -/
  clients : List EngineClient
  /-- The number of tokens so far. -/
  tokens : Nat
  cancelled : List Token
  files : FileTree
  events : List Event

namespace Workspace

def new (project : Path) (defaults : Defaults) (files : FileTree) : Workspace where
  project := project
  defaults := defaults
  session := ⟨.uninitialized, .ofDefaults defaults, none, 0, 0⟩
  progress := .idle
  clients := []
  tokens := 1
  cancelled := []
  files := files
  events := []

def emit (w : Workspace) (e : Event) : Workspace := { w with events := w.events ++ [e] }

/-- A call of the tracker was carried out. -/
def tracked (w : Workspace) (t : Tracked) : Workspace :=
  { w with progress := t.tracker, events := w.events ++ t.events.map .progress }

def enqueue (w : Workspace) (id : OperationId) : Workspace := w.tracked (w.progress.enqueue id)

def dequeue (w : Workspace) (id : OperationId) : Workspace := w.tracked (w.progress.dequeue id)

def isCancelled (w : Workspace) (t : Token) : Bool := w.cancelled.contains t

/-- The client that may be asked: the session is ready and has one. -/
def readyClient? (w : Workspace) : Option ClientId :=
  match w.session.phase with
  | .ready => w.session.client
  | _ => none

/-- Whether an analysis is not to run for a reason. -/
def filters (w : Workspace) (t : Trigger) : Bool :=
  !w.session.settings.enabled || !w.session.settings.allows t

def engineOf (w : Workspace) (s : Settings) : Engine :=
  ⟨s.engineDir, w.project, s.mode, w.defaults.image⟩

def makeClient (w : Workspace) (s : Settings) (token : Token) : Workspace × ClientId :=
  ({ w with clients := w.clients ++ [.new (w.engineOf s) token] }, w.clients.length)

def publish (w : Workspace) (files : List (String × List Diagnostic)) : Workspace :=
  { w with events := w.events ++ files.map fun (uri, items) => .publish uri items }

/-- The session takes new settings: what it had under way is cancelled, and it starts over. -/
def takeOver (w : Workspace) (s : Settings) : Workspace :=
  { w with
    cancelled := w.session.token :: w.cancelled
    tokens := w.tokens + 1
    session := ⟨.initializing, s, none, w.tokens, w.session.generation + 1⟩ }

/-- The session ends: what it had under way is cancelled. -/
def close (w : Workspace) : Workspace :=
  { w with
    cancelled := w.session.token :: w.cancelled
    session := { w.session with
      phase := .uninitialized, client := none, generation := w.session.generation + 1 } }

/-- Every run is forgotten and progress hidden. -/
def hush (w : Workspace) : Workspace := w.tracked w.progress.clear

/-- The session ends and progress is hidden. -/
def shutdown (w : Workspace) : Workspace := w.close.hush

/-- A document has come into view. -/
def lookAt (w : Workspace) (document : String) : Workspace :=
  w.tracked (w.progress.narrow ⟨document⟩)

end Workspace

end LintBridge

import LintBridge.Config.Environment
import LintBridge.Rpc.Frame
import LintBridge.Rpc.Message
import LintBridge.Rpc.Outbound
import LintBridge.Workspace.Site

namespace LintBridge

inductive Job where
  /-- A notification: nothing is answered. -/
  | silent
  /-- A request that is answered when the task is over. -/
  | answers (id : Json)
  /-- A request whose parameters are no good, to be told when the task's turn comes. -/
  | refuses (id : Json) (r : Rpc.Refusal)
  | done

structure Asked where
  task : Nat
  request : Nat

/-- What the editor's progress display shows. -/
structure Display where
  visible : Bool
  text : String

inductive Served where
  /-- The editor left, after it had asked for a shutdown or without. -/
  | left (afterShutdown : Bool)
  | failed (e : FrameError)

structure Server where
  env : Environment
  defaults : Defaults
  files : FileTree
  /-- The project where the editor names none. -/
  here : Path
  /-- The workspace and its tasks, once the editor has told the project. -/
  site? : Option Site
  /-- What the tasks are for, by number. -/
  jobs : List Job
  shuttingDown : Bool
  outbound : Outbound
  asked : List Asked
  display : Display
  /-- What has been read and not made sense of. -/
  input : Bytes
  /-- Whether no more input will come. -/
  closed : Bool
  /-- Frames for the editor. -/
  sent : List Json
  ended : Option Served

namespace Rpc

/-- How releases are to be loaded by an answer of the editor. Without an answer, or by one that
does not say, they are loaded as the defaults have it. -/
def policyOf (d : Defaults) (answer : Option Json) : InstallPolicy :=
  let fallback : InstallPolicy := ⟨d.proxy, d.strictSsl⟩
  match answer with
  | none => fallback
  | some body =>
    if (body.field? "error").isSome then fallback
    else
      match ((body.field? "result").getD .null).decode (Decoder.nullable ConfigAnswer.decoder) with
      | .ok (some a) =>
        ⟨(a.proxy.filter fun p => !p.isEmpty).or fallback.proxy,
          a.strictSsl.getD fallback.strictSsl⟩
      | _ => fallback

/-- The answer to a request whose task came to an outcome. -/
def answerTo (id : Json) : Outcome → Json
  | .linters l => response id (catalogResult l)
  | .activated name => response id (Json.optionalText name)
  | .linterVersion v => response id v.toJson
  | .engineVersion (.ok v) => response id (.str v)
  | .engineVersion (.error e) => refuse id (.failed e.message)
  | .installed (.ok path) => response id (Json.object [("path", .str path.display)])
  | .installed (.error e) => refuse id (.failed e.message)
  | _ => response id .null

end Rpc

namespace Server

def new (env : Environment) (d : Defaults) (files : FileTree) (here : Path) : Server where
  env := env
  defaults := d
  files := files
  here := here
  site? := none
  jobs := []
  shuttingDown := false
  outbound := .new
  asked := []
  display := ⟨false, ""⟩
  input := []
  closed := false
  sent := []
  ended := none

/-- The workspace and its tasks, or one without a task. -/
def site (s : Server) : Site := s.site?.getD (.new (.new s.here s.defaults s.files))

def send (s : Server) (frame : Json) : Server := { s with sent := s.sent ++ [frame] }

def notify (s : Server) (method : String) (params : Json) : Server :=
  s.send (Rpc.notification method params)

/-- Send what the display shows now. -/
def sendDisplay (s : Server) : Server :=
  s.notify "linterhub/progress" (Rpc.progressParams s.display.visible s.display.text)

/-- Tell the editor of an event, for the sake of a task if it is one of a task. -/
def tell (task : Option Nat) (s : Server) : Event → Server
  | .progress (.operation id started) =>
    s.notify "linterhub/status"
      (Rpc.statusParams (some id) (if started then .progressStart else .progressEnd))
  | .progress (.visible b) => { s with display := { s.display with visible := b } }.sendDisplay
  | .progress (.text t) => { s with display := { s.display with text := t } }.sendDisplay
  | .noEngine => s.notify "linterhub/status" (Rpc.statusParams none .noCli)
  | .publish uri items =>
    s.notify "textDocument/publishDiagnostics" (Rpc.publishParams uri items)
  | .saveSettings path mode => s.notify "linterhub/updateConfig" (Rpc.updateConfigParams path mode)
  | .askPolicy =>
    let (outbound, id) := s.outbound.request
    { s with
      outbound := outbound
      asked := s.asked ++ (task.map fun n => Asked.mk n id).toList }.send
        (Rpc.request id "linterhub/config" .null)
  | .runs _ => s
  | .installs _ => s

/-- The workspace has become another one; the editor is told what happened in it. -/
def withSite (s : Server) (task : Option Nat) (next : Site) : Server :=
  let news := next.workspace.events.drop s.site.workspace.events.length
  news.foldl (tell task) { s with site? := some next }

def finish (s : Server) (n : Nat) : Server := { s with jobs := s.jobs.set n .done }

/-- Answer the request of a task that has come to an outcome. -/
def reply (s : Server) (n : Nat) : Server :=
  match s.site.outcome? n, s.jobs[n]? with
  | some o, some (.answers id) => (s.send (Rpc.answerTo id o)).finish n
  | some _, some .silent => s.finish n
  | _, _ => s

def taskOf : Move → Option Nat
  | .advance n => some n
  | .receive n _ => some n
  | .abandon n => some n
  | _ => none

/-- Carry out a move of the workspace: the editor is told what happens in it, and then what the
task came to. -/
def move (s : Server) (m : Move) : Server :=
  let s := s.withSite (taskOf m) (s.site.move m)
  match taskOf m with
  | some n => s.reply n
  | none => s

/-- The question of a task that the editor has not been heard on, or has. -/
def asked? (s : Server) (n : Nat) : Option Asked := s.asked.find? fun a => a.task == n

/-- A task goes on that waits for nothing. -/
def advance (s : Server) (n : Nat) : Server :=
  match s.jobs[n]? with
  | some (.refuses id r) => (s.send (Rpc.refuse id r)).finish n
  | some .done => s
  | _ =>
    match (s.asked? n).bind fun a => s.outbound.conclude? a.request with
    | some (outbound, answer) =>
      { s with outbound := outbound, asked := s.asked.filter fun a => a.task != n }.move
        (.receive n (.policy (Rpc.policyOf s.defaults answer)))
    | none => s.move (.advance n)

def isOver (s : Server) (n : Nat) : Bool :=
  match s.jobs[n]? with
  | some .done => true
  | none => true
  | _ => false

def need? (s : Server) (n : Nat) : Option Need :=
  match s.jobs[n]? with
  | some (.refuses _ _) => none
  | _ =>
    if ((s.asked? n).bind fun a => s.outbound.conclude? a.request).isSome then none
    else s.site.need? n

end Server

end LintBridge

import LintBridge.Config.Stored
import LintBridge.Install.Installer
import LintBridge.Shell.Machine

namespace LintBridge

structure World where
  machine : Machine
  here : Path
  platform : Platform
  network : HttpServer
  /-- What has been asked of the network. -/
  requests : List HttpRequest

namespace World

def env (w : World) : Environment := w.machine.env

def files (w : World) : FileTree := w.machine.tree

def withFiles (w : World) (t : FileTree) : World :=
  { w with machine := { w.machine with tree := t } }

def defaults (w : World) : Defaults := Defaults.load w.env w.files

def execute (w : World) (c : Command) (limit : Nat) (cancelled : Bool) :
    World × Except EngineError String :=
  let (t, r) := w.machine.execute c limit cancelled
  (w.withFiles t, r)

def install (w : World) (d : Defaults) (r : InstallRequest) (cancelled : Bool) :
    World × Except InstallError Path :=
  let run (c : Command) : Except EngineError String :=
    (w.machine.execute c d.maxOutputBytes cancelled).2
  let done := (Installer.ofDefaults d w.platform).install r w.network.means cancelled run w.files
  ({ w.withFiles done.tree with requests := w.requests ++ done.requests }, done.result)

/-- Where the log may be: with the user's file, or where the program was started. -/
def logPlaces (w : World) : List Path :=
  let place (dir : Path) : Path := (dir.child "logs").child "linterhub.log"
  (w.env.home?.map fun home => place (home.child ".linterhub")).toList ++
    [place (.ofText ".linterhub")]

/-- The log is opened at the first of some places where it can be; the directory on the way there
is made. -/
def openLogAt (t : FileTree) : List Path → FileTree
  | [] => t
  | p :: rest =>
    match t.createAll (p.parent?.getD p) with
    | (t, some _) => openLogAt t rest
    | (t, none) =>
      match t.append p [] with
      | .ok t => t
      | .error _ => openLogAt t rest

def openLog (w : World) : World := w.withFiles (openLogAt w.files w.logPlaces)

end World

end LintBridge

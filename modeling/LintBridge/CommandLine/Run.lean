import LintBridge.CommandLine.Arguments
import LintBridge.CommandLine.World
import LintBridge.Server.Handle

namespace LintBridge

structure Ending where
  code : Nat
  out : Bytes
  err : String

namespace CommandLine

/-- A text whose lines after the first are moved in. -/
def indented (margin : String) (s : String) : String := s.replace "\n" ("\n" ++ margin)

/-- A cause behind an error, numbered if there are several. -/
def causeText (several : Bool) (n : Nat) (cause : String) : String :=
  if several then
    let number := toString n
    String.ofList (List.replicate (5 - number.length) ' ') ++ number ++ ": " ++
      indented "       " cause
  else "    " ++ indented "    " cause

def report (message : String) (causes : List String) : String :=
  let several := 1 < causes.length
  let lines := causes.zipIdx.map fun (cause, n) => causeText several n cause ++ "\n"
  "Error: " ++ message ++ "\n" ++
    if causes.isEmpty then "" else "\nCaused by:\n" ++ String.join lines

def usageText : String :=
  "Linterhub language server and engine installer\n\n" ++
    "Usage: linterhub-server [COMMAND]\n\n" ++
    "Commands:\n" ++
    "  install  Download and unpack the engine runtime, then print its path\n" ++
    "  help     Print this message or the help of the given subcommand(s)\n\n" ++
    "Options:\n" ++
    "  -h, --help     Print help\n" ++
    "  -V, --version  Print version\n"

def versionText : String := "linterhub-server " ++ Rpc.serverVersion ++ "\n"

/-- The installation that is asked for; what is not said goes by the defaults. -/
def installRequest (d : Defaults) (mode : Option Mode) (dir : Option Path) : InstallRequest :=
  ⟨mode.getD d.mode, dir.getD d.installDir, d.proxy, d.strictSsl⟩

def install (w : World) (d : Defaults) (mode : Option Mode) (dir : Option Path) : World × Ending :=
  let r := installRequest d mode dir
  match w.install d r false with
  | (w, .ok path) => (w, ⟨0, path.bytes ++ [0x0a], ""⟩)
  | (w, .error e) =>
    (w, ⟨1, [], report ("installing " ++ r.mode.name ++ " engine") (e.message :: e.causes)⟩)

def serverOf (w : World) (d : Defaults) : Server := .new w.env d w.files w.here

def endingOf (out : Bytes) : Served → Ending
  | .left true => ⟨0, out, ""⟩
  | .left false => ⟨1, out, ""⟩
  | .failed e => ⟨1, out, report e.message e.causes⟩

/-- Serve an editor all of whose input is there: the frames are handled, and what they ask for is
cut short by the end of the input. -/
def serve (w : World) (d : Defaults) (input : Bytes) : World × Ending :=
  let s := { (serverOf w d).feed input with closed := true }.serveAll
  let s := s.close (List.range s.jobs.length)
  (w.withFiles (s.site?.elim w.files fun site => site.workspace.files),
    endingOf (Frame.writeAll s.sent) (s.ended.getD (.left false)))

/-- Run the program with arguments and all of its input. The log is opened once the arguments make
sense. -/
def run (w : World) (arguments : List String) (input : Bytes) : World × Ending :=
  match Invocation.read arguments with
  | .error e => (w, ⟨2, [], "error: " ++ e.message ++ "\n\n" ++ usageText⟩)
  | .ok .version => (w, ⟨0, utf8 versionText, ""⟩)
  | .ok .usage => (w, ⟨0, utf8 usageText, ""⟩)
  | .ok (.install mode dir) => let w := w.openLog; install w w.defaults mode dir
  | .ok .serve => let w := w.openLog; serve w w.defaults input

end CommandLine

end LintBridge

import LintBridge.Diagnostic.Report
import LintBridge.Engine.Output
import LintBridge.Workspace.Basic

namespace LintBridge

inductive Errand where
  /-- Start the session with settings, and install an engine if there is none. -/
  | start (s : Settings)
  /-- Install the engine anew and start the session with it. -/
  | install
  | analyze (t : Trigger)
  | analyzeFile (document : String) (t : Trigger)
  | catalog
  | setActive (linter : String) (active : Bool)
  | linterVersion (linter : String) (install : Bool)
  | engineVersion
  /-- A document has come into view. -/
  | look (document : String)
  | shutdown
  /-- Ask a client, whatever the session is in. -/
  | ask (client : ClientId) (a : Ask)
  deriving DecidableEq

inductive Analysis where
  /-- The settings do not allow it. -/
  | filtered
  | unavailable
  | published (files : Nat)
  | failed
  deriving DecidableEq

inductive Outcome where
  | phase (p : Phase)
  | installed (r : Except EngineError Path)
  | analysis (a : Analysis)
  | linters (l : List Linter)
  | activated (linter : Option String)
  | linterVersion (v : LinterVersion)
  | engineVersion (r : Except EngineError String)
  | visible (b : Bool)
  | closed
  | reply (r : Except EngineError Reply)

structure Start where
  generation : Nat
  token : Token
  settings : Settings
  mayInstall : Bool
  /-- Where the engine was installed, if that is why the session starts. -/
  installed : Option Path
  deriving DecidableEq

inductive Purpose where
  /-- A start found none. -/
  | bootstrap (s : Start)
  /-- It was asked for; the settings and the token are those of the session at that time. -/
  | renewal (s : Settings) (token : Token) (mode : Mode)
  deriving DecidableEq

inductive Change where
  /-- A start has installed an engine and made a client of it. -/
  | bootstrap (s : Start) (client : ClientId)
  | renewal (s : Settings) (path : Path)
  | linter (name : String) (active : Bool)
  deriving DecidableEq

/-- What is done with the answer of a client. -/
inductive Next where
  /-- A start has asked for the version, the second time after it has installed an engine. -/
  | probe (s : Start) (again : Bool)
  | errand (e : Errand)
  deriving DecidableEq

/-- A program that engines can run on, looked for before one is installed. -/
inductive Carrier where
  | docker
  | dotnet
  deriving DecidableEq

inductive Point where
  | begin (e : Errand)
  | takeOver (s : Settings) (mayInstall : Bool) (installed : Option Path)
  | announce (s : Start)
  | copySettings
  /-- Waits for a program that tells whether engines can run on it. -/
  | probing (carrier : Carrier) (s : Settings) (token : Token)
  /-- Waits for the editor. -/
  | policy (p : Purpose)
  /-- Waits for the installer. -/
  | installing (p : Purpose) (r : InstallRequest)
  | load (c : Change)
  | save (c : Change) (config : ProjectConfig)
  | tell (c : Change)
  | commit (s : Start) (result : Except EngineError ClientId)
  | noEngine (s : Start)
  | seek (e : Errand)
  | enter (e : Errand) (client : ClientId)
  | asking (client : ClientId) (call : Call) (next : Next)
  | quiet
  | leave (o : Outcome)
  | done (o : Outcome)

/-- A task: the runs it has started and not ended, the last one first, and where it stands. -/
structure Task where
  held : List OperationId
  point : Point

inductive Need where
  | command (token : Token) (c : Command)
  | install (token : Token) (r : InstallRequest)
  | policy
  /-- An attempt of a client that is going. -/
  | attempt (client : ClientId) (kept : Kept) (n : Nat)

inductive Answer where
  | ran (r : Except EngineError String)
  | installed (r : Except InstallError Path)
  | policy (p : InstallPolicy)

namespace Purpose

/-- The settings that an engine is installed for. -/
def settings : Purpose → Settings
  | bootstrap s => s.settings
  | renewal s _ _ => s

/-- What cancels the installation. -/
def token : Purpose → Token
  | bootstrap s => s.token
  | renewal _ t _ => t

def mode : Purpose → Mode
  | bootstrap s => s.settings.mode
  | renewal _ _ m => m

/-- The request to the installer. A proxy of the editor wins over a configured one. -/
def request (p : Purpose) (d : Defaults) (policy : InstallPolicy) : InstallRequest :=
  ⟨p.mode, p.settings.cliRoot, policy.proxy.or d.proxy, policy.strictSsl⟩

end Purpose

namespace Change

/-- The file after a change, and whether it is another one. -/
def apply : Change → ProjectConfig → ProjectConfig × Bool
  | bootstrap s _, c =>
    ({ c with mode := some s.settings.mode }, c.mode != some s.settings.mode)
  | renewal s _, c => ({ c with mode := some s.mode }, c.mode != some s.mode)
  | linter name true, c => c.activate name
  | linter name false, c => c.deactivate name

end Change

namespace Carrier

def command : Carrier → Command
  | docker => ⟨"docker", ["version", "--format", "\x7b\x7b.Server.Version\x7d\x7d"], none⟩
  | dotnet => ⟨"dotnet", ["--version"], none⟩

end Carrier

namespace Errand

/-- The outcome of an errand where no client may be asked. -/
def unavailable : Errand → Outcome
  | catalog => .linters []
  | setActive _ _ => .activated none
  | linterVersion name _ => .linterVersion (.unknown name)
  | engineVersion => .engineVersion (.error .notInitialized)
  | _ => .analysis .unavailable

def operation (project : Path) : Errand → OperationId
  | analyze _ => .ofPath project
  | analyzeFile document _ => ⟨document⟩
  | _ => .system

def question : Errand → Ask
  | analyze _ => .analyze
  | analyzeFile document _ => .analyzeFile document
  | catalog => .catalog
  | setActive linter active => .setActive linter active
  | linterVersion linter true => .linterInstall linter
  | linterVersion linter false => .linterVersion linter
  | ask _ a => a
  | _ => .version

end Errand

namespace Point

def outcome? : Point → Option Outcome
  | done o => some o
  | _ => none

end Point

/-- The files of a report on a document, as they are published: the document itself under the
name it was given as a URI, and empty if the report does not have it. -/
def Report.filesFor (r : Report) (project : Path) (document : String) :
    List (String × List Diagnostic) :=
  let converted := Output.fileUri project (Engine.relativePath project document)
  let own := if "file:".isPrefixOf document then document else converted
  let files := r.files.map fun (uri, items) => (if uri = converted then own else uri, items)
  if r.files.any fun f => f.1 == converted then files else files ++ [(own, [])]

end LintBridge

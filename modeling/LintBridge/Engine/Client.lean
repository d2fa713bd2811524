import LintBridge.Engine.Command
import LintBridge.Engine.Error
import LintBridge.Engine.Linter
import LintBridge.Memo

namespace LintBridge

inductive Ask where
  | version
  | catalog
  | analyze
  | analyzeFile (document : String)
  | setActive (linter : String) (active : Bool)
  | linterVersion (linter : String)
  | linterInstall (linter : String)
  deriving DecidableEq

inductive Reply where
  | text (s : String)
  | linters (l : List Linter)
  | linterVersion (v : LinterVersion)
  deriving DecidableEq

/-- An answer that is kept. -/
inductive Kept where
  | version
  | catalog
  deriving DecidableEq

/-- What cancels calls, by number. -/
abbrev Token := Nat

/-- A client of an engine; its token cancels all it runs. -/
structure EngineClient where
  engine : Engine
  token : Token
  version : Memo EngineError String
  catalog : Memo EngineError (List Linter)

/-- How far a call of a client has come. -/
inductive Call where
  | version (caller : Caller EngineError String)
  | catalog (caller : Caller EngineError (List Linter))
  | asking (a : Ask)
  /-- The engine runs. -/
  | running (a : Ask)
  /-- The engine ended well, and the catalog is to be forgotten. -/
  | ran (a : Ask) (out : String)
  | done (result : Except EngineError Reply)

namespace Ask

def operation (project : Path) : Ask → Operation
  | version => .version
  | catalog => .catalog
  | analyze => .analyze
  | analyzeFile document => .analyzeFile (Engine.relativePath project document)
  | setActive linter active => .activate linter active
  | linterVersion linter => .linterVersion linter
  | linterInstall linter => .linterInstall linter

/-- Whether the catalog is another one afterwards. -/
def changesCatalog : Ask → Bool
  | setActive _ _ => true
  | linterInstall _ => true
  | _ => false

/-- The version in an output; a blank output has none. -/
def readVersion (out : String) : Except EngineError String :=
  if isBlankText out then .error (.unavailable "engine runtime reported no version")
  else .ok (trimBlank out)

def readCatalog (out : String) : Except EngineError (List Linter) :=
  match Linter.readCatalog out with
  | .ok linters => .ok linters
  | .error _ => .error .malformedOutput

def readLinterVersion (out : String) : Except EngineError LinterVersion :=
  match LinterVersion.read out with
  | .ok v => .ok v
  | .error _ => .error .malformedOutput

def read : Ask → String → Except EngineError Reply
  | version, out => (readVersion out).map .text
  | catalog, out => (readCatalog out).map .linters
  | linterVersion _, out => (readLinterVersion out).map .linterVersion
  | linterInstall _, out => (readLinterVersion out).map .linterVersion
  | _, out => .ok (.text out)

end Ask

namespace Call

def ofAsk : Ask → Call
  | .version => .version .asking
  | .catalog => .catalog .asking
  | a => .asking a

/-- The engine's run that a call waits for has ended. -/
def receive (result : Except EngineError String) : Call → Call
  | running a =>
    match result with
    | .error e => .done (.error e)
    | .ok out => if a.changesCatalog then .ran a out else .done (a.read out)
  | call => call

/-- Where a caller of the version stands in its call. -/
def ofVersion : Caller EngineError String → Call
  | .answered result => .done (result.map .text)
  | caller => .version caller

def ofCatalog : Caller EngineError (List Linter) → Call
  | .answered result => .done (result.map .linters)
  | caller => .catalog caller

end Call

namespace EngineClient

def new (engine : Engine) (token : Token) : EngineClient := ⟨engine, token, .new, .new⟩

def command (c : EngineClient) (a : Ask) : Command :=
  c.engine.command (a.operation c.engine.project)

/-- The question that an answer to keep belongs to. -/
def question : Kept → Ask
  | .version => .version
  | .catalog => .catalog

/-- A call goes on by one step. Tells the client and the call afterwards, and the command that
the step starts. A call that waits, or is done, stays as it is. -/
def step (c : EngineClient) : Call → EngineClient × Call × Option Command
  | .version caller =>
    let started := match caller with
      | .waiting n => if c.version.isAgreed n then some (c.command .version) else none
      | _ => none
    let (memo, caller) := c.version.step caller
    ({ c with version := memo }, .ofVersion caller, started)
  | .catalog caller =>
    let started := match caller with
      | .waiting n => if c.catalog.isAgreed n then some (c.command .catalog) else none
      | _ => none
    let (memo, caller) := c.catalog.step caller
    ({ c with catalog := memo }, .ofCatalog caller, started)
  | .asking a => (c, .running a, some (c.command a))
  | .running a => (c, .running a, none)
  | .ran a out => ({ c with catalog := c.catalog.forget }, .done (a.read out), none)
  | .done result => (c, .done result, none)

/-- The run of the engine for an answer to keep has ended. -/
def finish (c : EngineClient) (kept : Kept) (n : Nat) (result : Except EngineError String) :
    EngineClient :=
  match kept with
  | .version => { c with version := c.version.finish n (result.bind Ask.readVersion) }
  | .catalog => { c with catalog := c.catalog.finish n (result.bind Ask.readCatalog) }

end EngineClient

end LintBridge

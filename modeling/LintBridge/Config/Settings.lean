import LintBridge.Config.Defaults

namespace LintBridge

/-- What the editor sends, before it is made sense of. -/
structure EditorSection where
  enable : Option Bool
  run : List String
  mode : Option String
  cliPath : Option String
  cliRoot : Option String

structure Settings where
  enabled : Bool
  run : List Trigger
  mode : Mode
  cliRoot : Path
  cliPath : Option Path
  deriving DecidableEq

namespace EditorSection

def decoder : Decoder EditorSection :=
  Record.decoder "HostSection" (((((Record.build EditorSection.mk).nullable "enable"
    Decoder.boolean).defaulted "run" (Decoder.list Decoder.text) []).nullable "mode"
    Decoder.text).nullable "cliPath" Decoder.text |>.nullable "cliRoot" Decoder.text)

/-- The section inside an envelope in a document. -/
def envelope : Decoder EditorSection :=
  Record.decoder "HostEnvelope" ((Record.build id).required "linterhub" decoder)

def empty : EditorSection := ⟨none, [], none, none, none⟩

/-- The section in a value: inside an envelope, bare, or missing. -/
def ofJson (v : Json) : Except DecodeError EditorSection :=
  if (v.field? "linterhub").isSome then v.decode envelope
  else if v.isNull then .ok empty
  else v.decode decoder

end EditorSection

namespace Settings

def firsts : List Trigger → List Trigger
  | [] => []
  | t :: rest => t :: (firsts rest).filter (· ≠ t)

/-- The list of allowed triggers for the ones asked for. -/
def allowList (run : List Trigger) : List Trigger :=
  firsts (if run.contains .force then run else run ++ [.force])

/-- Settings with a proper list of allowed triggers. -/
def normalized (enabled : Bool) (run : List Trigger) (mode : Mode) (cliRoot : Path)
    (cliPath : Option Path) : Settings :=
  ⟨enabled, allowList run, mode, cliRoot, cliPath⟩

/-- The settings before the editor has sent any. -/
def ofDefaults (d : Defaults) : Settings := normalized true d.run d.mode d.cliRoot none

/-- A configured path, expanded; a blank one is none. -/
def path? (env : Environment) (s : Option String) : Option Path :=
  ((s.map env.expand).filter fun p => !isBlankText p).map Path.ofText

/-- The settings that a section means. Unknown modes and triggers are passed over. -/
def ofSection (env : Environment) (d : Defaults) (e : EditorSection) : Settings :=
  normalized (e.enable.getD true) (Defaults.recognizedOr d.run e.run)
    ((e.mode.bind fun m => (Mode.parse m).toOption).getD d.mode)
    ((path? env e.cliRoot).getD d.cliRoot) (path? env e.cliPath)

def ofJson (env : Environment) (d : Defaults) (v : Json) : Except DecodeError Settings :=
  (EditorSection.ofJson v).map (ofSection env d)

def allows (s : Settings) (t : Trigger) : Bool := s.enabled && s.run.contains t

/-- The directory that the engine is started from. -/
def engineDir (s : Settings) : Path := s.cliPath.getD s.cliRoot

/-- The settings once an engine has been installed. -/
def withInstalled (s : Settings) (mode : Mode) (path : Path) : Settings :=
  { s with mode := mode, cliPath := some path }

end Settings

end LintBridge

import LintBridge.Config.Stored
import LintBridge.Engine.Mode

namespace LintBridge

/-- A linter of a project. Settings that are null are not written. -/
structure ProjectLinter where
  name : String
  config : Json

structure ProjectConfig where
  mode : Option Mode
  linters : List ProjectLinter

namespace ProjectLinter

/-- How deep the settings of a linter may be nested: three levels lie around them. -/
def maxDepth : Nat := Document.maxDepth - 3

def decoder : Decoder ProjectLinter :=
  Record.decoder "ProjectLinter" (((Record.build ProjectLinter.mk).required "name"
    Decoder.text).defaulted "config" (Decoder.value maxDepth) .null)

/-- A linter as written, its fields in their order. -/
def toJson (l : ProjectLinter) : Json :=
  .obj (("name", .str l.name) :: if l.config.isNull then [] else [("config", l.config)])

end ProjectLinter

namespace ProjectConfig

def empty : ProjectConfig := ⟨none, []⟩

instance : Inhabited ProjectConfig := ⟨empty⟩

def decoder : Decoder ProjectConfig :=
  Record.decoder "ProjectConfig" (((Record.build ProjectConfig.mk).optional "mode"
    Mode.decoder).defaulted "linters" (Decoder.list ProjectLinter.decoder) [])

def toJson (c : ProjectConfig) : Json :=
  .obj ((c.mode.map fun m => ("mode", m.toJson)).toList ++
    [("linters", .arr (c.linters.map ProjectLinter.toJson))])

def text (c : ProjectConfig) : String := c.toJson.pretty ++ "\n"

/-- The project that a file's text describes; a blank one describes the empty project. -/
def read? (s : String) : Option ProjectConfig :=
  if isBlankText s then some empty else (decodeText decoder s).toOption

def pathFor (project : Path) : Path := project.child ".linterhub.json"

/-- Read the file of a project. One that is missing describes the empty project. -/
def load (t : FileTree) (project : Path) : Except ConfigError ProjectConfig :=
  let p := pathFor project
  match t.readText p with
  | .error .missing => .ok empty
  | .error fault => .error (.read p fault)
  | .ok text =>
    match read? text with
    | some config => .ok config
    | none => .error (.json p)

/-- Write the file of a project as a whole, unless a step runs into trouble. -/
def saveUnder (trouble : Trouble) (c : ProjectConfig) (t : FileTree) (project : Path) :
    FileTree × Option ConfigError :=
  let p := pathFor project
  let (t, fault) := t.replace project p (utf8 c.text) trouble
  (t, fault.map (.write p))

def save (c : ProjectConfig) (t : FileTree) (project : Path) : FileTree × Option ConfigError :=
  c.saveUnder (fun _ => none) t project

def isActive (c : ProjectConfig) (name : String) : Bool := c.linters.any fun l => l.name == name

/-- Make a linter active, and tell whether it was not. -/
def activate (c : ProjectConfig) (name : String) : ProjectConfig × Bool :=
  if c.isActive name then (c, false) else ({ c with linters := c.linters ++ [⟨name, .null⟩] }, true)

/-- Make a linter inactive, and tell whether it was active. -/
def deactivate (c : ProjectConfig) (name : String) : ProjectConfig × Bool :=
  ({ c with linters := c.linters.filter fun l => l.name != name }, c.isActive name)

end ProjectConfig

end LintBridge

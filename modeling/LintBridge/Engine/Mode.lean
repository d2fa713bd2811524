import LintBridge.Json.Record
import LintBridge.Text.Blank

namespace LintBridge

inductive Mode where
  | managedRuntime
  | nativeBinary
  | container
  deriving DecidableEq, Repr

/-- A mode name that is not known, without the blanks around it. -/
structure UnknownMode where
  name : String

def UnknownMode.message (e : UnknownMode) : String := "unknown engine mode: " ++ e.name

namespace Mode

instance : Inhabited Mode := ⟨.nativeBinary⟩

def all : List Mode := [.managedRuntime, .nativeBinary, .container]

def name : Mode → String
  | managedRuntime => "managedRuntime"
  | nativeBinary => "nativeBinary"
  | container => "container"

/-- The name on the command line and in older files. -/
def shortName : Mode → String
  | managedRuntime => "dotnet"
  | nativeBinary => "native"
  | container => "docker"

/-- The mode with a name, whatever its case and the blanks around it. -/
def parse (s : String) : Except UnknownMode Mode :=
  let s := trimBlank s
  match all.find? fun m => eqIgnoringAsciiCase m.name s || eqIgnoringAsciiCase m.shortName s with
  | some m => .ok m
  | none => .error ⟨s⟩

/-- The mode in a document, under either of its names exactly. -/
def decoder : Decoder Mode :=
  Decoder.variant
    [("dotnet", managedRuntime), ("managedRuntime", managedRuntime), ("native", nativeBinary),
      ("nativeBinary", nativeBinary), ("container", container), ("docker", container)]

def toJson (m : Mode) : Json := .str m.name

end Mode

end LintBridge

import LintBridge.Json.Record
import LintBridge.Text.Blank

namespace LintBridge

structure Linter where
  name : String
  description : String
  languages : String
  active : Bool
  deriving DecidableEq

structure LinterVersion where
  name : String
  installed : Bool
  version : String
  deriving DecidableEq

namespace Linter

def decoder : Decoder Linter :=
  Record.decoder "EngineDescriptor" ((((Record.build Linter.mk).required "name"
    Decoder.text).defaulted "description" Decoder.text "").defaulted "languages" Decoder.text ""
    |>.defaulted "active" Decoder.boolean false)

def toJson (l : Linter) : Json :=
  Json.object [("name", .str l.name), ("description", .str l.description),
    ("languages", .str l.languages), ("active", .bool l.active)]

/-- The catalog in an output, ordered by name; linters of one name stay in their order. -/
def readCatalog (raw : String) : Except DecodeError (List Linter) :=
  (decodeText (Decoder.list decoder) (trimBlank raw)).map fun linters =>
    linters.mergeSort fun a b => decide (a.name ≤ b.name)

end Linter

namespace LinterVersion

/-- The version of a linter that could not be asked. -/
def unknown (name : String) : LinterVersion := ⟨name, false, ""⟩

def decoder : Decoder LinterVersion :=
  Record.decoder "LinterVersion" (((Record.build LinterVersion.mk).required "LinterName"
    Decoder.text).defaulted "Installed" Decoder.boolean false
    |>.defaulted "Version" Decoder.text "")

def toJson (v : LinterVersion) : Json :=
  Json.object [("LinterName", .str v.name), ("Installed", .bool v.installed),
    ("Version", .str v.version)]

def read (raw : String) : Except DecodeError LinterVersion := decodeText decoder (trimBlank raw)

end LinterVersion

end LintBridge

import LintBridge.Json.Record
import LintBridge.Text.Blank

namespace LintBridge

inductive Severity where
  | error
  | warning
  | information
  | hint
  deriving DecidableEq, Repr

namespace Severity

def all : List Severity := [.error, .warning, .information, .hint]

def name : Severity → String
  | error => "error"
  | warning => "warning"
  | information => "information"
  | hint => "hint"

/-- The severity with an engine's code; unknown codes are warnings. -/
def ofCode (code : Int) : Severity :=
  if code = 0 then .error
  else if code = 2 then .information
  else if code = 3 then .hint
  else .warning

/-- The severity with an engine's name; unknown names are warnings. -/
def ofName (name : String) : Severity :=
  let name := lowerAsciiText (trimBlank name)
  if ["error", "fatal"].contains name then .error
  else if ["info", "information"].contains name then .information
  else if ["hint", "note"].contains name then .hint
  else .warning

/-- The number of a severity in the editor's protocol. -/
def protocolNumber : Severity → Nat
  | error => 1
  | warning => 2
  | information => 3
  | hint => 4

def isError (s : Severity) : Bool := s == .error

def decoder : Decoder Severity := Decoder.variant (all.map fun s => (s.name, s))

end Severity

/-- A stretch of a file, lines and columns counted from zero. -/
structure Span where
  line : Nat
  lineEnd : Nat
  column : Nat
  columnEnd : Nat
  deriving DecidableEq, Repr

/-- The column that stands for the end of a line. -/
def endOfLineColumn : Nat := 1000

structure Message where
  severity : Severity
  span : Span
  text : String
  rule : Option String
  deriving DecidableEq

/-- The messages about one file, whose path is relative to the project. -/
structure FileResult where
  path : String
  messages : List Message
  deriving DecidableEq

structure EngineResult where
  engine : String
  files : List FileResult
  deriving DecidableEq

/-- A message and the engine it comes from. -/
structure Diagnostic where
  message : Message
  source : String
  deriving DecidableEq

namespace Span

def decoder : Decoder Span :=
  Record.decoder "Span" ((((Record.build Span.mk).required "line" Decoder.nat32).required
    "line_end" Decoder.nat32).required "column" Decoder.nat32 |>.required "column_end"
    Decoder.nat32)

def toJson (s : Span) : Json :=
  Json.object [("line", .nat s.line), ("line_end", .nat s.lineEnd), ("column", .nat s.column),
    ("column_end", .nat s.columnEnd)]

end Span

namespace Message

def decoder : Decoder Message :=
  Record.decoder "Message" ((((Record.build Message.mk).required "severity"
    Severity.decoder).required "span" Span.decoder).required "text" Decoder.text
    |>.nullable "rule_id" Decoder.text)

def toJson (m : Message) : Json :=
  Json.object [("severity", .str m.severity.name), ("span", m.span.toJson), ("text", .str m.text),
    ("rule_id", Json.optionalText m.rule)]

end Message

namespace FileResult

def decoder : Decoder FileResult :=
  Record.decoder "FileResult" ((Record.build FileResult.mk).required "path" Decoder.text
    |>.required "messages" (Decoder.list Message.decoder))

def toJson (f : FileResult) : Json :=
  Json.object [("path", .str f.path), ("messages", .arr (f.messages.map Message.toJson))]

end FileResult

namespace EngineResult

def decoder : Decoder EngineResult :=
  Record.decoder "EngineResult" ((Record.build EngineResult.mk).required "engine" Decoder.text
    |>.required "files" (Decoder.list FileResult.decoder))

def toJson (r : EngineResult) : Json :=
  Json.object [("engine", .str r.engine), ("files", .arr (r.files.map FileResult.toJson))]

end EngineResult

end LintBridge

import LintBridge.Diagnostic.Report
import LintBridge.Engine.Error
import LintBridge.Url.File

namespace LintBridge

namespace Output

/-- A severity as an engine writes it. -/
inductive RawSeverity where
  | code (n : Int)
  | name (s : String)

/-- The severity meant; one left out is a warning, and a name may be a number in text. -/
def RawSeverity.resolve : Option RawSeverity → Severity
  | some (.code n) => .ofCode n
  | some (.name s) =>
    match signed64? (trimBlank s) with
    | some n => .ofCode n
    | none => .ofName s
  | none => .warning

structure Range where
  start : Int
  stop : Option Int

/-- A message in the older shape. -/
structure OldMessage where
  severity : Option RawSeverity
  row : Option Range
  line : Option Int
  column : Option Range
  text : String
  rule : Option (Option String)

structure OldFile where
  path : String
  messages : List OldMessage

structure OldEntry where
  name : String
  files : Option (List OldFile)

/-- A message in the current shape. -/
structure NewMessage where
  severity : Option RawSeverity
  line : Int
  lineEnd : Option Int
  column : Int
  columnEnd : Option Int
  text : String
  rule : Option String

structure NewFile where
  path : String
  messages : List NewMessage

structure NewEntry where
  engine : String
  files : Option (List NewFile)

inductive Entry where
  | old (e : OldEntry)
  | new (e : NewEntry)

/-- The nesting that remains below an item of the output. -/
def itemDepth : Nat := Document.maxDepth - 1

/-- A severity in a document: a number, or else a name. -/
def RawSeverity.decoder : Decoder RawSeverity :=
  Decoder.either itemDepth (fun d => (Decoder.int64 d).map .code)
    (fun d => (Decoder.text d).map .name)

def Range.decoder : Decoder Range :=
  Record.decoder "LegacyRange" ((Record.build Range.mk).defaulted "Start" Decoder.int64 0
    |>.optional "End" Decoder.int64)

/-- A rule of the older shape in a document: its name. -/
def oldRule : Decoder (Option String) :=
  Record.decoder "LegacyRule" ((Record.build id).optional "Name" Decoder.text)

def OldMessage.decoder : Decoder OldMessage :=
  Record.decoder "LegacyError" ((((((Record.build OldMessage.mk).optional "Severity"
    RawSeverity.decoder).optional "Row" Range.decoder).optional "Line" Decoder.int64).optional
    "Column" Range.decoder).defaulted "Message" Decoder.text "" |>.optional "Rule" oldRule)

def OldFile.decoder : Decoder OldFile :=
  Record.decoder "LegacyFile" ((Record.build OldFile.mk).required "Path" Decoder.text
    |>.defaulted "Errors" (Decoder.list OldMessage.decoder) [])

/-- The files of an entry of the older shape in a document. -/
def oldModel : Decoder (List OldFile) :=
  Record.decoder "LegacyModel" ((Record.build id).defaulted "Files"
    (Decoder.list OldFile.decoder) [])

def OldEntry.decoder : Decoder OldEntry :=
  Record.decoder "LegacyEngine" ((Record.build OldEntry.mk).required "Name" Decoder.text
    |>.optional "Model" oldModel)

def NewMessage.decoder : Decoder NewMessage :=
  Record.decoder "CurrentMessage" (((((((Record.build NewMessage.mk).optional "severity"
    RawSeverity.decoder).defaulted "line" Decoder.int64 0).optional "lineEnd"
    Decoder.int64).defaulted "column" Decoder.int64 0).optional "columnEnd"
    Decoder.int64).defaulted "message" Decoder.text "" |>.optional "ruleId" Decoder.text)

def NewFile.decoder : Decoder NewFile :=
  Record.decoder "CurrentFile" ((Record.build NewFile.mk).required "path" Decoder.text
    |>.defaulted "messages" (Decoder.list NewMessage.decoder) [])

def NewEntry.decoder : Decoder NewEntry :=
  Record.decoder "CurrentEngine" ((Record.build NewEntry.mk).required "engine" Decoder.text
    |>.optional "result" (Decoder.list NewFile.decoder))

/-- An entry in a document: in the older shape if it fits, else in the current one. -/
def Entry.decoder : Decoder Entry :=
  Decoder.either itemDepth (fun d => (OldEntry.decoder d).map .old)
    (fun d => (NewEntry.decoder d).map .new)

/-- The nearest number without a sign of 32 bits. -/
def clamp (i : Int) : Nat := min i.toNat 0xffffffff

def leastInt : Int := -0x8000000000000000

/-- A line counted from one as counted from zero. -/
def lineFromOne (i : Int) : Nat := clamp (max leastInt (i - 1))

/-- An end column; one left out or not positive is the end of the line. -/
def endColumn : Option Int → Nat
  | some i => if 0 < i then clamp i else endOfLineColumn
  | none => endOfLineColumn

def OldMessage.lines (m : OldMessage) : Int × Int :=
  match m.row, m.line with
  | some row, _ => (row.start, row.stop.getD row.start)
  | none, some line => (line, line)
  | none, none => (1, 1)

def OldMessage.toMessage (m : OldMessage) : Message where
  severity := RawSeverity.resolve m.severity
  span :=
    { line := lineFromOne m.lines.1
      lineEnd := lineFromOne m.lines.2
      column := clamp ((m.column.map Range.start).getD 0)
      columnEnd := endColumn (m.column.bind Range.stop) }
  text := m.text
  rule := m.rule.bind id

/-- A message in the current shape as a message; an empty rule is none. -/
def NewMessage.toMessage (m : NewMessage) : Message where
  severity := RawSeverity.resolve m.severity
  span :=
    { line := clamp m.line
      lineEnd := clamp (m.lineEnd.getD m.line)
      column := clamp m.column
      columnEnd := endColumn m.columnEnd }
  text := m.text
  rule := m.rule.filter fun r => !r.isEmpty

def Entry.engine : Entry → String
  | .old e => e.name
  | .new e => e.engine

def Entry.files : Entry → List FileResult
  | .old e => (e.files.getD []).map fun f => ⟨f.path, f.messages.map OldMessage.toMessage⟩
  | .new e => (e.files.getD []).map fun f => ⟨f.path, f.messages.map NewMessage.toMessage⟩

/-- The result of an entry; one without files has none. -/
def Entry.result? (e : Entry) : Option EngineResult :=
  if e.files.isEmpty then none else some ⟨e.engine, e.files⟩

/-- The results in an output. Blank output holds none. -/
def parse (raw : String) : Except EngineError (List EngineResult) :=
  let raw := trimBlank raw
  if raw.isEmpty then .ok []
  else
    match decodeText (Decoder.list Entry.decoder) raw with
    | .ok entries => .ok (entries.filterMap Entry.result?)
    | .error _ => .error .malformedOutput

/-- The URI of a path below a project; a path that stays relative is kept as text. -/
def fileUri (project : Path) (path : String) : String :=
  let whole := project.child path
  whole.fileUrl?.getD whole.display

/-- The results of all engines, grouped by file. -/
def aggregate (results : List EngineResult) (project : Path) : Report :=
  results.foldl (fun report result =>
    result.files.foldl (fun report file =>
      report.extend (fileUri project file.path)
        (file.messages.map fun m => ⟨m, result.engine⟩)) report) .empty

def convert (raw : String) (project : Path) : Except EngineError Report :=
  (parse raw).map fun results => aggregate results project

end Output

end LintBridge

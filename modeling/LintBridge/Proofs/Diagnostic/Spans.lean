import LintBridge.Proofs.Diagnostic.Grouping
import LintBridge.Proofs.Files.Replacing
import LintBridge.Proofs.Json.Fields
import LintBridge.Rpc.Message
import Mathlib.Data.Prod.Lex

namespace LintBridge

namespace Span

/-- Where a span starts. Places are compared by their lines first. -/
def start (s : Span) : Nat ×ₗ Nat := toLex (s.line, s.column)

/-- Where a span ends. -/
def stop (s : Span) : Nat ×ₗ Nat := toLex (s.lineEnd, s.columnEnd)

/-- Whether a span does not end before it starts. -/
def Ordered (s : Span) : Prop := s.start ≤ s.stop

instance (s : Span) : Decidable s.Ordered := inferInstanceAs (Decidable (s.start ≤ s.stop))

theorem ordered_iff {s : Span} :
    s.Ordered ↔ s.line < s.lineEnd ∨ s.line = s.lineEnd ∧ s.column ≤ s.columnEnd :=
  Prod.Lex.le_iff

end Span

namespace Rpc

/-- The place that a value names by a line and a character. -/
def place? (v : Json) : Option (Nat ×ₗ Nat) := do
  let line ← (v.field? "line").bind Json.natural?
  let character ← (v.field? "character").bind Json.natural?
  return toLex (line, character)

/-- Where the range of a diagnostic starts and ends, as the editor takes it. -/
def range? (shown : Json) : Option ((Nat ×ₗ Nat) × (Nat ×ₗ Nat)) := do
  let range ← shown.field? "range"
  let start ← (range.field? "start").bind place?
  let stop ← (range.field? "end").bind place?
  return (start, stop)

theorem place?_position (line character : Nat) :
    place? (position line character) = some (toLex (line, character)) := by
  simp only [place?, position, Json.field?_object]
  rfl

/-- The editor is shown the places that a span names. -/
theorem range?_diagnostic (d : Diagnostic) :
    range? (diagnostic d) = some (d.message.span.start, d.message.span.stop) := by
  obtain ⟨⟨severity, span, text, rule⟩, source⟩ := d
  have found : (diagnostic ⟨⟨severity, span, text, rule⟩, source⟩).field? "range" =
      some (Json.object [("start", position span.line span.column),
        ("end", position span.lineEnd span.columnEnd)]) := by
    rw [diagnostic, Json.field?_object]
    cases rule <;> rfl
  simp only [range?, found, Option.bind_eq_bind, Option.bind_some, Json.field?_object]
  exact congrArg₂ (fun a b => a.bind fun a => b.bind fun b => some (a, b))
    (place?_position span.line span.column) (place?_position span.lineEnd span.columnEnd)

end Rpc

namespace Output

/-- What an output says of the place of a message, lines counted as the output counts them. -/
structure Stretch where
  line : Int
  lineEnd : Option Int
  column : Int
  columnEnd : Option Int
  deriving DecidableEq

namespace Stretch

variable {p : Stretch} {count : Int → Nat}

/-- Whether the ends that are given are not before the starts. -/
structure Forward (p : Stretch) : Prop where
  lines : ∀ e, p.lineEnd = some e → p.line ≤ e
  columns : ∀ e, p.columnEnd = some e → 0 < e → p.column ≤ e

/-- Whether a positive end column is given. -/
def Closed (p : Stretch) : Prop := ∃ e, p.columnEnd = some e ∧ 0 < e

/-- The last line, which is the first one where none is given. -/
def last (p : Stretch) : Int := p.lineEnd.getD p.line

/-- The span that is meant, by how lines are counted. -/
def span (count : Int → Nat) (p : Stretch) : Span :=
  ⟨count p.line, count p.last, clamp p.column, endColumn p.columnEnd⟩

theorem Forward.line_le_last (forward : p.Forward) : p.line ≤ p.last := by
  rw [last]
  cases given : p.lineEnd with
  | none => exact Int.le_refl _
  | some e => exact forward.lines e given

theorem endColumn_of_not_closed (unclosed : ¬p.Closed) :
    endColumn p.columnEnd = endOfLineColumn := by
  cases given : p.columnEnd with
  | none => rfl
  | some e => exact if_neg fun positive => unclosed ⟨e, given, positive⟩

end Stretch

theorem clamp_mono {a b : Int} (le : a ≤ b) : clamp a ≤ clamp b := by
  unfold clamp
  omega

theorem lineFromOne_mono {a b : Int} (le : a ≤ b) : lineFromOne a ≤ lineFromOne b :=
  clamp_mono (by omega)

/-- A column is in front of the end of the line, as it is counted, just when it is no greater. -/
theorem clamp_le_endOfLine {column : Int} :
    clamp column ≤ endOfLineColumn ↔ column ≤ endOfLineColumn := by
  unfold clamp endOfLineColumn
  omega

/-- A span whose given ends are not before its starts is ordered, unless its end column is not given
and its only line is longer than lines are taken to be. -/
theorem Stretch.ordered_span_iff {p : Stretch} {count : Int → Nat}
    (counts : ∀ {a b : Int}, a ≤ b → count a ≤ count b) (forward : p.Forward) :
    (p.span count).Ordered ↔
      p.Closed ∨ p.column ≤ endOfLineColumn ∨ count p.line < count p.last := by
  have lines : count p.line ≤ count p.last := counts forward.line_le_last
  rw [Span.ordered_iff]
  change count p.line < count p.last ∨
    count p.line = count p.last ∧ clamp p.column ≤ endColumn p.columnEnd ↔ _
  by_cases closed : p.Closed
  · obtain ⟨e, given, positive⟩ := closed
    have columns : clamp p.column ≤ endColumn p.columnEnd := by
      rw [given, endColumn, if_pos positive]
      exact clamp_mono (forward.columns e given positive)
    exact iff_of_true ((Nat.lt_or_eq_of_le lines).imp_right fun same => ⟨same, columns⟩)
      (.inl ⟨e, given, positive⟩)
  · rw [Stretch.endColumn_of_not_closed closed, clamp_le_endOfLine, or_iff_right closed]
    omega

/-- A message as an output writes it, in either shape. -/
inductive Said where
  | old (m : OldMessage)
  | new (m : NewMessage)

namespace Said

/-- The message that is meant. -/
def message : Said → Message
  | old m => m.toMessage
  | new m => m.toMessage

/-- What is said of its place. -/
def stretch : Said → Stretch
  | old m => ⟨m.lines.1, m.row.bind Range.stop, (m.column.map Range.start).getD 0,
      m.column.bind Range.stop⟩
  | new m => ⟨m.line, m.lineEnd, m.column, m.columnEnd⟩

/-- How its shape counts lines. -/
def count : Said → Int → Nat
  | old _ => lineFromOne
  | new _ => clamp

theorem count_mono (m : Said) {a b : Int} (le : a ≤ b) : m.count a ≤ m.count b := by
  cases m with
  | old => exact lineFromOne_mono le
  | new => exact clamp_mono le

theorem span_message (m : Said) : m.message.span = m.stretch.span m.count := by
  cases m with
  | new m => rfl
  | old m =>
    obtain ⟨severity, row, line, column, text, rule⟩ := m
    cases row with
    | some row => rfl
    | none => cases line <;> rfl

end Said

/-- The messages that an entry writes, file by file. -/
def Entry.said : Entry → List Said
  | .old e => (e.files.getD []).flatMap fun f => f.messages.map .old
  | .new e => (e.files.getD []).flatMap fun f => f.messages.map .new

/-- The messages of some results, engine by engine and file by file. -/
def messages (results : List EngineResult) : List Message :=
  results.flatMap fun result => result.files.flatMap FileResult.messages

/-- The entries that an output holds. Blank output holds none. -/
def read (raw : String) : Except EngineError (List Entry) :=
  if (trimBlank raw).isEmpty then .ok []
  else (decodeText (Decoder.list Entry.decoder) (trimBlank raw)).mapError fun _ => .malformedOutput

theorem parse_eq_read (raw : String) :
    parse raw = (read raw).map (List.filterMap Entry.result?) := by
  simp only [parse, read]
  split
  · rfl
  · cases decodeText (Decoder.list Entry.decoder) (trimBlank raw) <;> rfl

theorem messages_files (e : Entry) :
    e.files.flatMap FileResult.messages = e.said.map Said.message := by
  cases e <;> simp only [Entry.files, Entry.said, List.flatMap_map, List.map_flatMap,
    List.map_map] <;> rfl

/-- An entry that has no result says nothing. -/
theorem messages_result? (e : Entry) : messages e.result?.toList = e.said.map Said.message := by
  rw [← messages_files, Entry.result?]
  cases files : e.files with
  | nil => rfl
  | cons f fs => simp [messages]

theorem messages_results (es : List Entry) :
    messages (es.filterMap Entry.result?) = (es.flatMap Entry.said).map Said.message := by
  rw [List.filterMap_eq_flatMap_toList, messages, List.flatMap_assoc, List.map_flatMap]
  exact congrArg (List.flatMap · es) (funext messages_result?)

/-- Every message of an output is there as it was written, and one whose given ends are not before
its starts has an ordered span just when its end column is given, or its column is no greater than
the one that stands for the end of a line, or it ends on a later line than it starts, as lines in
range are counted. The editor is shown the same places. -/
theorem spans_of_output {raw : String} {results : List EngineResult} (project : Path)
    (parsed : parse raw = .ok results) : ∃ es report, read raw = .ok es ∧
      messages results = (es.flatMap Entry.said).map Said.message ∧
      (∀ m ∈ es.flatMap Entry.said, m.stretch.Forward →
        (m.message.span.Ordered ↔ m.stretch.Closed ∨ m.stretch.column ≤ endOfLineColumn ∨
          m.count m.stretch.line < m.count m.stretch.last)) ∧
      convert raw project = .ok report ∧
      (report.diagnostics.map Diagnostic.message).Perm (messages results) ∧
      ∀ d ∈ report.diagnostics,
        Rpc.range? (Rpc.diagnostic d) = some (d.message.span.start, d.message.span.stop) := by
  obtain ⟨es, told, rfl⟩ : ∃ es, read raw = .ok es ∧ es.filterMap Entry.result? = results := by
    rw [parse_eq_read] at parsed
    cases told : read raw with
    | error e => rw [told] at parsed; cases parsed
    | ok es => rw [told] at parsed; exact ⟨es, rfl, Except.ok.inj parsed⟩
  refine ⟨es, aggregate (es.filterMap Entry.result?) project, told, messages_results es,
    fun m _ forward => ?_, by rw [convert, parsed]; rfl, ?_, fun d _ => Rpc.range?_diagnostic d⟩
  · rw [m.span_message]
    exact Stretch.ordered_span_iff m.count_mono forward
  · rw [aggregate_eq, messages, ← messages_entries _ project]
    exact (Report.diagnostics_ofEntries _).map _

/-- An output with a message that starts behind the end of its line and ends on another line. -/
def farApart : String :=
  "[\x7b\"engine\":\"e\",\"result\":[\x7b\"path\":\"a.js\",\"messages\":[\x7b\"line\":-3," ++
    "\"lineEnd\":9223372036854775807,\"column\":1500\x7d]\x7d]\x7d]"

theorem spans_of_farApart : ∃ es, read farApart = .ok es ∧
    (es.flatMap Entry.said).map Said.stretch = [⟨-3, some 0x7fffffffffffffff, 1500, none⟩] ∧
    ∀ m ∈ es.flatMap Entry.said, m.message.span.Ordered := by
  have parsed : (parse farApart).toOption = some [⟨"e", [⟨"a.js",
      [⟨.warning, ⟨0, 0xffffffff, 1500, 1000⟩, "", none⟩]⟩]⟩] := by decide +kernel
  have places : (read farApart).toOption.map (fun es => (es.flatMap Entry.said).map Said.stretch) =
      some [⟨-3, some 0x7fffffffffffffff, 1500, none⟩] := by decide +kernel
  obtain ⟨es, _, told, _, ordered, _⟩ := spans_of_output (.ofText "/p") (of_toOption parsed)
  rw [told] at places
  have listed := Option.some.inj places
  refine ⟨es, told, listed, fun m member => ?_⟩
  have place : m.stretch = ⟨-3, some 0x7fffffffffffffff, 1500, none⟩ :=
    List.mem_singleton.mp (listed ▸ List.mem_map_of_mem member)
  have forward : m.stretch.Forward := by
    rw [place]
    exact ⟨fun e given => by cases given; decide, nofun⟩
  refine (ordered m member forward).mpr (.inr (.inr ?_))
  rw [place]
  cases m with
  | old => exact (by decide : lineFromOne (-3) < lineFromOne 0x7fffffffffffffff)
  | new => exact (by decide : clamp (-3) < clamp 0x7fffffffffffffff)

/-- An output with a message that starts behind the end of its line and gives no end. -/
def longLine : String :=
  "[\x7b\"engine\":\"e\",\"result\":[\x7b\"path\":\"a.js\",\"messages\":[\x7b\"column\":1500," ++
    "\"message\":\"m\"\x7d]\x7d]\x7d]"

/-- Not every message whose given ends are not before its starts has an ordered span. -/
theorem not_spans_ordered : ¬∀ (raw : String) (es : List Entry), read raw = .ok es →
    ∀ m ∈ es.flatMap Entry.said, m.stretch.Forward → m.message.span.Ordered := by
  intro all
  have places : (read longLine).toOption.map (fun es => (es.flatMap Entry.said).map fun m =>
      (m.stretch, m.message.span)) = some [(⟨0, none, 1500, none⟩, ⟨0, 0, 1500, 1000⟩)] := by
    decide +kernel
  obtain ⟨es, told, listed⟩ := Option.map_eq_some_iff.mp places
  obtain ⟨m, said, place⟩ := List.map_eq_singleton_iff.mp listed
  obtain ⟨stretch, span⟩ := Prod.mk.inj place
  have forward : m.stretch.Forward := stretch ▸ ⟨nofun, nofun⟩
  have ordered := all longLine es (of_toOption told) m (said ▸ List.mem_singleton_self m) forward
  rw [span] at ordered
  exact absurd ordered (by decide)

end Output

end LintBridge

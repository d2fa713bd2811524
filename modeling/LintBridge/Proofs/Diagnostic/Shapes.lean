import LintBridge.Engine.Output
import LintBridge.Proofs.Json.Written

namespace LintBridge

namespace Output

/-- How grave an engine says something is. -/
inductive Weight where
  | code (n : Int64)
  | name (s : String)

/-- What an engine has to say of a place, whatever shape it is written in. Lines count from
zero. -/
structure Remark where
  weight : Option Weight
  line : Int64
  lineEnd : Option Int64
  column : Int64
  columnEnd : Option Int64
  text : String
  rule : Option String

/-- What an engine has to say of a file. -/
structure Passage where
  path : String
  remarks : List Remark

/-- What an engine has to say. -/
structure Account where
  engine : String
  passages : List Passage

namespace Weight

def raw : Weight → RawSeverity
  | code n => .code n.toInt
  | name s => .name s

def toJson : Weight → Json
  | code n => .int n.toInt
  | name s => .str s

end Weight

namespace Remark

/-- The message meant, with its rule as it was given. -/
def message (m : Remark) : Message where
  severity := RawSeverity.resolve (m.weight.map Weight.raw)
  span :=
    { line := clamp m.line.toInt
      lineEnd := clamp (m.lineEnd.getD m.line).toInt
      column := clamp m.column.toInt
      columnEnd := endColumn (m.columnEnd.map Int64.toInt) }
  text := m.text
  rule := m.rule

/-- Whether its lines can be counted from one. -/
def Countable (m : Remark) : Prop :=
  m.line < Int64.maxValue ∧ ∀ l ∈ m.lineEnd, l < Int64.maxValue

instance (m : Remark) : Decidable m.Countable :=
  inferInstanceAs (Decidable (_ ∧ ∀ l ∈ m.lineEnd, _))

/-- A start and an end in the older shape. -/
def range (start : Int) (stop : Option Int) : Json :=
  .present [("Start", some (.int start)), ("End", stop.map .int)]

/-- In the older shape, lines counted from one. -/
def toOldJson (m : Remark) : Json :=
  .present [("Severity", m.weight.map Weight.toJson),
    ("Row", some (range (m.line.toInt + 1) (m.lineEnd.map fun l => l.toInt + 1))),
    ("Column", some (range m.column.toInt (m.columnEnd.map Int64.toInt))),
    ("Message", some (.str m.text)),
    ("Rule", m.rule.map fun r => .present [("Name", some (.str r))])]

/-- In the current shape. -/
def toNewJson (m : Remark) : Json :=
  .present [("severity", m.weight.map Weight.toJson), ("line", some (.int m.line.toInt)),
    ("lineEnd", m.lineEnd.map fun l => .int l.toInt), ("column", some (.int m.column.toInt)),
    ("columnEnd", m.columnEnd.map fun c => .int c.toInt), ("message", some (.str m.text)),
    ("ruleId", m.rule.map .str)]

end Remark

namespace Passage

def toOldJson (p : Passage) : Json :=
  .present [("Path", some (.str p.path)), ("Errors", some (.arr (p.remarks.map Remark.toOldJson)))]

def toNewJson (p : Passage) : Json :=
  .present [("path", some (.str p.path)),
    ("messages", some (.arr (p.remarks.map Remark.toNewJson)))]

end Passage

namespace Account

def toOldJson (a : Account) : Json :=
  .present [("Name", some (.str a.engine)),
    ("Model", some (.present [("Files", some (.arr (a.passages.map Passage.toOldJson)))]))]

def toNewJson (a : Account) : Json :=
  .present [("engine", some (.str a.engine)),
    ("result", some (.arr (a.passages.map Passage.toNewJson)))]

end Account

section Decoding

theorem weight_toJson (w : Weight) :
    RawSeverity.decoder (Document.ofJson w.toJson) = .ok w.raw := by
  cases w with
  | code n =>
    have value := Decoder.int64_toInt n
    rw [Json.int, Document.ofJson] at value
    rw [Weight.toJson, Json.int, Document.ofJson, RawSeverity.decoder, Decoder.either, value]
    rfl
  | name s => rfl

theorem toJson_shown (w : Weight) : Document.ofJson w.toJson ≠ .null := by
  cases w <;> simp [Weight.toJson, Json.int, Document.ofJson]

namespace Remark

theorem range_shown (start : Int) (stop : Option Int) :
    Document.ofJson (range start stop) ≠ .null := Json.present_shown _

theorem toOption_range (start : Int) (stop : Option Int) :
    (Range.decoder (Document.ofJson (range start stop))).toOption =
      if Fits start ∧ ∀ i ∈ stop, Fits i then some ⟨start, stop⟩ else none := by
  rw [Range.decoder, range, Record.toOption_decoder_present (by decide) _ (by simp)]
  simp only [Record.sought?_optional, Record.sought?_defaulted, Record.sought?, List.find?_cons,
    String.reduceBEq, Option.bind_some, Option.map_some, Option.elim_some, Decoder.toOption_int64]
  cases stop with
  | none => by_cases fits : Fits start <;> simp [fits]
  | some i =>
    simp only [Option.map_some, Option.elim_some, Decoder.toOption_nullable (Json.int_shown i),
      Decoder.toOption_int64]
    by_cases first : Fits start <;> by_cases last : Fits i <;> simp [first, last]

/-- The message read in the current shape. -/
def new (m : Remark) : NewMessage :=
  ⟨m.weight.map Weight.raw, m.line.toInt, m.lineEnd.map Int64.toInt, m.column.toInt,
    m.columnEnd.map Int64.toInt, m.text, m.rule⟩

theorem decoder_toNewJson (m : Remark) :
    NewMessage.decoder (Document.ofJson m.toNewJson) = .ok m.new := by
  refine of_toOption ?_
  rw [NewMessage.decoder, toNewJson, Record.toOption_decoder_present (by decide) _ (by simp)]
  simp only [Record.sought?_optional, Record.sought?_defaulted, Record.sought?, List.find?_cons,
    String.reduceBEq, Option.bind_some, Option.map_some, Option.elim_some, Decoder.int64_toInt,
    Decoder.text_str, Decoder.elim_nullable weight_toJson toJson_shown,
    Decoder.elim_nullable Decoder.int64_toInt fun x => Json.int_shown x.toInt,
    Decoder.elim_nullable Decoder.text_str Json.str_shown, Option.map_id']
  rfl

/-- The message read in the older shape. -/
def old (m : Remark) : OldMessage where
  severity := m.weight.map Weight.raw
  row := some ⟨m.line.toInt + 1, m.lineEnd.map fun l => l.toInt + 1⟩
  line := none
  column := some ⟨m.column.toInt, m.columnEnd.map Int64.toInt⟩
  text := m.text
  rule := m.rule.map some

theorem oldRule_present (r : String) :
    oldRule (Document.ofJson (.present [("Name", some (.str r))])) = .ok (some r) := by
  refine of_toOption ?_
  rw [oldRule, Record.toOption_decoder_present (by decide) _ (by simp)]
  rfl

theorem toOption_decoder_toOldJson (m : Remark) :
    (OldMessage.decoder (Document.ofJson m.toOldJson)).toOption =
      if m.Countable then some m.old else none := by
  have row : (Range.decoder (Document.ofJson
      (range (m.line.toInt + 1) (m.lineEnd.map fun l => l.toInt + 1)))).toOption =
        if m.Countable then some ⟨m.line.toInt + 1, m.lineEnd.map fun l => l.toInt + 1⟩
        else none := by
    have counted : (Fits (m.line.toInt + 1) ∧
        ∀ i ∈ m.lineEnd.map fun l => l.toInt + 1, Fits i) ↔ m.Countable := by
      unfold Countable
      cases m.lineEnd <;> simp [fits_next_iff]
    simp only [toOption_range, counted]
  have column : Range.decoder (Document.ofJson
      (range m.column.toInt (m.columnEnd.map Int64.toInt))) =
        .ok ⟨m.column.toInt, m.columnEnd.map Int64.toInt⟩ := by
    refine of_toOption ((toOption_range _ _).trans (if_pos ⟨fits_toInt _, ?_⟩))
    cases m.columnEnd <;> simp [fits_toInt]
  rw [OldMessage.decoder, toOldJson, Record.toOption_decoder_present (by decide) _ (by simp)]
  simp only [Record.sought?_optional, Record.sought?_defaulted, Record.sought?, List.find?_cons,
    String.reduceBEq, Option.bind_some, Option.map_some, Option.elim_some, Decoder.text_str,
    Decoder.elim_nullable weight_toJson toJson_shown,
    Decoder.elim_nullable oldRule_present fun r => Json.present_shown _,
    Decoder.toOption_nullable (range_shown _ _), row, column, List.find?_nil, Option.bind_none,
    Option.map_none, Option.elim_none]
  by_cases countable : m.Countable
  · rw [if_pos countable, if_pos countable]
    rfl
  · rw [if_neg countable, if_neg countable]
    rfl

theorem toMessage_old (m : Remark) : m.old.toMessage = m.message := by
  -- one more and one less again, and never below the least number
  have low (x : Int64) : lineFromOne (x.toInt + 1) = clamp x.toInt := by
    have bound : leastInt ≤ x.toInt := (fits_toInt x).1
    rw [lineFromOne, Int.add_sub_cancel, Int.max_eq_right bound]
  have last : (m.lineEnd.map fun l => l.toInt + 1).getD (m.line.toInt + 1) =
      (m.lineEnd.getD m.line).toInt + 1 := by
    cases m.lineEnd <;> rfl
  have rule : (m.rule.map some).bind id = m.rule := by
    cases m.rule <;> rfl
  simp only [OldMessage.toMessage, OldMessage.lines, old, message, low, last, rule, Option.map_some,
    Option.getD_some, Option.bind_some]

theorem toMessage_new (m : Remark) :
    m.new.toMessage = { m.message with rule := m.rule.filter fun r => !r.isEmpty } := by
  have last : (m.lineEnd.map Int64.toInt).getD m.line.toInt = (m.lineEnd.getD m.line).toInt := by
    cases m.lineEnd <;> rfl
  simp only [NewMessage.toMessage, new, message, last]

end Remark

namespace Passage

/-- Whether the lines of all its remarks can be counted from one. -/
def Countable (p : Passage) : Prop := ∀ m ∈ p.remarks, m.Countable

instance (p : Passage) : Decidable p.Countable :=
  inferInstanceAs (Decidable (∀ m ∈ p.remarks, _))

/-- What is meant, with the rules as they were given. -/
def result (p : Passage) : FileResult := ⟨p.path, p.remarks.map Remark.message⟩

/-- The file read in the older shape. -/
def old (p : Passage) : OldFile := ⟨p.path, p.remarks.map Remark.old⟩

/-- The file read in the current shape. -/
def new (p : Passage) : NewFile := ⟨p.path, p.remarks.map Remark.new⟩

theorem toOption_decoder_toOldJson (p : Passage) :
    (OldFile.decoder (Document.ofJson p.toOldJson)).toOption =
      if p.Countable then some p.old else none := by
  have remarks := Decoder.toOption_list Remark.toOption_decoder_toOldJson p.remarks
  rw [OldFile.decoder, toOldJson, Record.toOption_decoder_present (by decide) _ (by simp)]
  simp only [Record.sought?_required, Record.sought?_defaulted, Record.sought?, List.find?_cons,
    String.reduceBEq, Option.bind_some, Option.map_some, Option.elim_some, Decoder.text_str,
    remarks]
  by_cases countable : p.Countable
  · rw [if_pos countable, if_pos (show ∀ m ∈ p.remarks, _ from countable)]
    rfl
  · rw [if_neg countable, if_neg (show ¬∀ m ∈ p.remarks, _ from countable)]
    rfl

theorem decoder_toNewJson (p : Passage) :
    NewFile.decoder (Document.ofJson p.toNewJson) = .ok p.new := by
  refine of_toOption ?_
  rw [NewFile.decoder, toNewJson, Record.toOption_decoder_present (by decide) _ (by simp)]
  simp only [Record.sought?_required, Record.sought?_defaulted, Record.sought?, List.find?_cons,
    String.reduceBEq, Option.bind_some, Option.map_some, Option.elim_some, Decoder.text_str,
    Decoder.list_map Remark.decoder_toNewJson]
  rfl

end Passage

section Plain

variable {depth : Nat}

theorem plain_weight (w : Weight) : w.toJson.Plain depth := by
  cases w with
  | code n => exact Json.plain_toInt n
  | name s => exact .str s

theorem Remark.plain_toNewJson (m : Remark) : m.toNewJson.Plain (depth + 1) := by
  refine Json.plain_present ?_
  simp only [List.forall_mem_cons]
  exact ⟨Json.plain_map plain_weight _, Json.plain_some (Json.plain_toInt _),
    Json.plain_map Json.plain_toInt _, Json.plain_some (Json.plain_toInt _),
    Json.plain_map Json.plain_toInt _, Json.plain_some (.str _), Json.plain_map .str _, nofun⟩

theorem Remark.plain_toOldJson (m : Remark) : m.toOldJson.Plain (depth + 2) := by
  have lines : (range (m.line.toInt + 1) (m.lineEnd.map fun l => l.toInt + 1)).Plain
      (depth + 1) := by
    refine Json.plain_present ?_
    rw [Option.map_map]
    simp only [List.forall_mem_cons]
    exact ⟨Json.plain_some (Json.plain_next _), Json.plain_map Json.plain_next _, nofun⟩
  have columns : (range m.column.toInt (m.columnEnd.map Int64.toInt)).Plain (depth + 1) := by
    refine Json.plain_present ?_
    rw [Option.map_map]
    simp only [List.forall_mem_cons]
    exact ⟨Json.plain_some (Json.plain_toInt _), Json.plain_map Json.plain_toInt _, nofun⟩
  have rule (r : String) : (Json.present [("Name", some (.str r))]).Plain (depth + 1) := by
    refine Json.plain_present ?_
    simp only [List.forall_mem_cons]
    exact ⟨Json.plain_some (.str r), nofun⟩
  refine Json.plain_present ?_
  simp only [List.forall_mem_cons]
  exact ⟨Json.plain_map plain_weight _, Json.plain_some lines, Json.plain_some columns,
    Json.plain_some (.str _), Json.plain_map rule _, nofun⟩

theorem Passage.plain_toNewJson (p : Passage) : p.toNewJson.Plain (depth + 3) := by
  refine Json.plain_present ?_
  simp only [List.forall_mem_cons]
  exact ⟨Json.plain_some (.str _),
    Json.plain_some (Json.plain_list fun m _ => m.plain_toNewJson), nofun⟩

theorem Passage.plain_toOldJson (p : Passage) : p.toOldJson.Plain (depth + 4) := by
  refine Json.plain_present ?_
  simp only [List.forall_mem_cons]
  exact ⟨Json.plain_some (.str _),
    Json.plain_some (Json.plain_list fun m _ => m.plain_toOldJson), nofun⟩

theorem Account.plain_toNewJson (a : Account) : a.toNewJson.Plain (depth + 5) := by
  refine Json.plain_present ?_
  simp only [List.forall_mem_cons]
  exact ⟨Json.plain_some (.str _),
    Json.plain_some (Json.plain_list fun p _ => p.plain_toNewJson), nofun⟩

theorem Account.plain_toOldJson (a : Account) : a.toOldJson.Plain (depth + 7) := by
  have files : (Json.present [("Files", some (.arr (a.passages.map Passage.toOldJson)))]).Plain
      (depth + 6) := by
    refine Json.plain_present ?_
    simp only [List.forall_mem_cons]
    exact ⟨Json.plain_some (Json.plain_list fun p _ => p.plain_toOldJson), nofun⟩
  refine Json.plain_present ?_
  simp only [List.forall_mem_cons]
  exact ⟨Json.plain_some (.str _), Json.plain_some files, nofun⟩

end Plain

namespace Account

/-- Whether all lines in it can be counted from one. -/
def Countable (a : Account) : Prop := ∀ p ∈ a.passages, p.Countable

instance (a : Account) : Decidable a.Countable :=
  inferInstanceAs (Decidable (∀ p ∈ a.passages, _))

/-- The entry read in the older shape. -/
def old (a : Account) : OldEntry := ⟨a.engine, some (a.passages.map Passage.old)⟩

/-- The entry read in the current shape. -/
def new (a : Account) : NewEntry := ⟨a.engine, some (a.passages.map Passage.new)⟩

theorem toOption_decoder_toOldJson (a : Account) :
    (OldEntry.decoder (Document.ofJson a.toOldJson)).toOption =
      if a.Countable then some a.old else none := by
  have files : (oldModel (Document.ofJson
      (.present [("Files", some (.arr (a.passages.map Passage.toOldJson)))]))).toOption =
        if a.Countable then some (a.passages.map Passage.old) else none := by
    rw [oldModel, Record.toOption_decoder_present (by decide) _ (by simp)]
    simp only [Record.sought?_defaulted, Record.sought?, List.find?_cons, String.reduceBEq,
      Option.bind_some, Option.map_some, Option.elim_some,
      Decoder.toOption_list Passage.toOption_decoder_toOldJson]
    exact Option.map_id'
  rw [OldEntry.decoder, toOldJson, Record.toOption_decoder_present (by decide) _ (by simp)]
  simp only [Record.sought?_required, Record.sought?_optional, Record.sought?, List.find?_cons,
    String.reduceBEq, Option.bind_some, Option.map_some, Option.elim_some, Decoder.text_str,
    Decoder.toOption_nullable (Json.present_shown _), files]
  by_cases countable : a.Countable
  · rw [if_pos countable, if_pos countable]
    rfl
  · rw [if_neg countable, if_neg countable]
    rfl

theorem decoder_toNewJson (a : Account) :
    NewEntry.decoder (Document.ofJson a.toNewJson) = .ok a.new := by
  have shown : Document.ofJson (.arr (a.passages.map Passage.toNewJson)) ≠ .null := by
    simp [Document.ofJson]
  refine of_toOption ?_
  rw [NewEntry.decoder, toNewJson, Record.toOption_decoder_present (by decide) _ (by simp)]
  simp only [Record.sought?_required, Record.sought?_optional, Record.sought?, List.find?_cons,
    String.reduceBEq, Option.bind_some, Option.map_some, Option.elim_some, Decoder.text_str,
    Decoder.toOption_nullable shown, Decoder.list_map Passage.decoder_toNewJson]
  rfl

/-- An entry in one shape does not fit the other, which wants its engine under another name. -/
theorem old_of_toNewJson (a : Account) :
    (OldEntry.decoder (Document.ofJson a.toNewJson)).toOption = none := by
  rw [OldEntry.decoder, toNewJson, Record.toOption_decoder_present (by decide) _ (by simp)]
  simp only [Record.sought?_required, Record.sought?_optional, Record.sought?, List.find?_cons,
    String.reduceBEq, List.find?_nil, Option.bind_none, Option.map_none, Option.bind_some]

theorem new_of_toOldJson (a : Account) :
    (NewEntry.decoder (Document.ofJson a.toOldJson)).toOption = none := by
  rw [NewEntry.decoder, toOldJson, Record.toOption_decoder_present (by decide) _ (by simp)]
  simp only [Record.sought?_required, Record.sought?_optional, Record.sought?, List.find?_cons,
    String.reduceBEq, List.find?_nil, Option.bind_none, Option.map_none, Option.bind_some]

theorem toOption_entry {v : Json} (plain : v.Plain 126) :
    (Entry.decoder (Document.ofJson v)).toOption =
      ((OldEntry.decoder (Document.ofJson v)).toOption.map Entry.old).or
        ((NewEntry.decoder (Document.ofJson v)).toOption.map Entry.new) := by
  -- the value is taken whole first, and either shape is tried on that
  have whole : Document.value? itemDepth (Document.ofJson v) = some v :=
    Document.value?_ofJson plain.steady
  rw [Entry.decoder, Decoder.either, whole]
  cases OldEntry.decoder (Document.ofJson v) with
  | ok e => rfl
  | error _ => cases NewEntry.decoder (Document.ofJson v) <;> rfl

theorem entry_toOldJson (a : Account) : (Entry.decoder (Document.ofJson a.toOldJson)).toOption =
    if a.Countable then some (.old a.old) else none := by
  rw [toOption_entry a.plain_toOldJson, toOption_decoder_toOldJson,
    new_of_toOldJson]
  by_cases countable : a.Countable
  · rw [if_pos countable, if_pos countable]
    rfl
  · rw [if_neg countable, if_neg countable]
    rfl

theorem entry_toNewJson (a : Account) :
    Entry.decoder (Document.ofJson a.toNewJson) = .ok (.new a.new) := by
  refine of_toOption ?_
  rw [toOption_entry a.plain_toNewJson, old_of_toNewJson, decoder_toNewJson]
  rfl

/-- The result meant, with the rules as they were given; one of no file is none. -/
def result? (a : Account) : Option EngineResult :=
  if a.passages.isEmpty then none else some ⟨a.engine, a.passages.map Passage.result⟩

end Account

end Decoding

end Output

/-- A message without its rule, if that has an empty name. -/
def Message.ruled (m : Message) : Message := { m with rule := m.rule.filter fun r => !r.isEmpty }

/-- A file without the rules that have an empty name. -/
def FileResult.ruled (f : FileResult) : FileResult :=
  { f with messages := f.messages.map Message.ruled }

/-- A result without the rules that have an empty name. -/
def EngineResult.ruled (r : EngineResult) : EngineResult :=
  { r with files := r.files.map FileResult.ruled }

theorem map_eq_self_iff {α : Type} {f : α → α} {l : List α} :
    l.map f = l ↔ ∀ a ∈ l, f a = a := by
  simpa using List.map_inj_left (l := l) (f := f) (g := id)

theorem Message.ruled_eq_iff {m : Message} : m.ruled = m ↔ m.rule ≠ some "" := by
  obtain ⟨severity, span, text, rule⟩ := m
  cases rule with
  | none => simp [ruled]
  | some r => by_cases empty : r = "" <;> simp [ruled, empty]

theorem FileResult.ruled_eq_iff {f : FileResult} :
    f.ruled = f ↔ ∀ m ∈ f.messages, m.rule ≠ some "" := by
  obtain ⟨path, messages⟩ := f
  simp only [ruled, mk.injEq, true_and, map_eq_self_iff, Message.ruled_eq_iff]

theorem EngineResult.ruled_eq_iff {r : EngineResult} :
    r.ruled = r ↔ ∀ f ∈ r.files, f.ruled = f := by
  obtain ⟨engine, files⟩ := r
  simp only [ruled, mk.injEq, true_and, map_eq_self_iff]

namespace Output

namespace Account

theorem result?_old (a : Account) : (Entry.old a.old).result? = a.result? := by
  have files : (Entry.old a.old).files = a.passages.map Passage.result := by
    rw [Entry.files, old, Option.getD_some, List.map_map]
    refine List.map_congr_left fun p _ => ?_
    have messages : p.old.messages.map OldMessage.toMessage = p.remarks.map Remark.message := by
      rw [Passage.old, List.map_map]
      exact List.map_congr_left fun m _ => Remark.toMessage_old m
    rw [Function.comp_apply, messages]
    rfl
  rw [Entry.result?, result?, files, List.isEmpty_map]
  rfl

theorem result?_new (a : Account) :
    (Entry.new a.new).result? = a.result?.map EngineResult.ruled := by
  have files : (Entry.new a.new).files =
      (a.passages.map Passage.result).map FileResult.ruled := by
    rw [Entry.files, new, Option.getD_some, List.map_map, List.map_map]
    refine List.map_congr_left fun p _ => ?_
    have messages : p.new.messages.map NewMessage.toMessage =
        (p.remarks.map Remark.message).map Message.ruled := by
      rw [Passage.new, List.map_map, List.map_map]
      exact List.map_congr_left fun m _ => Remark.toMessage_new m
    rw [Function.comp_apply, messages]
    rfl
  rw [Entry.result?, result?, files, List.isEmpty_map, List.isEmpty_map]
  cases a.passages.isEmpty <;> rfl

end Account

/-- The text of an output, laid out in some way. -/
def written (l : Json.Layout) (entries : List Json) : String :=
  String.ofList (l.chars 0 (.arr entries))

theorem written_brackets (l : Json.Layout) (entries : List Json) :
    ∃ inner, written l entries = String.ofList ('[' :: (inner ++ [']'])) := by
  have closed (vs : List Json) : ∃ front, l.items 0 vs = front ++ [']'] := by
    induction vs with
    | nil => exact ⟨l.gap 0, rfl⟩
    | cons v vs ih =>
      obtain ⟨front, behind⟩ := ih
      refine ⟨',' :: (l.gap 1 ++ (l.chars 1 v ++ front)), ?_⟩
      simp only [Json.Layout.items, behind, List.cons_append, List.append_assoc]
  cases entries with
  | nil => exact ⟨[], rfl⟩
  | cons v vs =>
    obtain ⟨front, behind⟩ := closed vs
    refine ⟨l.gap 1 ++ (l.chars 1 v ++ front), ?_⟩
    simp only [written, Json.Layout.chars, behind, List.append_assoc]

theorem trimBlank_written (l : Json.Layout) (entries : List Json) :
    trimBlank (written l entries) = written l entries := by
  obtain ⟨inner, brackets⟩ := written_brackets l entries
  have last : trimEndChars ('[' :: (inner ++ [']'])) = '[' :: (inner ++ [']']) :=
    @trimEndChars_of_last ']' ('[' :: inner) rfl
  rw [brackets, trimBlank, String.toList_ofList, trimChars, trimStartChars_of_head rfl, last]

/-- The text of an output reads as its entries. -/
theorem read?_written {l : Json.Layout} {entries : List Json}
    (steady : ∀ n ∈ (Json.arr entries).numbers, n.Steady) :
    Document.read? (trimBlank (written l entries)) = some (Document.ofJson (.arr entries)) := by
  have document := Document.read?_chars (l := l) steady 0
    (show List.all [] Document.isJsonBlank from rfl)
  rwa [List.append_nil, ← written, ← trimBlank_written] at document

/-- What comes of an output is decided by the document that its text reads as. -/
theorem parse_of_read? {raw : String} {d : Document}
    (text : Document.read? (trimBlank raw) = some d) : parse raw =
      ((Decoder.list Entry.decoder d).map (List.filterMap Entry.result?)).mapError
        fun _ => .malformedOutput := by
  have full : ¬(trimBlank raw).isEmpty := by
    intro blank
    rw [String.isEmpty_iff.mp blank] at text
    cases text
  rw [parse, if_neg full, decodeText, text]
  dsimp only
  cases Decoder.list Entry.decoder d <;> rfl

theorem parse_written {l : Json.Layout} {entries : List Json}
    (plain : ∀ v ∈ entries, v.Plain 126) : parse (written l entries) =
      ((Decoder.list Entry.decoder (Document.ofJson (.arr entries))).map
        (List.filterMap Entry.result?)).mapError fun _ => .malformedOutput :=
  parse_of_read? (read?_written (Json.Plain.arr plain).steady.numbers)

/-- What is said of any place in some accounts. -/
def remarks (accounts : List Account) : List Remark :=
  accounts.flatMap fun a => a.passages.flatMap Passage.remarks

theorem countable_iff {accounts : List Account} :
    (∀ a ∈ accounts, a.Countable) ↔ ∀ m ∈ remarks accounts, m.Countable := by
  simp only [remarks, Account.Countable, Passage.Countable, List.mem_flatMap]
  exact ⟨fun all m ⟨a, here, p, within, member⟩ => all a here p within m member,
    fun all a here p within m member => all m ⟨a, here, p, within, member⟩⟩

theorem parse_old (l : Json.Layout) (accounts : List Account) :
    parse (written l (accounts.map Account.toOldJson)) =
      if ∀ m ∈ remarks accounts, m.Countable then .ok (accounts.filterMap Account.result?)
      else .error .malformedOutput := by
  have plain : ∀ v ∈ accounts.map Account.toOldJson, v.Plain 126 := by
    intro v member
    obtain ⟨a, _, rfl⟩ := List.mem_map.mp member
    exact a.plain_toOldJson
  have read := Decoder.toOption_list Account.entry_toOldJson accounts
  rw [parse_written plain]
  by_cases countable : ∀ m ∈ remarks accounts, m.Countable
  · rw [if_pos (countable_iff.mpr countable)] at read
    have meant : Entry.result? ∘ (fun a : Account => .old a.old) = Account.result? :=
      funext Account.result?_old
    rw [if_pos countable, of_toOption read, ← meant, ← List.filterMap_map]
    rfl
  · rw [if_neg (mt countable_iff.mp countable)] at read
    rw [if_neg countable]
    cases listed : Decoder.list Entry.decoder
        (Document.ofJson (.arr (accounts.map Account.toOldJson))) with
    | error e => rfl
    | ok es => rw [listed] at read; cases read

theorem parse_new (l : Json.Layout) (accounts : List Account) :
    parse (written l (accounts.map Account.toNewJson)) =
      .ok ((accounts.filterMap Account.result?).map EngineResult.ruled) := by
  have plain : ∀ v ∈ accounts.map Account.toNewJson, v.Plain 126 := by
    intro v member
    obtain ⟨a, _, rfl⟩ := List.mem_map.mp member
    exact a.plain_toNewJson
  have meant : Entry.result? ∘ (fun a : Account => .new a.new) =
      fun a => a.result?.map EngineResult.ruled := funext Account.result?_new
  rw [parse_written plain, Decoder.list_map Account.entry_toNewJson, List.map_filterMap, ← meant,
    ← List.filterMap_map]
  rfl

/-- Results stay as they are without the rules of an empty name just when there are none. -/
theorem ruled_eq_iff {accounts : List Account} :
    (accounts.filterMap Account.result?).map EngineResult.ruled =
      accounts.filterMap Account.result? ↔ ∀ m ∈ remarks accounts, m.rule ≠ some "" := by
  rw [map_eq_self_iff]
  constructor
  · intro same m member
    obtain ⟨a, here, within⟩ := List.mem_flatMap.mp member
    obtain ⟨p, listed, said⟩ := List.mem_flatMap.mp within
    -- the account that says it has a file, so it is not left out
    have some : a.passages.isEmpty = false := by
      cases passages : a.passages with
      | nil => rw [passages] at listed; cases listed
      | cons => rfl
    have result : a.result? = .some ⟨a.engine, a.passages.map Passage.result⟩ := by
      rw [Account.result?, some]
      rfl
    have whole := same _ (List.mem_filterMap.mpr ⟨a, here, result⟩)
    have file := EngineResult.ruled_eq_iff.mp whole _ (List.mem_map_of_mem listed)
    exact FileResult.ruled_eq_iff.mp file _ (List.mem_map_of_mem said)
  · intro named r member
    obtain ⟨a, here, result⟩ := List.mem_filterMap.mp member
    rw [Account.result?] at result
    split at result
    · cases result
    · cases result
      refine EngineResult.ruled_eq_iff.mpr fun f listed => ?_
      obtain ⟨p, within, rfl⟩ := List.mem_map.mp listed
      refine FileResult.ruled_eq_iff.mpr fun _ told => ?_
      obtain ⟨m, said, rfl⟩ := List.mem_map.mp told
      exact named m (List.mem_flatMap.mpr ⟨a, here, List.mem_flatMap.mpr ⟨p, within, said⟩⟩)

/-- What an engine has to say comes to the same in both shapes, just when all lines can be counted
from one and no rule has an empty name: the current shape takes such a rule for none, the older one
keeps it. -/
theorem parse_inBothShapes (l l' : Json.Layout) (accounts : List Account) :
    let old := parse (written l (accounts.map Account.toOldJson))
    let new := parse (written l' (accounts.map Account.toNewJson))
    let results := accounts.filterMap Account.result?
    new = .ok (results.map EngineResult.ruled) ∧
    ((∀ m ∈ remarks accounts, m.Countable) → old = .ok results) ∧
    (¬(∀ m ∈ remarks accounts, m.Countable) → old = .error .malformedOutput) ∧
    (old = new ↔ ∀ m ∈ remarks accounts, m.Countable ∧ m.rule ≠ some "") := by
  intro old new results
  have older : old = _ := parse_old l accounts
  have current : new = _ := parse_new l' accounts
  refine ⟨current, fun countable => older.trans (if_pos countable),
    fun uncountable => older.trans (if_neg uncountable), ?_⟩
  rw [older, current]
  by_cases countable : ∀ m ∈ remarks accounts, m.Countable
  · rw [if_pos countable, Except.ok.injEq, eq_comm, ruled_eq_iff]
    exact ⟨fun named m member => ⟨countable m member, named m member⟩,
      fun all m member => (all m member).2⟩
  · rw [if_neg countable]
    exact ⟨nofun, fun all => absurd (fun m member => (all m member).1) countable⟩

/-- One remark in the older shape keeps a rule of an empty name, which the current shape drops. -/
theorem not_parse_inBothShapes :
    ¬∀ (l l' : Json.Layout) (accounts : List Account),
      (∀ m ∈ remarks accounts, m.Countable) →
      parse (written l (accounts.map Account.toOldJson)) =
        parse (written l' (accounts.map Account.toNewJson)) := by
  intro all
  let told : Remark := ⟨none, 0, none, 0, none, "m", some ""⟩
  have listed : remarks [⟨"e", [⟨"a.js", [told]⟩]⟩] = [told] := rfl
  have countable : ∀ m ∈ remarks [⟨"e", [⟨"a.js", [told]⟩]⟩], m.Countable := by
    rw [listed]
    exact List.forall_mem_singleton.mpr ⟨by decide, nofun⟩
  have same := all .compact .compact _ countable
  rw [parse_old, if_pos countable, parse_new, Except.ok.injEq, eq_comm, ruled_eq_iff] at same
  exact same told (listed ▸ List.mem_singleton_self told) rfl

end Output

end LintBridge

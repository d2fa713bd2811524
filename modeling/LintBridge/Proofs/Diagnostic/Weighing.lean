import LintBridge.Proofs.Diagnostic.Shapes
import LintBridge.Proofs.Diagnostic.Telling
import LintBridge.Proofs.Json.Around

namespace LintBridge

namespace Output

open Record (Has)

/-- Whether levels of an entry lead to the severity of one of its messages. -/
inductive Shape.Leads : Shape → List Around → Prop
  | old {entry model file message : Around} (files files' messages messages' : List Document) :
      entry.At "Model" 1 → model.At "Files" 0 → file.At "Errors" 1 → message.At "Severity" 0 →
      Leads .old
        [entry, model, .item files files', file, .item messages messages', message]
  | new {entry file message : Around} (files files' messages messages' : List Document) :
      entry.At "result" 1 → file.At "messages" 1 → message.At "severity" 0 →
      Leads .new [entry, .item files files', file, .item messages messages', message]

/-- A result with the severity of one of its messages left open. -/
structure Unweighed where
  engine : String
  path : String
  files : List FileResult
  files' : List FileResult
  message : Message
  messages : List Message
  messages' : List Message

/-- The result with a severity. -/
def Unweighed.result (u : Unweighed) (severity : Severity) : EngineResult where
  engine := u.engine
  files := u.files ++ ⟨u.path, u.messages ++ { u.message with severity } :: u.messages'⟩ :: u.files'

/-- The code that a number is: an integer of 64 bits. -/
def code? : Option Number → Option Int
  | some (.int i) => if -0x8000000000000000 ≤ i ∧ i ≤ 0x7fffffffffffffff then some i else none
  | _ => none

section Weighed

variable {n : Option Number} {i : Int}

theorem toOption_int64 (n : Option Number) : (Decoder.int64 (.num n)).toOption = code? n := by
  rcases n with _ | ⟨i⟩ | ⟨x⟩
  · rfl
  · rw [code?, Decoder.int64, Decoder.integer]
    split <;> rfl
  · rfl

/-- What a number is read as where a severity stands. -/
theorem toOption_severity (n : Option Number) :
    (Decoder.nullable RawSeverity.decoder (.num n)).toOption =
      (code? n).map fun i => some (.code i) := by
  rw [← toOption_int64]
  change ((RawSeverity.decoder (.num n)).map some).toOption = _
  rw [RawSeverity.decoder, Decoder.either, Document.value?]
  cases n with
  | none => rfl
  | some n =>
    rw [if_neg (by simp)]
    have unnamed : (Decoder.text (.num (some n))).toOption = none := by cases n <;> rfl
    cases Decoder.int64 (.num (some n)) with
    | ok i => rfl
    | error e =>
      cases named : Decoder.text (.num (some n)) with
      | ok s => rw [named] at unnamed; cases unnamed
      | error e => rfl

/-- A message of the older shape is read through its severity. -/
theorem oldMessage_through {level : Around} (there : level.At "Severity" 0) {d : Document}
    {m : OldMessage} (decoded : OldMessage.decoder (level.fill d) = .ok m) :
    OldMessage.decoder.Through level.fill (Decoder.nullable RawSeverity.decoder)
      fun severity => { m with severity } := by
  obtain ⟨make, b, way, _, made, through⟩ := Record.decoder_through (by decide)
    (by simp [Record.Untouched]) (.before (.before (.before (.before (.before .last))))) there
    decoded
  obtain ⟨_, rule, ⟨_, text, ⟨_, column, ⟨_, line, ⟨_, row, rfl, rfl⟩, rfl⟩, rfl⟩, rfl⟩, rfl⟩ :=
    way
  subst made
  exact through

/-- A message of the current shape is read through its severity. -/
theorem newMessage_through {level : Around} (there : level.At "severity" 0) {d : Document}
    {m : NewMessage} (decoded : NewMessage.decoder (level.fill d) = .ok m) :
    NewMessage.decoder.Through level.fill (Decoder.nullable RawSeverity.decoder)
      fun severity => { m with severity } := by
  obtain ⟨make, b, way, _, made, through⟩ := Record.decoder_through (by decide)
    (by simp [Record.Untouched]) (.before (.before (.before (.before (.before (.before .last))))))
    there decoded
  obtain ⟨_, rule, ⟨_, text, ⟨_, columnEnd, ⟨_, column, ⟨_, lineEnd, ⟨_, line, rfl, rfl⟩, rfl⟩,
    rfl⟩, rfl⟩, rfl⟩, rfl⟩ := way
  subst made
  exact through

theorem oldModel_through {level : Around} (there : level.At "Files" 0) {d : Document}
    {fs : List OldFile} (decoded : oldModel (level.fill d) = .ok fs) :
    Decoder.list OldFile.decoder d = .ok fs ∧
      oldModel.Through level.fill (Decoder.list OldFile.decoder) id := by
  obtain ⟨make, b, way, value, made, through⟩ := Record.decoder_through (by decide)
    (by simp [Record.Untouched]) .last there decoded
  cases way
  subst made
  exact ⟨value, through⟩

/-- An entry is read in a shape through the severity of one of its messages, which is all that
changes with it. -/
theorem read?_through {s : Shape} {levels : List Around} (leads : s.Leads levels) {d : Document}
    {e : Entry} (decoded : s.read? (.within levels d) = some e) :
    ∃ (u : Unweighed) (make : Option RawSeverity → Entry),
      (∀ raw, (make raw).result? = some (u.result (RawSeverity.resolve raw))) ∧
      ∀ d, s.read? (.within levels d) =
        (Decoder.nullable RawSeverity.decoder d).toOption.map make := by
  cases leads with
  | old files files' messages messages' atEntry atModel atFile atMessage =>
    obtain ⟨old, fits, rfl⟩ := Option.map_eq_some_iff.mp decoded
    obtain ⟨name, found, filled, rfl, first⟩ := Record.titled_through (by decide) atEntry
      (of_toOption fits)
    obtain ⟨fs, model, rfl⟩ := Decoder.of_nullable_fill filled
    obtain ⟨listed, second⟩ := oldModel_through atModel model
    obtain ⟨left, path, before, m, after, right, value, rfl, third⟩ :=
      Record.items_through (by decide) atFile listed
    have fourth := oldMessage_through atMessage value
    have whole := first.comp (second.comp (third.comp fourth)).nullable
    refine ⟨⟨name, path, left.map fun f => ⟨f.path, f.messages.map OldMessage.toMessage⟩,
      right.map fun f => ⟨f.path, f.messages.map OldMessage.toMessage⟩, m.toMessage,
      before.map OldMessage.toMessage, after.map OldMessage.toMessage⟩, _, fun raw => ?_,
      fun d => (congrArg (Option.map Entry.old) (whole d)).trans (Option.map_map ..)⟩
    have weighed : ({ m with severity := raw } : OldMessage).toMessage =
        { m.toMessage with severity := RawSeverity.resolve raw } := rfl
    simp [Entry.result?, Entry.files, Entry.engine, Unweighed.result, weighed]
  | new files files' messages messages' atEntry atFile atMessage =>
    obtain ⟨new, fits, rfl⟩ := Option.map_eq_some_iff.mp decoded
    obtain ⟨name, found, filled, rfl, first⟩ := Record.titled_through (by decide) atEntry
      (of_toOption fits)
    obtain ⟨fs, listed, rfl⟩ := Decoder.of_nullable_fill filled
    obtain ⟨left, path, before, m, after, right, value, rfl, second⟩ :=
      Record.items_through (by decide) atFile listed
    have third := newMessage_through atMessage value
    have whole := first.comp (second.comp third).nullable
    refine ⟨⟨name, path, left.map fun f => ⟨f.path, f.messages.map NewMessage.toMessage⟩,
      right.map fun f => ⟨f.path, f.messages.map NewMessage.toMessage⟩, m.toMessage,
      before.map NewMessage.toMessage, after.map NewMessage.toMessage⟩, _, fun raw => ?_,
      fun d => (congrArg (Option.map Entry.new) (whole d)).trans (Option.map_map ..)⟩
    have weighed : ({ m with severity := raw } : NewMessage).toMessage =
        { m.toMessage with severity := RawSeverity.resolve raw } := rfl
    simp [Entry.result?, Entry.files, Entry.engine, Unweighed.result, weighed]

end Weighed

section Tolerance

open Decoder (Tolerant tolerant_int64 tolerant_text)

theorem tolerant_severity : RawSeverity.decoder.Tolerant :=
  (tolerant_int64.map _).either (tolerant_text.map _)

theorem tolerant_range : Range.decoder.Tolerant :=
  Record.Tolerant.decoder (by simp [tolerant_int64, Tolerant.nullable]) (by decide) (by simp) _

theorem tolerant_oldRule : oldRule.Tolerant :=
  Record.Tolerant.decoder (by simp [tolerant_text.nullable]) (by decide) (by simp) _

theorem tolerant_oldMessage : OldMessage.decoder.Tolerant :=
  Record.Tolerant.decoder (by simp [tolerant_severity.nullable, tolerant_range.nullable,
    tolerant_int64.nullable, tolerant_text, tolerant_oldRule.nullable]) (by decide) (by simp) _

theorem tolerant_oldFile : OldFile.decoder.Tolerant :=
  Record.Tolerant.decoder (by simp [tolerant_text, tolerant_oldMessage.list]) (by decide)
    (by simp) _

theorem tolerant_oldModel : oldModel.Tolerant :=
  Record.Tolerant.decoder (by simp [tolerant_oldFile.list]) (by decide) (by simp) _

/-- An entry of the older shape that is read with some number is read with an integer of 64 bits in
its place. -/
theorem tolerant_oldEntry : OldEntry.decoder.Tolerant :=
  Record.Tolerant.decoder (by simp [tolerant_text, tolerant_oldModel.nullable]) (by decide)
    (by simp) _

end Tolerance

/-- An output with the severity of one of its messages left open. -/
structure Spot where
  shape : Shape
  before : List Document
  after : List Document
  levels : List Around
  leads : shape.Leads levels

namespace Spot

variable {p : Spot}

/-- The entry of the message with a number for the severity. -/
def entry (p : Spot) (n : Option Number) : Document := .within p.levels (.num n)

/-- The output with a number for the severity; one without a value is too large for a double. -/
def output (p : Spot) (n : Option Number) : Document := .arr (p.before ++ p.entry n :: p.after)

/-- Whether nothing is wrong with the output but maybe the number: there is a code with which the
output is read, and the entry in the shape that has the severity there. -/
def Sound (p : Spot) : Prop :=
  ∃ i, code? (some (.int i)) = some i ∧
    (∃ es, Decoder.list Entry.decoder (p.output (some (.int i))) = .ok es) ∧
    readAs (p.entry (some (.int i))) = p.shape

theorem Sound.decoder_eq_ok (sound : p.Sound) : ∃ i e, code? (some (.int i)) = some i ∧
    readAs (p.entry (some (.int i))) = p.shape ∧
    Entry.decoder (p.entry (some (.int i))) = .ok e := by
  obtain ⟨i, code, ⟨es, listed⟩, shape⟩ := sound
  obtain ⟨_, e, _, here, _⟩ := Decoder.list_through listed
  exact ⟨i, e, code, shape, here⟩

/-- In its shape the entry is read through the code for the severity. -/
theorem Sound.read?_eq_map (sound : p.Sound) : ∃ (u : Unweighed) (make : Int → Entry),
    (∀ i, (make i).result? = some (u.result (.ofCode i))) ∧
      ∀ n, p.shape.read? (p.entry n) = (code? n).map make := by
  obtain ⟨i, e, _, shape, here⟩ := sound.decoder_eq_ok
  have base := read?_of_decoder here
  rw [shape] at base
  obtain ⟨u, make, weighed, through⟩ := read?_through p.leads base
  refine ⟨u, fun i => make (some (.code i)), fun i => weighed _, fun n => ?_⟩
  rw [Spot.entry, through, toOption_severity, Option.map_map]
  rfl

theorem Sound.isSome_value? (sound : p.Sound) {n : Option Number} (known : n.isSome) :
    ((p.entry n).value? itemDepth).isSome := by
  obtain ⟨i, e, _, _, here⟩ := sound.decoder_eq_ok
  have value := toOption_decoder (p.entry (some (.int i)))
  rw [here] at value
  split at value
  · rename_i valued
    refine isSome_value?_within (fun _ _ => ?_) valued
    rwa [Document.value?, Option.isSome_map]
  · cases value

/-- An entry of the current shape does not fit the older one, whatever number is there. -/
theorem Sound.readAs_of_new (sound : p.Sound) (new : p.shape = .new) (n : Option Number) :
    readAs (p.entry n) = .new := by
  obtain ⟨i, _, code, shape, _⟩ := sound.decoder_eq_ok
  cases as : readAs (p.entry n) with
  | new => rfl
  | old =>
    obtain ⟨old, fits⟩ := readAs_eq_old_iff.mp as
    have settles : (p.entry n).Settles (p.entry (some (.int i))) :=
      ⟨p.levels, n, i, of_toOption ((toOption_int64 _).trans code), rfl, rfl⟩
    have older := readAs_eq_old_iff.mpr (tolerant_oldEntry _ _ settles old fits)
    rw [shape, new] at older
    cases older

/-- What an entry is read as with each number for the severity. -/
theorem Sound.decoder_entry (sound : p.Sound) : ∃ (u : Unweighed) (make : Int → Entry),
    (∀ i, (make i).result? = some (u.result (.ofCode i))) ∧
    ∀ n, (∀ i, code? n = some i → Entry.decoder (p.entry n) = .ok (make i)) ∧
      (code? n = none → (Entry.decoder (p.entry n)).toOption = none ∨
        p.shape = .old ∧ ∃ e, NewEntry.decoder (p.entry n) = .ok e ∧
          Entry.decoder (p.entry n) = .ok (.new e)) := by
  obtain ⟨u, make, weighed, read⟩ := sound.read?_eq_map
  refine ⟨u, make, weighed, fun n => ⟨fun i known => of_toOption ?_, fun unknown => ?_⟩⟩
  · have as : readAs (p.entry n) = p.shape := by
      cases shape : p.shape with
      | new => exact sound.readAs_of_new shape n
      | old =>
        have fits := read n
        rw [shape, known] at fits
        rw [readAs, fits]
        rfl
    have some : n.isSome := by
      cases n with
      | none => cases known
      | some n => rfl
    rw [toOption_decoder, if_pos (sound.isSome_value? some), as, read, known]
    rfl
  · have nothing := read n
    rw [unknown] at nothing
    have value := toOption_decoder (p.entry n)
    split at value
    · cases shape : p.shape with
      | new =>
        rw [sound.readAs_of_new shape n, ← shape, nothing] at value
        exact .inl value
      | old =>
        rw [shape] at nothing
        have as : readAs (p.entry n) = .new := by
          rw [readAs, nothing]
          rfl
        rw [as, Shape.read?] at value
        cases fits : NewEntry.decoder (p.entry n) with
        | error _ =>
          rw [fits] at value
          exact .inl value
        | ok e =>
          rw [fits] at value
          exact .inr ⟨rfl, e, rfl, of_toOption value⟩
    · exact .inl value

end Spot

/-- With a code for the severity, an output turns into a report in which the message has the
severity of the code and all else is as it is. With another number it gives no report, unless the
entry can be read in the current shape where it was read in the older one. -/
theorem convert_of_severity {p : Spot} (sound : p.Sound) :
    ∃ (u : Unweighed) (before after : List EngineResult),
    ∀ (n : Option Number) (raw : String) (project : Path),
      Document.read? (trimBlank raw) = some (p.output n) →
      (∀ i, code? n = some i → convert raw project =
        .ok (aggregate (before ++ u.result (.ofCode i) :: after) project)) ∧
      (code? n = none → convert raw project = .error .malformedOutput ∨
        p.shape = .old ∧ ∃ e, NewEntry.decoder (p.entry n) = .ok e ∧
          convert raw project =
            .ok (aggregate (before ++ (Entry.new e).result?.toList ++ after) project)) := by
  obtain ⟨u, make, weighed, entry⟩ := sound.decoder_entry
  obtain ⟨_, _, ⟨es, listed⟩, _⟩ := sound
  obtain ⟨left, _, right, _, _, through⟩ := Decoder.list_through listed
  refine ⟨u, left.filterMap Entry.result?, right.filterMap Entry.result?,
    fun n raw project text => ?_⟩
  have parsed := parse_of_read? text
  have list : (Decoder.list Entry.decoder (p.output n)).toOption =
      (Entry.decoder (p.entry n)).toOption.map fun e => left ++ e :: right := through _
  have ok {e : Entry} (decoded : Entry.decoder (p.entry n) = .ok e) :
      convert raw project = .ok (aggregate (left.filterMap Entry.result? ++
        e.result?.toList ++ right.filterMap Entry.result?) project) := by
    rw [decoded] at list
    have results : (left ++ e :: right).filterMap Entry.result? =
        left.filterMap Entry.result? ++ e.result?.toList ++ right.filterMap Entry.result? := by
      cases weighed : e.result? <;> simp [weighed]
    rw [convert, parsed, of_toOption list, ← results]
    rfl
  refine ⟨fun i known => ?_, fun unknown => ?_⟩
  · rw [ok ((entry n).1 i known), weighed]
    simp
  · obtain none | ⟨older, e, fits, decoded⟩ := (entry n).2 unknown
    · rw [none] at list
      refine .inl ?_
      rw [convert, parsed]
      cases failed : Decoder.list Entry.decoder (p.output n) with
      | ok es => rw [failed] at list; cases list
      | error e => rfl
    · exact .inr ⟨older, e, fits, ok decoded⟩

/-- An entry of the current shape with one message. -/
def brief (severity : Number) : Json :=
  .obj [("engine", .str "e"), ("result", .arr [.obj [("path", .str "a.js"),
    ("messages", .arr [.obj [("severity", .num severity), ("message", .str "m")]])]])]

/-- The place of its severity. -/
def briefSpot : Spot where
  shape := .new
  before := []
  after := []
  levels := [.field [(some "engine", .str (some "e"))] "result" [], .item [] [],
    .field [(some "path", .str (some "a.js"))] "messages" [], .item [] [],
    .field [] "severity" [(some "message", .str (some "m"))]]
  leads := .new [] [] [] [] rfl rfl rfl

theorem sound_briefSpot : briefSpot.Sound := by
  refine ⟨1, rfl, ?_, ?_⟩
  · have listed : (Decoder.list Entry.decoder
        (briefSpot.output (some (.int 1)))).toOption.isSome := by decide +kernel
    obtain ⟨es, listed⟩ := Option.isSome_iff_exists.mp listed
    exact ⟨es, of_toOption listed⟩
  · decide +kernel

theorem read?_brief {n : Number} (steady : n.Steady) :
    Document.read? (trimBlank (written .compact [brief n])) =
      some (briefSpot.output (some n)) := by
  have numbers : (Json.arr [brief n]).numbers = [n] := rfl
  refine (read?_written fun n' member => ?_).trans rfl
  rw [numbers, List.mem_singleton] at member
  exact member ▸ steady

/-- One and a half. -/
def fraction : Number := .float ⟨false, 0x3ff8000000000000⟩

theorem steady_fraction : fraction.Steady := by decide +kernel

theorem convert_brief : ∃ (u : Unweighed) (before after : List EngineResult),
    convert (written .compact [brief (.int 42)]) (.ofText "/p") =
      .ok (aggregate (before ++ u.result .warning :: after) (.ofText "/p")) ∧
    convert (written .compact [brief fraction]) (.ofText "/p") = .error .malformedOutput := by
  obtain ⟨u, before, after, weighed⟩ := convert_of_severity sound_briefSpot
  refine ⟨u, before, after, ?_, ?_⟩
  · exact (weighed _ _ _ (read?_brief (by decide +kernel))).1 42 rfl
  · exact ((weighed _ _ _ (read?_brief steady_fraction)).2 rfl).resolve_right nofun

/-- Not every number for a severity leaves an output that turns into a report. -/
theorem not_convert_of_number : ¬∀ (p : Spot), p.Sound →
    ∀ (n : Option Number) (raw : String) (project : Path),
      Document.read? (trimBlank raw) = some (p.output n) →
      ∃ report, convert raw project = .ok report := by
  intro all
  have text := read?_brief steady_fraction
  obtain ⟨report, converted⟩ := all briefSpot sound_briefSpot _ _ (.ofText "/p") text
  have failed : (Decoder.list Entry.decoder
      (briefSpot.output (some fraction))).toOption.isNone := by decide +kernel
  rw [convert, parse_of_read? text] at converted
  cases listed : Decoder.list Entry.decoder (briefSpot.output (some fraction)) with
  | ok es => rw [listed] at failed; cases failed
  | error e => rw [listed] at converted; cases converted

end Output

end LintBridge

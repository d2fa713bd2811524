import LintBridge.Proofs.Diagnostic.Spans
import LintBridge.Proofs.Json.Parts

namespace LintBridge

section Lists

variable {α β γ : Type} {R : α → β → Prop}

theorem flatMap_of_forall₂ {g : α → List γ} {h : β → List γ} {as : List α} {bs : List β}
    (each : List.Forall₂ R as bs) (same : ∀ a b, R a b → g a = h b) :
    as.flatMap g = bs.flatMap h := by
  induction each with
  | nil => rfl
  | cons first _ ih => rw [List.flatMap_cons, List.flatMap_cons, same _ _ first, ih]

theorem map_of_forall₂ {g : α → γ} {h : β → γ} {as : List α} {bs : List β}
    (each : List.Forall₂ R as bs) (same : ∀ a b, R a b → g a = h b) : as.map g = bs.map h := by
  induction each with
  | nil => rfl
  | cons first _ ih => rw [List.map_cons, List.map_cons, same _ _ first, ih]

theorem length_flatMap_of_add {f g h : α → List γ} {as : List α}
    (each : ∀ a ∈ as, (f a).length = (g a).length + (h a).length) :
    (as.flatMap f).length = (as.flatMap g).length + (as.flatMap h).length := by
  induction as with
  | nil => rfl
  | cons a as ih =>
    obtain ⟨first, others⟩ := List.forall_mem_cons.mp each
    simp only [List.flatMap_cons, List.length_append, first, ih others]
    omega

/-- Where each part is as long as what is wanted of it and what is too much, only what is wanted is
there just when nothing is too much. -/
theorem flatMap_eq_flatMap_iff {f g h : α → List γ} {as : List α}
    (each : ∀ a ∈ as, (f a).length = (g a).length + (h a).length)
    (same : ∀ a ∈ as, h a = [] → f a = g a) :
    as.flatMap f = as.flatMap g ↔ ∀ a ∈ as, h a = [] := by
  refine ⟨fun equal => ?_, fun none => List.flatMap_congr fun a member =>
    same a member (none a member)⟩
  have lengths := length_flatMap_of_add each
  rw [equal] at lengths
  exact List.flatMap_eq_nil_iff.mp (List.eq_nil_of_length_eq_zero (by omega))

end Lists

namespace Output

/-- The shapes that an entry may have. -/
inductive Shape where
  | old
  | new
  deriving DecidableEq

namespace Shape

/-- The other shape. -/
def other : Shape → Shape
  | old => new
  | new => old

/-- The name under which an entry tells its engine. -/
def engineKey : Shape → String
  | old => "Name"
  | new => "engine"

/-- The name under which an entry keeps what it has to say. -/
def resultKey : Shape → String
  | old => "Model"
  | new => "result"

/-- The files in what an entry has to say. -/
def filesIn : Shape → Document → List Document
  | old, d => (d.parts "Files" 0).flatMap Document.elements
  | new, d => d.elements

/-- The name under which a file has its path. -/
def pathKey : Shape → String
  | old => "Path"
  | new => "path"

/-- The name under which a file has its messages. -/
def messagesKey : Shape → String
  | old => "Errors"
  | new => "messages"

/-- The path of a file. -/
def path? (s : Shape) (file : Document) : Option String :=
  (file.parts s.pathKey 0).head?.bind fun d => (Decoder.text d).toOption

/-- The messages about a file. -/
def messagesOf (s : Shape) (file : Document) : List Document :=
  (file.parts s.messagesKey 1).flatMap Document.elements

/-- What a message stands for. -/
def message? : Shape → Document → Option Message
  | old, d => (OldMessage.decoder d).toOption.map OldMessage.toMessage
  | new, d => (NewMessage.decoder d).toOption.map NewMessage.toMessage

/-- The entry that is read from a document in a shape. -/
def read? : Shape → Document → Option Entry
  | old, d => (OldEntry.decoder d).toOption.map .old
  | new, d => (NewEntry.decoder d).toOption.map .new

/-- The messages in what an entry has to say, each with the path of its file; none for one that
cannot be read. -/
def mentionsIn (s : Shape) (d : Document) : List (Option (String × Message)) :=
  (s.filesIn d).flatMap fun file => (s.messagesOf file).map fun m =>
    (s.path? file).bind fun path => (s.message? m).map fun m => (path, m)

/-- The messages that an entry has where the shape keeps them. -/
def mentions (s : Shape) (entry : Document) : List (Option (String × Message)) :=
  (entry.parts s.resultKey 1).flatMap s.mentionsIn

/-- The messages in one field of an object that tells its engine as entries of the shape do. -/
def toldIn (s : Shape) (fields : List (Option String × Document)) (f : Option String × Document) :
    List (Option (String × Message)) :=
  if f.1 = some s.resultKey ∧ Document.under s.engineKey fields ≠ [] then s.mentionsIn f.2 else []

/-- The messages that an object has as an entry of the shape. -/
def told (s : Shape) : Document → List (Option (String × Message))
  | .obj fields => fields.flatMap (s.toldIn fields)
  | _ => []

end Shape

/-- The shape in which an entry is read. -/
def readAs (d : Document) : Shape := if (Shape.old.read? d).isSome then .old else .new

/-- The messages of an entry in the order of the text, whatever shape their names are of. An array
has no names, and is of the shape in which it is read. -/
def told : Document → List (Option (String × Message))
  | .obj fields => fields.flatMap fun f => Shape.old.toldIn fields f ++ Shape.new.toldIn fields f
  | d => (readAs d).mentions d

/-- The messages of some results in their order, each with the path of its file. -/
def delivered (results : List EngineResult) : List (String × Message) :=
  results.flatMap fun r => r.files.flatMap fun f => f.messages.map fun m => (f.path, m)

section Told

variable {s : Shape} {fields : List (Option String × Document)}

theorem flatMap_under (name : String) (f : Document → List (Option (String × Message))) :
    (Document.under name fields).flatMap f =
      fields.flatMap fun g => if g.1 = some name then f g.2 else [] := by
  induction fields with
  | nil => rfl
  | cons g gs ih =>
    rw [Document.under, List.filterMap_cons, List.flatMap_cons, ← ih]
    by_cases here : g.1 = some name <;> simp [here, Document.under]

/-- An object that tells its engine by the name of the shape has there what the shape mentions. -/
theorem Shape.told_of_named (named : Document.under s.engineKey fields ≠ []) :
    s.told (.obj fields) = s.mentions (.obj fields) := by
  have each : s.toldIn fields =
      fun f => if f.1 = some s.resultKey then s.mentionsIn f.2 else [] := by
    funext f
    rw [toldIn]
    exact if_congr (and_iff_left named) rfl rfl
  rw [told, each, ← flatMap_under]
  rfl

theorem told_obj_of_other {s : Shape} (none : s.other.told (.obj fields) = []) :
    Output.told (.obj fields) = s.told (.obj fields) := by
  have empty := List.flatMap_eq_nil_iff.mp none
  refine List.flatMap_congr fun f member => ?_
  have nothing := empty f member
  cases s with
  | old => rw [Shape.other] at nothing; rw [nothing, List.append_nil]
  | new => rw [Shape.other] at nothing; rw [nothing, List.nil_append]

theorem length_told_obj (fields : List (Option String × Document)) (s : Shape) :
    (Output.told (.obj fields)).length =
      (s.told (.obj fields)).length + (s.other.told (.obj fields)).length := by
  have both : (Output.told (.obj fields)).length =
      (Shape.old.told (.obj fields)).length + (Shape.new.told (.obj fields)).length := by
    exact length_flatMap_of_add fun f _ => List.length_append
  rw [both]
  cases s with
  | old => rfl
  | new => exact Nat.add_comm _ _

end Told

section Reading

variable {d : Document}

/-- The messages about a file that is read, each with its path. -/
theorem Shape.map_messagesOf {s : Shape} {file : Document} {path : String} {μ : Type}
    {read : Decoder μ} {mean : μ → Message} {ms : List μ} (named : s.path? file = some path)
    (reads : read.Reads (s.messagesOf file) ms)
    (meant : ∀ m, s.message? m = (read m).toOption.map mean) :
    ((s.messagesOf file).map fun m => (s.path? file).bind fun path =>
      (s.message? m).map fun m => (path, m)) = ms.map fun m => some (path, mean m) := by
  refine map_of_forall₂ reads fun m message told => ?_
  rw [named, meant, told]
  rfl

theorem mentionsIn_old {fs : List OldFile}
    (reads : OldFile.decoder.Reads (Shape.old.filesIn d) fs) : Shape.old.mentionsIn d =
      fs.flatMap fun f => f.messages.map fun m => some (f.path, m.toMessage) := by
  refine flatMap_of_forall₂ reads fun file f decoded => ?_
  obtain ⟨path, found, messages, rfl, named, there, given⟩ := Record.of_titled (by decide) decoded
  refine Shape.map_messagesOf named ?_ fun _ => rfl
  rw [Shape.messagesOf, Shape.messagesKey, there]
  exact Decoder.reads_of_defaulted given

theorem mentionsIn_new {fs : List NewFile}
    (reads : NewFile.decoder.Reads (Shape.new.filesIn d) fs) : Shape.new.mentionsIn d =
      fs.flatMap fun f => f.messages.map fun m => some (f.path, m.toMessage) := by
  refine flatMap_of_forall₂ reads fun file f decoded => ?_
  obtain ⟨path, found, messages, rfl, named, there, given⟩ := Record.of_titled (by decide) decoded
  refine Shape.map_messagesOf named ?_ fun _ => rfl
  rw [Shape.messagesOf, Shape.messagesKey, there]
  exact Decoder.reads_of_defaulted given

theorem reads_oldModel {fs : List OldFile} (decoded : oldModel d = .ok fs) :
    OldFile.decoder.Reads (Shape.old.filesIn d) fs := by
  have place : ((Record.build id).defaulted "Files" (Decoder.list OldFile.decoder) []).placeOf
      "Files" = 0 := by
    simp [Record.placeOf, Record.defaulted, Record.size]
  obtain ⟨suits, sought⟩ := (Record.decoder_eq_ok_iff (by decide) (by simp) _ _).mp decoded
  have parts := suits.parts_eq (show "Files" ∈ _ from List.mem_cons_self)
  rw [Record.sought?_defaulted] at sought
  obtain ⟨make, built, sought⟩ := Option.bind_eq_some_iff.mp sought
  cases built
  obtain ⟨_, given, rfl⟩ := Option.map_eq_some_iff.mp sought
  rw [place] at parts
  rw [Shape.filesIn, parts]
  exact Decoder.reads_of_defaulted given

/-- A part of an entry that is null or left out mentions nothing. -/
theorem mentions_of_nullable {s : Shape} {α : Type} {read : Decoder (List α)}
    {tell : α → List (Option (String × Message))} {found : Option Document}
    {files : Option (List α)}
    (there : d.parts s.resultKey 1 = found.toList)
    (given : found.elim (some none) (fun d => (Decoder.nullable read d).toOption) = some files)
    (each : ∀ part fs, read part = .ok fs → s.mentionsIn part = fs.flatMap tell) :
    s.mentions d = (files.getD []).flatMap tell := by
  rw [Shape.mentions, there]
  cases found with
  | none =>
    cases given
    rfl
  | some part =>
    rw [Option.toList_some, List.flatMap_singleton]
    obtain ⟨rfl, rfl⟩ | ⟨fs, told, rfl⟩ := Decoder.of_nullable (of_toOption given)
    · cases s <;> rfl
    · exact each part fs told

theorem readAs_eq_old_iff : readAs d = .old ↔ ∃ old, OldEntry.decoder d = .ok old := by
  rw [readAs, Shape.read?, Option.isSome_map]
  cases OldEntry.decoder d <;> simp [Except.toOption]

/-- An entry that has a value is read in the older shape if it fits, and else in the current one. -/
theorem toOption_decoder (d : Document) : (Entry.decoder d).toOption =
    if (d.value? itemDepth).isSome then (readAs d).read? d else none := by
  rw [Entry.decoder, Decoder.either, readAs]
  cases d.value? itemDepth with
  | none => rfl
  | some v =>
    rw [if_neg (by simp), if_pos (show (some v).isSome from rfl)]
    cases old : OldEntry.decoder d with
    | ok e => simp [Except.toOption, Except.map, Shape.read?, old]
    | error _ =>
      cases new : NewEntry.decoder d <;>
        simp [Except.toOption, Except.map, Shape.read?, old, new]

theorem read?_of_decoder {e : Entry} (decoded : Entry.decoder d = .ok e) :
    (readAs d).read? d = some e := by
  have value := toOption_decoder d
  rw [decoded] at value
  split at value
  · exact value.symm
  · cases value

/-- An entry has the name of its engine where the shape has it in which it is read, and mentions by
the names of that shape what it holds. -/
theorem mentions_of_read? {s : Shape} {e : Entry} (decoded : s.read? d = some e) :
    d.parts s.engineKey 0 ≠ [] ∧
      s.mentions d = e.files.flatMap fun f => f.messages.map fun m => some (f.path, m) := by
  have there {parts : List Document} {name : String}
      (named : parts.head?.bind (fun d => (Decoder.text d).toOption) = some name) : parts ≠ [] := by
    rintro rfl
    cases named
  cases s with
  | old =>
    obtain ⟨old, fits, rfl⟩ := Option.map_eq_some_iff.mp decoded
    obtain ⟨name, found, files, rfl, named, parts, given⟩ :=
      Record.of_titled (by decide) (of_toOption fits)
    rw [Entry.files, List.flatMap_map]
    refine ⟨there named, (mentions_of_nullable (s := .old) parts given fun part fs told =>
      mentionsIn_old (reads_oldModel told)).trans ?_⟩
    exact List.flatMap_congr fun f _ => by rw [List.map_map]; rfl
  | new =>
    obtain ⟨new, fits, rfl⟩ := Option.map_eq_some_iff.mp decoded
    obtain ⟨name, found, files, rfl, named, parts, given⟩ :=
      Record.of_titled (by decide) (of_toOption fits)
    rw [Entry.files, List.flatMap_map]
    refine ⟨there named, (mentions_of_nullable (s := .new) parts given fun part fs told =>
      mentionsIn_new (Decoder.reads_elements told)).trans ?_⟩
    exact List.flatMap_congr fun f _ => by rw [List.map_map]; rfl

/-- An entry that is read has what it mentions in the shape in which it is read, and besides what it
has as an entry of the other one. -/
theorem length_told {e : Entry} (decoded : Entry.decoder d = .ok e) : (told d).length =
    ((readAs d).mentions d).length + ((readAs d).other.told d).length := by
  cases d with
  | obj fields =>
    rw [← Shape.told_of_named (mentions_of_read? (read?_of_decoder decoded)).1]
    exact length_told_obj fields _
  | _ => rfl

theorem told_of_other {e : Entry} (decoded : Entry.decoder d = .ok e)
    (none : (readAs d).other.told d = []) : told d = (readAs d).mentions d := by
  cases d with
  | obj fields =>
    rw [← Shape.told_of_named (mentions_of_read? (read?_of_decoder decoded)).1]
    exact told_obj_of_other none
  | _ => rfl

end Reading

/-- The entries of an output, as they stand in it. -/
def entriesOf (raw : String) : List Document :=
  (Document.read? (trimBlank raw)).toList.flatMap Document.elements

theorem reads_entriesOf {raw : String} {es : List Entry} (accepted : read raw = .ok es) :
    Entry.decoder.Reads (entriesOf raw) es := by
  rw [read] at accepted
  rw [entriesOf]
  split at accepted
  · rename_i blank
    cases accepted
    rw [String.isEmpty_iff.mp blank]
    exact .nil
  · rw [decodeText] at accepted
    cases text : Document.read? (trimBlank raw) with
    | none => rw [text] at accepted; cases accepted
    | some d =>
      rw [text] at accepted
      rw [Option.toList_some, List.flatMap_singleton]
      cases listed : Decoder.list Entry.decoder d with
      | error _ => dsimp only at accepted; rw [listed] at accepted; cases accepted
      | ok es' =>
        dsimp only at accepted
        rw [listed] at accepted
        cases accepted
        exact Decoder.reads_elements listed

theorem delivered_results (es : List Entry) : delivered (es.filterMap Entry.result?) =
    es.flatMap fun e => e.files.flatMap fun f => f.messages.map fun m => (f.path, m) := by
  rw [List.filterMap_eq_flatMap_toList, delivered, List.flatMap_assoc]
  refine List.flatMap_congr fun e _ => ?_
  rw [Entry.result?]
  cases files : e.files with
  | nil => rfl
  | cons f fs => simp

/-- The results of an output have the messages that its entries mention in the shapes in which they
are read, each under the path of its file and in the order of the text. Those are all the messages
of the output just when no entry has any in the shape in which it is not read. -/
theorem told_iff_delivered {raw : String} {results : List EngineResult}
    (parsed : parse raw = .ok results) :
    (delivered results).map some = (entriesOf raw).flatMap (fun d => (readAs d).mentions d) ∧
      ((entriesOf raw).flatMap told = (delivered results).map some ↔
        ∀ d ∈ entriesOf raw, (readAs d).other.told d = []) := by
  obtain ⟨es, accepted, rfl⟩ : ∃ es, read raw = .ok es ∧ es.filterMap Entry.result? = results := by
    rw [parse_eq_read] at parsed
    exact of_map parsed
  have reads := reads_entriesOf accepted
  have mentioned : (delivered (es.filterMap Entry.result?)).map some =
      (entriesOf raw).flatMap fun d => (readAs d).mentions d := by
    rw [delivered_results, List.map_flatMap]
    refine (flatMap_of_forall₂ reads fun d e decoded => ?_).symm
    rw [(mentions_of_read? (read?_of_decoder decoded)).2, List.map_flatMap]
    exact List.flatMap_congr fun f _ => by rw [List.map_map]; rfl
  refine ⟨mentioned, ?_⟩
  rw [mentioned]
  refine flatMap_eq_flatMap_iff (fun d member => ?_) fun d member => ?_
  · obtain ⟨e, decoded⟩ := reads.exists_of_mem member
    exact length_told decoded
  · obtain ⟨e, decoded⟩ := reads.exists_of_mem member
    exact told_of_other decoded

/-- An output with an entry of either shape. -/
def eitherShape : String :=
  "[\x7b\"Model\":\x7b\"Files\":[\x7b\"Path\":\"a\",\"Errors\":[\x7b\x7d]\x7d]\x7d,\"Name\":" ++
    "\"x\"\x7d,\x7b\"engine\":\"e\",\"result\":[\x7b\"path\":\"b\",\"messages\":" ++
    "[\x7b\"message\":\"m\"\x7d]\x7d]\x7d]"

theorem told_eitherShape : ∃ results, parse eitherShape = .ok results ∧
    (entriesOf eitherShape).flatMap told = (delivered results).map some ∧
    (delivered results).map (fun m => (m.1, m.2.text)) = [("a", ""), ("b", "m")] := by
  have parsed : (parse eitherShape).toOption.map
      (fun results => (delivered results).map fun m => (m.1, m.2.text)) =
      some [("a", ""), ("b", "m")] := by decide +kernel
  have none : ∀ d ∈ entriesOf eitherShape, ((readAs d).other.told d).isEmpty := by decide +kernel
  obtain ⟨results, accepted, texts⟩ := Option.map_eq_some_iff.mp parsed
  refine ⟨results, of_toOption accepted, ?_, texts⟩
  exact (told_iff_delivered (of_toOption accepted)).2.mpr fun d member =>
    List.isEmpty_iff.mp (none d member)

/-- An output with an entry of the current shape that also has a name. -/
def twoNames : String :=
  "[\x7b\"Name\":\"x\",\"engine\":\"e\",\"result\":[\x7b\"path\":\"a.js\",\"messages\":" ++
    "[\x7b\"message\":\"m\"\x7d]\x7d]\x7d]"

/-- Not every message of an output is delivered. -/
theorem not_told_delivered : ¬∀ (raw : String) (results : List EngineResult),
    parse raw = .ok results → (entriesOf raw).flatMap told = (delivered results).map some := by
  intro all
  have parsed : (parse twoNames).toOption = some [] := by decide +kernel
  have message : ((entriesOf twoNames).flatMap told).length = 1 := by decide +kernel
  rw [all twoNames [] (of_toOption parsed)] at message
  cases message

end Output

end LintBridge

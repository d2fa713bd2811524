import LintBridge.Config.Project
import LintBridge.Proofs.Files.Replacing
import LintBridge.Proofs.Json.ReadBack

namespace LintBridge

theorem Document.mismatch_ne_ok {α : Type} {a : α} (wanted : String) (d : Document) :
    d.mismatch wanted ≠ .ok a := by
  unfold mismatch
  split <;> nofun

namespace Record

/-- Whether a field may come to have a value: it has been found, it is the one for its absence, or
it can be read. -/
def Admits {β : Type} (read : Decoder β) (absent : Absent β) (found : Option β) (b : β) : Prop :=
  found = some b ∨ absent = .named b ∨ absent = .always b ∨ ∃ d, read d = .ok b

/-- Whether whatever structure comes of a record has a property. -/
def Yields : {α : Type} → Record α → (α → Prop) → Prop
  | _, .build a, P => P a
  | _, .field before _ read absent found, P =>
    before.Yields fun make => ∀ b, Admits read absent found b → P (make b)

theorem Yields.mono {α : Type} {r : Record α} {P Q : α → Prop} (yields : r.Yields P)
    (weaker : ∀ a, P a → Q a) : r.Yields Q := by
  induction r with
  | build a => exact weaker a yields
  | field before name read absent found ih =>
    exact ih yields fun make holds b admits => weaker _ (holds b admits)

theorem Yields.feed {α : Type} {r r' : Record α} {P : α → Prop} {name : String} {d : Document}
    (yields : r.Yields P) (fed : r.feed name d = .ok (some r')) : r'.Yields P := by
  induction r with
  | build a => cases fed
  | field before known read absent found ih =>
    unfold Record.feed at fed
    split at fed
    · cases found with
      | some b => cases fed
      | none =>
        obtain ⟨b, value, same⟩ := of_map fed
        cases same
        refine Yields.mono (r := before) yields fun make holds c admits => holds c ?_
        rcases admits with same | others
        · cases same
          exact .inr (.inr (.inr ⟨d, value⟩))
        · exact .inr others
    · obtain ⟨fed', inner, same⟩ := of_map fed
      obtain ⟨before', rfl, rfl⟩ := Option.map_eq_some_iff.mp same
      exact ih yields inner

theorem Yields.feedAll {α : Type} {r r' : Record α} {P : α → Prop}
    {fields : List (Option String × Document)} (yields : r.Yields P)
    (fed : r.feedAll fields = .ok r') : r'.Yields P := by
  induction fields generalizing r with
  | nil =>
    cases fed
    exact yields
  | cons f fs ih =>
    obtain ⟨name, d⟩ := f
    cases name with
    | none => cases fed
    | some name =>
      rw [Record.feedAll] at fed
      split at fed
      · cases fed
      · exact ih yields fed
      · rename_i first
        exact ih (yields.feed first) fed

theorem Yields.finish {α : Type} {r : Record α} {P : α → Prop} {a : α} (yields : r.Yields P)
    (finished : r.finish = .ok a) : P a := by
  induction r with
  | build a' =>
    cases finished
    exact yields
  | field before name read absent found ih =>
    obtain ⟨make, made, finished⟩ := of_bind finished
    have holds := ih yields made
    cases found with
    | some b =>
      cases finished
      exact holds b (.inl rfl)
    | none =>
      cases absent with
      | required => cases finished
      | named b =>
        cases finished
        exact holds b (.inr (.inl rfl))
      | always b =>
        cases finished
        exact holds b (.inr (.inr (.inl rfl)))

theorem Yields.place {α : Type} {r : Record α} {P : α → Prop} {shape : String} {total : Nat}
    {items rest : List Document} {a : α} (yields : r.Yields P)
    (placed : r.place shape total items = .ok (a, rest)) : P a := by
  induction r generalizing rest with
  | build a' =>
    cases placed
    exact yields
  | field before name read absent found ih =>
    obtain ⟨⟨make, behind⟩, made, placed⟩ := of_bind placed
    have holds := ih yields made
    cases behind with
    | cons d behind =>
      obtain ⟨b, value, same⟩ := of_map placed
      cases same
      exact holds b (.inr (.inr (.inr ⟨d, value⟩)))
    | nil =>
      cases absent with
      | required => cases placed
      | named b => cases placed
      | always b =>
        cases placed
        exact holds b (.inr (.inr (.inl rfl)))

/-- What a decoder of structures reads has whatever property the record yields. -/
theorem Yields.decoder {α : Type} {r : Record α} {P : α → Prop} {shape : String} {d : Document}
    {a : α} (yields : r.Yields P) (decoded : decoder shape r d = .ok a) : P a := by
  unfold Record.decoder at decoded
  split at decoded
  · split at decoded
    · rename_i fed
      exact (yields.feedAll fed).finish decoded
    · cases decoded
  · rename_i items
    obtain ⟨⟨a', rest⟩, placed, decoded⟩ := of_bind decoded
    dsimp only at decoded
    split at decoded
    · cases decoded
      exact yields.place placed
    · cases decoded
  · exact absurd decoded (Document.mismatch_ne_ok _ _)

section Feed

variable {α β : Type} {before before' : Record (β → α)} {known name : String} {read : Decoder β}
  {absent : Absent β} {found : Option β} {d : Document} {b : β}

theorem feed_self (value : read d = .ok b) :
    (field before name read absent none).feed name d =
      .ok (some (field before name read absent (some b))) := by
  rw [Record.feed, if_pos rfl, value]
  rfl

theorem feed_before (other : known ≠ name) (fed : before.feed name d = .ok (some before')) :
    (field before known read absent found).feed name d =
      .ok (some (field before' known read absent found)) := by
  unfold Record.feed
  rw [if_neg other, fed]
  rfl

end Feed

end Record

namespace ProjectLinter

/-- A linter as it can be written and read again. -/
def Steady (l : ProjectLinter) : Prop := l.config.Steady maxDepth

/-- The settings of a linter that was read are steady but for their numbers. -/
theorem steady_of_decoder {d : Document} {l : ProjectLinter} (read : decoder d = .ok l)
    (numbers : ∀ n ∈ l.config.numbers, n.Steady) : l.Steady := by
  have yields : (((Record.build ProjectLinter.mk).required "name" Decoder.text).defaulted
      "config" (Decoder.value maxDepth) .null).Yields
      fun l => (∀ n ∈ l.config.numbers, n.Steady) → l.Steady := by
    intro name _ config admits numbers
    rcases admits with found | absent | absent | ⟨d, value⟩
    · cases found
    · cases absent
    · cases absent
      exact .null
    · unfold Decoder.value at value
      split at value
      · rename_i meant
        cases value
        exact Document.steady_of_value? d meant numbers
      · cases value
  exact yields.decoder read numbers

theorem decoder_toJson {l : ProjectLinter} (steady : l.Steady) :
    decoder (Document.ofJson l.toJson) = .ok l := by
  obtain ⟨name, config⟩ := l
  have value : Decoder.value maxDepth (Document.ofJson config) = .ok config := by
    rw [Decoder.value, Document.value?_ofJson steady]
  cases null : config.isNull with
  | true =>
    cases config with
    | null => rfl
    | _ => cases null
  | false =>
    simp only [toJson, null, Bool.false_eq_true, if_false, Document.ofJson, Document.ofFields]
    generalize Document.ofJson config = d at value
    have first := @Record.feed_self _ _ (.build ProjectLinter.mk) "name" Decoder.text .required
      (.str (some name)) name rfl
    rw [decoder, Record.decoder, Record.feedAll, Record.defaulted, Record.required,
      Record.feed_before (by decide) first]
    simp only [Record.feedAll, Record.feed_self value]
    rfl

end ProjectLinter

namespace ProjectConfig

/-- A file as it can be written and read again. -/
def Steady (c : ProjectConfig) : Prop := ∀ l ∈ c.linters, l.Steady

theorem mapM_decoder {linters : List ProjectLinter} (steady : ∀ l ∈ linters, l.Steady) :
    (Document.ofItems (linters.map ProjectLinter.toJson)).mapM ProjectLinter.decoder =
      .ok linters := by
  induction linters with
  | nil => rfl
  | cons l ls ih =>
    have first := ProjectLinter.decoder_toJson (steady l List.mem_cons_self)
    have others := ih fun k member => steady k (List.mem_cons_of_mem l member)
    simp only [List.map_cons, Document.ofItems, List.mapM_cons, first, others]
    rfl

theorem decoder_toJson {c : ProjectConfig} (steady : c.Steady) :
    decoder (Document.ofJson c.toJson) = .ok c := by
  obtain ⟨mode, linters⟩ := c
  have list : Decoder.list ProjectLinter.decoder
      (Document.ofJson (.arr (linters.map ProjectLinter.toJson))) = .ok linters := by
    rw [Document.ofJson, Decoder.list, mapM_decoder steady]
  cases mode with
  | none =>
    simp only [toJson, Option.map_none, Option.toList_none, List.nil_append, Document.ofJson.eq_6,
      Document.ofFields]
    generalize Document.ofJson (.arr _) = d at list
    rw [decoder, Record.decoder, Record.feedAll, Record.defaulted, Record.feed_self list]
    rfl
  | some m =>
    have mode : Decoder.nullable Mode.decoder (Document.ofJson m.toJson) = .ok (some m) := by
      cases m <;> rfl
    simp only [toJson, Option.map_some, Option.toList_some, List.singleton_append,
      Document.ofJson.eq_6, Document.ofFields]
    generalize Document.ofJson (.arr _) = d at list
    generalize Document.ofJson m.toJson = k at mode
    have first := @Record.feed_self _ _ (.build ProjectConfig.mk) "mode" _ (.always none) _ _ mode
    rw [decoder, Record.decoder, Record.feedAll, Record.defaulted, Record.optional,
      Record.feed_before (by decide) first]
    simp only [Record.feedAll, Record.feed_self list]
    rfl

theorem numbers_toJson {c : ProjectConfig} (steady : c.Steady) :
    ∀ n ∈ c.toJson.numbers, n.Steady := by
  have linters : ∀ n ∈ Json.itemNumbers (c.linters.map ProjectLinter.toJson), n.Steady := by
    intro n within
    obtain ⟨_, listed, within⟩ := Json.mem_itemNumbers.mp within
    obtain ⟨l, member, rfl⟩ := List.mem_map.mp listed
    have name : (Json.str l.name).numbers = [] := rfl
    rw [ProjectLinter.toJson, Json.numbers, Json.fieldNumbers, name, List.nil_append,
      Json.mem_fieldNumbers] at within
    obtain ⟨f, field, within⟩ := within
    split at field
    · cases field
    · rw [List.mem_singleton.mp field] at within
      exact (steady l member).numbers n within
  obtain ⟨mode, ls⟩ := c
  intro n within
  rw [toJson, Json.numbers] at within
  obtain ⟨f, field, within⟩ := Json.mem_fieldNumbers.mp within
  rcases List.mem_append.mp field with early | last
  · obtain ⟨m, _, rfl⟩ := Option.map_eq_some_iff.mp (Option.mem_toList.mp early)
    cases within
  · rw [List.mem_singleton.mp last, Json.numbers] at within
    exact linters n within

theorem toList_text (c : ProjectConfig) : c.text.toList = c.toJson.prettyChars 0 ++ ['\n'] := by
  simp [text, Json.pretty]

theorem isBlankText_text (c : ProjectConfig) : isBlankText c.text = false := by
  have brace : ∃ cs, c.toJson.prettyChars 0 = '{' :: cs := by
    obtain ⟨_ | m, ls⟩ := c <;> exact ⟨_, rfl⟩
  obtain ⟨cs, written⟩ := brace
  rw [isBlankText, toList_text, written]
  rfl

/-- The text of a file that can be written and read again describes the same project. -/
theorem read?_text {c : ProjectConfig} (steady : c.Steady) : read? c.text = some c := by
  have document := Document.read?_chars (l := .pretty) (numbers_toJson steady) 0
    (show List.all ['\n'] Document.isJsonBlank from rfl)
  rw [Json.Layout.chars_pretty, ← toList_text, String.ofList_toList] at document
  simp only [read?, isBlankText_text, Bool.false_eq_true, if_false, decodeText, document,
    decoder_toJson steady]
  rfl

theorem of_mapM {α β : Type} {f : α → Except DecodeError β} {as : List α} {bs : List β}
    (mapped : as.mapM f = .ok bs) {b : β} (member : b ∈ bs) : ∃ a ∈ as, f a = .ok b := by
  induction as generalizing bs with
  | nil =>
    cases mapped
    cases member
  | cons a as ih =>
    rw [List.mapM_cons] at mapped
    obtain ⟨b', first, mapped⟩ := of_bind mapped
    obtain ⟨bs', others, mapped⟩ := of_bind mapped
    cases mapped
    rcases List.mem_cons.mp member with rfl | later
    · exact ⟨a, List.mem_cons_self, first⟩
    · obtain ⟨a', member', value⟩ := ih others later
      exact ⟨a', List.mem_cons_of_mem a member', value⟩

/-- A file that was read can be written and read again, if the numbers in it can. -/
theorem steady_of_read? {s : String} {c : ProjectConfig} (read : read? s = some c)
    (numbers : ∀ l ∈ c.linters, ∀ n ∈ l.config.numbers, n.Steady) : c.Steady := by
  have yields : (((Record.build ProjectConfig.mk).optional "mode" Mode.decoder).defaulted
      "linters" (Decoder.list ProjectLinter.decoder) []).Yields
      fun c => (∀ l ∈ c.linters, ∀ n ∈ l.config.numbers, n.Steady) → c.Steady := by
    intro mode _ linters admits numbers l member
    rcases admits with found | absent | absent | ⟨d, value⟩
    · cases found
    · cases absent
    · cases absent
      cases member
    · unfold Decoder.list at value
      split at value
      · obtain ⟨d, _, value⟩ := of_mapM value member
        exact ProjectLinter.steady_of_decoder value (numbers l member)
      · exact absurd value (Document.mismatch_ne_ok _ _)
  unfold ProjectConfig.read? at read
  split at read
  · cases read
    exact fun l member => nomatch member
  · unfold decodeText at read
    split at read
    · cases decoded : decoder _ with
      | error e =>
        rw [decoded] at read
        cases read
      | ok c' =>
        rw [decoded] at read
        cases read
        exact yields.decoder decoded numbers
    · cases read

/-- All that writing a file can come to. -/
theorem of_saveUnder {c : ProjectConfig} {t t' : FileTree} {project : Path} {trouble : Trouble}
    {error : Option ConfigError} (saved : c.saveUnder trouble t project = (t', error)) :
    ∃ fault, t.replace project (pathFor project) (utf8 c.text) trouble = (t', fault) ∧
      error = fault.map (.write (pathFor project)) := by
  obtain ⟨same, rfl⟩ := Prod.mk.inj saved
  exact ⟨_, Prod.ext same rfl, rfl⟩

/-- A file that was written, whatever was in the way, is the one that is read. -/
theorem load_saveUnder {c : ProjectConfig} {t t' : FileTree} {project : Path} {trouble : Trouble}
    (steady : c.Steady) (saved : c.saveUnder trouble t project = (t', none)) :
    load t' project = .ok c := by
  obtain ⟨fault, replaced, told⟩ := of_saveUnder saved
  obtain rfl := Option.map_eq_none_iff.mp told.symm
  have text : t'.readText (pathFor project) = .ok c.text := by
    rw [FileTree.readText, FileTree.read_replace replaced, utf8]
    simp only [bind, Except.bind, utf8Text?_utf8Chars, String.ofList_toList]
    rfl
  simp only [load, text, read?_text steady]

theorem load_save {c : ProjectConfig} {t t' : FileTree} {project : Path} (steady : c.Steady)
    (saved : c.save t project = (t', none)) : load t' project = .ok c := load_saveUnder steady saved

/-- A file that was loaded can be written and loaded again, if the numbers in it can. -/
theorem steady_of_load {c : ProjectConfig} {t : FileTree} {project : Path}
    (loaded : load t project = .ok c)
    (numbers : ∀ l ∈ c.linters, ∀ n ∈ l.config.numbers, n.Steady) : c.Steady := by
  unfold load at loaded
  dsimp only at loaded
  split at loaded
  · cases loaded
    exact fun l member => nomatch member
  · cases loaded
  · split at loaded
    · rename_i read
      cases loaded
      exact steady_of_read? read numbers
    · cases loaded

end ProjectConfig

end LintBridge

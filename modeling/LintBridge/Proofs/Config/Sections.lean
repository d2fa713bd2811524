import LintBridge.Config.Settings
import LintBridge.Proofs.Diagnostic.Grouping
import LintBridge.Proofs.Json.Members

namespace LintBridge

theorem find?_eq_some_iff_of_unique {α : Type} {p : α → Bool} {l : List α} {a : α}
    (all : ∀ a, a ∈ l) (unique : ∀ a b, p a → p b → a = b) : l.find? p = some a ↔ p a := by
  refine ⟨List.find?_some, fun holds => ?_⟩
  obtain ⟨b, found⟩ := Option.isSome_iff_exists.mp (List.find?_isSome.mpr ⟨a, all a, holds⟩)
  rw [found, unique b a (List.find?_some found) holds]

/-- One of the values with a property, or a fallback where there is none. -/
def Chosen {α : Type} (given : α → Prop) (fallback a : α) : Prop :=
  given a ∨ (∀ b, ¬given b) ∧ a = fallback

theorem chosen_eq_some_iff {α : Type} {given : α → Prop} {o : Option α} {fallback a : α}
    (same : ∀ b, o = some b ↔ given b) : Chosen given fallback a ↔ o.getD fallback = a := by
  simp only [Chosen, ← same]
  cases o <;> simp [eq_comm]

namespace Trigger

/-- Whether a text names a trigger, whatever its case and the blanks around it. -/
def Named (t : Trigger) (text : String) : Prop := eqIgnoringAsciiCase t.name (trimBlank text) = true

/-- What is left of some texts without those that name no trigger. -/
inductive Recognized : List String → List Trigger → Prop
  | nil : Recognized [] []
  | known {text : String} {texts : List String} {t : Trigger} {ts : List Trigger} : t.Named text →
      Recognized texts ts → Recognized (text :: texts) (t :: ts)
  | unknown {text : String} {texts : List String} {ts : List Trigger} : (∀ t, ¬Named t text) →
      Recognized texts ts → Recognized (text :: texts) ts

variable {t t' : Trigger} {text : String} {texts : List String} {ts : List Trigger}

theorem Named.unique (one : t.Named text) (other : t'.Named text) : t = t' := by
  have same : t.name.toList.map lowerAscii = t'.name.toList.map lowerAscii :=
    (beq_iff_eq.mp one).trans (beq_iff_eq.mp other).symm
  cases t <;> cases t' <;> first | rfl | exact absurd same (by decide)

theorem parse_toOption_eq_some_iff : (parse text).toOption = some t ↔ t.Named text := by
  have found := find?_eq_some_iff_of_unique (a := t) (l := all)
    (p := fun t : Trigger => eqIgnoringAsciiCase t.name (trimBlank text))
    (by rintro (_ | _) <;> decide) fun _ _ one other => Named.unique one other
  rw [Named, ← found, parse]
  cases all.find? fun t => eqIgnoringAsciiCase t.name (trimBlank text) <;>
    simp [Except.toOption]

theorem recognized_cons (text : String) (texts : List String) :
    recognized (text :: texts) = (parse text).toOption.toList ++ recognized texts := by
  rw [recognized, List.filterMap_cons]
  cases (parse text).toOption <;> rfl

theorem recognized_iff : Recognized texts ts ↔ recognized texts = ts := by
  constructor
  · intro known
    induction known with
    | nil => rfl
    | known named _ ih =>
      rw [recognized_cons, parse_toOption_eq_some_iff.mpr named, ih]
      rfl
    | unknown none _ ih =>
      rw [recognized_cons, ih, Option.eq_none_iff_forall_ne_some.mpr fun t parsed =>
        none t (parse_toOption_eq_some_iff.mp parsed)]
      rfl
  · rintro rfl
    induction texts with
    | nil => exact .nil
    | cons text texts ih =>
      rw [recognized_cons]
      cases parsed : (parse text).toOption with
      | none =>
        refine .unknown (fun t named => ?_) ih
        rw [parse_toOption_eq_some_iff.mpr named] at parsed
        cases parsed
      | some t => exact .known (parse_toOption_eq_some_iff.mp parsed) ih

end Trigger

namespace Mode

/-- Whether a text names a mode by its long or its short name, whatever its case and the blanks
around it. -/
def Named (m : Mode) (text : String) : Prop :=
  ∃ name ∈ [m.name, m.shortName], eqIgnoringAsciiCase name (trimBlank text) = true

variable {m m' : Mode} {text : String}

theorem Named.unique (one : m.Named text) (other : m'.Named text) : m = m' := by
  obtain ⟨name, member, one⟩ := one
  obtain ⟨name', member', other⟩ := other
  have same : name.toList.map lowerAscii = name'.toList.map lowerAscii :=
    (beq_iff_eq.mp one).trans (beq_iff_eq.mp other).symm
  simp only [List.mem_cons, List.not_mem_nil, or_false] at member member'
  rcases member with rfl | rfl <;> rcases member' with rfl | rfl <;> cases m <;> cases m' <;>
    first | rfl | exact absurd same (by decide)

theorem parse_toOption_eq_some_iff : (parse text).toOption = some m ↔ m.Named text := by
  have named (m : Mode) : (eqIgnoringAsciiCase m.name (trimBlank text) ||
      eqIgnoringAsciiCase m.shortName (trimBlank text)) = true ↔ m.Named text := by
    simp [Named]
  have found := find?_eq_some_iff_of_unique (a := m) (l := all)
    (p := fun m : Mode => eqIgnoringAsciiCase m.name (trimBlank text) ||
      eqIgnoringAsciiCase m.shortName (trimBlank text)) (by rintro (_ | _) <;> decide)
    fun _ _ one other => ((named _).mp one).unique ((named _).mp other)
  rw [← named, ← found, parse]
  cases all.find? fun m => eqIgnoringAsciiCase m.name (trimBlank text) ||
    eqIgnoringAsciiCase m.shortName (trimBlank text) <;> simp [Except.toOption]

end Mode

namespace Record

variable {α : Type} {fields : List (String × Json)} {name : String} {v : Json}

theorem feedAll_of_not_mem {r : Record α} (others : ∀ f ∈ fields, f.1 ∉ r.names) :
    r.feedAll (Document.ofFields fields) = .ok r := by
  induction fields with
  | nil => rfl
  | cons f fields ih =>
    obtain ⟨here, others⟩ := List.forall_mem_cons.mp others
    rw [Document.ofFields, feedAll, feed_of_not_mem here]
    exact ih others

/-- A structure of one field is read from an object as the field is, whatever else stands there. -/
theorem decoder_of_single (shape : String) (read : Decoder α)
    (single : fields.filter (·.1 == name) = [(name, v)]) :
    decoder shape ((build id).required name read) (Document.ofJson (.obj fields)) =
      read (Document.ofJson v) := by
  have fed : ((build id).required name read).feedAll (Document.ofFields fields) =
      (read (Document.ofJson v)).map fun a => .field (build id) name read .required (some a) := by
    induction fields with
    | nil => cases single
    | cons f fields ih =>
      obtain ⟨key, value⟩ := f
      rw [Document.ofFields, feedAll, required, feed]
      by_cases here : key = name
      · subst here
        rw [List.filter_cons, if_pos (beq_self_eq_true key)] at single
        obtain ⟨same, nothing⟩ := List.cons.inj single
        cases same
        have others : ∀ f ∈ fields, f.1 ∉ [key] := fun f member other =>
          List.filter_eq_nil_iff.mp nothing f member (beq_iff_eq.mpr (List.mem_singleton.mp other))
        rw [if_pos rfl]
        cases read (Document.ofJson v) with
        | error e => rfl
        | ok a =>
          exact feedAll_of_not_mem (r := .field (build id) key read .required (some a)) others
      · rw [List.filter_cons, if_neg (by simpa using here)] at single
        rw [if_neg (Ne.symm here)]
        exact ih single
  rw [Document.ofJson, decoder, fed]
  cases read (Document.ofJson v) <;> rfl

end Record

namespace EditorSection

/-- The members of a section. -/
def record : Record EditorSection :=
  (((((Record.build EditorSection.mk).nullable "enable" Decoder.boolean).defaulted "run"
    (Decoder.list Decoder.text) []).nullable "mode" Decoder.text).nullable "cliPath"
    Decoder.text).nullable "cliRoot" Decoder.text

/-- Whether a value can be made sense of as a section: an object that has each member once at most,
or an array with all of them. -/
def Shaped : Json → Prop
  | .obj fields => ∀ name ∈ ["enable", "run", "mode", "cliPath", "cliRoot"],
    (fields.filter (·.1 == name)).length ≤ 1
  | .arr items => items.length = 5
  | _ => False

/-- What a value says as a section. A list that is left out is empty; of the other members null says
as much as their absence. -/
structure Describes (v : Json) (e : EditorSection) : Prop where
  shaped : Shaped v
  enable_eq : (v.part? "enable" 0).getD .null = e.enable.elim .null .bool
  run_eq : (v.part? "run" 1).getD (.arr []) = .arr (e.run.map .str)
  mode_eq : (v.part? "mode" 2).getD .null = e.mode.elim .null .str
  cliPath_eq : (v.part? "cliPath" 3).getD .null = e.cliPath.elim .null .str
  cliRoot_eq : (v.part? "cliRoot" 4).getD .null = e.cliRoot.elim .null .str

/-- The section that a value stands for: the one in an envelope, or the value itself, and null for
one that says nothing. -/
inductive SaidBy : Json → EditorSection → Prop
  | enveloped {fields : List (String × Json)} {v : Json} {e : EditorSection} :
      fields.filter (·.1 == "linterhub") = [("linterhub", v)] → Describes v e →
      SaidBy (.obj fields) e
  | bare {v : Json} {e : EditorSection} : v.field? "linterhub" = none → Describes v e → SaidBy v e
  | missing : SaidBy .null empty

variable {v : Json} {e : EditorSection} {fields : List (String × Json)}

theorem look_record (v : Json) (name : String) :
    record.look (Document.ofJson v) name =
      (v.part? name (record.placeOf name)).map Document.ofJson := by
  rw [Record.look, Document.head?_parts_ofJson]

theorem shaped_iff : Shaped v ↔ record.Suits (Document.ofJson v) ∧
    ∀ ds, Document.ofJson v = .arr ds →
      ∀ name ∈ record.named, record.look (Document.ofJson v) name ≠ none := by
  have names : record.names.Perm ["enable", "run", "mode", "cliPath", "cliRoot"] := by decide
  cases v with
  | obj fields =>
    rw [Record.suits_ofJson_obj, Shaped, and_iff_left nofun]
    exact forall_congr' fun name => by rw [names.mem_iff]
  | arr items =>
    rw [Record.suits_ofJson_arr, Shaped]
    constructor
    · intro five
      refine ⟨Nat.le_of_eq five, fun _ _ name member missing => ?_⟩
      have low := Record.placeOf_lt (r := record)
        (List.Sublist.subset (by decide : record.named.Sublist record.names) member)
      rw [look_record, Option.map_eq_none_iff, Json.part?, List.getElem?_eq_none_iff,
        five] at missing
      exact absurd low (Nat.not_lt.mpr missing)
    · rintro ⟨short, full⟩
      refine Nat.le_antisymm short (Nat.succ_le_of_lt (Nat.lt_of_not_le fun few => ?_))
      refine full _ rfl "cliRoot" (by decide) ?_
      rw [look_record, show record.placeOf "cliRoot" = 4 by decide, Json.part?,
        List.getElem?_eq_none few]
      rfl
  | _ => exact iff_of_false id fun both => both.1

theorem sought?_record {look : String → Option Document} : record.sought? look = some e ↔
    Decoder.nullable Decoder.boolean ((look "enable").getD .null) = .ok e.enable ∧
    Decoder.list Decoder.text ((look "run").getD (.arr [])) = .ok e.run ∧
    Decoder.nullable Decoder.text ((look "mode").getD .null) = .ok e.mode ∧
    Decoder.nullable Decoder.text ((look "cliPath").getD .null) = .ok e.cliPath ∧
    Decoder.nullable Decoder.text ((look "cliRoot").getD .null) = .ok e.cliRoot := by
  have run (run : List String) : (look "run" = none ∧ run = [] ∨
      ∃ d, look "run" = some d ∧ Decoder.list Decoder.text d = .ok run) ↔
        Decoder.list Decoder.text ((look "run").getD (.arr [])) = .ok run := by
    cases look "run" <;> simp [Decoder.list, pure, Except.pure, eq_comm]
  simp only [record, Record.sought?_nullable_iff, Record.sought?_defaulted_iff, Record.sought?, run]
  constructor
  · rintro ⟨_, _, ⟨_, _, ⟨_, _, ⟨_, _, ⟨_, _, ⟨⟩, enable, rfl⟩, run, rfl⟩, mode, rfl⟩, path, rfl⟩,
      root, rfl⟩
    exact ⟨enable, run, mode, path, root⟩
  · rintro ⟨enable, run, mode, path, root⟩
    exact ⟨_, _, ⟨_, _, ⟨_, _, ⟨_, _, ⟨_, _, rfl, enable, rfl⟩, run, rfl⟩, mode, rfl⟩, path, rfl⟩,
      root, rfl⟩

theorem decode_iff : v.decode decoder = .ok e ↔ Describes v e := by
  have decoded := Record.decoder_eq_ok_iff_of_fresh (r := record) (a := e) (by decide)
    (by simp [record, Record.Fresh, Record.nullable, Record.defaulted]) "HostSection"
    (Document.ofJson v)
  have part (name : String) (place : Nat) (missing : Json) (placed : record.placeOf name = place) :
      (record.look (Document.ofJson v) name).getD (Document.ofJson missing) =
        Document.ofJson ((v.part? name place).getD missing) := by
    rw [look_record, placed]
    cases v.part? name place <;> rfl
  have null : Document.null = Document.ofJson .null := rfl
  have nothing : Document.arr [] = Document.ofJson (.arr []) := rfl
  rw [← and_assoc, ← shaped_iff, sought?_record, null, nothing, part "enable" 0 .null (by decide),
    part "run" 1 (.arr []) (by decide), part "mode" 2 .null (by decide),
    part "cliPath" 3 .null (by decide), part "cliRoot" 4 .null (by decide),
    Decoder.nullable_boolean_ofJson_iff, Decoder.list_text_ofJson_iff,
    Decoder.nullable_text_ofJson_iff, Decoder.nullable_text_ofJson_iff,
    Decoder.nullable_text_ofJson_iff] at decoded
  refine Iff.trans decoded ⟨?_, ?_⟩
  · rintro ⟨shaped, enable, run, mode, path, root⟩
    exact ⟨shaped, enable, run, mode, path, root⟩
  · rintro ⟨shaped, enable, run, mode, path, root⟩
    exact ⟨shaped, enable, run, mode, path, root⟩

/-- What is in an envelope is read as what stands alone is. -/
theorem decode_envelope (single : fields.filter (·.1 == "linterhub") = [("linterhub", v)]) :
    (Json.obj fields).decode envelope = v.decode decoder :=
  Record.decoder_of_single "HostEnvelope" decoder single

theorem ofJson_iff : ofJson v = .ok e ↔ SaidBy v e := by
  rw [ofJson]
  split
  · rename_i found
    obtain ⟨inner, found⟩ := Option.isSome_iff_exists.mp found
    cases v with
    | obj fields =>
      constructor
      · intro decoded
        have suits := ((Record.decoder_eq_ok_iff
          (r := (Record.build id).required "linterhub" decoder) (by decide) (by simp)
          "HostEnvelope" (Document.ofJson (.obj fields))).mp decoded).1
        have single := Json.filter_eq_singleton_iff.mpr
          ⟨Record.suits_ofJson_obj.mp suits "linterhub" List.mem_cons_self, found⟩
        rw [decode_envelope single, decode_iff] at decoded
        exact .enveloped single decoded
      · intro said
        cases said with
        | enveloped single describes => rwa [decode_envelope single, decode_iff]
        | bare nothing _ => rw [nothing] at found; cases found
    | _ => cases found
  · rename_i nothing
    rw [Option.not_isSome_iff_eq_none] at nothing
    constructor
    · intro decoded
      split at decoded
      · rename_i null
        cases v with
        | null => cases decoded; exact .missing
        | _ => cases null
      · exact .bare nothing (decode_iff.mp decoded)
    · intro said
      cases said with
      | enveloped single _ =>
        rw [(Json.filter_eq_singleton_iff.mp single).2] at nothing
        cases nothing
      | bare _ describes =>
        have some : v.isNull = false := by
          cases v with
          | null => exact describes.shaped.elim
          | _ => rfl
        rw [some, if_neg Bool.false_ne_true, decode_iff.mpr describes]
      | missing => rfl

end EditorSection

namespace Settings

/-- A path that is configured: not a blank one, once its variables are expanded. -/
def Configured (env : Environment) (given : Option String) (p : Path) : Prop :=
  ∃ text, given = some text ∧ isBlankText (env.expand text) = false ∧
    p = Path.ofText (env.expand text)

/-- The triggers allowed where some are wanted: each of them where it stands first, and `force` at
the end unless it is one of them. -/
def allowed (wanted : List Trigger) : List Trigger :=
  wanted.eraseDups ++ if .force ∈ wanted then [] else [.force]

/-- What the settings take from a section, and what from the defaults. -/
structure Heeds (s : Settings) (env : Environment) (d : Defaults) (e : EditorSection) : Prop where
  enabled_eq : s.enabled = e.enable.getD true
  run_eq : ∃ known, Trigger.Recognized e.run known ∧
    s.run = allowed (if known = [] then d.run else known)
  mode_eq : Chosen (fun m => ∃ text, e.mode = some text ∧ Mode.Named m text) d.mode s.mode
  cliRoot_eq : Chosen (Configured env e.cliRoot) d.cliRoot s.cliRoot
  cliPath_eq : ∀ p, s.cliPath = some p ↔ Configured env e.cliPath p
  engineDir_eq : Chosen (Configured env e.cliPath) s.cliRoot s.engineDir

variable {env : Environment} {d : Defaults} {v : Json} {e : EditorSection} {s : Settings}
  {given : Option String} {p : Path}

theorem path?_eq_some_iff : path? env given = some p ↔ Configured env given p := by
  simp only [path?, Configured, Option.map_eq_some_iff, Option.filter_eq_some_iff]
  constructor
  · rintro ⟨_, ⟨⟨text, said, rfl⟩, visible⟩, rfl⟩
    exact ⟨text, said, by simpa using visible, rfl⟩
  · rintro ⟨text, said, visible, rfl⟩
    exact ⟨_, ⟨⟨text, said, rfl⟩, by simpa using visible⟩, rfl⟩

theorem firsts_concat (l : List Trigger) (t : Trigger) :
    firsts (l ++ [t]) = if t ∈ l then firsts l else firsts l ++ [t] := by
  induction l with
  | nil => rfl
  | cons t' l ih =>
    rw [List.cons_append, firsts, ih, firsts]
    by_cases here : t = t'
    · subst here
      rw [if_pos List.mem_cons_self]
      split <;> simp
    · by_cases later : t ∈ l <;> simp [here, later]

theorem firsts_eq_eraseDups (l : List Trigger) : firsts l = l.eraseDups := by
  induction l using List.reverseRecOn with
  | nil => rfl
  | append_singleton l t ih => rw [firsts_concat, ih, eraseDups_concat]

theorem allowList_eq (wanted : List Trigger) : allowList wanted = allowed wanted := by
  rw [allowList, firsts_eq_eraseDups, allowed]
  by_cases forced : .force ∈ wanted
  · rw [if_pos (List.contains_iff_mem.mpr forced), if_pos forced, List.append_nil]
  · rw [if_neg (mt List.contains_iff_mem.mp forced), if_neg forced, eraseDups_concat,
      if_neg forced]

theorem recognizedOr_eq (fallback : List Trigger) (texts : List String) :
    Defaults.recognizedOr fallback texts =
      if Trigger.recognized texts = [] then fallback else Trigger.recognized texts := by
  rw [Defaults.recognizedOr]
  cases Trigger.recognized texts <;> rfl

theorem heeds_iff : s.Heeds env d e ↔ ofSection env d e = s := by
  have mode (m : Mode) : (e.mode.bind fun text => (Mode.parse text).toOption) = some m ↔
      ∃ text, e.mode = some text ∧ m.Named text := by
    simp only [Option.bind_eq_some_iff, Mode.parse_toOption_eq_some_iff]
  have path (given : Option String) (p : Path) : path? env given = some p ↔
      Configured env given p := path?_eq_some_iff
  have run : (∃ known, Trigger.Recognized e.run known ∧
      s.run = allowed (if known = [] then d.run else known)) ↔
        allowList (Defaults.recognizedOr d.run e.run) = s.run := by
    simp only [Trigger.recognized_iff, exists_eq_left', allowList_eq, recognizedOr_eq]
    exact eq_comm
  rw [ofSection, normalized]
  constructor
  · rintro ⟨enabled, allowed, chosen, root, own, _⟩
    have same : path? env e.cliPath = s.cliPath :=
      Option.ext fun p => (path e.cliPath p).trans (own p).symm
    rw [← enabled, run.mp allowed, (chosen_eq_some_iff mode).mp chosen,
      (chosen_eq_some_iff (path e.cliRoot)).mp root, same]
  · rintro rfl
    exact ⟨rfl, run.mpr rfl, (chosen_eq_some_iff mode).mpr rfl,
      (chosen_eq_some_iff (path e.cliRoot)).mpr rfl, path e.cliPath,
      (chosen_eq_some_iff (path e.cliPath)).mpr rfl⟩

theorem ofJson_eq_ok_iff :
    ofJson env d v = .ok s ↔ ∃ e, EditorSection.SaidBy v e ∧ s.Heeds env d e := by
  simp only [heeds_iff, ← EditorSection.ofJson_iff, ofJson]
  cases EditorSection.ofJson v <;> simp [Except.map]

/-- The settings follow the section that the editor sends, and no value is taken that stands for no
section. What an envelope holds means the same as it does without. -/
theorem follow_section (env : Environment) (d : Defaults) (v : Json) :
    (∀ s, ofJson env d v = .ok s ↔ ∃ e, EditorSection.SaidBy v e ∧ s.Heeds env d e) ∧
      ∀ fields members, v = .obj members → v.field? "linterhub" = none →
        fields.filter (·.1 == "linterhub") = [("linterhub", v)] →
          ofJson env d (.obj fields) = ofJson env d v := by
  refine ⟨fun s => ofJson_eq_ok_iff, ?_⟩
  rintro fields members rfl bare single
  have enveloped := (Json.filter_eq_singleton_iff.mp single).2
  simp only [ofJson, EditorSection.ofJson, enveloped, bare, EditorSection.decode_envelope single,
    Json.isNull, Option.isSome_some, Option.isSome_none, if_true, Bool.false_eq_true, if_false]

/-- A section that names a trigger twice and one that is not known. -/
def sample : Json :=
  .obj [("cliPath", .str "/opt/lh"), ("cliRoot", .str " "), ("mode", .str " Docker "),
    ("run", .arr [.str "onBlur", .str "onsave ", .str "FORCE", .str "onSave"])]

/-- The settings are as it says, in an envelope or not. -/
theorem follow_section_sample :
    ofJson ⟨[]⟩ (.builtIn ⟨[]⟩) sample = .ok ⟨true, [.onSave, .force], .container,
      (Defaults.builtIn ⟨[]⟩).cliRoot, some (Path.ofText "/opt/lh")⟩ ∧
    ofJson ⟨[]⟩ (.builtIn ⟨[]⟩) (.obj [("linterhub", sample)]) =
      ofJson ⟨[]⟩ (.builtIn ⟨[]⟩) sample := by
  obtain ⟨follows, enveloped⟩ := follow_section ⟨[]⟩ (.builtIn ⟨[]⟩) sample
  have said : EditorSection.SaidBy sample ⟨none, ["onBlur", "onsave ", "FORCE", "onSave"],
      some " Docker ", some "/opt/lh", some " "⟩ :=
    .bare rfl ⟨by simp [sample, EditorSection.Shaped], rfl, rfl, rfl, rfl, rfl⟩
  have known : Trigger.Recognized ["onBlur", "onsave ", "FORCE", "onSave"]
      [.onSave, .force, .onSave] := Trigger.recognized_iff.mpr (by decide +kernel)
  have mode : Mode.container.Named " Docker " := ⟨"docker", by decide, by decide +kernel⟩
  have blank (p : Path) : ¬Configured ⟨[]⟩ (some " ") p := by
    rintro ⟨_, ⟨⟩, visible, _⟩
    revert visible
    decide +kernel
  have path (p : Path) : some (Path.ofText "/opt/lh") = some p ↔
      Configured ⟨[]⟩ (some "/opt/lh") p := by
    have same : path? ⟨[]⟩ (some "/opt/lh") = some (Path.ofText "/opt/lh") := by decide +kernel
    rw [← path?_eq_some_iff, same]
  exact ⟨(follows _).mpr ⟨_, said, rfl, ⟨_, known, by decide +kernel⟩, .inl ⟨" Docker ", rfl, mode⟩,
    .inr ⟨blank, rfl⟩, path, .inl ((path _).mp rfl)⟩, enveloped _ _ rfl rfl rfl⟩

end Settings

end LintBridge

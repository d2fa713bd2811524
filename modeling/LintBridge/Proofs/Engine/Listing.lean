import LintBridge.Engine.Client
import LintBridge.Proofs.Json.Members
import Mathlib.Data.List.Basic

namespace LintBridge

open Document

namespace Linter

/-- What an item of a listing says of a linter: its name, and whatever else it does not leave out.
A text that is left out is empty, and a linter of which nothing else is said is not active. -/
structure ListedAs (item : Document) (l : Linter) : Prop where
  shaped : match item with
    | .obj fields => ∀ f ∈ fields, f.1 ≠ none
    | .arr parts => parts.length ≤ 4
    | _ => False
  name : item.parts "name" 0 = [.str (some l.name)]
  description : item.parts "description" 1 = [] ∧ l.description = "" ∨
    item.parts "description" 1 = [.str (some l.description)]
  languages : item.parts "languages" 2 = [] ∧ l.languages = "" ∨
    item.parts "languages" 2 = [.str (some l.languages)]
  active : item.parts "active" 3 = [] ∧ l.active = false ∨
    item.parts "active" 3 = [.bool l.active]

/-- The fields of a linter. -/
def record : Record Linter :=
  (((Record.build Linter.mk).required "name" Decoder.text).defaulted "description" Decoder.text
    "").defaulted "languages" Decoder.text "" |>.defaulted "active" Decoder.boolean false

section Items

variable {item : Document} {l : Linter}

/-- Where each field of a linter stands. -/
theorem placeOf_record : record.placeOf "name" = 0 ∧ record.placeOf "description" = 1 ∧
    record.placeOf "languages" = 2 ∧ record.placeOf "active" = 3 := by decide

theorem sought?_record {look : String → Option Document} : record.sought? look = some l ↔
    look "name" = some (.str (some l.name)) ∧
    (look "description" = none ∧ l.description = "" ∨
      look "description" = some (.str (some l.description))) ∧
    (look "languages" = none ∧ l.languages = "" ∨
      look "languages" = some (.str (some l.languages))) ∧
    (look "active" = none ∧ l.active = false ∨ look "active" = some (.bool l.active)) := by
  obtain ⟨name, description, languages, active⟩ := l
  simp only [record, Record.sought?_defaulted_iff, Record.sought?_required_iff, Record.sought?,
    Decoder.text_eq_ok_iff, Decoder.boolean_eq_ok_iff, exists_eq_right]
  constructor
  · rintro ⟨_, _, ⟨_, _, ⟨_, _, ⟨_, _, built, named, rfl⟩, told, rfl⟩, spoken, rfl⟩, switched, same⟩
    cases built
    cases same
    exact ⟨named, told, spoken, switched⟩
  · rintro ⟨named, told, spoken, switched⟩
    exact ⟨_, _, ⟨_, _, ⟨_, _, ⟨_, _, rfl, named, rfl⟩, told, rfl⟩, spoken, rfl⟩, switched, rfl⟩

theorem ListedAs.suits (listed : ListedAs item l) : record.Suits item := by
  obtain ⟨shaped, named, told, spoken, switched⟩ := listed
  cases item with
  | obj fields =>
    have single {parts : List Document} {part : Document} {absent : Prop}
        (single : parts = [] ∧ absent ∨ parts = [part]) : parts.length ≤ 1 := by
      rcases single with ⟨rfl, _⟩ | rfl <;> simp
    refine ⟨shaped, fun name known => ?_⟩
    have among : name ∈ ["active", "languages", "description", "name"] := known
    simp only [List.mem_cons, List.not_mem_nil, or_false] at among
    rcases among with rfl | rfl | rfl | rfl
    · exact single switched
    · exact single spoken
    · exact single told
    · exact single (show _ ∧ False ∨ under "name" fields = [_] from .inr named)
  | arr parts => exact shaped
  | _ => exact shaped.elim

/-- A linter is read from an item just when the item says it. -/
theorem decoder_eq_ok_iff : decoder item = .ok l ↔ ListedAs item l := by
  obtain ⟨first, second, third, fourth⟩ := placeOf_record
  rw [show decoder = Record.decoder "EngineDescriptor" record from rfl,
    Record.decoder_eq_ok_iff (by decide) (by simp [record]), sought?_record]
  constructor
  · rintro ⟨suits, named, told, spoken, switched⟩
    refine ⟨?_, ?_, ?_, ?_, ?_⟩
    · cases item with
      | obj fields => exact suits.1
      | _ => exact suits
    · rwa [← first, suits.parts_eq_singleton_iff (by decide)]
    · rwa [← second, suits.parts_eq_nil_iff (by decide), suits.parts_eq_singleton_iff (by decide)]
    · rwa [← third, suits.parts_eq_nil_iff (by decide), suits.parts_eq_singleton_iff (by decide)]
    · rwa [← fourth, suits.parts_eq_nil_iff (by decide), suits.parts_eq_singleton_iff (by decide)]
  · intro listed
    have suits := listed.suits
    refine ⟨suits, ?_, ?_, ?_, ?_⟩
    · rw [← suits.parts_eq_singleton_iff (by decide), first]
      exact listed.name
    · rw [← suits.parts_eq_nil_iff (by decide), ← suits.parts_eq_singleton_iff (by decide), second]
      exact listed.description
    · rw [← suits.parts_eq_nil_iff (by decide), ← suits.parts_eq_singleton_iff (by decide), third]
      exact listed.languages
    · rw [← suits.parts_eq_nil_iff (by decide), ← suits.parts_eq_singleton_iff (by decide), fourth]
      exact listed.active

end Items

section Order

/-- Linters in the order of their names. -/
abbrev ordered (listed : List Linter) : List Linter :=
  listed.mergeSort fun a b => decide (a.name ≤ b.name)

variable {listed linters : List Linter}

theorem name_le_trans (a b c : Linter) (below : decide (a.name ≤ b.name) = true)
    (above : decide (b.name ≤ c.name) = true) : decide (a.name ≤ c.name) = true := by
  rw [decide_eq_true_eq] at *
  exact String.le_trans below above

theorem name_le_total (a b : Linter) :
    (decide (a.name ≤ b.name) || decide (b.name ≤ a.name)) = true := by
  rw [Bool.or_eq_true, decide_eq_true_eq, decide_eq_true_eq]
  exact String.le_total a.name b.name

theorem pairwise_ordered (listed : List Linter) :
    (ordered listed).Pairwise fun a b => a.name ≤ b.name :=
  (List.pairwise_mergeSort name_le_trans name_le_total listed).imp of_decide_eq_true

theorem ordered_perm (listed : List Linter) : (ordered listed).Perm listed :=
  List.mergeSort_perm ..

/-- Linters of one name stay in the order in which they were listed. -/
theorem filter_ordered (listed : List Linter) (name : String) :
    (ordered listed).filter (·.name = name) = listed.filter (·.name = name) := by
  have level : (listed.filter (·.name = name)).Pairwise fun a b => decide (a.name ≤ b.name) := by
    refine List.pairwise_iff_forall_sublist.mpr fun {a b} pair => ?_
    have own {l : Linter} (member : l ∈ [a, b]) : l.name = name :=
      of_decide_eq_true (List.mem_filter.mp (pair.subset member)).2
    rw [own List.mem_cons_self, own (List.mem_cons_of_mem a List.mem_cons_self)]
    exact decide_eq_true (String.le_refl name)
  have within : (listed.filter (·.name = name)).Sublist (ordered listed) :=
    List.sublist_mergeSort name_le_trans name_le_total level List.filter_sublist
  have kept := within.filter (·.name = name)
  rw [List.filter_filter] at kept
  simp only [Bool.and_self] at kept
  exact (kept.eq_of_length ((ordered_perm listed).filter _).length_eq.symm).symm

/-- Linters that are in the order of their names ascend just when no name is listed twice. -/
theorem pairwise_lt_iff (perm : linters.Perm listed)
    (sorted : linters.Pairwise fun a b => a.name ≤ b.name) :
    linters.Pairwise (fun a b => a.name < b.name) ↔ (listed.map name).Nodup := by
  rw [← (perm.map name).nodup_iff, List.Nodup, List.pairwise_map]
  constructor
  · exact fun ascending => ascending.imp String.ne_of_lt
  · intro apart
    refine (sorted.and apart).imp fun ⟨below, other⟩ => ?_
    exact String.not_le.mp fun above => other (String.le_antisymm below above)

end Order

section Listing

variable {raw : String} {linters listed : List Linter} {items : List Document}

theorem forall₂_listedAs_iff : Decoder.Reads decoder items listed ↔
    List.Forall₂ ListedAs items listed := by
  rw [Decoder.Reads]
  simp only [decoder_eq_ok_iff]

/-- An output is accepted just when it is a list of items each of which says a linter. -/
theorem readCatalog_eq_ok_iff : Ask.readCatalog raw = .ok linters ↔ ∃ items listed,
    Document.read? (trimBlank raw) = some (.arr items) ∧ List.Forall₂ ListedAs items listed ∧
    linters = ordered listed := by
  have inner : Ask.readCatalog raw = .ok linters ↔ readCatalog raw = .ok linters := by
    unfold Ask.readCatalog
    cases readCatalog raw <;> simp
  rw [inner, readCatalog, decodeText]
  simp only [← forall₂_listedAs_iff]
  cases Document.read? (trimBlank raw) with
  | none => simp [Except.map]
  | some d =>
    constructor
    · intro read
      obtain ⟨listed, decoded, same⟩ := of_map read
      obtain ⟨items, rfl, reads⟩ := Decoder.of_list decoded
      exact ⟨items, listed, rfl, reads, same.symm⟩
    · rintro ⟨items, listed, same, reads, rfl⟩
      cases same
      dsimp only
      rw [Decoder.list_eq_ok_iff.mpr ⟨items, rfl, reads⟩]
      rfl

theorem ListedAs.unique {item : Document} {l l' : Linter} (listed : ListedAs item l)
    (listed' : ListedAs item l') : l = l' :=
  Except.ok.inj ((decoder_eq_ok_iff.mpr listed).symm.trans (decoder_eq_ok_iff.mpr listed'))

/-- The linters of a listing are those that its items say. -/
theorem mem_listed_iff (listing : List.Forall₂ ListedAs items listed) {l : Linter} :
    l ∈ listed ↔ ∃ item ∈ items, ListedAs item l := by
  induction listing with
  | nil => simp
  | @cons item l' items listed first _ ih =>
    rw [List.mem_cons, List.exists_mem_cons_iff, ih]
    exact or_congr_left ⟨fun same => same ▸ first, fun other => other.unique first⟩

theorem mem_names_iff (listing : List.Forall₂ ListedAs items listed) {name : String} :
    name ∈ listed.map Linter.name ↔ ∃ item ∈ items, item.parts "name" 0 = [.str (some name)] := by
  induction listing with
  | nil => simp
  | @cons item l items listed first _ ih =>
    rw [List.map_cons, List.mem_cons, List.exists_mem_cons_iff, ih, first.name]
    simp [eq_comm]

/-- What a catalog holds that is read from the output of an engine: the linters that the engine has
listed, each as it was listed, in the order of their names, and those of one name in the order of
the listing. No name stands twice in it just when the engine has listed none twice. -/
theorem catalog_of_listing (accepted : Ask.readCatalog raw = .ok linters) : ∃ items listed,
    Document.read? (trimBlank raw) = some (.arr items) ∧ List.Forall₂ ListedAs items listed ∧
    linters.Pairwise (fun a b => a.name ≤ b.name) ∧
    (∀ name, name ∈ linters.map Linter.name ↔
      ∃ item ∈ items, item.parts "name" 0 = [.str (some name)]) ∧
    (∀ l, l ∈ linters ↔ ∃ item ∈ items, ListedAs item l) ∧
    (∀ name, linters.filter (·.name = name) = listed.filter (·.name = name)) ∧
    (linters.Pairwise (fun a b => a.name < b.name) ↔ (listed.map Linter.name).Nodup) := by
  obtain ⟨items, listed, output, listing, rfl⟩ := readCatalog_eq_ok_iff.mp accepted
  have perm := ordered_perm listed
  refine ⟨items, listed, output, listing, pairwise_ordered listed, fun name => ?_, fun l => ?_,
    filter_ordered listed, pairwise_lt_iff perm (pairwise_ordered listed)⟩
  · rw [(perm.map Linter.name).mem_iff, mem_names_iff listing]
  · rw [perm.mem_iff, mem_listed_iff listing]

theorem readCatalog_of_decoded
    (decoded : (decodeText (Decoder.list decoder) (trimBlank raw)).toOption = some listed) :
    Ask.readCatalog raw = .ok (ordered listed) := by
  rw [Ask.readCatalog, readCatalog, of_toOption decoded]
  rfl

/-- A listing that is out of order, with an item that is an array and one that has only a name. -/
def outOfOrder : String := "[[\"b\", \"\", \"x\", true], \x7b\"name\": \"a\"\x7d]\n"

theorem readCatalog_outOfOrder :
    Ask.readCatalog outOfOrder = .ok [⟨"a", "", "", false⟩, ⟨"b", "", "x", true⟩] := by
  have decoded : (decodeText (Decoder.list decoder) (trimBlank outOfOrder)).toOption =
      some [⟨"b", "", "x", true⟩, ⟨"a", "", "", false⟩] := by decide +kernel
  rw [readCatalog_of_decoded decoded]
  simp [ordered, List.mergeSort, List.MergeSort.Internal.splitInTwo]

/-- It is put in order. -/
theorem catalog_of_outOfOrder :
    Ask.readCatalog outOfOrder = .ok [⟨"a", "", "", false⟩, ⟨"b", "", "x", true⟩] ∧
    ∃ items, Document.read? (trimBlank outOfOrder) = some (.arr items) ∧
      ∀ l, l ∈ [⟨"a", "", "", false⟩, ⟨"b", "", "x", true⟩] ↔ ∃ item ∈ items, ListedAs item l := by
  obtain ⟨items, _, output, _, _, _, listed, _⟩ := catalog_of_listing readCatalog_outOfOrder
  exact ⟨readCatalog_outOfOrder, items, output, listed⟩

/-- A listing that has a linter twice. -/
def listedTwice : String := "[\x7b\"name\": \"a\"\x7d, \x7b\"name\": \"a\"\x7d]"

/-- A linter that the engine lists twice stands twice in the catalog. -/
theorem not_strictly_ascending : ¬∀ raw linters, Ask.readCatalog raw = .ok linters →
    linters.Pairwise fun a b => a.name < b.name := by
  intro all
  have decoded : (decodeText (Decoder.list decoder) (trimBlank listedTwice)).toOption =
      some [⟨"a", "", "", false⟩, ⟨"a", "", "", false⟩] := by decide +kernel
  have ascending := all listedTwice _ (readCatalog_of_decoded decoded)
  have apart := (pairwise_lt_iff (ordered_perm _) (pairwise_ordered _)).mp ascending
  revert apart
  decide

end Listing

end Linter

end LintBridge

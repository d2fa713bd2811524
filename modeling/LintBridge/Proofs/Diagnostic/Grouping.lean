import LintBridge.Engine.Output
import Mathlib.Data.List.Induction
import Mathlib.Data.List.Nodup
import Mathlib.Data.List.Perm.Basic

namespace LintBridge

theorem getElem?_concat_iff {α : Type} {l : List α} {a b : α} {i : Nat} :
    (l ++ [a])[i]? = some b ↔ l[i]? = some b ∨ i = l.length ∧ a = b := by
  rcases Nat.lt_trichotomy i l.length with old | here | beyond
  · rw [List.getElem?_append_left old]
    exact ⟨.inl, fun h => h.resolve_right fun new => absurd new.1 (Nat.ne_of_lt old)⟩
  · subst here
    simp
  · have length : (l ++ [a]).length ≤ i := by
      rw [List.length_append]
      exact beyond
    simp [List.getElem?_eq_none length, Nat.le_of_lt beyond, Nat.ne_of_gt beyond]

section FirstSeen

variable {α : Type} [DecidableEq α]

theorem eraseDups_concat (l : List α) (a : α) :
    (l ++ [a]).eraseDups = if a ∈ l then l.eraseDups else l.eraseDups ++ [a] := by
  rw [List.eraseDups_append]
  by_cases seen : a ∈ l
  · simp [List.removeAll, seen]
  · simp [List.removeAll, seen, List.eraseDups_cons]

theorem nodup_eraseDups (l : List α) : l.eraseDups.Nodup := by
  induction l using List.reverseRecOn with
  | nil => exact List.nodup_nil
  | append_singleton l a ih =>
    rw [eraseDups_concat]
    by_cases seen : a ∈ l
    · rw [if_pos seen]
      exact ih
    · rw [if_neg seen]
      have new : a ∉ l.eraseDups := fun member => seen (List.mem_eraseDups.mp member)
      simpa only [List.concat_eq_append] using ih.concat new

theorem length_eraseDups_le (l : List α) : l.eraseDups.length ≤ l.length := by
  induction l using List.reverseRecOn with
  | nil => exact Nat.le_refl 0
  | append_singleton l a ih =>
    rw [eraseDups_concat, List.length_append, List.length_singleton]
    split
    · omega
    · rw [List.length_append, List.length_singleton]
      omega

end FirstSeen

namespace Report

/-- What some entries say of a URI, put together in their order. -/
def gather (entries : List (String × List Diagnostic)) (uri : String) : List Diagnostic :=
  (entries.filter fun e => e.1 == uri).flatMap Prod.snd

theorem gather_concat (entries : List (String × List Diagnostic))
    (e : String × List Diagnostic) (uri : String) :
    gather (entries ++ [e]) uri = gather entries uri ++ if e.1 = uri then e.2 else [] := by
  unfold gather
  rw [List.filter_append, List.flatMap_append]
  by_cases same : e.1 = uri
  · simp [same]
  · simp [same]

theorem gather_of_not_mem {entries : List (String × List Diagnostic)} {uri : String}
    (absent : uri ∉ entries.map Prod.fst) : gather entries uri = [] := by
  have none : entries.filter (fun e => e.1 == uri) = [] := by
    refine List.filter_eq_nil_iff.mpr fun e member same => absent ?_
    exact List.mem_map.mpr ⟨e, member, eq_of_beq same⟩
  rw [gather, none, List.flatMap_nil]

/-- A report has a table of what is said of some URIs, and its index tells where each of them
stands. -/
structure Tabulates (r : Report) (uris : List String) (items : String → List Diagnostic) :
    Prop where
  files : r.files = uris.map fun uri => (uri, items uri)
  index : ∀ uri slot, r.index.lookup uri = some slot ↔ uris[slot]? = some uri

section Table

variable {r : Report} {uris : List String} {items : String → List Diagnostic} {uri : String}

theorem Tabulates.lookup_eq_none (table : r.Tabulates uris items) :
    r.index.lookup uri = none ↔ uri ∉ uris := by
  rw [Option.eq_none_iff_forall_ne_some, List.mem_iff_getElem?]
  simp only [ne_eq, table.index, not_exists]

theorem Tabulates.get? (table : r.Tabulates uris items) (uri : String) :
    r.get? uri = if uri ∈ uris then some (items uri) else none := by
  by_cases seen : uri ∈ uris
  · obtain ⟨slot, stands⟩ := List.mem_iff_getElem?.mp seen
    have found := (table.index uri slot).mpr stands
    rw [Report.get?, found, Option.bind_some, table.files, List.getElem?_map, stands, if_pos seen]
    rfl
  · rw [Report.get?, table.lookup_eq_none.mpr seen, if_neg seen]
    rfl

/-- A file that is new is put at the end, and the others stay where they are. -/
theorem Tabulates.place (table : r.Tabulates uris items) (silent : uri ∉ uris → items uri = []) :
    (r.place uri).1.Tabulates (if uri ∈ uris then uris else uris ++ [uri]) items ∧
      (if uri ∈ uris then uris else uris ++ [uri])[(r.place uri).2]? = some uri := by
  by_cases seen : uri ∈ uris
  · obtain ⟨slot, stands⟩ := List.mem_iff_getElem?.mp seen
    have found := (table.index uri slot).mpr stands
    have placed : r.place uri = (r, slot) := by rw [Report.place, found]
    rw [placed, if_pos seen]
    exact ⟨table, stands⟩
  · have missing := table.lookup_eq_none.mpr seen
    have length : r.files.length = uris.length := by rw [table.files, List.length_map]
    have placed : r.place uri =
        (⟨r.files ++ [(uri, [])], (uri, uris.length) :: r.index⟩, uris.length) := by
      rw [Report.place, missing, length]
    rw [placed, if_neg seen]
    refine ⟨⟨?_, fun other slot => ?_⟩, List.getElem?_concat_length⟩
    · rw [table.files, List.map_append, List.map_singleton, silent seen]
    · rw [List.lookup_cons, getElem?_concat_iff, ← table.index]
      by_cases same : other = uri
      · subst same
        simp [missing, eq_comm]
      · simp [beq_false_of_ne same, Ne.symm same]

/-- What is added to a file stands after what was said of it, and nothing is said anew of the
others. -/
theorem modify_table {slot : Nat} (more : List Diagnostic) (stands : uris[slot]? = some uri)
    (once : ∀ i, uris[i]? = some uri → i = slot) :
    (uris.map fun u => (u, items u)).modify slot (fun file => (file.1, file.2 ++ more)) =
      uris.map fun u => (u, items u ++ if uri = u then more else []) := by
  refine List.ext_getElem? fun i => ?_
  rw [List.getElem?_modify, List.getElem?_map, List.getElem?_map]
  cases found : uris[i]? with
  | none => rfl
  | some u =>
    by_cases same : slot = i
    · have equal : uri = u := Option.some.inj (stands.symm.trans (same ▸ found))
      simp [same, equal]
    · have differs : uri ≠ u := fun equal => same (once i (equal ▸ found)).symm
      simp [same, differs]

theorem Tabulates.extend (table : r.Tabulates uris items) (silent : uri ∉ uris → items uri = [])
    (more : List Diagnostic) :
    (r.extend uri more).Tabulates (if uri ∈ uris then uris else uris ++ [uri])
      fun u => items u ++ if uri = u then more else [] := by
  obtain ⟨placed, stands⟩ := table.place silent
  refine ⟨?_, placed.index⟩
  have once (i : Nat)
      (other : (if uri ∈ uris then uris else uris ++ [uri])[i]? = some uri) :
      i = (r.place uri).2 := by
    have here := (placed.index uri _).mpr stands
    exact Option.some.inj (((placed.index uri i).mpr other).symm.trans here)
  rw [Report.extend]
  dsimp only
  rw [placed.files, modify_table more stands once]

theorem flatMap_of_mem (more : List Diagnostic) (distinct : uris.Nodup) (seen : uri ∈ uris) :
    (uris.flatMap fun u => if uri = u then more else []) = more := by
  induction uris with
  | nil => cases seen
  | cons first rest ih =>
    obtain ⟨absent, distinct⟩ := List.nodup_cons.mp distinct
    rw [List.flatMap_cons]
    by_cases same : uri = first
    · have others : (rest.flatMap fun u => if uri = u then more else []) = [] := by
        refine List.flatMap_eq_nil_iff.mpr fun u member => if_neg fun equal => absent ?_
        exact same ▸ equal ▸ member
      rw [if_pos same, others, List.append_nil]
    · have later : uri ∈ rest := (List.mem_cons.mp seen).resolve_left same
      rw [if_neg same, ih distinct later, List.nil_append]

end Table

/-- The report that some entries make, one added after the other. -/
def ofEntries (entries : List (String × List Diagnostic)) : Report :=
  entries.foldl (fun report e => report.extend e.1 e.2) .empty

/-- A report is the table of what its entries say of each URI, in the order in which the URIs were
first seen. -/
theorem tabulates_ofEntries (entries : List (String × List Diagnostic)) :
    (ofEntries entries).Tabulates (entries.map Prod.fst).eraseDups (gather entries) := by
  induction entries using List.reverseRecOn with
  | nil => exact ⟨rfl, fun _ _ => by simp [ofEntries, empty]⟩
  | append_singleton entries e ih =>
    have added : ofEntries (entries ++ [e]) = (ofEntries entries).extend e.1 e.2 := by
      rw [ofEntries, List.foldl_append]
      rfl
    have silent : e.1 ∉ (entries.map Prod.fst).eraseDups → gather entries e.1 = [] :=
      fun absent => gather_of_not_mem fun member => absent (List.mem_eraseDups.mpr member)
    have said : gather (entries ++ [e]) =
        fun u => gather entries u ++ if e.1 = u then e.2 else [] :=
      funext (gather_concat entries e)
    have table := ih.extend silent e.2
    simp only [List.mem_eraseDups] at table
    rw [added, said, List.map_append, List.map_singleton, eraseDups_concat]
    exact table

theorem get?_ofEntries (entries : List (String × List Diagnostic)) (uri : String) :
    (ofEntries entries).get? uri =
      if uri ∈ entries.map Prod.fst then some (gather entries uri) else none := by
  rw [(tabulates_ofEntries entries).get?]
  simp only [List.mem_eraseDups]

theorem mem_files_ofEntries (entries : List (String × List Diagnostic)) (uri : String)
    (items : List Diagnostic) :
    (uri, items) ∈ (ofEntries entries).files ↔ (ofEntries entries).get? uri = some items := by
  rw [(tabulates_ofEntries entries).get?, (tabulates_ofEntries entries).files, List.mem_map]
  constructor
  · rintro ⟨u, member, equal⟩
    cases equal
    rw [if_pos member]
  · intro found
    split at found
    · rename_i member
      cases found
      exact ⟨uri, member, rfl⟩
    · cases found

/-- Nothing is lost, and nothing is there twice. -/
theorem flatMap_gather (entries : List (String × List Diagnostic)) :
    ((entries.map Prod.fst).eraseDups.flatMap (gather entries)).Perm
      (entries.flatMap Prod.snd) := by
  induction entries using List.reverseRecOn with
  | nil => exact .refl _
  | append_singleton entries e ih =>
    have said : gather (entries ++ [e]) =
        fun u => gather entries u ++ if e.1 = u then e.2 else [] :=
      funext (gather_concat entries e)
    have named : e.1 ∈ ((entries ++ [e]).map Prod.fst).eraseDups :=
      List.mem_eraseDups.mpr (List.mem_map_of_mem (List.mem_append_right _ List.mem_cons_self))
    have before : ((entries ++ [e]).map Prod.fst).eraseDups.flatMap (gather entries) =
        (entries.map Prod.fst).eraseDups.flatMap (gather entries) := by
      rw [List.map_append, List.map_singleton, eraseDups_concat]
      split
      · rfl
      · rename_i absent
        rw [List.flatMap_append, List.flatMap_singleton, gather_of_not_mem absent, List.append_nil]
    have split := (List.flatMap_append_perm ((entries ++ [e]).map Prod.fst).eraseDups
      (gather entries) fun u => if e.1 = u then e.2 else []).symm
    rw [before, flatMap_of_mem e.2 (nodup_eraseDups _) named] at split
    rw [said, List.flatMap_append, List.flatMap_singleton]
    exact split.trans (ih.append_right e.2)

theorem diagnostics_ofEntries (entries : List (String × List Diagnostic)) :
    (ofEntries entries).diagnostics.Perm (entries.flatMap Prod.snd) := by
  rw [diagnostics, (tabulates_ofEntries entries).files, List.flatMap_map]
  exact flatMap_gather entries

end Report

namespace Output

/-- The files that some results are about, engine by engine, each with what is said of it and who
says so. -/
def entries (results : List EngineResult) (project : Path) : List (String × List Diagnostic) :=
  results.flatMap fun result => result.files.map fun file =>
    (fileUri project file.path, file.messages.map fun m => ⟨m, result.engine⟩)

theorem aggregate_eq (results : List EngineResult) (project : Path) :
    aggregate results project = .ofEntries (entries results project) := by
  simp only [aggregate, Report.ofEntries, entries, List.foldl_flatMap, List.foldl_map]

theorem messages_entries (results : List EngineResult) (project : Path) :
    ((entries results project).flatMap Prod.snd).map Diagnostic.message =
      results.flatMap fun result => result.files.flatMap FileResult.messages := by
  simp only [entries, List.flatMap_assoc, List.flatMap_map, List.map_flatMap, List.map_map]
  simp [Function.comp_def]

/-- The report on some results has under each URI what the engines say of it, in the order of the
engines and of their files, and has a URI just when a file has it. Each URI stands there once, in
the order in which they were first seen, and every message of the results is there once. -/
theorem aggregate_groups (results : List EngineResult) (project : Path) :
    let report := aggregate results project
    let entries := entries results project
    let messages := results.flatMap fun result => result.files.flatMap FileResult.messages
    (∀ uri, report.get? uri = none ↔
      ∀ result ∈ results, ∀ file ∈ result.files, fileUri project file.path ≠ uri) ∧
    (∀ uri items, report.get? uri = some items →
      items = (entries.filter fun e => e.1 == uri).flatMap Prod.snd) ∧
    report.files.map Prod.fst = (entries.map Prod.fst).eraseDups ∧
    (report.files.map Prod.fst).Nodup ∧
    (∀ uri items, (uri, items) ∈ report.files ↔ report.get? uri = some items) ∧
    report.size ≤ (results.flatMap EngineResult.files).length ∧
    report.diagnostics.Perm (entries.flatMap Prod.snd) ∧
    report.total = messages.length ∧
    report.errors = messages.countP fun m => m.severity.isError := by
  intro report entries messages
  have made : report = .ofEntries entries := aggregate_eq results project
  have listed : report.files.map Prod.fst = (entries.map Prod.fst).eraseDups := by
    rw [made, (Report.tabulates_ofEntries entries).files, List.map_map]
    exact List.map_id _
  have all : report.diagnostics.Perm (entries.flatMap Prod.snd) :=
    made ▸ Report.diagnostics_ofEntries entries
  have same : (entries.flatMap Prod.snd).map Diagnostic.message = messages :=
    messages_entries results project
  refine ⟨fun uri => ?_, fun uri items found => ?_, listed, ?_, fun uri items => ?_, ?_, all, ?_,
    ?_⟩
  · have named : uri ∈ entries.map Prod.fst ↔
        ∃ result ∈ results, ∃ file ∈ result.files, fileUri project file.path = uri := by
      simp [entries, Output.entries]
    rw [made, Report.get?_ofEntries]
    by_cases seen : uri ∈ entries.map Prod.fst
    · simpa only [if_pos seen, reduceCtorEq, false_iff, not_forall, ne_eq, not_not,
        exists_prop] using named.mp seen
    · rw [if_neg seen]
      exact iff_of_true rfl fun result inResults file inFiles equal =>
        seen (named.mpr ⟨result, inResults, file, inFiles, equal⟩)
  · rw [made, Report.get?_ofEntries] at found
    split at found
    · exact (Option.some.inj found).symm
    · cases found
  · rw [listed]
    exact nodup_eraseDups _
  · rw [made]
    exact Report.mem_files_ofEntries entries uri items
  · have count : entries.length = (results.flatMap EngineResult.files).length := by
      simp [entries, Output.entries, List.length_flatMap]
    calc report.size = (report.files.map Prod.fst).length := List.length_map _ |>.symm
      _ = (entries.map Prod.fst).eraseDups.length := by rw [listed]
      _ ≤ (entries.map Prod.fst).length := length_eraseDups_le _
      _ = (results.flatMap EngineResult.files).length := by rw [List.length_map, count]
  · rw [Report.total, all.length_eq, ← same, List.length_map]
  · rw [Report.errors, all.countP_eq, ← same, List.countP_map]
    rfl

end Output

end LintBridge

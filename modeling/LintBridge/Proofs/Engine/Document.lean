import LintBridge.Proofs.Diagnostic.Merging
import LintBridge.Proofs.Engine.Relative
import LintBridge.Workspace.Task

namespace LintBridge

section Presented

variable {files : List (String × List Diagnostic)} {old new : String}

/-- Files with one of them under another URI, at the end and with nothing said of it if it was
missing. -/
def presented (old new : String) (files : List (String × List Diagnostic)) :
    List (String × List Diagnostic) :=
  let renamed := files.map fun f => (if f.1 = old then new else f.1, f.2)
  if old ∈ files.map Prod.fst then renamed else renamed ++ [(new, [])]

theorem mem_presented {u : String} {items : List Diagnostic} :
    (u, items) ∈ presented old new files ↔ (u, items) ∈ files ∧ u ≠ old ∨
      u = new ∧ ((old, items) ∈ files ∨ old ∉ files.map Prod.fst ∧ items = []) := by
  have renamed : (u, items) ∈ files.map (fun f => (if f.1 = old then new else f.1, f.2)) ↔
      (u, items) ∈ files ∧ u ≠ old ∨ u = new ∧ (old, items) ∈ files := by
    rw [List.mem_map]
    constructor
    · rintro ⟨⟨v, said⟩, member, same⟩
      by_cases it : v = old
      · rw [if_pos it] at same
        cases same
        exact .inr ⟨rfl, it ▸ member⟩
      · rw [if_neg it] at same
        cases same
        exact .inl ⟨member, it⟩
    · rintro (⟨member, other⟩ | ⟨rfl, member⟩)
      · exact ⟨_, member, by rw [if_neg other]⟩
      · exact ⟨_, member, by rw [if_pos rfl]⟩
  rw [presented]
  split
  · rename_i there
    rw [renamed]
    simp [there]
  · rename_i missing
    have none : (old, items) ∉ files := fun member =>
      missing (List.mem_map.mpr ⟨_, member, rfl⟩)
    rw [List.mem_append, renamed, List.mem_singleton, Prod.mk.injEq]
    simp [missing, none]

theorem filter_ne_presented : (presented old new files).filter (fun f => f.1 != new) =
    files.filter fun f => f.1 != old && f.1 != new := by
  have renamed : (files.map fun f => (if f.1 = old then new else f.1, f.2)).filter
      (fun f => f.1 != new) = files.filter fun f => f.1 != old && f.1 != new := by
    induction files with
    | nil => rfl
    | cons f files ih =>
      rw [List.map_cons]
      by_cases it : f.1 = old
      · rw [List.filter_cons_of_neg (by simp [it]), List.filter_cons_of_neg (by simp [it]), ih]
      · have same : (if f.1 = old then new else f.1, f.2) = f := by rw [if_neg it]
        rw [same, List.filter_cons, List.filter_cons, ih, bne_iff_ne.mpr it, Bool.true_and]
  rw [presented]
  split
  · exact renamed
  · rw [List.filter_append, renamed, List.filter_cons_of_neg (by simp), List.filter_nil,
      List.append_nil]

/-- No URI is presented twice just when the new one was not there before. -/
theorem nodup_presented_iff (distinct : (files.map Prod.fst).Nodup) :
    ((presented old new files).map Prod.fst).Nodup ↔
      ∀ u ∈ files.map Prod.fst, u = new → u = old := by
  have renamed : (files.map fun f => (if f.1 = old then new else f.1, f.2)).map Prod.fst =
      (files.map Prod.fst).map fun u => if u = old then new else u := by
    rw [List.map_map, List.map_map]
    rfl
  have kept (free : ∀ u ∈ files.map Prod.fst, u = new → u = old) :
      ((files.map Prod.fst).map fun u => if u = old then new else u).Nodup := by
    refine distinct.map_on fun u member v member' same => ?_
    by_cases it : u = old <;> by_cases it' : v = old
    · rw [it, it']
    · rw [if_pos it, if_neg it'] at same
      exact absurd (free v member' same.symm) it'
    · rw [if_neg it, if_pos it'] at same
      exact absurd (free u member same) it
    · rwa [if_neg it, if_neg it'] at same
  rw [presented]
  split
  · rename_i there
    rw [renamed]
    refine ⟨fun once u member same => ?_, kept⟩
    refine List.inj_on_of_nodup_map once member there ?_
    rw [if_pos rfl, same, ite_eq_right_iff.mpr fun _ => rfl]
  · rename_i missing
    rw [List.map_append, renamed, List.map_singleton, List.nodup_append]
    have other {u : String} (member : u ∈ files.map Prod.fst) : (if u = old then new else u) = u :=
      if_neg fun it : u = old => missing (it ▸ member)
    refine ⟨fun ⟨_, _, apart⟩ u member same => ?_, fun free => ⟨kept free, by simp, ?_⟩⟩
    · have shown : u ∈ (files.map Prod.fst).map fun u => if u = old then new else u :=
        List.mem_map.mpr ⟨u, member, other member⟩
      exact absurd same (apart u shown new List.mem_cons_self)
    · rintro _ inside _ last rfl
      obtain ⟨u, member, rfl⟩ := List.mem_map.mp inside
      rw [other member] at last
      exact missing (free u member (List.mem_singleton.mp last) ▸ member)

/-- In a table a key stands once. -/
theorem filter_key {l : List (String × List Diagnostic)} {k : String} {v : List Diagnostic}
    (distinct : (l.map Prod.fst).Nodup) (member : (k, v) ∈ l) :
    l.filter (fun f => f.1 == k) = [(k, v)] := by
  induction l with
  | nil => cases member
  | cons f l ih =>
    obtain ⟨absent, distinct⟩ := List.nodup_cons.mp distinct
    rcases List.mem_cons.mp member with rfl | later
    · have none : l.filter (fun f => f.1 == k) = [] := by
        refine List.filter_eq_nil_iff.mpr fun g inside same => absent ?_
        exact List.mem_map.mpr ⟨g, inside, eq_of_beq same⟩
      rw [List.filter_cons_of_pos (by simp), none]
    · have other : f.1 ≠ k := fun same => absent (same ▸ List.mem_map.mpr ⟨_, later, rfl⟩)
      rw [List.filter_cons_of_neg (by simp [other]), ih distinct later]

end Presented

namespace Output

section Answering

variable (results : List EngineResult) (project : Path) (document : String)

/-- The file that a document is. -/
def fileOf : List Bytes := (project.join (Engine.documentPath document)).resolve

/-- Whether a document is given as a file URI. -/
def isFileUri : Bool := (Path.ofFileUrlText? document).isSome || "file:".isPrefixOf document

/-- The URI of a document: its own, if it is given as one. -/
def ownUri : String := if isFileUri document then document else fileUri project document

/-- Whether a URI stands for a path to the document's file. -/
def isAbout (uri : String) : Bool := (reported results).any fun e =>
  fileUri project e.1 == uri && (project.child e.1).resolve == fileOf project document

/-- What is published answers for a document: no URI is there twice, that of the document is there
with all that is said of its file, and the others are the files of the report that are not the
document, as they stand there. -/
structure Answers (published : List (String × List Diagnostic)) : Prop where
  once : (published.map Prod.fst).Nodup
  own : published.filter (fun f => f.1 == ownUri project document) =
    [(ownUri project document,
      saidOf results fun p => (project.child p).resolve = fileOf project document)]
  others : published.filter (fun f => f.1 != ownUri project document) =
    (aggregate results project).files.filter fun f => !isAbout results project document f.1

/-- The segments of the name that an engine is asked about. -/
def askedSegments : List Bytes := (project.child (Engine.relativePath project document)).segments

/-- An output spells a document as it was asked for: of the reported paths those with the segments
of the name that was asked about are the paths to the document, the document's text is the URI of no
other, and if it is a URI its scheme is in lower case. -/
structure Spells : Prop where
  file : ∀ e ∈ reported results, (project.child e.1).resolve = fileOf project document ↔
    (project.child e.1).segments = askedSegments project document
  apart : ∀ e ∈ reported results, fileUri project e.1 = document →
    (project.child e.1).resolve = fileOf project document
  lower : (Path.ofFileUrlText? document).isSome → "file:".isPrefixOf document

end Answering

variable {results : List EngineResult} {project : Path} {document : String}

theorem isPrefixOf_fileUri (absolute : project.isAbsolute = true) (path : String) :
    "file:".isPrefixOf (fileUri project path) = true := by
  have absolute' : (project.child path).isAbsolute = true := Path.isAbsolute_join absolute
  have text := (congrArg String.toList (Engine.fileUri_of_absolute absolute')).trans
    String.toList_ofList
  rw [String.isPrefixOf, String.startsWith_string_iff, text]
  exact List.prefix_append_of_prefix (by decide)

theorem filesFor_eq (report : Report) : report.filesFor project document =
    presented (fileUri project (Engine.relativePath project document))
      (if "file:".isPrefixOf document then document
        else fileUri project (Engine.relativePath project document)) report.files := by
  have seen (uri : String) : (report.files.any fun f => f.1 == uri) = true ↔
      uri ∈ report.files.map Prod.fst := by
    rw [List.any_eq_true, List.mem_map]
    simp only [beq_iff_eq]
  simp only [Report.filesFor, presented, seen]

/-- Seen from the project, the name that an engine is asked about is the document. -/
theorem askedSegments_eq (absolute : project.isAbsolute = true)
    (text : IsUtf8 (Engine.documentPath document).bytes) : askedSegments project document =
      (project.join (Engine.documentPath document)).segments := by
  rw [askedSegments, Engine.relativePath]
  generalize Engine.documentPath document = whole at text
  cases stripped : whole.stripPrefix? project with
  | none => rw [Option.getD_none, Path.child, Path.ofText_display text]
  | some r =>
    cases absolute' : whole.isAbsolute with
    | false =>
      rw [Path.stripPrefix?, if_pos absolute, absolute', if_neg Bool.false_ne_true] at stripped
      cases stripped
    | true =>
      obtain ⟨parts, relative, texts⟩ := Engine.of_stripPrefix? absolute absolute' stripped
      rw [Option.getD_some, Path.child, Path.ofText_display (texts text),
        Path.segments_join relative, Path.join_of_absolute absolute', parts]

theorem isUtf8_documentPath (path : Path.ofFileUrlText? document = none) :
    IsUtf8 (Engine.documentPath document).bytes := by
  rw [Engine.documentPath, path, Option.getD_none]
  exact Path.isUtf8_ofText document

theorem ownUri_eq (absolute : project.isAbsolute = true)
    (lower : (Path.ofFileUrlText? document).isSome → "file:".isPrefixOf document) :
    ownUri project document = if "file:".isPrefixOf document then document
      else fileUri project (Engine.relativePath project document) := by
  rw [ownUri, isFileUri]
  cases marked : "file:".isPrefixOf document with
  | true => simp
  | false =>
    cases path : Path.ofFileUrlText? document with
    | some p => exact absurd (lower (by rw [path]; rfl)) (by simp [marked])
    | none =>
      have named : (Engine.documentPath document) = Path.ofText document := by
        rw [Engine.documentPath, path, Option.getD_none]
      have asked := askedSegments_eq absolute (isUtf8_documentPath path)
      rw [named] at asked
      simp only [Option.isSome_none, Bool.or_self, Bool.false_eq_true, if_false]
      exact (fileUri_eq_iff absolute).mpr asked.symm

section Entries

theorem keys_aggregate {uri : String} :
    uri ∈ (aggregate results project).files.map Prod.fst ↔
      ∃ e ∈ reported results, fileUri project e.1 = uri := by
  rw [aggregate_eq, (Report.tabulates_ofEntries _).files, List.map_map, List.mem_map]
  simp only [List.mem_eraseDups, entries_eq, List.map_map, List.mem_map, Function.comp_apply,
    exists_eq_right]

theorem nodup_aggregate : ((aggregate results project).files.map Prod.fst).Nodup := by
  rw [aggregate_eq, (Report.tabulates_ofEntries _).files, List.map_map]
  exact (List.map_id _).symm ▸ nodup_eraseDups _

theorem said_of_mem {uri : String} {items : List Diagnostic}
    (member : (uri, items) ∈ (aggregate results project).files) :
    items = saidOf results fun p => fileUri project p == uri := by
  rw [aggregate_eq, Report.mem_files_ofEntries, ← aggregate_eq, get?_aggregate] at member
  split at member
  · exact (Option.some.inj member).symm
  · cases member

theorem saidOf_congr {asked asked' : String → Bool}
    (same : ∀ e ∈ reported results, asked e.1 = asked' e.1) :
    saidOf results asked = saidOf results asked' :=
  congrArg (List.flatMap Prod.snd) (List.filter_congr same)

theorem isAbout_iff (absolute : project.isAbsolute = true) {e : String × List Diagnostic}
    (member : e ∈ reported results) :
    isAbout results project document (fileUri project e.1) = true ↔
      (project.child e.1).resolve = fileOf project document := by
  rw [isAbout, List.any_eq_true]
  simp only [Bool.and_eq_true, beq_iff_eq]
  refine ⟨fun about => ?_, fun file => ⟨e, member, rfl, file⟩⟩
  obtain ⟨other, _, same, file⟩ := about
  rw [← file, resolve_of_fileUri absolute same]

end Entries

section Published

variable (absolute : project.isAbsolute = true)

include absolute

theorem asked_iff (path : String) :
    fileUri project path = fileUri project (Engine.relativePath project document) ↔
      (project.child path).segments = askedSegments project document :=
  fileUri_eq_iff absolute

theorem Spells.answers (spells : Spells results project document) :
    Answers results project document ((aggregate results project).filesFor project document) := by
  let asked := fileUri project (Engine.relativePath project document)
  have own := ownUri_eq absolute spells.lower
  have about {e : String × List Diagnostic} (member : e ∈ reported results) :
      isAbout results project document (fileUri project e.1) = true ↔
        fileUri project e.1 = asked := by
    rw [isAbout_iff absolute member, spells.file e member, asked_iff absolute]
  have free : ∀ u ∈ (aggregate results project).files.map Prod.fst,
      u = ownUri project document → u = asked := by
    intro u inside same
    obtain ⟨e, member, rfl⟩ := keys_aggregate.mp inside
    rw [own] at same
    split at same
    · exact (about member).mp ((isAbout_iff absolute member).mpr (spells.apart e member same))
    · exact same
  have once : ((presented asked (ownUri project document)
      (aggregate results project).files).map Prod.fst).Nodup :=
    (nodup_presented_iff nodup_aggregate).mpr free
  rw [filesFor_eq, ← own]
  have said : (saidOf results fun p => fileUri project p == asked) =
      saidOf results fun p => (project.child p).resolve = fileOf project document := by
    refine saidOf_congr fun e member => ?_
    rw [beq_eq_decide, decide_eq_decide, ← isAbout_iff absolute member, about member]
  refine ⟨once, filter_key once ?_, ?_⟩
  · rw [mem_presented, ← said]
    refine .inr ⟨rfl, ?_⟩
    by_cases there : asked ∈ (aggregate results project).files.map Prod.fst
    · obtain ⟨⟨u, items⟩, member, rfl⟩ := List.mem_map.mp there
      exact .inl (said_of_mem member ▸ member)
    · refine .inr ⟨there, ?_⟩
      have none : (reported results).filter (fun e => fileUri project e.1 == asked) = [] := by
        refine List.filter_eq_nil_iff.mpr fun e member named => there ?_
        exact keys_aggregate.mpr ⟨e, member, eq_of_beq named⟩
      rw [saidOf, none, List.flatMap_nil]
  · rw [filter_ne_presented]
    refine List.filter_congr fun f inside => ?_
    have key := List.mem_map_of_mem (f := Prod.fst) inside
    obtain ⟨e, member, named⟩ := keys_aggregate.mp key
    rw [← named] at key ⊢
    rw [Bool.eq_iff_iff, Bool.and_eq_true, bne_iff_ne, bne_iff_ne, Bool.not_eq_true',
      ← Bool.not_eq_true, about member]
    exact ⟨And.left, fun other => ⟨other, fun it => other (free _ key it)⟩⟩

theorem Answers.spells
    (answers : Answers results project document
      ((aggregate results project).filesFor project document)) :
    Spells results project document := by
  have lower : (Path.ofFileUrlText? document).isSome → "file:".isPrefixOf document := by
    intro path
    refine Decidable.byContradiction fun unmarked => unmarked ?_
    have own : ownUri project document = document :=
      if_pos (Bool.or_eq_true_iff.mpr (.inl path))
    have shown := answers.own ▸ List.mem_singleton_self _
    rw [own, filesFor_eq, if_neg unmarked] at shown
    rcases mem_presented.mp (List.mem_filter.mp shown).1 with ⟨inside, _⟩ | ⟨same, _⟩
    · obtain ⟨e, _, named⟩ := keys_aggregate.mp (List.mem_map_of_mem (f := Prod.fst) inside)
      have same : fileUri project e.1 = document := named
      exact same ▸ isPrefixOf_fileUri absolute e.1
    · exact same ▸ isPrefixOf_fileUri absolute _
  have own := ownUri_eq absolute lower
  rw [filesFor_eq, ← own] at answers
  have there {e : String × List Diagnostic} (member : e ∈ reported results) :
      ∃ items, (fileUri project e.1, items) ∈ (aggregate results project).files := by
    obtain ⟨⟨_, items⟩, inside, rfl⟩ := List.mem_map.mp (keys_aggregate.mpr ⟨e, member, rfl⟩)
    exact ⟨items, inside⟩
  -- a file that is not the document is published as it stands
  have kept {e : String × List Diagnostic} (member : e ∈ reported results)
      (other : (project.child e.1).resolve ≠ fileOf project document) :
      fileUri project e.1 ≠ ownUri project document ∧
        fileUri project e.1 ≠ fileUri project (Engine.relativePath project document) := by
    obtain ⟨items, inside⟩ := there member
    have shown : (fileUri project e.1, items) ∈ (aggregate results project).files.filter fun f =>
        !isAbout results project document f.1 := by
      refine List.mem_filter.mpr ⟨inside, ?_⟩
      rw [Bool.not_eq_true', ← Bool.not_eq_true, isAbout_iff absolute member]
      exact other
    rw [← answers.others, filter_ne_presented] at shown
    have apart := (List.mem_filter.mp shown).2
    rw [Bool.and_eq_true, bne_iff_ne, bne_iff_ne] at apart
    exact apart.symm
  refine ⟨fun e member => ⟨fun file => ?_, fun named => ?_⟩, fun e member same => ?_, lower⟩
  · rw [← asked_iff absolute]
    refine Decidable.byContradiction fun other => ?_
    obtain ⟨items, inside⟩ := there member
    have free := (nodup_presented_iff nodup_aggregate).mp answers.once _
      (keys_aggregate.mpr ⟨e, member, rfl⟩)
    have shown : (fileUri project e.1, items) ∈ (presented
        (fileUri project (Engine.relativePath project document)) (ownUri project document)
        (aggregate results project).files).filter fun f => f.1 != ownUri project document :=
      List.mem_filter.mpr ⟨mem_presented.mpr (.inl ⟨inside, other⟩),
        bne_iff_ne.mpr fun it => other (free it)⟩
    rw [answers.others] at shown
    have silent := (List.mem_filter.mp shown).2
    rw [(isAbout_iff absolute member).mpr file] at silent
    cases silent
  · refine Decidable.byContradiction fun other => (kept member other).2 ?_
    exact (asked_iff absolute e.1).mpr named
  · refine Decidable.byContradiction fun other => (kept member other).1 ?_
    have marked := isPrefixOf_fileUri absolute e.1
    rw [same] at marked ⊢
    rw [own, if_pos marked]

/-- An output spells a document as it was asked for if there is no `..` and no barred drive letter
in the paths. -/
theorem spells_of_level
    (lower : (Path.ofFileUrlText? document).isSome → "file:".isPrefixOf document)
    (text : IsUtf8 (Engine.documentPath document).bytes)
    (level : Path.dotDot ∉ (project.join (Engine.documentPath document)).segments)
    (levels : ∀ e ∈ reported results, Path.dotDot ∉ (project.child e.1).segments)
    (free : ∀ e ∈ reported results, Path.barsDrive (project.child e.1).segments = false) :
    Spells results project document := by
  have file : fileOf project document = askedSegments project document :=
    (Path.resolve_eq_segments_iff.mpr level).trans (askedSegments_eq absolute text).symm
  refine ⟨fun e member => ?_, fun e member same => ?_, lower⟩
  · rw [file, Path.resolve_eq_segments_iff.mpr (levels e member)]
  · have rooted : (project.child e.1).isAbsolute = true := Path.isAbsolute_join absolute
    have read := Engine.documentPath_fileUri rooted
    have kept := read.segments (fun s inside => (Path.of_mem_segments inside).1) (levels e member)
      (free e member)
    rw [same] at read kept
    rw [fileOf, Path.join_of_absolute read.absolute, Path.resolve, Path.resolve, kept]

end Published

end Output

end LintBridge

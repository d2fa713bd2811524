import LintBridge.Proofs.Diagnostic.Grouping
import LintBridge.Proofs.Files.Replacing
import LintBridge.Proofs.Url.FileUrl
import Mathlib.Data.List.Flatten

namespace LintBridge

section Filtered

variable {α β : Type} {l : List α} {few many : α → Bool} {f : α → List β}

theorem length_flatMap_filter_le (wider : ∀ a, few a = true → many a = true) :
    ((l.filter few).flatMap f).length ≤ ((l.filter many).flatMap f).length :=
  ((List.monotone_filter_right l wider).flatMap f).length_le

/-- To ask for more gives the same just when what is asked for in addition holds nothing. -/
theorem flatMap_filter_eq_iff (wider : ∀ a, few a = true → many a = true) :
    (l.filter few).flatMap f = (l.filter many).flatMap f ↔
      ∀ a ∈ l, many a = true → few a = false → f a = [] := by
  induction l with
  | nil => exact iff_of_true rfl nofun
  | cons a l ih =>
    cases asked : few a with
    | true =>
      rw [List.filter_cons_of_pos asked, List.filter_cons_of_pos (wider a asked), List.flatMap_cons,
        List.flatMap_cons, List.append_cancel_left_eq, ih, List.forall_mem_cons, asked]
      simp
    | false =>
      rw [List.filter_cons_of_neg (by simp [asked]), List.forall_mem_cons, ← ih, asked]
      cases more : many a with
      | false =>
        rw [List.filter_cons_of_neg (by simp [more])]
        simp
      | true =>
        rw [List.filter_cons_of_pos more, List.flatMap_cons]
        refine ⟨fun same => ?_, fun ⟨silent, same⟩ => by rw [silent rfl rfl, same, List.nil_append]⟩
        have bound := length_flatMap_filter_le (l := l) (f := f) wider
        rw [same, List.length_append] at bound
        have none : f a = [] := List.length_eq_zero_iff.mp (by omega)
        rw [none, List.nil_append] at same
        exact ⟨fun _ _ => none, same⟩

end Filtered

namespace Output

/-- The paths that some results are about, in their order, each with what is said of it and who
says so. -/
def reported (results : List EngineResult) : List (String × List Diagnostic) :=
  results.flatMap fun result => result.files.map fun file =>
    (file.path, file.messages.map fun m => ⟨m, result.engine⟩)

/-- What some results say of the paths asked for, in their order. -/
def saidOf (results : List EngineResult) (asked : String → Bool) : List Diagnostic :=
  ((reported results).filter fun e => asked e.1).flatMap Prod.snd

theorem entries_eq (results : List EngineResult) (project : Path) :
    entries results project = (reported results).map fun e => (fileUri project e.1, e.2) := by
  simp only [entries, reported, List.map_flatMap, List.map_map]
  rfl

variable {results : List EngineResult} {project : Path}

theorem of_convert {raw : String} {report : Report} (converted : convert raw project = .ok report) :
    ∃ results, parse raw = .ok results ∧ report = aggregate results project := by
  rw [convert] at converted
  cases parsed : parse raw with
  | error e =>
    rw [parsed] at converted
    cases converted
  | ok results =>
    rw [parsed] at converted
    exact ⟨results, rfl, (Except.ok.inj converted).symm⟩

/-- A report has under a URI what is said of the paths that have it. -/
theorem get?_aggregate (uri : String) : (aggregate results project).get? uri =
    if uri ∈ (reported results).map fun e => fileUri project e.1 then
      some (saidOf results fun p => fileUri project p == uri)
    else none := by
  rw [aggregate_eq, Report.get?_ofEntries, entries_eq, List.map_map, Report.gather,
    List.filter_map, List.flatMap_map]
  rfl

/-- Paths below a project have the same URI just when they have the same segments. -/
theorem fileUri_eq_iff (absolute : project.isAbsolute = true) {p q : String} :
    fileUri project p = fileUri project q ↔
      (project.child p).segments = (project.child q).segments := by
  have rooted (path : String) : (project.child path).isAbsolute = true :=
    Path.isAbsolute_join absolute
  have named (path : String) : (project.child path).fileUrl? = some (fileUri project path) := by
    rw [fileUri, Path.fileUrl?, if_pos (rooted path), Option.getD_some]
  rw [← Path.fileUrl?_eq_iff (rooted p) (rooted q), named, named, Option.some.injEq]

theorem resolve_of_fileUri (absolute : project.isAbsolute = true) {p q : String}
    (same : fileUri project p = fileUri project q) :
    (project.child p).resolve = (project.child q).resolve :=
  congrArg Path.resolveSegments ((fileUri_eq_iff absolute).mp same)

/-- A report has under the URI of a path what is said of every path with its segments. -/
theorem get?_fileUri (absolute : project.isAbsolute = true) {e : String × List Diagnostic}
    (member : e ∈ reported results) : (aggregate results project).get? (fileUri project e.1) =
      some (saidOf results fun p => (project.child p).segments = (project.child e.1).segments) := by
  have asked : (fun p => fileUri project p == fileUri project e.1) =
      fun p => decide ((project.child p).segments = (project.child e.1).segments) :=
    funext fun p => by rw [beq_eq_decide, decide_eq_decide, fileUri_eq_iff absolute]
  rw [get?_aggregate, if_pos (List.mem_map.mpr ⟨e, member, rfl⟩), asked]

/-- What is said of the paths with certain segments is all that is said of the file just when
nothing is said of it by way of `..`. -/
theorem saidOf_segments_eq_iff {path : String}
    (level : Path.dotDot ∉ (project.child path).segments) :
    (saidOf results fun p => (project.child p).segments = (project.child path).segments) =
        saidOf results (fun p => (project.child p).resolve = (project.child path).resolve) ↔
      ∀ e ∈ reported results, (project.child e.1).resolve = (project.child path).resolve →
        e.2 ≠ [] → Path.dotDot ∉ (project.child e.1).segments := by
  have here := Path.resolve_eq_segments_iff.mpr level
  rw [saidOf, saidOf, flatMap_filter_eq_iff]
  · refine forall₂_congr fun e _ => ?_
    rw [decide_eq_true_iff, decide_eq_false_iff_not]
    refine forall_congr' fun same => ?_
    rw [← Path.resolve_eq_segments_iff, same, here, eq_comm (a := (project.child path).segments),
      ← not_imp_not, not_not, ne_eq]
  · exact fun e same => decide_eq_true (congrArg Path.resolveSegments (of_decide_eq_true same))

/-- What an output reports is put under the URI of its path together with what it says of every path
with the same segments, so that paths to different files are kept apart. All that is said of one
file comes together under a path without `..` just when nothing is said of it by way of `..`. -/
theorem convert_merges (absolute : project.isAbsolute = true) :
    (∀ p q : String, fileUri project p = fileUri project q ↔
      (project.child p).segments = (project.child q).segments) ∧
    (∀ p q : String, (project.child p).resolve ≠ (project.child q).resolve →
      fileUri project p ≠ fileUri project q) ∧
    ∀ raw results, parse raw = .ok results → ∃ report, convert raw project = .ok report ∧
      ∀ e ∈ reported results,
        report.get? (fileUri project e.1) = some (saidOf results fun p =>
          (project.child p).segments = (project.child e.1).segments) ∧
        (Path.dotDot ∉ (project.child e.1).segments →
          (report.get? (fileUri project e.1) = some (saidOf results fun p =>
              (project.child p).resolve = (project.child e.1).resolve) ↔
            ∀ other ∈ reported results,
              (project.child other.1).resolve = (project.child e.1).resolve → other.2 ≠ [] →
              Path.dotDot ∉ (project.child other.1).segments)) := by
  refine ⟨fun p q => fileUri_eq_iff absolute, fun p q differ same =>
    differ (resolve_of_fileUri absolute same), fun raw results parsed => ?_⟩
  refine ⟨aggregate results project, by rw [convert, parsed]; rfl, fun e member => ?_⟩
  have found := get?_fileUri absolute member
  refine ⟨found, fun level => ?_⟩
  rw [found, Option.some.injEq]
  exact saidOf_segments_eq_iff level

/-- An output with two spellings of one path. -/
def spelledTwice : String :=
  "[\x7b\"engine\":\"e\",\"result\":[\x7b\"path\":\"b\",\"messages\":[\x7b\x7d]\x7d," ++
    "\x7b\"path\":\"./b\",\"messages\":[\x7b\x7d]\x7d]\x7d]"

theorem parse_spelledTwice : parse spelledTwice = .ok [⟨"e", [
    ⟨"b", [⟨.warning, ⟨0, 0, 0, 1000⟩, "", none⟩]⟩,
    ⟨"./b", [⟨.warning, ⟨0, 0, 0, 1000⟩, "", none⟩]⟩]⟩] := by
  have read : (parse spelledTwice).toOption = some [⟨"e", [
      ⟨"b", [⟨.warning, ⟨0, 0, 0, 1000⟩, "", none⟩]⟩,
      ⟨"./b", [⟨.warning, ⟨0, 0, 0, 1000⟩, "", none⟩]⟩]⟩] := by decide +kernel
  exact of_toOption read

theorem convert_merges_spelledTwice : ∃ report,
    convert spelledTwice (.ofText "/p") = .ok report ∧
      (report.get? "file:///p/b").map List.length = some 2 := by
  obtain ⟨report, converted, merged⟩ :=
    (convert_merges (show (Path.ofText "/p").isAbsolute = true from rfl)).2.2 _ _
      parse_spelledTwice
  have found := (merged _ List.mem_cons_self).1
  have named : fileUri (.ofText "/p") "b" = "file:///p/b" := by decide +kernel
  refine ⟨report, converted, ?_⟩
  rw [← named, found]
  decide +kernel

/-- One file reported by way of `..` and without has two URIs. -/
theorem not_convert_merges : ¬∀ (project : Path) (p q : String), project.isAbsolute = true →
    (project.child p).resolve = (project.child q).resolve →
    fileUri project p = fileUri project q := by
  intro all
  have same := all (.ofText "/p") "b.js" "a/../b.js" rfl (by decide +kernel)
  exact absurd same (by decide +kernel)

end Output

end LintBridge

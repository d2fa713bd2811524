import LintBridge.Proofs.Files.Writing
import LintBridge.Proofs.Workspace.Drafts

namespace LintBridge

/-- An integer of 64 bits, with or without a sign. -/
def Number.IsWhole (n : Number) : Prop :=
  ∃ i, n = .int i ∧ -0x8000000000000000 ≤ i ∧ i ≤ 0xffffffffffffffff

/-- An edit of a project's file. -/
inductive ProjectEdit where
  /-- A linter is made active or inactive. -/
  | activation (a : Activation)
  | mode (m : Option Mode)

/-- A request that is recorded changes nothing. -/
theorem Activation.apply_of_recordedIn {a : Activation} {c : ProjectConfig}
    (recorded : a.RecordedIn c) : a.change.apply c = (c, false) := by
  obtain ⟨⟨c', changed⟩, applied⟩ : ∃ r, a.change.apply c = r := ⟨_, rfl⟩
  have unchanged := (unchanged_iff applied).mpr recorded
  rw [applied]
  rcases apply_cases applied with ⟨_, _, rfl, _⟩ | ⟨_, _, _, new⟩ | ⟨inactive, rfl, _⟩
  · rw [unchanged]
  · cases unchanged.symm.trans new
  · have other : ∀ l ∈ c.linters, (l.name != a.linter) = true := fun l member => by
      rw [RecordedIn, inactive, ProjectConfig.isActive, List.any_eq_false] at recorded
      simpa using recorded l member
    rw [unchanged, List.filter_eq_self.mpr other]

namespace ProjectEdit

/-- The file after an edit, and whether it is another one. -/
def apply : ProjectEdit → ProjectConfig → ProjectConfig × Bool
  | activation a, c => a.change.apply c
  | mode m, c => ({ c with mode := m }, c.mode != m)

/-- A workspace changes the file by such an edit only. -/
theorem exists_apply_eq (change : Change) : ∃ e : ProjectEdit, change.apply = e.apply := by
  cases change with
  | bootstrap s _ => exact ⟨.mode (some s.settings.mode), rfl⟩
  | renewal s _ => exact ⟨.mode (some s.mode), rfl⟩
  | linter name active => exact ⟨.activation ⟨name, active⟩, rfl⟩

/-- The file after edits, one after another. -/
def applyAll (edits : List ProjectEdit) (c : ProjectConfig) : ProjectConfig :=
  edits.foldl (fun c e => (e.apply c).1) c

/-- Whether an edit makes a linter active or inactive, if it names it. -/
def makes? (linter : String) : ProjectEdit → Option Bool
  | activation a => if a.linter = linter then some a.active else none
  | mode _ => none

/-- The mode that an edit sets, if it sets one. -/
def sets? : ProjectEdit → Option (Option Mode)
  | activation _ => none
  | mode m => some m

/-- Whether no edit makes a linter inactive. -/
def spare (edits : List ProjectEdit) (l : ProjectLinter) : Bool :=
  edits.all fun e => e.makes? l.name != some false

/-- An edit that is carried out: the file is loaded, changed, and saved. It may be left as it is if
it would not be another one. -/
inductive Done (project : Path) (e : ProjectEdit) : FileTree → FileTree → Prop
  | saved {t t' : FileTree} {c : ProjectConfig} {trouble : Trouble} :
      ProjectConfig.load t project = .ok c →
      (e.apply c).1.saveUnder trouble t project = (t', none) → Done project e t t'
  | left {t : FileTree} {c : ProjectConfig} : ProjectConfig.load t project = .ok c →
      (e.apply c).2 = false → Done project e t t

/-- Edits that are carried out one after another. -/
inductive AllDone (project : Path) : List ProjectEdit → FileTree → FileTree → Prop
  | nil {t : FileTree} : AllDone project [] t t
  | cons {e : ProjectEdit} {edits : List ProjectEdit} {t t' t'' : FileTree} :
      Done project e t t' → AllDone project edits t' t'' → AllDone project (e :: edits) t t''

variable {e : ProjectEdit} {edits : List ProjectEdit} {c c' : ProjectConfig} {changed : Bool}

theorem steady_apply (applied : e.apply c = (c', changed)) (steady : c.Steady) : c'.Steady := by
  cases e with
  | activation a => exact Activation.steady_apply applied steady
  | mode m =>
    cases applied
    exact steady

/-- An edit makes active or inactive the linter that it names, and no other one. -/
theorem isActive_apply (applied : e.apply c = (c', changed)) (linter : String) :
    c'.isActive linter = (e.makes? linter).getD (c.isActive linter) := by
  cases e with
  | activation a =>
    by_cases own : a.linter = linter
    · subst own
      rw [makes?, if_pos rfl, Option.getD_some]
      exact Activation.recordedIn_apply applied
    · rw [makes?, if_neg own, Option.getD_none]
      exact Activation.isActive_apply applied (Ne.symm own)
  | mode m =>
    cases applied
    rfl

theorem mode_apply (applied : e.apply c = (c', changed)) : c'.mode = e.sets?.getD c.mode := by
  cases e with
  | activation a => exact Activation.mode_apply applied
  | mode m =>
    cases applied
    rfl

/-- An edit that is made again changes nothing. -/
theorem apply_again (applied : e.apply c = (c', changed)) : e.apply c' = (c', false) := by
  cases e with
  | activation a => exact Activation.apply_of_recordedIn (Activation.recordedIn_apply applied)
  | mode m =>
    cases applied
    simp [apply]

/-- An edit keeps the entries of the linters that it does not make inactive, in their order. One
that it adds has no settings. -/
theorem filter_apply (applied : e.apply c = (c', changed)) {keep : ProjectLinter → Bool}
    (kept : ∀ l, keep l = true → e.makes? l.name ≠ some false) :
    ∃ added, c'.linters.filter keep = c.linters.filter keep ++ added ∧
      ∀ l ∈ added, l.config = .null := by
  cases e with
  | mode m =>
    cases applied
    exact ⟨[], (List.append_nil _).symm, nofun⟩
  | activation a =>
    rcases Activation.apply_cases applied with ⟨_, _, rfl, _⟩ | ⟨_, _, rfl, _⟩ | ⟨inactive, _, _⟩
    · exact ⟨[], (List.append_nil _).symm, nofun⟩
    · refine ⟨[⟨a.linter, .null⟩].filter keep, List.filter_append .., fun l member => ?_⟩
      rw [List.mem_singleton.mp (List.mem_filter.mp member).1]
    · have named (l : ProjectLinter) (own : l.name = a.linter) : keep l = false :=
        Bool.eq_false_iff.mpr fun keeps => kept l keeps (by rw [makes?, if_pos own.symm, inactive])
      exact ⟨[], by rw [List.append_nil, Activation.filter_apply applied named], nofun⟩

theorem applyAll_cons (e : ProjectEdit) (edits : List ProjectEdit) (c : ProjectConfig) :
    applyAll (e :: edits) c = applyAll edits (e.apply c).1 := rfl

/-- What an edit either sets or keeps ends as the last edit set it that does. -/
theorem view_applyAll {α : Type} (view : ProjectConfig → α) (sets : ProjectEdit → Option α)
    (each : ∀ (e : ProjectEdit) (c : ProjectConfig), view (e.apply c).1 = (sets e).getD (view c))
    (edits : List ProjectEdit) (c : ProjectConfig) :
    view (applyAll edits c) = (edits.filterMap sets).getLast?.getD (view c) := by
  induction edits generalizing c with
  | nil => rfl
  | cons e edits ih =>
    rw [applyAll_cons, ih, each, List.filterMap_cons]
    cases sets e with
    | none => rfl
    | some value =>
      rw [List.getLast?_cons, Option.getD_some]
      rfl

theorem isActive_applyAll (edits : List ProjectEdit) (c : ProjectConfig) (linter : String) :
    (applyAll edits c).isActive linter =
      (edits.filterMap (makes? linter)).getLast?.getD (c.isActive linter) :=
  view_applyAll (fun c => c.isActive linter) (makes? linter)
    (fun _ _ => isActive_apply (Prod.eta _).symm linter) edits c

theorem mode_applyAll (edits : List ProjectEdit) (c : ProjectConfig) :
    (applyAll edits c).mode = (edits.filterMap sets?).getLast?.getD c.mode :=
  view_applyAll ProjectConfig.mode sets? (fun _ _ => mode_apply (Prod.eta _).symm) edits c

/-- Edits keep the entries of all linters that none of them makes inactive, in their order. -/
theorem filter_applyAll (edits : List ProjectEdit) (c : ProjectConfig) {keep : ProjectLinter → Bool}
    (kept : ∀ e ∈ edits, ∀ l, keep l = true → e.makes? l.name ≠ some false) :
    ∃ added, (applyAll edits c).linters.filter keep = c.linters.filter keep ++ added ∧
      ∀ l ∈ added, l.config = .null := by
  induction edits generalizing c with
  | nil => exact ⟨[], (List.append_nil _).symm, nofun⟩
  | cons e edits ih =>
    obtain ⟨first, same, blank⟩ :=
      filter_apply (Prod.eta (e.apply c)).symm (kept e List.mem_cons_self)
    obtain ⟨others, same', blank'⟩ :=
      ih (e.apply c).1 fun e' member => kept e' (List.mem_cons_of_mem e member)
    refine ⟨first ++ others, ?_, fun l member => ?_⟩
    · rw [applyAll_cons, same', same, List.append_assoc]
    · exact (List.mem_append.mp member).elim (blank l) (blank' l)

/-- An edit that would not change the file leaves what is in it. -/
theorem eq_of_unchanged (applied : e.apply c = (c', false)) : c' = c := by
  cases e with
  | activation a =>
    have same := Activation.apply_of_recordedIn ((Activation.unchanged_iff applied).mp rfl)
    exact congrArg Prod.fst (applied.symm.trans same)
  | mode m =>
    obtain ⟨mode, linters⟩ := c
    obtain ⟨same, kept⟩ := Prod.mk.inj applied
    rw [← same, show mode = m by simpa using kept]

section Files

variable {project : Path} {t t' : FileTree}

theorem Done.loaded (done : Done project e t t') (loaded : ProjectConfig.load t project = .ok c)
    (steady : c.Steady) : ProjectConfig.load t' project = .ok (e.apply c).1 := by
  cases done with
  | saved loaded' saved =>
    obtain rfl := Except.ok.inj (loaded.symm.trans loaded')
    exact ProjectConfig.load_saveUnder (steady_apply (Prod.eta _).symm steady) saved
  | left loaded' unchanged =>
    obtain rfl := Except.ok.inj (loaded.symm.trans loaded')
    rw [eq_of_unchanged (Prod.ext rfl unchanged : e.apply c = ((e.apply c).1, false)), loaded]

theorem AllDone.loaded (done : AllDone project edits t t')
    (loaded : ProjectConfig.load t project = .ok c) (steady : c.Steady) :
    ProjectConfig.load t' project = .ok (applyAll edits c) ∧ (applyAll edits c).Steady := by
  induction done generalizing c with
  | nil => exact ⟨loaded, steady⟩
  | cons first _ ih => exact ih (first.loaded loaded steady) (steady_apply (Prod.eta _).symm steady)

/-- The file of a project after any edits that were carried out, when the numbers in it were whole
ones. It can be loaded, and whatever is saved next is loaded as it was saved. A linter is active as
the last edit made it that names it, or as it was; the entries of those that no edit makes inactive
are kept in their order and with their settings, and those that were added have none. To repeat the
last edit changes nothing. A save that fails, at whatever step, leaves all files as they were. All
changes that a workspace makes to the file are such edits. -/
theorem file_after_edits (loaded : ProjectConfig.load t project = .ok c)
    (whole : ∀ l ∈ c.linters, ∀ n ∈ l.config.numbers, n.IsWhole)
    (done : AllDone project edits t t') :
    ∃ last, ProjectConfig.load t' project = .ok last ∧
      (∀ (e : ProjectEdit) (trouble : Trouble) (t'' : FileTree),
        (e.apply last).1.saveUnder trouble t' project = (t'', none) →
        ProjectConfig.load t'' project = .ok (e.apply last).1) ∧
      (∀ linter, last.isActive linter =
        (edits.filterMap (makes? linter)).getLast?.getD (c.isActive linter)) ∧
      last.mode = (edits.filterMap sets?).getLast?.getD c.mode ∧
      (∃ added, last.linters.filter (spare edits) = c.linters.filter (spare edits) ++ added ∧
        ∀ l ∈ added, l.config = .null) ∧
      (∀ e, edits.getLast? = some e → e.apply last = (last, false) ∧
        ∀ t'', Done project e t' t'' → ProjectConfig.load t'' project = .ok last) ∧
      (∀ (c' : ProjectConfig) (trouble : Trouble) (u u' : FileTree) (error : ConfigError),
        c'.saveUnder trouble u project = (u', some error) → u' = u) ∧
      ∀ change : Change, ∃ e : ProjectEdit, change.apply = e.apply := by
  have steady : c.Steady := ProjectConfig.steady_of_load loaded fun l member n within => by
    obtain ⟨i, rfl, low, high⟩ := whole l member n within
    exact Number.steady_int low high
  obtain ⟨loaded', steady'⟩ := done.loaded loaded steady
  refine ⟨applyAll edits c, loaded', fun e trouble t'' saved => ?_, isActive_applyAll edits c,
    mode_applyAll edits c, ?_, fun e last => ?_, fun c' trouble u u' error failed => ?_,
    exists_apply_eq⟩
  · exact ProjectConfig.load_saveUnder (steady_apply (Prod.eta _).symm steady') saved
  · refine filter_applyAll edits c fun e member l spared => ?_
    simpa using List.all_eq_true.mp spared e member
  · obtain ⟨before, rfl⟩ := List.getLast?_eq_some_iff.mp last
    have again : e.apply (applyAll (before ++ [e]) c) = (applyAll (before ++ [e]) c, false) := by
      rw [applyAll, List.foldl_append]
      exact apply_again (Prod.eta _).symm
    exact ⟨again, fun t'' repeated => by rw [repeated.loaded loaded' steady', again]⟩
  · obtain ⟨fault, replaced, told⟩ := ProjectConfig.of_saveUnder failed
    obtain ⟨fault, rfl, _⟩ := Option.map_eq_some_iff.mp told.symm
    exact FileTree.replace_failed replaced

end Files

/-- A file with a setting that is a number. -/
def numbered : ProjectConfig := ⟨none, [⟨"lint", .obj [("max", .num (.int 3))]⟩]⟩

/-- The files of a project that has it. -/
def numberedFiles : FileTree :=
  (numbered.save ⟨[([utf8 "p"], .directory)], []⟩ (.ofText "/p")).1

/-- An edit that adds an entry to it. -/
def addition : ProjectEdit := .activation ⟨"other", true⟩

theorem file_after_addition :
    let added := ((addition.apply numbered).1.save numberedFiles (.ofText "/p")).1
    AllDone (.ofText "/p") [addition] numberedFiles added ∧
      ∃ last, ProjectConfig.load added (.ofText "/p") = .ok last ∧ last.isActive "other" = true ∧
        last.isActive "lint" = true := by
  have whole : ∀ l ∈ numbered.linters, ∀ n ∈ l.config.numbers, n.IsWhole := by
    intro l member n within
    rw [List.mem_singleton.mp member] at within
    exact ⟨3, List.mem_singleton.mp within, by decide, by decide⟩
  have steady : numbered.Steady := by
    intro l member
    rw [List.mem_singleton.mp member]
    refine Json.Steady.obj (List.pairwise_singleton ..) fun f within => ?_
    rw [List.mem_singleton.mp within]
    exact .num (Number.steady_int (by decide) (by decide))
  have saved : (numbered.save ⟨[([utf8 "p"], .directory)], []⟩ (.ofText "/p")).2 = none := by
    decide +kernel
  have edited : ((addition.apply numbered).1.save numberedFiles (.ofText "/p")).2 = none := by
    decide +kernel
  have loaded : ProjectConfig.load numberedFiles (.ofText "/p") = .ok numbered :=
    ProjectConfig.load_save steady (Prod.ext rfl saved)
  have done := AllDone.cons (.saved loaded (Prod.ext rfl edited)) .nil
  obtain ⟨last, loaded', _, active, _⟩ := file_after_edits loaded whole done
  exact ⟨done, last, loaded', active "other", active "lint"⟩

end ProjectEdit

end LintBridge

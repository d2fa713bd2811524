import LintBridge.Proofs.Files.Making
import LintBridge.Proofs.Path.Display
import LintBridge.Shell.Machine

namespace LintBridge

/-- Where something lies that a path leads to. -/
def Destination.location : Destination → Location
  | directory location => location
  | entry parent name _ => parent ++ [name]

namespace FileTree

variable {t t' : FileTree} {p : Path}

theorem walk_congr (same : t'.items = t.items) (l : Location) (ss : List Bytes) :
    t'.walk l ss = t.walk l ss := by
  induction ss generalizing l with
  | nil => rfl
  | cons s ss ih =>
    have look : t'.look l s = t.look l s := by rw [FileTree.look, FileTree.look, item?, item?, same]
    simp only [walk, ih, look]

/-- Where a path leads depends on where it starts only. -/
theorem resolve_congr (same : t'.items = t.items) (start : t'.origin p = t.origin p) :
    t'.resolve p = t.resolve p := by
  simp only [resolve, start, walk_congr same]

/-- The slashes at the end of a path are no segments. -/
theorem segments_of_named {named : List Bytes}
    (same : p.pieces.reverse.dropWhile List.isEmpty = named) :
    p.segments = Path.shown named.reverse := by
  have parts := congrArg List.reverse
    (p.pieces.reverse.takeWhile_append_dropWhile (p := List.isEmpty)).symm
  rw [List.reverse_reverse, List.reverse_append, same] at parts
  have none : Path.shown (p.pieces.reverse.takeWhile List.isEmpty).reverse = [] := by
    refine List.filter_eq_nil_iff.mpr fun piece member => ?_
    have empty := List.mem_takeWhile_imp (List.mem_reverse.mp member)
    simp [Path.isIdle, empty]
  rw [Path.segments, parts, List.filter_append]
  exact (congrArg _ none).trans (List.append_nil _)

theorem of_resolve_directory {l : Location} (led : t.resolve p = .ok (.directory l)) :
    t.walk (t.origin p) p.segments = .ok l := by
  obtain ⟨_, _, led⟩ := of_bind led
  dsimp only at led
  split at led
  · rename_i named
    obtain ⟨_, walked, same⟩ := of_bind led
    cases same
    rw [segments_of_named named]
    exact walked
  rename_i named
  split at led
  · obtain ⟨_, walked, same⟩ := of_bind led
    cases same
    rw [segments_of_named rfl, walk_shown]
    exact walked
  · obtain ⟨_, _, same⟩ := of_bind led
    cases same

/-- What a path leads to lies where its segments lead. -/
theorem location_of_resolve {d : Destination} (led : t.resolve p = .ok d) :
    d.location = follow (t.origin p) p.segments := by
  have telling : ∀ s ∈ p.segments, Path.isIdle s = false :=
    fun s member => (Path.of_mem_segments member).1
  cases d with
  | directory l => exact walk_eq_follow telling (of_resolve_directory led)
  | entry parent name slashed =>
    obtain ⟨onward, before, parts, walked⟩ := of_resolve_entry led
    have telling' : ∀ s ∈ before, Path.isIdle s = false := fun s member =>
      telling s (parts ▸ List.mem_append_left [name] member)
    rw [parts, follow_append, ← walk_eq_follow telling' walked, follow, if_neg onward]
    rfl

theorem follow_of_forward {ss : List Bytes} (forward : Path.dotDot ∉ ss) (l : Location) :
    follow l ss = l ++ ss := by
  induction ss generalizing l with
  | nil => exact (List.append_nil l).symm
  | cons s ss ih =>
    obtain ⟨other, forward⟩ := not_or.mp (fun h => forward (List.mem_cons.mpr h))
    rw [follow, if_neg (Ne.symm other), ih forward, List.append_assoc, List.singleton_append]

end FileTree

namespace Path

variable {p base : Path}

theorem isUtf8_join_iff (relative : p.isAbsolute = false) :
    IsUtf8 (base.join p).bytes ↔ IsUtf8 base.bytes ∧ IsUtf8 p.bytes := by
  simp only [isUtf8_iff_segments, segments_shown, segments_join relative, List.map_append]
  constructor
  · exact fun same => List.append_inj same (List.length_map _)
  · rintro ⟨same, same'⟩
    rw [same, same']

/-- Whether a text is the name of a file. -/
structure IsName (name : String) : Prop where
  relative : (ofText name).isAbsolute = false
  pieces : (ofText name).pieces = [utf8 name]
  shown : isIdle (utf8 name) = false
  onward : utf8 name ≠ dotDot

theorem IsName.segments_child {name : String} (plain : IsName name) (dir : Path) :
    (dir.child name).segments = dir.segments ++ [utf8 name] := by
  have named : (ofText name).segments = [utf8 name] := by
    rw [segments, plain.pieces, List.filter_cons_of_pos (by simp [plain.shown]), List.filter_nil]
  rw [child, segments_join plain.relative, named]

end Path

namespace Machine

variable {m inside : Machine} {dir p : Path} {place : Destination}

/-- All that entering a directory changes. -/
theorem of_enter (entered : m.enter (some dir) = .ok inside) :
    inside.tree.items = m.tree.items ∧ FileTree.checkPath dir = .ok () ∧
      m.tree.walk (m.tree.origin dir) dir.segments = .ok inside.tree.here := by
  obtain ⟨_, checked, entered⟩ := of_bind entered
  obtain ⟨l, walked, entered⟩ := of_bind entered
  cases entered
  exact ⟨rfl, checked, (FileTree.walk_shown _ _ _).trans walked⟩

/-- A directory that leads to where a machine is already. -/
theorem enter_self_iff (checked : FileTree.checkPath dir = .ok ()) :
    m.enter (some dir) = .ok m ↔
      m.tree.walk (m.tree.origin dir) dir.segments = .ok m.tree.here := by
  refine ⟨fun entered => (of_enter entered).2.2, fun walked => ?_⟩
  have walked' : m.tree.walk (m.tree.origin dir) dir.pieces = .ok m.tree.here :=
    (FileTree.walk_shown _ _ _).symm.trans walked
  simp only [enter, checked, walked', bind, Except.bind]
  rfl

/-- A name in a directory that was entered leads to the same place just when the directory leads to
itself. -/
theorem resolve_child_iff {name : String} (plain : Path.IsName name)
    (entered : m.enter (some dir) = .ok inside)
    (found : m.tree.resolve (dir.child name) = .ok place) :
    inside.tree.resolve (dir.child name) = .ok place ↔ inside.enter (some dir) = .ok inside := by
  obtain ⟨items, checked, walked⟩ := of_enter entered
  obtain ⟨_, fits, _⟩ := of_bind found
  obtain ⟨front, pieces⟩ := Path.pieces_join_concat dir plain.relative
    (List.nil_append [utf8 name] ▸ plain.pieces)
  have segments := plain.segments_child dir
  have origin (t : FileTree) : t.origin (dir.child name) = t.origin dir := by
    rw [FileTree.origin, FileTree.origin, Path.child,
      Path.isAbsolute_join_of_relative plain.relative]
  have leads {t : FileTree} {l : Location} (there : t.walk (t.origin dir) dir.segments = .ok l) :
      t.resolve (dir.child name) = .ok (.entry l (utf8 name) false) :=
    FileTree.resolve_of_pieces fits pieces plain.shown plain.onward
      (by rw [segments, List.dropLast_concat, origin, there])
  obtain rfl := Except.ok.inj ((leads walked).symm.trans found)
  rw [enter_self_iff checked]
  refine ⟨fun same => ?_, leads⟩
  obtain ⟨_, before, named, there⟩ := FileTree.of_resolve_entry same
  rw [segments] at named
  rw [(List.append_inj' named rfl).1, ← origin, there]

/-- A path from the root is shown as one that leads to the same place from everywhere. -/
theorem resolve_of_absolute (items : inside.tree.items = m.tree.items) (text : IsUtf8 p.bytes)
    (absolute : p.isAbsolute = true) :
    inside.tree.resolve (.ofText p.display) = m.tree.resolve p := by
  rw [Path.ofText_display text]
  refine FileTree.resolve_congr items ?_
  rw [FileTree.origin, FileTree.origin, if_pos absolute, if_pos absolute]

/-- A path as it is shown leads to the same place just when it is a text, and starts there from the
same directory. -/
theorem resolve_iff (items : inside.tree.items = m.tree.items)
    (found : m.tree.resolve p = .ok place) (forward : Path.dotDot ∉ p.segments) :
    inside.tree.resolve (.ofText p.display) = .ok place ↔
      IsUtf8 p.bytes ∧ (p.isAbsolute = true ∨ inside.tree.here = m.tree.here) := by
  constructor
  · intro shown
    have same :=
      (FileTree.location_of_resolve shown).symm.trans (FileTree.location_of_resolve found)
    have forward' : Path.dotDot ∉ (Path.ofText p.display).segments :=
      fun member => forward ((Path.dotDot_mem_shown p).mp member)
    rw [FileTree.follow_of_forward forward', FileTree.follow_of_forward forward] at same
    have length : (Path.ofText p.display).segments.length = p.segments.length := by
      rw [Path.segments_shown, List.length_map]
    obtain ⟨start, segments⟩ := List.append_inj' same length
    refine ⟨p.isUtf8_iff_segments.mpr segments, ?_⟩
    cases absolute : p.isAbsolute with
    | true => exact .inl rfl
    | false =>
      rw [FileTree.origin, FileTree.origin, Path.isAbsolute_shown, absolute] at start
      exact .inr start
  · rintro ⟨text, start⟩
    rw [Path.ofText_display text, ← found]
    refine FileTree.resolve_congr items ?_
    rcases start with absolute | same
    · rw [FileTree.origin, FileTree.origin, if_pos absolute, if_pos absolute]
    · rw [FileTree.origin, FileTree.origin, same]

end Machine

/-- The file that an engine is started by. -/
def Mode.entryName? : Mode → Option String
  | .managedRuntime => some "cli.dll"
  | .nativeBinary => some "cli"
  | .container => none

namespace Command

/-- The text in a command that names this file. -/
def entryText? (c : Command) : Mode → Option String
  | .managedRuntime => c.args.head?
  | .nativeBinary => some c.program
  | .container => none

/-- The arguments behind it. -/
def operands (c : Command) : Mode → List String
  | .managedRuntime => c.args.tail
  | _ => c.args

end Command

namespace Operation

variable {op : Operation} {text project : String}

/-- Only the argument for the project starts as it does. -/
theorem eq_of_project_mem (member : "--project=" ++ text ∈ op.args project) :
    text = project := by
  have front (key rest : String) (long : 3 ≤ key.toList.length) :
      (key ++ rest).toList.take 3 = key.toList.take 3 := by
    rw [String.toList_append, List.take_append_of_le_length long]
  have project' := front "--project=" text (by decide)
  have other {arg : String} (differs : arg.toList.take 3 ≠ ['-', '-', 'p']) :
      "--project=" ++ text ≠ arg := fun same => differs (same ▸ project')
  cases op with
  | version | catalog => exact absurd (List.mem_singleton.mp member) (other (by decide))
  | analyze =>
    rcases List.mem_cons.mp member with same | member
    · exact absurd same (other (by decide))
    · exact (String.append_right_inj _).mp (List.mem_singleton.mp member)
  | analyzeFile file =>
    rcases List.mem_cons.mp member with same | member
    · exact absurd same (other (by decide))
    rcases List.mem_cons.mp member with same | member
    · exact (String.append_right_inj _).mp same
    · exact absurd (List.mem_singleton.mp member)
        (other (by rw [front "--file=" file (by decide)]; decide))
  | activate linter active =>
    rcases List.mem_cons.mp member with same | member
    · exact absurd same (other (by decide))
    rcases List.mem_cons.mp member with same | member
    · exact absurd same (other (by rw [front "--active=" _ (by decide)]; decide))
    · exact absurd (List.mem_singleton.mp member)
        (other (by rw [front "--linter=" linter (by decide)]; decide))
  | linterVersion linter | linterInstall linter =>
    rcases List.mem_cons.mp member with same | member
    · exact absurd same (other (by decide))
    · exact absurd (List.mem_singleton.mp member)
        (other (by rw [front "--linter=" linter (by decide)]; decide))

end Operation

namespace Engine

variable {m inside : Machine} {e : Engine} {op : Operation} {name : String}

theorem cwd_command (direct : e.mode ≠ .container) (op : Operation) :
    (e.command op).cwd = some e.dir := by
  unfold command
  cases mode : e.mode with
  | container => exact absurd mode direct
  | _ => rfl

theorem operands_command (direct : e.mode ≠ .container) (op : Operation) :
    (e.command op).operands e.mode = op.args e.project.display := by
  unfold command
  cases mode : e.mode with
  | container => exact absurd mode direct
  | _ => rfl

theorem entryText?_command (direct : e.mode ≠ .container) (op : Operation) : ∃ name,
    e.mode.entryName? = some name ∧
      (e.command op).entryText? e.mode = some (e.dir.child name).display ∧ Path.IsName name := by
  unfold command
  cases mode : e.mode with
  | container => exact absurd mode direct
  | _ => exact ⟨_, rfl, rfl, by decide, by decide, by decide, by decide⟩

/-- Where the paths in a command that is not run in a container lead from the directory it runs in:
the one of the engine's entry, and the one of the project. One that is a text and starts at the root
leads where it does for the server. If it is a text, that of the entry does so just when the
engine's directory leads to itself; without `..`, just when it is a text, and starts at the root or
is made of dots alone. That of the project, without `..`, does so just when it is a text, and starts
at the root or the engine lies where the server is. -/
theorem command_paths (direct : e.mode ≠ .container)
    (entered : m.enter (e.command op).cwd = .ok inside) :
    (∃ name text, e.mode.entryName? = some name ∧ (e.command op).entryText? e.mode = some text ∧
      (IsUtf8 e.dir.bytes → e.dir.isAbsolute = true →
        inside.tree.resolve (.ofText text) = m.tree.resolve (e.dir.child name)) ∧
      ∀ place, m.tree.resolve (e.dir.child name) = .ok place →
        (IsUtf8 e.dir.bytes → (inside.tree.resolve (.ofText text) = .ok place ↔
          inside.enter (some e.dir) = .ok inside)) ∧
        (Path.dotDot ∉ e.dir.segments → (inside.tree.resolve (.ofText text) = .ok place ↔
          IsUtf8 e.dir.bytes ∧ (e.dir.isAbsolute = true ∨ e.dir.segments = [])))) ∧
    ∀ text, "--project=" ++ text ∈ (e.command op).operands e.mode →
      (IsUtf8 e.project.bytes → e.project.isAbsolute = true →
        inside.tree.resolve (.ofText text) = m.tree.resolve e.project) ∧
      ∀ place, m.tree.resolve e.project = .ok place → Path.dotDot ∉ e.project.segments →
        (inside.tree.resolve (.ofText text) = .ok place ↔
          IsUtf8 e.project.bytes ∧
            (e.project.isAbsolute = true ∨ inside.tree.here = m.tree.here)) := by
  rw [cwd_command direct] at entered
  obtain ⟨items, _, walked⟩ := Machine.of_enter entered
  obtain ⟨name, named, entry, plain⟩ := entryText?_command direct op
  have absolute : (e.dir.child name).isAbsolute = e.dir.isAbsolute :=
    Path.isAbsolute_join_of_relative plain.relative
  have texts : IsUtf8 (e.dir.child name).bytes ↔ IsUtf8 e.dir.bytes :=
    (Path.isUtf8_join_iff plain.relative).trans (and_iff_left (Path.isUtf8_ofText name))
  refine ⟨⟨name, _, named, entry, fun good rooted => ?_, fun place found =>
    ⟨fun good => ?_, fun forward => ?_⟩⟩, fun text member => ?_⟩
  · exact Machine.resolve_of_absolute items (texts.mpr good) (absolute.trans rooted)
  · rw [Path.ofText_display (texts.mpr good)]
    exact Machine.resolve_child_iff plain entered found
  · have forward' : Path.dotDot ∉ (e.dir.child name).segments := by
      rw [plain.segments_child]
      exact fun member => (List.mem_append.mp member).elim forward fun last =>
        plain.onward (List.mem_singleton.mp last).symm
    rw [Machine.resolve_iff items found forward', texts, absolute]
    refine and_congr_right fun _ => ?_
    cases rooted : e.dir.isAbsolute with
    | true => exact iff_of_true (.inl rfl) (.inl rfl)
    | false =>
      have telling : ∀ s ∈ e.dir.segments, Path.isIdle s = false :=
        fun s member => (Path.of_mem_segments member).1
      refine or_congr_right ?_
      rw [FileTree.walk_eq_follow telling walked, FileTree.follow_of_forward forward,
        FileTree.origin, rooted, if_neg Bool.false_ne_true, List.append_right_eq_self]
  · rw [operands_command direct] at member
    obtain rfl := Operation.eq_of_project_mem member
    exact ⟨Machine.resolve_of_absolute items, fun place => Machine.resolve_iff items⟩

/-- A machine with an engine and a project in directories from the root. -/
def rootedMachine : Machine where
  tree := ⟨[([utf8 "opt"], .directory), ([utf8 "opt", utf8 "lh"], .directory),
    ([utf8 "work"], .directory), ([utf8 "work", utf8 "app"], .directory)], [utf8 "work"]⟩
  env := ⟨[]⟩

def rootedEngine : Engine := ⟨.ofText "/opt/lh", .ofText "/work/app", .managedRuntime, "i"⟩

theorem paths_of_rootedEngine : ∃ inside,
    rootedMachine.enter (rootedEngine.command .analyze).cwd = .ok inside ∧
      inside.tree.resolve (.ofText "/opt/lh/cli.dll") =
        rootedMachine.tree.resolve (.ofText "/opt/lh/cli.dll") ∧
      inside.tree.resolve (.ofText "/work/app") =
        rootedMachine.tree.resolve (.ofText "/work/app") := by
  have entered : rootedMachine.enter (rootedEngine.command .analyze).cwd =
      .ok ⟨⟨rootedMachine.tree.items, [utf8 "opt", utf8 "lh"]⟩, rootedMachine.env⟩ := rfl
  obtain ⟨⟨name, text, named, entry, rooted, _⟩, project⟩ := command_paths (by decide) entered
  cases named
  cases entry
  have member : "--project=/work/app" ∈
    (rootedEngine.command .analyze).operands rootedEngine.mode := by decide
  exact ⟨_, entered, rooted (Path.isUtf8_ofText _) (by decide),
    (project "/work/app" member).1 (Path.isUtf8_ofText _) (by decide)⟩

/-- The engine's directory where there is no home, seen from the directory of the server. -/
def homelessMachine : Machine where
  tree :=
    let root : Location := [utf8 ".linterhub"]
    ⟨[(root, .directory), (root ++ [utf8 "cli"], .directory),
      (root ++ [utf8 "cli", utf8 "cli.dll"], .file 0o644 [])], []⟩
  env := ⟨[]⟩

/-- The entry of an engine in a directory without a home is looked for in that directory below
itself. -/
theorem not_same_entry :
    ¬∀ (m inside : Machine) (e : Engine) (op : Operation), e.mode ≠ .container →
      m.enter (e.command op).cwd = .ok inside → ∀ name text, e.mode.entryName? = some name →
        (e.command op).entryText? e.mode = some text →
        ∀ place, m.tree.resolve (e.dir.child name) = .ok place →
          inside.tree.resolve (.ofText text) = .ok place := by
  intro all
  let e : Engine := ⟨Defaults.cliRootOf ⟨[]⟩, .ofText "/work/app", .managedRuntime, "i"⟩
  let inside : Machine :=
    ⟨⟨homelessMachine.tree.items, [utf8 ".linterhub", utf8 "cli"]⟩, homelessMachine.env⟩
  have leads := all homelessMachine inside e .version (by decide) rfl "cli.dll"
    ".linterhub/cli/cli.dll" rfl rfl _ rfl
  have missing : inside.tree.resolve (.ofText ".linterhub/cli/cli.dll") = .error .missing := rfl
  cases missing.symm.trans leads

end Engine

end LintBridge

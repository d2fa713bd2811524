import LintBridge.Proofs.Install.Overlap
import LintBridge.Proofs.Install.Unpacked

namespace LintBridge

open FileTree

namespace Unpack

variable {t t' t₁ : FileTree} {archive target : Path} {base l : Location} {file : Bytes}
  {e : ArchiveEntry} {es : List ArchiveEntry}

/-- Where the file of an entry lies. -/
def spot? (base : Location) (e : ArchiveEntry) : Option Location :=
  match enclosed? e.name with
  | some p => if e.isDirectory then none else some (follow base p.segments)
  | none => none

/-- Whether the name of an entry is one that the system can give to a file or a directory. -/
structure Nameable (target : Path) (e : ArchiveEntry) (p : Path) : Prop where
  checked : checkPath (target.join p) = .ok ()
  short : ∀ s ∈ p.segments, s.length ≤ maxName
  last : e.isDirectory = false → ∃ before name, p.pieces = before ++ [name] ∧
    Path.isIdle name = false ∧ name ≠ Path.dotDot

/-- Entries of an archive that can all be unpacked side by side. -/
structure Fitting (file : Bytes) (target : Path) (base : Location) (es : List ArchiveEntry) :
    Prop where
  whole : ∀ e ∈ es, ∃ start, e.contentStart? file = some start ∧
    (e.isDirectory = false → (e.content file start).2 = none)
  named : ∀ e ∈ es, ∃ p, enclosed? e.name = some p ∧ Nameable target e p
  distinct : ∀ e ∈ es, ∀ e' ∈ es, ∀ l, spot? base e = some l → spot? base e' = some l → e = e'
  apart : ∀ e ∈ es, ∀ e' ∈ es, ∀ l, spot? base e = some l → l ∉ ways base e'

theorem spot?_file {relative : Path} (enclosed : enclosed? e.name = some relative)
    (plain : e.isDirectory = false) (base : Location) :
    spot? base e = some (follow base relative.segments) := by
  rw [spot?, enclosed, plain]
  rfl

theorem leaves?_eq_none (other : spot? base e ≠ some l) : leaves? file base l e = none := by
  cases leaves : leaves? file base l e with
  | none => rfl
  | some item =>
    obtain ⟨p, enclosed, plain, spot, _⟩ := of_leaves? leaves
    exact absurd ((spot?_file enclosed plain base).trans (congrArg some spot)) other

/-- Where no entry has its place none leaves a file. -/
theorem left?_eq_none (clear : ∀ e ∈ es, spot? base e ≠ some l) : left? file base l es = none := by
  cases left : left? file base l es with
  | none => rfl
  | some item =>
    obtain ⟨e, member, leaves⟩ := of_left? left
    rw [leaves?_eq_none (clear e member)] at leaves
    cases leaves

theorem Nameable.inside {relative : Path} (nameable : Nameable target e relative)
    (enclosed : enclosed? e.name = some relative) (plain : e.isDirectory = false)
    (base : Location) : Inside base (follow base relative.segments) := by
  obtain ⟨_, d, stays⟩ := of_enclosed? enclosed
  obtain ⟨before, name, parts, shown, onward⟩ := nameable.last plain
  refine inside_of_depth List.prefix_rfl rfl stays _ ?_
  rw [Path.segments_concat parts shown, follow_append, entered_append, follow, if_neg onward,
    entered, if_neg onward]
  exact List.mem_append_right _ List.mem_cons_self

section Side

variable {done : List ArchiveEntry} (value : t₁.read archive = .ok file)
  (bare : ∀ l, Inside base l → l ≠ t₁.place archive → t₁.item? l = none)

include value bare

end Side

end Unpack

namespace Setup

variable {reader : ArchiveReader} {target : Path} {j : Setup reader target}
  {t t₁ t₂ : FileTree} {base : Location} {file : Bytes} {es : List ArchiveEntry} {ps : List Path}

/-- The name of the file that every release is loaded into. -/
def archiveName : Bytes := utf8 "temp.zip"

theorem archive_parts (j : Setup reader target) : j.archive.isAbsolute = target.isAbsolute ∧
    j.archive.segments = target.segments ++ [archiveName] ∧
    ∃ front, j.archive.pieces = front ++ [archiveName] :=
  ⟨Path.isAbsolute_join_of_relative (by decide), Path.segments_join (by decide),
    Path.pieces_join_concat target (by decide)
      (show (Path.ofText "temp.zip").pieces = [] ++ [archiveName] by decide)⟩

/-- An archive of entries that fit, which is served for a directory that is there or can be made,
and in which nothing lies then. -/
structure Served (j : Setup reader target) (t : FileTree) (file : Bytes)
    (es : List ArchiveEntry) : Prop where
  answered : ∃ current reply, j.answer.2 = .ok (current, reply) ∧ reply.whole = true ∧
    reply.body = file
  listed : reader.entries? file = some es
  made : (t.createAll target).2 = none
  bare : ∀ l, Inside (t.place target) l → (t.createAll target).1.item? l = none
  named : checkPath j.archive = .ok ()
  fitting : Unpack.Fitting file target (t.place target) es

/-- A tree into which the archive has been loaded. -/
structure Loaded (j : Setup reader target) (t : FileTree) (base : Location) (file : Bytes) :
    Prop where
  again : t.createAll target = (t, none)
  there : t.walk (t.origin target) target.segments = .ok base
  way : t.Writable j.archive base archiveName
  lies : ∃ mode, t.item? (base ++ [archiveName]) = some (.file mode file)
  bare : ∀ l, Inside base l → l ≠ base ++ [archiveName] → t.item? l = none

theorem Served.loads (served : j.Served t file es) :
    ∃ t₁, j.Loads t t₁ ∧ j.Loaded t₁ (t.place target) file := by
  obtain ⟨current, reply, said, whole, rfl⟩ := served.answered
  obtain ⟨start, segments, front, pieces⟩ := j.archive_parts
  rcases made : t.createAll target with ⟨t₀, fault⟩
  obtain rfl : fault = none := by
    have none := served.made
    rwa [made] at none
  have there := walk_createAll made
  have here : t₀.here = t.here := by
    have same := here_createAll t target
    rwa [made] at same
  have walked : t₀.walk (t₀.origin j.archive) j.archive.segments.dropLast =
      .ok (t.place target) := by
    rw [segments, List.dropLast_concat, origin, start, ← origin]
    exact there
  have led := resolve_of_pieces served.named pieces (by decide) (by decide) walked
  have inside : Inside (t.place target) (t.place target ++ [archiveName]) :=
    ⟨List.prefix_append _ _, fun same => by
      have lengths := congrArg List.length same
      rw [List.length_append, List.length_singleton] at lengths
      omega⟩
  have bare := served.bare
  rw [made] at bare
  have way : t₀.Writable j.archive (t.place target) archiveName :=
    ⟨led, by decide, by rw [bare _ inside]; rintro ⟨⟩⟩
  obtain ⟨_, first⟩ := way.write []
  obtain ⟨mode, wrote⟩ := way.write reply.body
  have kept : Download.keepIn t₀ j.archive current reply = (t₀.put (t.place target ++ [archiveName])
      (.file mode reply.body), .ok reply.body.length) := by
    rw [Download.keepIn, first, wrote]
    dsimp only
    rw [whole]
    rfl
  refine ⟨t₀.put (t.place target ++ [archiveName]) (.file mode reply.body),
    ⟨current, reply, reply.body.length, said, ?_⟩, ?_⟩
  · rw [Download.keep_eq]
    cases up : j.archive.parent? with
    | none =>
      have none := Path.segments_of_parent?_eq_none up
      rw [segments] at none
      cases List.concat_ne_nil _ _ none
    | some above =>
      obtain ⟨_, none⟩ | ⟨start', last, parts⟩ := Path.segments_parent? up
      · rw [segments] at none
        cases List.concat_ne_nil _ _ none
      rw [segments] at parts
      have same := (List.append_inj' parts rfl).1.symm
      dsimp only
      rw [createAll_congr made (start'.trans start) same
        (checkPath_of_front served.named (Path.bytes_parent? up))]
      exact kept
  · have put (l : Location) :
        (t₀.put (t.place target ++ [archiveName]) (.file mode reply.body)).item? l = _ :=
      item?_put (List.concat_ne_nil archiveName (t.place target))
    exact {
      again := createAll_again made (way.kept _) (here_put _ _ _)
      there := by
        rw [origin_congr (here_put _ _ _)]
        exact walk_mono (way.kept _) there
      way := (way.put mode reply.body).1
      lies := ⟨mode, (put _).trans (if_pos rfl)⟩
      bare := fun l inside other => ((put l).trans (if_neg other)).trans (bare l inside) }

section Loaded

variable (loaded : j.Loaded t₁ base file)

include loaded

theorem Loaded.place : t₁.place j.archive = base ++ [archiveName] :=
  place_of_resolve loaded.way.led

theorem Loaded.read : t₁.read j.archive = .ok file := by
  obtain ⟨mode, lies⟩ := loaded.lies
  exact loaded.way.read lies

/-- Where no entry lies over the archive, it is the archive that is taken away. -/
theorem Loaded.remove (clear : ∀ e ∈ es, Unpack.spot? base e ≠ some (base ++ [archiveName]))
    (lays : Unpack.Lays file target base es t₁ t₂) :
    t₂.remove j.archive = .ok (t₂.erase (base ++ [archiveName])) := by
  obtain ⟨mode, lies⟩ := loaded.lies
  have still : t₂.item? (base ++ [archiveName]) = some (.file mode file) := by
    rw [lays.items, Unpack.left?_eq_none clear, lies]
    rfl
  have free : t₂.item? (base ++ [archiveName]) ≠ some .directory := by
    rw [still]
    rintro ⟨⟩
  exact (loaded.way.mono lays.within.standing lays.within.here free).remove still

end Loaded

end Setup

namespace Setup

variable {reader : ArchiveReader} {target : Path} {j : Setup reader target}
  {t t₁ t₂ : FileTree} {base : Location} {file : Bytes} {es : List ArchiveEntry} {ps : List Path}

end Setup

namespace Setup

variable {reader : ArchiveReader} {target : Path}

/-- What is asked of an installer. -/
def request (j : Setup reader target) : InstallRequest := ⟨j.mode, target, j.proxy, j.strictSsl⟩

end Setup

/-- An installer whose releases lie on one server. -/
def Installer.small : Installer := ⟨"1", "http://releases", "image", ⟨.linux, .x64⟩⟩

/-- The release of that installer. -/
def Release.small : Release := ⟨.nativeBinary, "debian.8-x64", "1",
  ⟨"http", some (.ofHost (some (.domain "releases"))), false,
    "/1/linterhub-cli-debian.8-x64-1.zip", none, none⟩⟩

/-- An installation of that release, which is served as an archive of one empty file. -/
def Setup.lone (name : String) : Setup Archive.directory? (Path.ofText "/i") :=
  { Setup.served (Path.ofText "/i") (Archive.lone (utf8 name)) with
    release := .small
    arrives := by
      intro current reply said
      cases said
      exact List.append_nil (Archive.lone (utf8 name)) }

end LintBridge

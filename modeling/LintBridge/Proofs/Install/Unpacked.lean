import LintBridge.Proofs.Files.Making
import Mathlib.Data.List.Induction

namespace LintBridge

open FileTree

namespace Archive

variable {es : List ArchiveEntry} {e : ArchiveEntry}

theorem distinct_concat (es : List ArchiveEntry) (e : ArchiveEntry) : distinct (es ++ [e]) =
    if (distinct es).any fun k => k.name == e.name then
      (distinct es).map fun k => if k.name == e.name then e else k
    else distinct es ++ [e] := List.foldl_append

theorem eraseDups_concat (names : List String) (name : String) : (names ++ [name]).eraseDups =
    if name ∈ names then names.eraseDups else names.eraseDups ++ [name] := by
  rw [List.eraseDups_append]
  split <;> rename_i here <;> simp [List.removeAll, here, List.eraseDups_cons]

/-- Whether entries that were put together have a name. -/
theorem any_distinct (names : (distinct es).map ArchiveEntry.name =
    (es.map ArchiveEntry.name).eraseDups) (name : String) :
    ((distinct es).any fun k => k.name == name) = true ↔ name ∈ es.map ArchiveEntry.name := by
  rw [← List.mem_eraseDups, ← names]
  simp [List.any_eq_true]

/-- Entries come in the order in which their names first do. -/
theorem names_distinct (es : List ArchiveEntry) :
    (distinct es).map ArchiveEntry.name = (es.map ArchiveEntry.name).eraseDups := by
  induction es using List.reverseRecOn with
  | nil => rfl
  | append_singleton es e ih =>
    have known := any_distinct ih e.name
    have same (k : ArchiveEntry) : (if k.name == e.name then e else k).name = k.name := by
      split
      · rename_i own
        exact (beq_iff_eq.mp own).symm
      · rfl
    rw [distinct_concat, List.map_append, List.map_singleton, eraseDups_concat, ← ih]
    split
    · rename_i again
      rw [if_pos (known.mp again), List.map_map]
      exact List.map_congr_left fun k _ => same k
    · rename_i new
      rw [if_neg (mt known.mpr new), List.map_append, List.map_singleton]

/-- Each of them is the last of its name. -/
theorem findRev?_of_mem_distinct (member : e ∈ distinct es) :
    es.findRev? (fun k => k.name == e.name) = some e := by
  induction es using List.reverseRecOn generalizing e with
  | nil => cases member
  | append_singleton es last ih =>
    have own : (es ++ [last]).findRev? (fun k => k.name == last.name) = some last := by
      simp [List.findRev?_eq_find?_reverse]
    have skip {k : ArchiveEntry} (before : k ∈ distinct es) (other : k.name ≠ last.name) :
        (es ++ [last]).findRev? (fun k' => k'.name == k.name) = some k := by
      rw [← ih before]
      simp [List.findRev?_eq_find?_reverse, Ne.symm other]
    rw [distinct_concat] at member
    split at member
    · obtain ⟨k, before, rfl⟩ := List.mem_map.mp member
      split
      · exact own
      · rename_i other
        exact skip before (mt beq_iff_eq.mpr other)
    · rename_i new
      rcases List.mem_append.mp member with before | here
      · exact skip before fun same => new (List.any_eq_true.mpr ⟨e, before, beq_iff_eq.mpr same⟩)
      · cases List.mem_singleton.mp here
        exact own

end Archive

namespace Unpack

/-- The bytes of an entry of an archive. -/
def bytes (file : Bytes) (e : ArchiveEntry) : Bytes :=
  ((e.contentStart? file).map fun start => (e.content file start).1).getD []

/-- The mode of the file that an entry becomes. -/
def modeOf (relative : Path) (e : ArchiveEntry) : Nat :=
  if isProgram relative e.mode? then programMode else dataMode

/-- The file that an entry leaves at a location when it is unpacked below another one. -/
def leaves? (file : Bytes) (base l : Location) (e : ArchiveEntry) : Option FileItem :=
  match enclosed? e.name with
  | some p =>
    if e.isDirectory = false ∧ follow base p.segments = l then
      some (.file (modeOf p e) (bytes file e))
    else none
  | none => none

/-- The file that entries leave at a location, which is that of the last to leave one. -/
def left? (file : Bytes) (base l : Location) (es : List ArchiveEntry) : Option FileItem :=
  es.findSomeRev? (leaves? file base l)

/-- The directories that an entry asks for. -/
def ways (base : Location) (e : ArchiveEntry) : List Location :=
  match enclosed? e.name with
  | some p => entered base (if e.isDirectory then p.segments else p.segments.dropLast)
  | none => []

/-- The file that an entry is made into. -/
def made? (target : Path) (e : ArchiveEntry) : Option Path :=
  if e.isDirectory then none else (enclosed? e.name).map target.join

/-- The file that has been made. -/
def Outcome.path? : Outcome → Option Path
  | file p => some p
  | _ => none

/-- Whether no error came of an entry. -/
def Outcome.Fine : Outcome → Prop
  | failed _ => False
  | _ => True

variable {t t' : FileTree} {archive target : Path} {base : Location} {file : Bytes}
  {e : ArchiveEntry} {o : Outcome}

section Left

variable {l : Location} {es es' : List ArchiveEntry} {item : FileItem}

theorem leaves?_file {relative : Path} (enclosed : enclosed? e.name = some relative)
    (plain : e.isDirectory = false) (base l : Location) : leaves? file base l e =
    if follow base relative.segments = l then some (.file (modeOf relative e) (bytes file e))
    else none := by
  rw [leaves?, enclosed, plain]
  exact if_congr (and_iff_right rfl) rfl rfl

theorem of_leaves? (leaves : leaves? file base l e = some item) : ∃ p, enclosed? e.name = some p ∧
    e.isDirectory = false ∧ follow base p.segments = l ∧
      item = .file (modeOf p e) (bytes file e) := by
  rw [leaves?] at leaves
  split at leaves
  · rename_i p enclosed
    split at leaves
    · rename_i spot
      exact ⟨p, enclosed, spot.1, spot.2, (Option.some.inj leaves).symm⟩
    · cases leaves
  · cases leaves

theorem left?_singleton (file : Bytes) (base l : Location) (e : ArchiveEntry) :
    left? file base l [e] = leaves? file base l e := by
  rw [left?, List.findSomeRev?_eq_findSome?_reverse, List.reverse_singleton,
    List.findSome?_singleton]

theorem left?_append (file : Bytes) (base l : Location) (es es' : List ArchiveEntry) :
    left? file base l (es ++ es') = (left? file base l es').or (left? file base l es) := by
  simp only [left?, List.findSomeRev?_eq_findSome?_reverse, List.reverse_append,
    List.findSome?_append]

theorem of_left? (left : left? file base l es = some item) :
    ∃ e ∈ es, leaves? file base l e = some item := by
  rw [left?, List.findSomeRev?_eq_findSome?_reverse] at left
  obtain ⟨e, member, leaves⟩ := List.exists_of_findSome?_eq_some left
  exact ⟨e, List.mem_reverse.mp member, leaves⟩

theorem left?_ne_directory (file : Bytes) (base l : Location) (es : List ArchiveEntry) :
    left? file base l es ≠ some .directory := fun left => by
  obtain ⟨e, _, leaves⟩ := of_left? left
  obtain ⟨_, _, _, _, same⟩ := of_leaves? leaves
  cases same

/-- Where an entry leaves a file, some entry is the last to leave one. -/
theorem left?_of_mem (file : Bytes) (base : Location) {relative : Path} (member : e ∈ es)
    (enclosed : enclosed? e.name = some relative) (plain : e.isDirectory = false) :
    ∃ mode c, left? file base (follow base relative.segments) es = some (.file mode c) := by
  cases left : left? file base (follow base relative.segments) es with
  | none =>
    rw [left?, List.findSomeRev?_eq_findSome?_reverse, List.findSome?_eq_none_iff] at left
    have none := left e (List.mem_reverse.mpr member)
    rw [leaves?_file enclosed plain, if_pos rfl] at none
    cases none
  | some item =>
    obtain ⟨e', _, leaves⟩ := of_left? left
    obtain ⟨p, _, _, _, rfl⟩ := of_leaves? leaves
    exact ⟨_, _, rfl⟩

end Left

/-- What entries come to that are unpacked. -/
structure Lays (file : Bytes) (target : Path) (base : Location) (es : List ArchiveEntry)
    (t t' : FileTree) : Prop where
  there : t.walk (t.origin target) target.segments = .ok base
  within : Within base t t'
  items : ∀ l, t'.item? l = (left? file base l es).or
    ((t.item? l).or (if l ∈ es.flatMap (ways base) then some .directory else none))
  standing : ∀ e ∈ es, ∀ l ∈ ways base e, t'.item? l = some .directory
  directories : ∀ e ∈ es, ∀ p, enclosed? e.name = some p → e.isDirectory = true →
    t'.find (target.join p) = .ok .directory
  files : ∀ e ∈ es, ∀ p, enclosed? e.name = some p → e.isDirectory = false →
    (∃ start, e.contentStart? file = some start ∧ (e.content file start).2 = none) ∧
      ∃ parent name, t'.Writable (target.join p) parent name

theorem inPlace_of_read (value : t.read archive = .ok file) : inPlace archive t = file := by
  rw [inPlace, value]
  rfl

/-- A file whose content is written and whose mode is set lies where its path leads. -/
theorem of_writeEntry {out relative : Path} {start : Nat} (value : t.read archive = .ok file)
    (clear : ∀ parent name, t.Writable out parent name → t.place archive ≠ parent ++ [name])
    (came : writeEntry (inPlace archive) out relative start e t = (t', o)) (fine : o.Fine) :
    ∃ parent name, t.Writable out parent name ∧ (e.content file start).2 = none ∧
      t' = t.put (parent ++ [name]) (.file (modeOf relative e) (e.content file start).1) ∧
      o = .file out := by
  rw [writeEntry] at came
  split at came
  · cases came
    exact fine.elim
  rename_i t₁ made
  obtain ⟨parent, name, mode, way, rfl, again⟩ := of_write made
  have open' := way.read_other value (clear parent name way) (.file mode [])
  rw [inPlace_of_read open'] at came
  dsimp only at came
  rw [write_write made, again] at came
  dsimp only at came
  obtain ⟨still, looked⟩ := way.put mode (e.content file start).1
  split at came
  · cases came
    exact fine.elim
  rename_i whole
  have lies := (look_eq looked).symm
  rw [still.setMode lies, put_put] at came
  cases came
  exact ⟨parent, name, way, whole, rfl, rfl⟩

/-- The path of a directory of an archive is not empty. -/
theorem join_ne_nil {relative : Path} (enclosed : enclosed? e.name = some relative)
    (directory : e.isDirectory = true) : (target.join relative).bytes ≠ [] := by
  have same : relative = Path.ofText e.name := by
    unfold enclosed? at enclosed
    extract_lets p at enclosed
    split at enclosed
    · cases enclosed
    · obtain ⟨_, _, same⟩ := Option.map_eq_some_iff.mp enclosed
      exact same.symm
  have named : relative.bytes ≠ [] := by
    intro empty
    rw [same] at empty
    have short := length_le_utf8Chars e.name.toList
    rw [show utf8Chars e.name.toList = [] from empty] at short
    have none : e.name.toList = [] := List.eq_nil_of_length_eq_zero (Nat.le_zero.mp short)
    rw [ArchiveEntry.isDirectory, none] at directory
    cases directory
  rw [Path.join]
  split
  · exact named
  split
  · exact List.append_ne_nil_of_right_ne_nil _ named
  · exact List.append_ne_nil_of_right_ne_nil _ (List.cons_ne_nil _ _)

theorem find_directory {relative : Path} (enclosed : enclosed? e.name = some relative)
    (directory : e.isDirectory = true)
    (made : t.createAll (target.join relative) = (t', none)) :
    t'.find (target.join relative) = .ok .directory := by
  obtain ⟨empty, _⟩ | ⟨checked, _⟩ := of_createAll made
  · exact absurd empty (join_ne_nil enclosed directory)
  · exact find_of_walk checked (walk_createAll made)

/-- The directories on the way to a file are those of its path but for the last segment. -/
theorem segments_above {relative above : Path} (enclosed : enclosed? e.name = some relative)
    (up : (target.join relative).parent? = some above) (some : relative.segments ≠ []) :
    above.isAbsolute = target.isAbsolute ∧
      above.segments = target.segments ++ relative.segments.dropLast := by
  obtain ⟨bare, _⟩ := of_enclosed? enclosed
  obtain ⟨_, none⟩ | ⟨start, last, parts⟩ := Path.segments_parent? up
  · rw [Path.segments_join bare] at none
    exact absurd (List.append_eq_nil_iff.mp none).2 some
  · refine ⟨start.trans (Path.isAbsolute_join_of_relative bare), ?_⟩
    obtain ⟨rs, r, whole⟩ := List.eq_nil_or_concat relative.segments |>.resolve_left some
    rw [Path.segments_join bare, whole, List.concat_eq_append, ← List.append_assoc] at parts
    rw [whole, List.concat_eq_append, List.dropLast_concat]
    exact (List.append_inj' parts rfl).1.symm

theorem bytes_of_starts {start : Nat} (starts : e.contentStart? file = some start) :
    bytes file e = (e.content file start).1 := by
  rw [bytes, starts]
  rfl

theorem ways_directory {relative : Path} (enclosed : enclosed? e.name = some relative)
    (directory : e.isDirectory = true) (base : Location) :
    ways base e = entered base relative.segments := by
  rw [ways, enclosed, directory]
  rfl

theorem ways_file {relative : Path} (enclosed : enclosed? e.name = some relative)
    (plain : e.isDirectory = false) (base : Location) :
    ways base e = entered base relative.segments.dropLast := by
  rw [ways, enclosed, plain]
  rfl

section Entry

variable (there : t.walk (t.origin target) target.segments = .ok base) {relative : Path}
  (enclosed : enclosed? e.name = some relative)

include there enclosed

theorem place_join : t.place (target.join relative) = follow base relative.segments := by
  obtain ⟨bare, _⟩ := of_enclosed? enclosed
  rw [place, Path.segments_join bare, origin, Path.isAbsolute_join_of_relative bare, ← origin,
    follow_append, ← walk_eq_follow (telling_segments target) there]

/-- A directory of an archive is made with those on its way. -/
theorem items_directory (directory : e.isDirectory = true)
    (made : t.createAll (target.join relative) = (t', none)) (l : Location) :
    t'.item? l = (leaves? file base l e).or
      ((t.item? l).or (if l ∈ ways base e then some .directory else none)) := by
  obtain ⟨bare, _⟩ := of_enclosed? enclosed
  have leaves : leaves? file base l e = none := by
    rw [leaves?, enclosed, directory]
    exact if_neg fun both => Bool.false_ne_true both.1.symm
  rw [leaves, ways_directory enclosed directory, Option.none_or]
  exact item?_createAll_below there (Path.isAbsolute_join_of_relative bare)
    (Path.segments_join bare) made l

/-- A file of an archive is made with the directories on its way. -/
theorem items_file {t₁ : FileTree} {parent : Location} {name : Bytes} {start : Nat}
    (plain : e.isDirectory = false) (starts : e.contentStart? file = some start)
    (before : ∀ l, t₁.item? l = (t.item? l).or
      (if l ∈ entered base relative.segments.dropLast then some .directory else none))
    (here : t₁.here = t.here)
    (way : t₁.Writable (target.join relative) parent name) (l : Location) :
    (t₁.put (parent ++ [name]) (.file (modeOf relative e) (e.content file start).1)).item? l =
      (leaves? file base l e).or
        ((t.item? l).or (if l ∈ ways base e then some .directory else none)) := by
  have spot : follow base relative.segments = parent ++ [name] := by
    rw [← place_join there enclosed, ← place_of_resolve way.led, place, place,
      origin_congr here]
  rw [item?_put (List.concat_ne_nil name parent), leaves?_file enclosed plain,
    ways_file enclosed plain, ← before, spot, bytes_of_starts starts]
  by_cases own : l = parent ++ [name]
  · rw [if_pos own, if_pos own.symm]
    rfl
  · rw [if_neg own, if_neg (Ne.symm own)]
    rfl

/-- A path to a file of an archive goes on from the target, which is a directory. -/
theorem segments_ne_nil {parent : Location} {name : Bytes}
    (way : t.Writable (target.join relative) parent name) : relative.segments ≠ [] := by
  intro none
  obtain ⟨bare, _⟩ := of_enclosed? enclosed
  obtain ⟨onward, before, parts, walked⟩ := of_resolve_entry way.led
  rw [Path.segments_join bare, none, List.append_nil] at parts
  rw [origin, Path.isAbsolute_join_of_relative bare, ← origin] at walked
  have telling : ∀ s ∈ before, Path.isIdle s = false := fun s member =>
    telling_segments target s (by rw [parts]; exact List.mem_append_left _ member)
  have member : parent ++ [name] ∈ entered (t.origin target) target.segments := by
    rw [parts, entered_append, ← walk_eq_follow telling walked, entered, if_neg onward]
    exact List.mem_append_right _ List.mem_cons_self
  exact way.free (item?_of_walk (telling_segments target) there member)

end Entry

/-- What a single entry comes to. -/
theorem Lays.single (there : t.walk (t.origin target) target.segments = .ok base)
    (within : Within base t t')
    (items : ∀ l, t'.item? l = (leaves? file base l e).or
      ((t.item? l).or (if l ∈ ways base e then some .directory else none)))
    (standing : ∀ l ∈ ways base e, t'.item? l = some .directory)
    (found : ∀ p, enclosed? e.name = some p →
      if e.isDirectory then t'.find (target.join p) = .ok .directory
      else (∃ start, e.contentStart? file = some start ∧ (e.content file start).2 = none) ∧
        ∃ parent name, t'.Writable (target.join p) parent name) :
    Lays file target base [e] t t' where
  there := there
  within := within
  items l := by
    rw [items, List.flatMap_singleton, left?_singleton]
  standing e' member := by
    cases List.mem_singleton.mp member
    exact standing
  directories e' member p enclosed directory := by
    cases List.mem_singleton.mp member
    have found := found p enclosed
    rwa [directory] at found
  files e' member p enclosed plain := by
    cases List.mem_singleton.mp member
    have found := found p enclosed
    rwa [plain] at found

theorem Lays.nil (file : Bytes) (there : t.walk (t.origin target) target.segments = .ok base) :
    Lays file target base [] t t :=
  ⟨there, .refl base t, fun _ => (Option.or_none).symm, nofun, nofun, nofun⟩

/-- What entries leave, others that follow leave over it. -/
theorem Lays.append {t₁ : FileTree} {es es' : List ArchiveEntry}
    (first : Lays file target base es t t₁) (second : Lays file target base es' t₁ t') :
    Lays file target base (es ++ es') t t' where
  there := first.there
  within := first.within.trans second.within
  items l := by
    rw [second.items, first.items, left?_append, List.flatMap_append, directory_append]
    simp only [Option.or_assoc]
  standing e member l way := by
    rcases List.mem_append.mp member with before | after
    · exact second.within.standing l (first.standing e before l way)
    · exact second.standing e after l way
  directories e member p enclosed directory := by
    rcases List.mem_append.mp member with before | after
    · exact find_mono (first.directories e before p enclosed directory) second.within.standing
        second.within.here
    · exact second.directories e after p enclosed directory
  files e member p enclosed plain := by
    rcases List.mem_append.mp member with before | after
    · obtain ⟨whole, parent, name, way⟩ := first.files e before p enclosed plain
      refine ⟨whole, parent, name, way.mono second.within.standing second.within.here ?_⟩
      -- only a file can lie over a file
      obtain ⟨mode, c, left⟩ := left?_of_mem file base before enclosed plain
      rw [← place_join second.there enclosed, place_of_resolve way.led] at left
      rw [second.items, first.items, left]
      cases later : left? file base (parent ++ [name]) es' with
      | none => rintro ⟨⟩
      | some item => exact fun same => left?_ne_directory file base _ es' (later.trans same)
    · exact second.files e after p enclosed plain

section Cases

variable {relative : Path} {start : Nat} (value : t.read archive = .ok file)
  (starts : e.contentStart? file = some start) (enclosed : enclosed? e.name = some relative)

include value starts enclosed

theorem entry_directory (directory : e.isDirectory = true) :
    entry (inPlace archive) archive target t e =
      match t.createAll (target.join relative) with
      | (t, some fault) => (t, .failed (failure "creating" (target.join relative) fault.message))
      | (t, none) => (t, .directory) := by
  rw [entry, inPlace_of_read value, starts]
  dsimp only
  rw [enclosed]
  exact if_pos directory

theorem entry_file (plain : e.isDirectory = false) : entry (inPlace archive) archive target t e =
    match (target.join relative).parent? with
    | none => writeEntry (inPlace archive) (target.join relative) relative start e t
    | some parent =>
      match t.createAll parent with
      | (t, some fault) => (t, .failed (failure "creating" parent fault.message))
      | (t, none) => writeEntry (inPlace archive) (target.join relative) relative start e t := by
  rw [entry, inPlace_of_read value, starts]
  dsimp only
  rw [enclosed]
  exact if_neg (by rw [plain]; exact Bool.false_ne_true)

variable (there : t.walk (t.origin target) target.segments = .ok base)
  (came : entry (inPlace archive) archive target t e = (t', o)) (fine : o.Fine)

include there came fine

theorem lays_directory (directory : e.isDirectory = true) :
    Lays file target base [e] t t' ∧ o.path? = none := by
  have within := within_entry (inPlace archive) archive there e
  rw [came] at within
  rw [entry_directory value starts enclosed directory] at came
  split at came
  · cases came
    exact fine.elim
  rename_i made
  cases came
  have bare := (of_enclosed? enclosed).1
  refine ⟨.single there within (items_directory there enclosed directory made)
    (fun l way => standing_createAll made ?_) (fun p same => ?_), rfl⟩
  · rw [way_below there (Path.isAbsolute_join_of_relative bare) (Path.segments_join bare),
      ← ways_directory enclosed directory]
    exact List.mem_append_right _ way
  · cases enclosed.symm.trans same
    rw [directory]
    exact find_directory enclosed directory made

theorem lays_file (plain : e.isDirectory = false)
    (clear : Inside base (t.place archive) → leaves? file base (t.place archive) e = none) :
    Lays file target base [e] t t' ∧ o.path? = some (target.join relative) := by
  have within := within_entry (inPlace archive) archive there e
  rw [came] at within
  rw [entry_file value starts enclosed plain] at came
  -- the file of this entry is not the archive, while it is below the target
  have apart (t₁ : FileTree) (w : Within base t t₁) (parent : Location) (name : Bytes)
      (way : t₁.Writable (target.join relative) parent name) :
      t₁.place archive ≠ parent ++ [name] := fun same => by
    have inside := ((beneath_join there enclosed).within w).resolve way.led way.free
    have spot := (place_join (w.walk there) enclosed).symm.trans (place_of_resolve way.led)
    rw [place, origin_congr w.here] at same
    rw [← same] at inside spot
    have none := clear inside
    rw [leaves?_file enclosed plain, place, if_pos spot] at none
    cases none
  split at came
  · rename_i top
    obtain ⟨parent, name, way, _⟩ := of_writeEntry value (apart t (.refl base t)) came fine
    have none := Path.segments_of_parent?_eq_none top
    rw [Path.segments_join (of_enclosed? enclosed).1] at none
    exact absurd (List.append_eq_nil_iff.mp none).2 (segments_ne_nil there enclosed way)
  rename_i above up
  split at came
  · cases came
    exact fine.elim
  rename_i t₁ made
  have first := (beneath_join there enclosed).createAll_parent up
  have value₁ := read_createAll value above
  rw [made] at first value₁
  obtain ⟨parent, name, way, whole, rfl, rfl⟩ := of_writeEntry value₁ (apart t₁ first) came fine
  obtain ⟨start', parts⟩ :=
    segments_above enclosed up (segments_ne_nil (first.walk there) enclosed way)
  refine ⟨.single there within (items_file there enclosed plain starts
    (item?_createAll_below there start' parts made) first.here way)
    (fun l member => way.kept _ l (standing_createAll made ?_)) (fun p same => ?_), rfl⟩
  · rw [way_below there start' parts, ← ways_file enclosed plain]
    exact List.mem_append_right _ member
  · cases enclosed.symm.trans same
    rw [plain]
    exact ⟨⟨start, starts, whole⟩, parent, name, (way.put _ _).1⟩

end Cases

/-- An entry that comes through leaves its file, or the directories it names. -/
theorem lays_entry (there : t.walk (t.origin target) target.segments = .ok base)
    (value : t.read archive = .ok file)
    (clear : Inside base (t.place archive) → leaves? file base (t.place archive) e = none)
    (came : entry (inPlace archive) archive target t e = (t', o)) (fine : o.Fine) :
    Lays file target base [e] t t' ∧ o.path? = made? target e := by
  obtain ⟨start, starts⟩ : ∃ start, e.contentStart? file = some start := by
    cases starts : e.contentStart? file with
    | none =>
      rw [entry, inPlace_of_read value, starts] at came
      cases came
      exact fine.elim
    | some start => exact ⟨start, rfl⟩
  cases enclosed : enclosed? e.name with
  | none =>
    have skipped : entry (inPlace archive) archive target t e = (t, .skipped) := by
      rw [entry, inPlace_of_read value, starts]
      dsimp only
      rw [enclosed]
    cases skipped.symm.trans came
    refine ⟨.single there (.refl base t) (fun l => ?_) (fun l way => ?_) (fun p some => ?_), ?_⟩
    · rw [leaves?, enclosed, ways, enclosed, if_neg List.not_mem_nil, Option.or_none]
      rfl
    · rw [ways, enclosed] at way
      cases way
    · rw [enclosed] at some
      cases some
    · rw [made?, enclosed]
      split <;> rfl
  | some relative =>
    cases directory : e.isDirectory with
    | true =>
      have made : made? target e = none := by
        rw [made?, directory]
        rfl
      rw [made]
      exact lays_directory value starts enclosed there came fine directory
    | false =>
      have made : made? target e = some (target.join relative) := by
        rw [made?, directory, enclosed]
        rfl
      rw [made]
      exact lays_file value starts enclosed there came fine directory clear

/-- The archive is read as it was while no entry leaves a file over it. -/
theorem Lays.read {es : List ArchiveEntry} (lays : Lays file target base es t t')
    (value : t.read archive = .ok file)
    (clear : Inside base (t.place archive) → left? file base (t.place archive) es = none) :
    t'.read archive = .ok file := by
  refine read_mono value lays.within.standing lays.within.here ?_
  by_cases inside : Inside base (t.place archive)
  · obtain ⟨parent, name, mode, way, lies⟩ := of_read value
    rw [lays.items, clear inside, place_of_resolve way.led, lies]
    rfl
  · exact lays.within.outside _ inside

/-- A file that entries leave holds the whole content of the last of them to leave it. -/
theorem Lays.find_file {es : List ArchiveEntry} {relative : Path}
    (lays : Lays file target base es t t') (member : e ∈ es)
    (enclosed : enclosed? e.name = some relative) (plain : e.isDirectory = false) :
    (∃ start, e.contentStart? file = some start ∧
      e.content file start = (bytes file e, none)) ∧
    ∃ item, left? file base (t.place (target.join relative)) es = some item ∧
      t'.find (target.join relative) = .ok item := by
  obtain ⟨⟨start, starts, whole⟩, parent, name, way⟩ := lays.files e member relative enclosed plain
  refine ⟨⟨start, starts, Prod.ext (bytes_of_starts starts).symm whole⟩, ?_⟩
  obtain ⟨mode, c, left⟩ := left?_of_mem file base member enclosed plain
  rw [place_join lays.there enclosed]
  refine ⟨_, left, way.find ?_⟩
  rw [← place_of_resolve way.led, place_join (lays.within.walk lays.there) enclosed, lays.items,
    left]
  rfl

/-- Unpacking entries leaves what each of them leaves, a later one over an earlier one. -/
theorem lays_entries {es : List ArchiveEntry} {ps : List Path}
    (there : t.walk (t.origin target) target.segments = .ok base)
    (value : t.read archive = .ok file)
    (clear : ∀ e ∈ es, Inside base (t.place archive) →
      leaves? file base (t.place archive) e = none)
    (came : entries archive target t es = (t', .ok ps)) :
    Lays file target base es t t' ∧ ps = es.filterMap (made? target) := by
  induction es generalizing t ps with
  | nil =>
    cases came
    exact ⟨.nil file there, rfl⟩
  | cons e es ih =>
    obtain ⟨own, others⟩ := List.forall_mem_cons.mp clear
    have onward {t₁ : FileTree} {o : Outcome} {ps' : List Path}
        (one : entry (inPlace archive) archive target t e = (t₁, o)) (fine : o.Fine)
        (rest : entries archive target t₁ es = (t', .ok ps')) :
        Lays file target base (e :: es) t t' ∧ o.path? = made? target e ∧
          ps' = es.filterMap (made? target) := by
      obtain ⟨first, path⟩ := lays_entry there value own one fine
      have value₁ : t₁.read archive = .ok file := first.read value fun inside => by
        rw [left?_singleton]
        exact own inside
      have same : t₁.place archive = t.place archive := by
        rw [place, place, origin_congr first.within.here]
      obtain ⟨second, paths⟩ := ih (first.within.walk there) value₁ (by rwa [same]) rest
      exact ⟨first.append second, path, paths⟩
    rw [entries] at came
    split at came
    · cases came
    · rename_i one
      split at came
      · rename_i rest
        cases came
        obtain ⟨lays, path, rfl⟩ := onward one trivial rest
        exact ⟨lays, (List.filterMap_cons_some path.symm).symm⟩
      · cases came
    · rename_i o failed file one
      cases o with
      | failed error => exact (failed error rfl).elim
      | file p => exact (file p rfl).elim
      | skipped | directory =>
        obtain ⟨lays, path, rfl⟩ := onward one trivial came
        exact ⟨lays, (List.filterMap_cons_none path.symm).symm⟩

end Unpack

/-- An archive whose unpacking comes through is unpacked as it stands, but that the records of one
name are one entry: the last of them, at the turn of the first. The files made are those of the
entries whose names stay below the target, in their order; each holds the content of the last entry
that leads to it; each directory is there; and where no entry leads, all is as it was. -/
theorem unpack_leaves {reader : ArchiveReader} {t t' : FileTree} {archive target : Path}
    {ps : List Path} (apart : ¬Inside (t.place target) (t.place archive))
    (unpacked : unpack reader t archive target = (t', .ok ps)) :
    ∃ file records es, t.read archive = .ok file ∧ reader file = some records ∧
      es.map ArchiveEntry.name = (records.map ArchiveEntry.name).eraseDups ∧
      (∀ e ∈ es, records.findRev? (fun k => k.name == e.name) = some e) ∧
      ps = es.filterMap (Unpack.made? target) ∧
      (∀ l, t'.item? l = (Unpack.left? file (t.place target) l es).or
        ((t.item? l).or
          (if l ∈ t.way target ++ es.flatMap (Unpack.ways (t.place target)) then some .directory
          else none))) ∧
      ∀ e ∈ es, ∀ p, Unpack.enclosed? e.name = some p →
        if e.isDirectory then t'.find (target.join p) = .ok .directory
        else
          (∃ start, e.contentStart? file = some start ∧
            e.content file start = (Unpack.bytes file e, none)) ∧
          ∃ item, Unpack.left? file (t.place target) (t.place (target.join p)) es = some item ∧
            t'.find (target.join p) = .ok item := by
  rw [unpack] at unpacked
  split at unpacked
  · cases unpacked
  · cases unpacked
  rename_i file value
  split at unpacked
  · cases unpacked
  rename_i es listed
  obtain ⟨records, read, rfl⟩ := Option.map_eq_some_iff.mp listed
  split at unpacked
  · cases unpacked
  rename_i t₁ made
  have here : t₁.here = t.here := by
    have same := here_createAll t target
    rwa [made] at same
  have same (p : Path) : t₁.place p = t.place p := by
    rw [place, place, origin_congr here]
  have value₁ := read_createAll value target
  rw [made] at value₁
  obtain ⟨lays, paths⟩ := Unpack.lays_entries (walk_createAll made) value₁
    (fun e _ inside => absurd (by rwa [same] at inside) apart) unpacked
  refine ⟨file, records, Archive.distinct records, value, read, Archive.names_distinct records,
    fun e => Archive.findRev?_of_mem_distinct, paths, fun l => ?_, fun e member p enclosed => ?_⟩
  · rw [lays.items, item?_createAll made, directory_append, Option.or_assoc]
  · split
    · rename_i directory
      exact lays.directories e member p enclosed directory
    · rename_i plain
      rw [Bool.not_eq_true] at plain
      rw [← same (target.join p)]
      exact lays.find_file member enclosed plain

namespace Archive

/-- A number in some bytes, the lowest first. -/
def numeral : Nat → Nat → Bytes
  | 0, _ => []
  | size + 1, n => n.toUInt8 :: numeral size (n / 256)

/-- What is told of a file that is not packed, in the directory and where it stands. -/
def told (name content : Bytes) : Bytes :=
  numeral 4 (checksum content) ++ numeral 4 content.length ++ numeral 4 content.length ++
    numeral 2 name.length ++ [0, 0]

/-- A file as it stands in an archive. -/
def shelved (name content : Bytes) : Bytes :=
  entryMark ++ List.replicate 10 0 ++ told name content ++ name ++ content

/-- The directory of files that stand behind one another. -/
def catalogue : Nat → List (Bytes × Bytes) → Bytes
  | _, [] => []
  | start, (name, content) :: files =>
    directoryMark ++ List.replicate 12 0 ++ told name content ++ List.replicate 10 0 ++
      numeral 4 start ++ name ++ catalogue (start + (shelved name content).length) files

/-- An archive of files that are not packed. -/
def stored (files : List (Bytes × Bytes)) : Bytes :=
  let front := files.flatMap fun file => shelved file.1 file.2
  let directory := catalogue 0 files
  front ++ directory ++ endMark ++ List.replicate 4 0 ++ numeral 2 files.length ++
    numeral 2 files.length ++ numeral 4 directory.length ++ numeral 4 front.length ++ [0, 0]

/-- An archive of one file that is empty, under a name. -/
def lone (name : Bytes) : Bytes := stored [(name, [])]

end Archive

/-- The entry of such an archive. -/
def ArchiveEntry.lone (name : String) : ArchiveEntry := ⟨name, .dos, false, 0, 0, 0, 0, 0⟩

/-- A file that lies below the target is replaced by the entry of its name, another one stays. -/
theorem unpack_leaves_over :
    let t : FileTree := ⟨[([utf8 "a"], .file 0o644 (Archive.lone (utf8 "b"))),
      ([utf8 "x"], .directory), ([utf8 "x", utf8 "b"], .file 0o600 [1]),
      ([utf8 "x", utf8 "c"], .file 0o600 [2])], []⟩
    let target := Path.ofText "/x"
    let t' := (unpack Archive.directory? t (Path.ofText "/a") target).1
    ¬Inside (t.place target) (t.place (Path.ofText "/a")) ∧
      unpack Archive.directory? t (Path.ofText "/a") target = (t', .ok [Path.ofText "/x/b"]) ∧
      t'.item? [utf8 "x", utf8 "b"] = some (.file Unpack.dataMode []) ∧
      t'.item? [utf8 "x", utf8 "c"] = some (.file 0o600 [2]) := by
  intro t target t'
  have apart : ¬Inside (t.place target) (t.place (Path.ofText "/a")) := by
    unfold Inside
    decide +kernel
  have came : (unpack Archive.directory? t (Path.ofText "/a") target).2 =
      .ok [Path.ofText "/x/b"] := of_toOption (by decide +kernel)
  have unpacked : unpack Archive.directory? t (Path.ofText "/a") target =
      (t', .ok [Path.ofText "/x/b"]) := Prod.ext rfl came
  obtain ⟨file, records, es, value, read, names, lasts, _, items, _⟩ :=
    unpack_leaves apart unpacked
  cases value.symm.trans (show t.read (Path.ofText "/a") = .ok (Archive.lone (utf8 "b")) by rfl)
  have held : Archive.directory? (Archive.lone (utf8 "b")) = some [.lone "b"] := by decide +kernel
  cases read.symm.trans held
  obtain ⟨e, rfl⟩ : ∃ e, es = [e] := List.length_eq_one_iff.mp <| by
    rw [← List.length_map, names]
    rfl
  obtain rfl : e = .lone "b" := by
    have last := lasts e (List.mem_singleton_self e)
    rw [List.findRev?_eq_find?_reverse] at last
    exact List.mem_singleton.mp (List.mem_of_find?_eq_some last)
  exact ⟨apart, unpacked, by rw [items]; decide +kernel, by rw [items]; decide +kernel⟩

/-- Of three records that lead to one file the first and the last have one name. The file is listed
twice and holds what the second record tells, although the last leads there too. -/
theorem repeated_name_is_one_entry :
    let file := Archive.stored
      [(utf8 "a", utf8 "X"), (utf8 "./a", utf8 "Y"), (utf8 "a", utf8 "Z")]
    let t : FileTree := ⟨[([utf8 "z"], .file 0o644 file)], []⟩
    let target := Path.ofText "/x"
    ¬Inside (t.place target) (t.place (Path.ofText "/z")) ∧
      ∃ records t' ps, Archive.directory? file = some records ∧
        unpack Archive.directory? t (Path.ofText "/z") target = (t', .ok ps) ∧
        ps ≠ records.filterMap (Unpack.made? target) ∧
        Unpack.left? file [utf8 "x"] [utf8 "x", utf8 "a"] records =
          some (.file Unpack.dataMode (utf8 "Z")) ∧
        t'.item? [utf8 "x", utf8 "a"] = some (.file Unpack.dataMode (utf8 "Y")) := by
  intro file t target
  have apart : ¬Inside (t.place target) (t.place (Path.ofText "/z")) := by
    unfold Inside
    decide +kernel
  let record (name : String) (sum start : Nat) : ArchiveEntry :=
    ⟨name, .dos, false, 0, sum, 1, start, 0⟩
  have listed : Archive.directory? file =
      some [record "a" 3081909835 0, record "./a" 3233089245 32, record "a" 1505515367 66] := by
    decide +kernel
  have came : (unpack Archive.directory? t (Path.ofText "/z") target).2 =
      .ok [Path.ofText "/x/a", Path.ofText "/x/./a"] := of_toOption (by decide +kernel)
  have lies : (unpack Archive.directory? t (Path.ofText "/z") target).1.item? [utf8 "x", utf8 "a"] =
      some (.file Unpack.dataMode (utf8 "Y")) := by decide +kernel
  rcases unpacked : unpack Archive.directory? t (Path.ofText "/z") target with ⟨t', r⟩
  rw [unpacked] at came lies
  cases came
  exact ⟨apart, _, t', _, listed, rfl, by decide +kernel, by decide +kernel, lies⟩

end LintBridge

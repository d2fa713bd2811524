import LintBridge.Install.Unpack
import LintBridge.Proofs.Files.Following

namespace LintBridge

namespace FileTree

/-- Where a path leads. -/
def place (t : FileTree) (p : Path) : Location := follow (t.origin p) p.segments

/-- The directories entered along a path, those of the path itself and those above it. -/
def way (t : FileTree) (p : Path) : List Location := entered (t.origin p) p.segments

/-- Whether a location lies inside another one. -/
def Inside (base l : Location) : Prop := base <+: l ∧ base ≠ l

/-- Segments that never lead above their start enter only what lies inside it. -/
theorem inside_of_depth {base l : Location} {d d' : Nat} {ss : List Bytes} (below : base <+: l)
    (deep : l.length = base.length + d) (stays : Unpack.depth? d ss = some d') :
    ∀ k ∈ entered l ss, Inside base k := by
  induction ss generalizing l d with
  | nil => exact nofun
  | cons s ss ih =>
    rw [Unpack.depth?.eq_def] at stays
    dsimp only at stays
    rw [entered]
    split
    · rename_i back
      rw [if_pos back] at stays
      cases d with
      | zero => cases stays
      | succ d =>
        have shorter : l.dropLast.length = base.length + d := by
          rw [List.length_dropLast]
          omega
        have still : base <+: l.dropLast :=
          List.prefix_of_prefix_length_le below l.dropLast_prefix (by omega)
        exact ih still shorter stays
    · rename_i onward
      rw [if_neg onward] at stays
      have further : base <+: l ++ [s] := below.trans (List.prefix_append l [s])
      have longer : (l ++ [s]).length = base.length + (d + 1) := by
        rw [List.length_append, List.length_singleton]
        omega
      intro k member
      rcases List.mem_cons.mp member with rfl | later
      · refine ⟨further, fun same => ?_⟩
        have lengths := congrArg List.length same
        omega
      · exact ih further longer stays k later

/-- What may come of a tree by work inside a location. Every directory stays one. -/
structure Within (base : Location) (t t' : FileTree) : Prop where
  here : t'.here = t.here
  outside : ∀ l, ¬Inside base l → t'.item? l = t.item? l
  standing : ∀ l, t.item? l = some .directory → t'.item? l = some .directory

section Within

variable {base : Location} {t t' t'' : FileTree}

theorem Within.refl (base : Location) (t : FileTree) : Within base t t :=
  ⟨rfl, fun _ _ => rfl, fun _ there => there⟩

theorem Within.trans (first : Within base t t') (second : Within base t' t'') :
    Within base t t'' :=
  ⟨second.here.trans first.here, fun l out => (second.outside l out).trans (first.outside l out),
    fun l there => second.standing l (first.standing l there)⟩

theorem Within.walk {p : Path} {m : Location} (w : Within base t t')
    (there : t.walk (t.origin p) p.segments = .ok m) :
    t'.walk (t'.origin p) p.segments = .ok m := by
  rw [origin_congr w.here]
  exact walk_mono w.standing there

theorem within_put {l : Location} (inside : Inside base l) (item : FileItem)
    (other : t.item? l ≠ some .directory) : Within base t (t.put l item) := by
  have named : l ≠ [] := by
    rintro rfl
    exact inside.2 (List.prefix_nil.mp inside.1)
  refine ⟨here_put t l item, fun k out => ?_, fun k there => ?_⟩
  · rw [item?_put named, if_neg]
    rintro rfl
    exact out inside
  · rw [item?_put named, if_neg]
    · exact there
    · rintro rfl
      exact other there

end Within

/-- A path that goes on from a target that is there and never leads above it. -/
structure Beneath (t : FileTree) (target : Path) (base : Location) (p : Path) : Prop where
  there : t.walk (t.origin target) target.segments = .ok base
  start : p.isAbsolute = target.isAbsolute
  parts : ∃ ss d, p.segments = target.segments ++ ss ∧ Unpack.depth? 0 ss = some d

section Below

variable {t t' : FileTree} {target p q : Path} {base : Location}

theorem Beneath.within (beneath : Beneath t target base p) (w : Within base t t') :
    Beneath t' target base p :=
  ⟨w.walk beneath.there, beneath.start, beneath.parts⟩

theorem telling_segments (p : Path) : ∀ s ∈ p.segments, Path.isIdle s = false :=
  fun _ member => (Path.of_mem_segments member).1

theorem createAll_eq (t : FileTree) (p : Path) : (t.createAll p).1 = t ∨
    t.createAll p = t.createFrom (t.origin p) false p.segments := by
  rw [createAll]
  split
  · exact .inl rfl
  split
  · exact .inl rfl
  · exact .inr (createFrom_shown _ _ _ _).symm

theorem depth?_prefix {d d' : Nat} {ss rest : List Bytes}
    (stays : Unpack.depth? d (ss ++ rest) = some d') : ∃ d₁, Unpack.depth? d ss = some d₁ := by
  induction ss generalizing d with
  | nil => exact ⟨d, rfl⟩
  | cons s ss ih =>
    rw [List.cons_append, Unpack.depth?.eq_def] at stays
    rw [Unpack.depth?.eq_def]
    dsimp only at stays ⊢
    split
    · rename_i back
      rw [if_pos back] at stays
      cases d with
      | zero => cases stays
      | succ d => exact ih stays
    · rename_i onward
      rw [if_neg onward] at stays
      exact ih stays

/-- Directories on the way to a path below the target are made inside it. -/
theorem Beneath.createAll (beneath : Beneath t target base p)
    (start : q.isAbsolute = p.isAbsolute) (above : q.segments <+: p.segments) :
    Within base t (t.createAll q).1 := by
  obtain ⟨there, sameStart, ss, d, parts, stays⟩ := beneath
  rw [parts] at above
  rcases createAll_eq t q with same | made
  · rw [same]
    exact .refl base t
  rw [made, origin, start, sameStart, ← origin]
  rcases List.prefix_or_prefix_of_prefix above (List.prefix_append _ ss) with before | beyond
  · -- the way up to the target is already there
    obtain ⟨rest, whole⟩ := before
    rw [← whole, walk_append] at there
    obtain ⟨m, walked, _⟩ := of_bind there
    have none := createFrom_walked walked false []
    rw [List.append_nil] at none
    rw [none]
    exact .refl base t
  · obtain ⟨rs, whole⟩ := beyond
    rw [← whole] at above ⊢
    obtain ⟨rest, rfl⟩ := (List.prefix_append_right_inj _).mp above
    obtain ⟨d₁, stays⟩ := depth?_prefix stays
    have telling : ∀ s ∈ rs, Path.isIdle s = false := fun s member =>
      telling_segments q s (by rw [← whole]; exact List.mem_append_right _ member)
    rw [createFrom_walked there]
    refine ⟨here_createFrom _ _ _ _, fun k out => ?_, fun k stands => ?_⟩
    · rcases item?_createFrom t base false telling k with same | ⟨member, _⟩
      · exact same
      · exact absurd (inside_of_depth (List.prefix_refl base) rfl stays k member) out
    · rcases item?_createFrom t base false telling k with same | ⟨_, missing, _⟩
      · exact same.trans stands
      · rw [stands] at missing
        cases missing

theorem Beneath.createAll_parent (beneath : Beneath t target base p) (up : p.parent? = some q) :
    Within base t (t.createAll q).1 := by
  rcases Path.segments_parent? up with ⟨empty, _⟩ | ⟨start, last, parts⟩
  · rw [FileTree.createAll, empty]
    exact .refl base t
  · exact beneath.createAll start (parts ▸ List.prefix_append _ _)

/-- An entry below the target that is no directory lies inside it. -/
theorem Beneath.resolve (beneath : Beneath t target base p) {parent : Location} {name : Bytes}
    {slashed : Bool} (led : t.resolve p = .ok (.entry parent name slashed))
    (other : t.item? (parent ++ [name]) ≠ some .directory) : Inside base (parent ++ [name]) := by
  obtain ⟨there, sameStart, ss, d, segments, stays⟩ := beneath
  obtain ⟨onward, before, parts, walked⟩ := of_resolve_entry led
  have telling : Path.isIdle name = false := telling_segments p name <| by
    rw [parts]
    exact List.mem_append_right _ (List.mem_singleton_self name)
  rw [origin, sameStart, ← origin] at walked
  rw [segments] at parts
  rcases List.eq_nil_or_concat ss with rfl | ⟨rs, r, rfl⟩
  · -- the path is the target itself, which is a directory
    rw [List.append_nil] at parts
    rw [parts, walk_append, walked] at there
    change t.walk parent [name] = .ok base at there
    rw [walk, telling] at there
    simp only [Bool.false_eq_true, if_false, if_neg onward] at there
    split at there
    · cases there
    · cases there
    · cases there
    · rename_i directory
      exact absurd (look_directory directory) other
  · rw [List.concat_eq_append, ← List.append_assoc] at parts
    obtain ⟨rfl, last⟩ := List.append_inj' parts rfl
    cases last
    rw [walk_append, there] at walked
    have shown : ∀ s ∈ rs, Path.isIdle s = false := fun s member =>
      telling_segments p s (by rw [segments]; simp [member])
    have place := walk_eq_follow shown walked
    refine inside_of_depth (List.prefix_refl base) rfl stays _ ?_
    rw [List.concat_eq_append, entered_append, ← place, entered, if_neg onward]
    exact List.mem_append_right _ List.mem_cons_self

theorem Beneath.write (beneath : Beneath t target base p) {content : Bytes}
    (written : t.write p content = .ok t') : Within base t t' := by
  obtain ⟨destination, led, written⟩ := of_bind written
  cases destination with
  | directory l => cases written
  | entry parent name slashed =>
    cases slashed with
    | true => cases written
    | false =>
      obtain ⟨found, looked, put⟩ := of_bind written
      have item := look_eq looked
      have other : t.item? (parent ++ [name]) ≠ some .directory := by
        intro directory
        rw [item, directory] at put
        cases put
      cases found with
      | none =>
        cases put
        exact within_put (beneath.resolve led other) _ other
      | some there =>
        cases there with
        | file =>
          cases put
          exact within_put (beneath.resolve led other) _ other
        | directory => cases put

theorem Beneath.setMode (beneath : Beneath t target base p) {mode : Nat}
    (changed : t.setMode p mode = .ok t') : Within base t t' := by
  obtain ⟨destination, led, changed⟩ := of_bind changed
  cases destination with
  | directory l =>
    cases changed
    exact .refl base t
  | entry parent name slashed =>
    obtain ⟨found, looked, put⟩ := of_bind changed
    have item := look_eq looked
    cases found with
    | none => cases put
    | some there =>
      cases there with
      | directory =>
        cases put
        exact .refl base t
      | file =>
        have other : t.item? (parent ++ [name]) ≠ some .directory := by
          rw [← item]
          simp
        cases slashed with
        | true => cases put
        | false =>
          cases put
          exact within_put (beneath.resolve led other) _ other

end Below

end FileTree

open FileTree

namespace Unpack

variable {t : FileTree} {target : Path} {base : Location}

theorem of_enclosed? {name : String} {relative : Path} (enclosed : enclosed? name = some relative) :
    relative.isAbsolute = false ∧ ∃ d, depth? 0 relative.segments = some d := by
  unfold enclosed? at enclosed
  extract_lets p at enclosed
  split at enclosed
  · cases enclosed
  rename_i bare
  obtain ⟨d, stays, rfl⟩ := Option.map_eq_some_iff.mp enclosed
  rw [Bool.or_eq_true, not_or, Bool.not_eq_true, Bool.not_eq_true] at bare
  exact ⟨bare.2, d, stays⟩

theorem beneath_join (there : t.walk (t.origin target) target.segments = .ok base) {name : String}
    {relative : Path} (enclosed : enclosed? name = some relative) :
    Beneath t target base (target.join relative) := by
  obtain ⟨bare, d, stays⟩ := of_enclosed? enclosed
  exact ⟨there, Path.isAbsolute_join_of_relative bare, _, d, Path.segments_join bare, stays⟩

theorem within_writeEntry {out : Path} (beneath : Beneath t target base out)
    (look : FileTree → Bytes) (relative : Path) (start : Nat) (e : ArchiveEntry) :
    Within base t (writeEntry look out relative start e t).1 := by
  rw [writeEntry]
  split
  · exact .refl base t
  rename_i t₁ made
  have first := beneath.write made
  dsimp only
  split
  · exact first
  rename_i t₂ written
  have second := first.trans ((beneath.within first).write written)
  split
  · exact second
  split
  · exact second
  · rename_i t₃ changed
    exact second.trans ((beneath.within second).setMode changed)

/-- Unpacking an entry works inside the target, whatever the archive holds meanwhile. -/
theorem within_entry (look : FileTree → Bytes) (archive : Path)
    (there : t.walk (t.origin target) target.segments = .ok base) (e : ArchiveEntry) :
    Within base t (entry look archive target t e).1 := by
  rw [entry]
  split
  · exact .refl base t
  split
  · exact .refl base t
  rename_i relative enclosed
  have beneath := beneath_join there enclosed
  dsimp only
  split
  · have made := beneath.createAll rfl (List.prefix_refl _)
    split <;> rename_i result <;> rwa [result] at made
  split
  · exact within_writeEntry beneath look relative _ e
  rename_i parent up
  have made := beneath.createAll_parent up
  split
  · rename_i result
    rwa [result] at made
  · rename_i result
    rw [result] at made
    exact made.trans (within_writeEntry (beneath.within made) look relative _ e)

/-- Unpacking any entries works inside the target, up to the one that fails. -/
theorem within_entries (archive : Path)
    (there : t.walk (t.origin target) target.segments = .ok base) (es : List ArchiveEntry) :
    Within base t (entries archive target t es).1 := by
  induction es generalizing t with
  | nil => exact .refl base t
  | cons e es ih =>
    have first := within_entry (inPlace archive) archive there e
    rw [entries]
    split
    · rename_i result
      rwa [result] at first
    · rename_i result
      rw [result] at first
      have rest := first.trans (ih (first.walk there))
      split <;> rename_i others <;> rwa [others] at rest
    · rename_i result
      rw [result] at first
      exact first.trans (ih (first.walk there))

end Unpack

/-- What may come of a tree by unpacking below a target: what lies inside the target may change, and
the target and directories above it may be made where nothing was. -/
structure Confined (target : Path) (t t' : FileTree) : Prop where
  here : t'.here = t.here
  items : ∀ l, t'.item? l = t.item? l ∨ Inside (t.place target) l ∨
    l ∈ t.way target ∧ t.item? l = none ∧ t'.item? l = some .directory

theorem confined_createAll (t : FileTree) (target : Path) :
    Confined target t (t.createAll target).1 := by
  rcases createAll_eq t target with same | made
  · rw [same]
    exact ⟨rfl, fun _ => .inl rfl⟩
  · rw [made]
    exact ⟨here_createFrom _ _ _ _, fun l =>
      (item?_createFrom t _ false (telling_segments target) l).imp_right .inr⟩

/-- Once a target is made, the way to it is there. -/
theorem walk_createAll {t t₁ : FileTree} {target : Path} (made : t.createAll target = (t₁, none)) :
    t₁.walk (t₁.origin target) target.segments = .ok (t.place target) := by
  by_cases empty : target.bytes.isEmpty = true
  · rw [createAll, if_pos empty] at made
    cases made
    have none : target.segments = [] := by
      rw [Path.segments_eq, List.isEmpty_iff.mp empty]
      rfl
    rw [place, none]
    rfl
  · have created : t.createFrom (t.origin target) false target.segments = (t₁, none) := by
      rw [createAll, if_neg empty] at made
      split at made
      · cases made
      · exact (createFrom_shown _ _ _ _).trans made
    have here : t₁.here = t.here := by
      have same := here_createFrom t (t.origin target) false target.segments
      rwa [created] at same
    have none : (t.createFrom (t.origin target) false target.segments).2 = none :=
      congrArg Prod.snd created
    have walked := walk_createFrom (telling_segments target) none
    rw [created] at walked
    rw [origin_congr here]
    exact walked

/-- Unpacking an archive changes nothing outside the directory it is unpacked below but that it
makes that directory and those above it, whether it comes through or fails on the way. So it is
whatever entries the archive is read to have. -/
theorem unpack_confined (reader : ArchiveReader) (t : FileTree) (archive target : Path) :
    Confined target t (unpack reader t archive target).1 ∧
    ∀ t₁ es, t.createAll target = (t₁, none) →
      t₁.walk (t₁.origin target) target.segments = .ok (t.place target) ∧
      Confined target t (Unpack.entries archive target t₁ es).1 := by
  have after (t₁ : FileTree) (es : List ArchiveEntry) (made : t.createAll target = (t₁, none)) :
      Confined target t (Unpack.entries archive target t₁ es).1 := by
    have first := confined_createAll t target
    rw [made] at first
    have rest := Unpack.within_entries archive (walk_createAll made) es
    refine ⟨rest.here.trans first.here, fun l => ?_⟩
    by_cases inside : Inside (t.place target) l
    · exact .inr (.inl inside)
    · rw [rest.outside l inside]
      exact first.items l
  have unchanged : Confined target t t := ⟨rfl, fun _ => .inl rfl⟩
  refine ⟨?_, fun t₁ es made => ⟨walk_createAll made, after t₁ es made⟩⟩
  rw [unpack]
  split
  · exact unchanged
  · exact unchanged
  split
  · exact unchanged
  rename_i es _
  split
  · rename_i t₁ fault made
    exact (congrArg Prod.fst made) ▸ confined_createAll t target
  · rename_i t₁ made
    exact after t₁ es made

/-- An entry whose name goes back a step stays below the target, one that leads above it is passed
over. -/
theorem unpack_confined_roundabout :
    let t : FileTree := ⟨[([utf8 "a"], .file 0o644 (Archive.entryMark ++ List.replicate 26 0))], []⟩
    let target := Path.ofText "x"
    let named (name : String) : ArchiveEntry := ⟨name, .other, false, 0, 0, 0, 0, 0⟩
    let made := t.createAll target
    let unpacked := (Unpack.entries (Path.ofText "/a") target made.1
      [named "../y", named "b/../c"]).1
    made.2 = none ∧ Confined target t unpacked ∧
      unpacked.items.map Prod.fst = [[utf8 "a"], [utf8 "x"], [utf8 "x", utf8 "b"],
        [utf8 "x", utf8 "c"]] := by
  intro t target named made unpacked
  obtain ⟨_, confined⟩ := unpack_confined Archive.directory? t (Path.ofText "/a") target
  exact ⟨by decide, (confined made.1 _ rfl).2, by decide⟩

end LintBridge

import LintBridge.Proofs.Files.Following
import Mathlib.Data.List.Nodup
import Mathlib.Data.List.Perm.Subperm

namespace LintBridge

namespace FileTree

section Writing

variable {t t' : FileTree} {p : Path} {c : Bytes}

theorem put_put (t : FileTree) (l : Location) (item item' : FileItem) :
    (t.put l item).put l item' = t.put l item' := by
  by_cases there : t.items.any (fun entry => entry.1 == l) = true
  · have still : (t.items.map fun entry => if entry.1 == l then (l, item) else entry).any
        (fun entry => entry.1 == l) = true := by
      obtain ⟨entry, member, same⟩ := List.any_eq_true.mp there
      refine List.any_eq_true.mpr ⟨(l, item), List.mem_map.mpr ⟨entry, member, ?_⟩, by simp⟩
      rw [if_pos same]
    simp only [put, if_pos there, if_pos still, List.map_map]
    congr 1
    refine List.map_congr_left fun entry _ => ?_
    by_cases same : entry.1 = l <;> simp [same]
  · have others :
        t.items.map (fun entry => if entry.1 == l then (l, item') else entry) = t.items := by
      refine (List.map_congr_left fun entry member => if_neg fun same => there ?_).trans
        (List.map_id _)
      exact List.any_eq_true.mpr ⟨entry, member, same⟩
    have still : (t.items ++ [(l, item)]).any (fun entry => entry.1 == l) = true := by simp
    simp only [put, if_neg there, if_pos still, List.map_append, others]
    simp

/-- A path that leads to a name in a directory under which a file lies or can be made. -/
structure Writable (t : FileTree) (p : Path) (parent : Location) (name : Bytes) : Prop where
  led : t.resolve p = .ok (.entry parent name false)
  short : ¬maxName < name.length
  free : t.item? (parent ++ [name]) ≠ some .directory

theorem Writable.look {parent : Location} {name : Bytes} (way : t.Writable p parent name) :
    t.look parent name = .ok (t.item? (parent ++ [name])) := if_neg way.short

/-- A written file lies where the path leads. -/
theorem of_write (written : t.write p c = .ok t') : ∃ parent name mode,
    t.Writable p parent name ∧ t' = t.put (parent ++ [name]) (.file mode c) ∧
      ∀ c', t.write p c' = .ok (t.put (parent ++ [name]) (.file mode c')) := by
  obtain ⟨destination, led, put⟩ := of_bind written
  rcases destination with l | ⟨parent, name, _ | _⟩
  · cases put
  · obtain ⟨found, looked, put⟩ := of_bind put
    have item := look_eq looked
    have short := short_of_look looked
    rcases found with _ | _ | ⟨mode, old⟩
    · cases put
      refine ⟨parent, name, plainMode, ⟨led, short, by rw [← item]; rintro ⟨⟩⟩, rfl, fun c' => ?_⟩
      simp only [write, led, looked, bind, Except.bind]
      rfl
    · cases put
    · cases put
      refine ⟨parent, name, mode, ⟨led, short, by rw [← item]; rintro ⟨⟩⟩, rfl, fun c' => ?_⟩
      simp only [write, led, looked, bind, Except.bind]
      rfl
  · cases put

variable {parent : Location} {name : Bytes}

/-- The directories stay where a file is written. -/
theorem Writable.kept (way : t.Writable p parent name) (item : FileItem) (l : Location)
    (there : t.item? l = some .directory) :
    (t.put (parent ++ [name]) item).item? l = some .directory := by
  rw [item?_put (List.concat_ne_nil name parent), if_neg, there]
  rintro rfl
  exact way.free there

theorem Writable.put (way : t.Writable p parent name) (mode : Nat) (c : Bytes) :
    (t.put (parent ++ [name]) (.file mode c)).Writable p parent name ∧
      (t.put (parent ++ [name]) (.file mode c)).look parent name =
        .ok (some (.file mode c)) := by
  have item : (t.put (parent ++ [name]) (.file mode c)).item? (parent ++ [name]) =
      some (.file mode c) :=
    (item?_put (List.concat_ne_nil name parent)).trans (if_pos rfl)
  have still : (t.put (parent ++ [name]) (.file mode c)).Writable p parent name :=
    ⟨resolve_mono (way.kept _) (here_put t _ _) way.led, way.short, by rw [item]; nofun⟩
  exact ⟨still, still.look.trans (congrArg _ item)⟩

/-- A file that was written is read as it was written. -/
theorem read_write (written : t.write p c = .ok t') : t'.read p = .ok c := by
  obtain ⟨parent, name, mode, way, rfl, _⟩ := of_write written
  obtain ⟨still, looked⟩ := way.put mode c
  simp only [read, find, still.led, looked, bind, Except.bind]
  rfl

/-- Nothing is left of what a file held that is written again. -/
theorem write_write (written : t.write p c = .ok t') (c' : Bytes) :
    t'.write p c' = t.write p c' := by
  obtain ⟨parent, name, mode, way, rfl, again⟩ := of_write written
  obtain ⟨still, looked⟩ := way.put mode c
  rw [again, ← put_put t (parent ++ [name]) (.file mode c) (.file mode c')]
  simp only [write, still.led, looked, bind, Except.bind]
  rfl

theorem write_any (written : t.write p c = .ok t') (c' : Bytes) :
    ∃ t'', t.write p c' = .ok t'' := by
  obtain ⟨_, _, _, _, _, again⟩ := of_write written
  exact ⟨_, again c'⟩

theorem item?_erase_self {l : Location} (named : l ≠ []) : (t.erase l).item? l = none := by
  have none : (t.erase l).items.find? (fun entry => entry.1 == l) = none := by
    refine List.find?_eq_none.mpr fun entry member => ?_
    simpa using (List.mem_filter.mp member).2
  rw [item?, if_neg named, none, Option.map_none]

/-- A file that can be taken away is a file that can be read, and is missing then. -/
theorem of_remove (removed : t.remove p = .ok t') : t'.read p = .error .missing := by
  obtain ⟨destination, led, gone⟩ := of_bind removed
  match destination with
  | .directory l => cases gone
  | .entry parent name slashed =>
    obtain ⟨found, looked, gone⟩ := of_bind gone
    match found, slashed with
    | none, _ | some .directory, _ | some (.file _ _), true => cases gone
    | some (.file mode content), false =>
      cases gone
      have item := look_eq looked
      have kept (l : Location) (there : t.item? l = some .directory) :
          (t.erase (parent ++ [name])).item? l = some .directory := by
        rw [item?_erase, there]
        rintro rfl
        cases item.trans there
      have led' : (t.erase (parent ++ [name])).resolve p = .ok (.entry parent name false) :=
        resolve_mono kept rfl led
      have missing : (t.erase (parent ++ [name])).look parent name = .ok none := by
        unfold look at looked ⊢
        split at looked
        · cases looked
        · rename_i short
          rw [if_neg short, item?_erase_self (List.concat_ne_nil name parent)]
      simp only [read, find, led', missing, bind, Except.bind]
      rfl

theorem read_of_remove_error {fault : Fault} (refused : t.remove p = .error fault) :
    ∃ fault', t.read p = .error fault' := by
  cases value : t.read p with
  | error fault' => exact ⟨fault', rfl⟩
  | ok bytes =>
    -- a file that is read lies under a name without slashes behind it, and such a one can go
    obtain ⟨x, found, told⟩ := of_bind value
    obtain ⟨destination, led, found⟩ := of_bind found
    match destination with
    | .directory l =>
      cases found
      cases told
    | .entry parent name slashed =>
      obtain ⟨there, looked, found⟩ := of_bind found
      match there, slashed with
      | none, _ | some (.file _ _), true => cases found
      | some .directory, _ =>
        cases found
        cases told
      | some (.file mode content), false =>
        simp only [remove, led, looked, bind, Except.bind] at refused
        cases refused

/-- Where a file was to be taken away none is read. -/
theorem read_remove (t : FileTree) (p : Path) :
    ∃ fault, ((t.remove p).toOption.getD t).read p = .error fault := by
  cases removed : t.remove p with
  | error fault => exact read_of_remove_error removed
  | ok t' => exact ⟨.missing, of_remove removed⟩

end Writing

section Replacing

variable {t t' : FileTree}

theorem erase_put {l : Location} (named : l ≠ []) (absent : t.item? l = none) (item : FileItem) :
    (t.put l item).erase l = t := by
  rw [item?, if_neg named, Option.map_eq_none_iff, List.find?_eq_none] at absent
  have free : ¬t.items.any (fun entry => entry.1 == l) = true := fun taken => by
    obtain ⟨entry, member, same⟩ := List.any_eq_true.mp taken
    exact absent entry member same
  have kept : t.items.filter (fun entry => !(entry.1 == l)) = t.items :=
    List.filter_eq_self.mpr fun entry member => by simpa using absent entry member
  simp only [put, if_neg free, erase, List.filter_append, kept]
  simp

theorem spareName_injective : Function.Injective spareName := by
  intro m n same
  have texts : utf8Chars? (utf8 (".tmp" ++ toString m)) =
      utf8Chars? (utf8 (".tmp" ++ toString n)) := congrArg utf8Chars? same
  simp only [utf8, utf8Chars?_utf8Chars, String.toList_append, Option.some.injEq,
    List.append_cancel_left_eq, String.toList_inj] at texts
  have digits : Nat.toDigits 10 m = Nat.toDigits 10 n := String.ofList_injective texts
  exact Option.some.inj
    ((decimal?_toDigits m).symm.trans ((congrArg decimal? digits).trans (decimal?_toDigits n)))

/-- Of the names that are tried for a new file one is free: there are more than names are taken. -/
theorem item?_spare (t : FileTree) (l : Location) : t.item? (l ++ [t.spare l]) = none := by
  let place (n : Nat) : Location := l ++ [spareName n]
  have injective : Function.Injective place := fun m n same =>
    spareName_injective (List.singleton_inj.mp (List.append_cancel_left same))
  cases tried : (List.range (t.items.length + 1)).find? fun n => (t.item? (place n)).isNone with
  | some n =>
    have free := List.find?_some tried
    simp only [place] at tried free
    rw [spare, tried]
    exact Option.isNone_iff_eq_none.mp free
  | none =>
    have taken : (List.range (t.items.length + 1)).map place ⊆ t.items.map Prod.fst := by
      intro k member
      obtain ⟨n, within, rfl⟩ := List.mem_map.mp member
      have there := List.find?_eq_none.mp tried n within
      rw [item?, if_neg (List.concat_ne_nil _ _), Option.isNone_map, Option.isNone_iff_eq_none,
        List.find?_eq_none] at there
      simp only [not_forall, not_not, beq_iff_eq] at there
      obtain ⟨entry, listed, same⟩ := there
      exact List.mem_map.mpr ⟨entry, listed, same⟩
    have distinct : ((List.range (t.items.length + 1)).map place).Nodup :=
      List.Nodup.map injective List.nodup_range
    have short := (List.subperm_of_subset distinct taken).length_le
    rw [List.length_map, List.length_range, List.length_map] at short
    exact absurd short (Nat.not_succ_le_self _)

/-- A replacement that fails, at whatever step, leaves the files as they were. -/
theorem replace_failed {dir p : Path} {content : Bytes} {trouble : Trouble} {fault : Fault}
    (failed : t.replace dir p content trouble = (t', some fault)) : t' = t := by
  unfold replace at failed
  split at failed
  · cases failed
    rfl
  · cases failed
    rfl
  · dsimp only at failed
    split at failed
    · cases failed
    · cases failed
      rw [put_put]
      exact erase_put (List.concat_ne_nil _ _) (t.item?_spare _) _

end Replacing

end FileTree

end LintBridge

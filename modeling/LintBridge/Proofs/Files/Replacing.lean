import LintBridge.Files.Replace

namespace LintBridge

section Results

universe u v w

theorem of_bind {ε : Type u} {α β : Type v} {r : Except ε α} {f : α → Except ε β} {b : β}
    (done : (r >>= f) = .ok b) : ∃ a, r = .ok a ∧ f a = .ok b := by
  cases r with
  | error e => cases done
  | ok a => exact ⟨a, rfl, done⟩

theorem of_map {ε : Type u} {α : Type v} {β : Type w} {r : Except ε α} {f : α → β} {b : β}
    (done : r.map f = .ok b) : ∃ a, r = .ok a ∧ f a = b := by
  cases r with
  | error e => cases done
  | ok a => exact ⟨a, rfl, Except.ok.inj done⟩

theorem of_toOption {ε : Type u} {α : Type v} {r : Except ε α} {a : α}
    (value : r.toOption = some a) : r = .ok a := by
  cases r with
  | error e => cases value
  | ok b => rw [Option.some.inj value]

end Results

namespace FileTree

section Items

variable {t : FileTree} {l k : Location} {item : FileItem}

theorem item?_put (named : l ≠ []) :
    (t.put l item).item? k = if k = l then some item else t.item? k := by
  by_cases root : k = []
  · rw [root, if_neg named.symm]
    rfl
  have key : (fun entry => entry.1 == k) ∘
      (fun entry => if entry.1 == l then (l, item) else entry) =
      fun entry : Location × FileItem => entry.1 == k := by
    funext entry
    by_cases same : entry.1 = l <;> simp [same]
  simp only [item?, if_neg root, put]
  split
  · rename_i there
    rw [List.find?_map, key]
    by_cases same : k = l
    · subst same
      obtain ⟨entry, member, found⟩ := List.any_eq_true.mp there
      have some : (t.items.find? fun entry => entry.1 == k).isSome :=
        List.find?_isSome.mpr ⟨entry, member, found⟩
      obtain ⟨first, at'⟩ := Option.isSome_iff_exists.mp some
      rw [at', if_pos rfl, Option.map_some, Option.map_some, if_pos (List.find?_some at')]
    · rw [if_neg same]
      cases at' : t.items.find? fun entry => entry.1 == k with
      | none => rfl
      | some first =>
        have found := List.find?_some at'
        simp only [beq_iff_eq] at found
        simp [found, same]
  · rename_i absent
    rw [List.find?_append]
    by_cases same : k = l
    · subst same
      have none : t.items.find? (fun entry => entry.1 == k) = none := by
        rw [List.find?_eq_none]
        exact fun entry member found => absent (List.any_eq_true.mpr ⟨entry, member, found⟩)
      simp [none]
    · have none : (l == k) = false := by simp [Ne.symm same]
      simp [none, same]

theorem item?_erase (other : k ≠ l) : (t.erase l).item? k = t.item? k := by
  by_cases root : k = []
  · rw [root]
    rfl
  simp only [item?, if_neg root, erase, List.find?_filter]
  congr 2
  funext entry
  by_cases same : entry.1 = k
  · simp [same, other]
  · simp [same]

end Items

section Paths

variable {t t' : FileTree}

/-- A way through directories stays where they stay. -/
theorem walk_mono (kept : ∀ l, t.item? l = some .directory → t'.item? l = some .directory)
    {l last : Location} {pieces : List Bytes} (walked : t.walk l pieces = .ok last) :
    t'.walk l pieces = .ok last := by
  induction pieces generalizing l with
  | nil => exact walked
  | cons piece pieces ih =>
    rw [walk] at walked ⊢
    split
    · rename_i idle
      rw [if_pos idle] at walked
      exact ih walked
    rename_i shown
    rw [if_neg shown] at walked
    split
    · rename_i back
      rw [if_pos back] at walked
      exact ih walked
    rename_i onward
    rw [if_neg onward] at walked
    split at walked
    · cases walked
    · cases walked
    · cases walked
    · rename_i there
      have same : t'.look l piece = .ok (some .directory) := by
        unfold look at there ⊢
        split at there
        · cases there
        · rename_i short
          rw [if_neg short, kept _ (Except.ok.inj there)]
      rw [same]
      exact ih walked

/-- A path leads where it led as long as the directories stay. -/
theorem resolve_mono (kept : ∀ l, t.item? l = some .directory → t'.item? l = some .directory)
    (here : t'.here = t.here) {p : Path} {d : Destination} (led : t.resolve p = .ok d) :
    t'.resolve p = .ok d := by
  have start : t'.origin p = t.origin p := by rw [origin, origin, here]
  unfold resolve at led ⊢
  -- each of the three ways follows pieces first, and tells where they have led then
  have onward {pieces : List Bytes} {tell : Location → Destination}
      (led : (do let l ← t.walk (t.origin p) pieces; pure (tell l)) = .ok d) :
      (do let l ← t'.walk (t.origin p) pieces; pure (tell l)) = .ok d := by
    obtain ⟨l, walked, told⟩ := of_bind led
    rw [walk_mono kept walked]
    exact told
  obtain ⟨u, checked, led⟩ := of_bind led
  rw [checked, start, show (.ok u : Except Fault Unit) = pure u from rfl, pure_bind]
  dsimp only at led ⊢
  split at led
  · exact onward led
  · split at led
    · rename_i marks
      rw [if_pos marks]
      exact onward led
    · rename_i marks
      rw [if_neg marks]
      exact onward led

end Paths

section Contents

variable {t t' : FileTree}

theorem short_of_look {parent : Location} {name : Bytes} {found : Option FileItem}
    (looked : t.look parent name = .ok found) : ¬maxName < name.length := fun long => by
  rw [look, if_pos long] at looked
  cases looked

/-- What a renamed file has come to: it lies where the path leads, every other name holds what it
held, and no directory was in its way. -/
theorem of_rename {source : Location} {p : Path} {item : FileItem}
    (there : t.item? source = some item) (renamed : t.rename source p = .ok t') :
    ∃ parent name, t.resolve p = .ok (.entry parent name false) ∧
      (∃ x, t.look parent name = .ok x ∧ x ≠ some .directory) ∧
      t' = (t.erase source).put (parent ++ [name]) item := by
  obtain ⟨d, led, renamed⟩ := of_bind renamed
  match d with
  | .directory l => cases renamed
  | .entry parent name true => cases renamed
  | .entry parent name false =>
    obtain ⟨x, looked, renamed⟩ := of_bind renamed
    rw [there] at renamed
    cases x with
    | none =>
      cases renamed
      exact ⟨parent, name, led, ⟨none, looked, nofun⟩, rfl⟩
    | some x =>
      cases x with
      | directory => cases renamed
      | file mode content =>
        cases renamed
        exact ⟨parent, name, led, ⟨_, looked, nofun⟩, rfl⟩

/-- A file that was renamed to a path is read there. -/
theorem read_rename {source : Location} {p : Path} {mode : Nat} {content : Bytes}
    (there : t.item? source = some (.file mode content)) (renamed : t.rename source p = .ok t') :
    t'.read p = .ok content := by
  obtain ⟨parent, name, led, ⟨x, looked, free⟩, rfl⟩ := of_rename there renamed
  have named : parent ++ [name] ≠ [] := by simp
  have short := short_of_look looked
  rw [look, if_neg short] at looked
  cases looked
  have kept (l : Location) (directory : t.item? l = some .directory) :
      ((t.erase source).put (parent ++ [name]) (.file mode content)).item? l = some .directory := by
    have other : l ≠ source := by
      rintro rfl
      rw [there] at directory
      cases directory
    rw [item?_put named, if_neg, item?_erase other, directory]
    rintro rfl
    exact free directory
  have here : ((t.erase source).put (parent ++ [name]) (.file mode content)).here = t.here := by
    unfold put
    split <;> rfl
  have found := resolve_mono kept here led
  have item : ((t.erase source).put (parent ++ [name]) (.file mode content)).look parent name =
      .ok (some (.file mode content)) := by
    rw [look, if_neg short, item?_put named, if_pos rfl]
  simp only [read, find, found, item, bind, Except.bind]
  rfl

theorem of_attempt {α : Type} {trouble : Trouble} {step : ReplaceStep} {f : Unit → Except Fault α}
    {a : α} (done : (attempt trouble step >>= f) = .ok a) : f () = .ok a := by
  unfold attempt at done
  split at done
  · cases done
  · exact done

/-- The content at a path is the one that took its place. -/
theorem read_replace {dir p : Path} {content : Bytes} {trouble : Trouble}
    (replaced : t.replace dir p content trouble = (t', none)) : t'.read p = .ok content := by
  unfold replace at replaced
  split at replaced
  · cases replaced
  · cases replaced
  · rename_i l _ _ _
    dsimp only at replaced
    split at replaced
    · rename_i placed
      cases replaced
      have named : l ++ [t.spare l] ≠ [] := by simp
      have renamed := of_attempt (of_attempt (of_attempt placed))
      exact read_rename ((item?_put named).trans (if_pos rfl)) renamed
    · cases replaced

end Contents

end FileTree

end LintBridge

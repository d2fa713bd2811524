import LintBridge.Proofs.Files.Writing
import LintBridge.Proofs.Install.Confined

namespace LintBridge

theorem Path.segments_concat {p : Path} {before : List Bytes} {name : Bytes}
    (parts : p.pieces = before ++ [name]) (shown : Path.isIdle name = false) :
    p.segments = Path.shown before ++ [name] := by
  rw [Path.segments, parts, List.filter_append, List.filter_cons_of_pos (by simp [shown]),
    List.filter_nil, Path.shown]

namespace FileTree

section Leading

variable {t t' : FileTree} {p : Path} {l m k : Location} {ss : List Bytes}

theorem follow_append (l : Location) (ss rest : List Bytes) :
    follow l (ss ++ rest) = follow (follow l ss) rest := by
  induction ss generalizing l with
  | nil => rfl
  | cons s ss ih =>
    rw [List.cons_append, follow, follow]
    split <;> exact ih _

theorem walk_telling {s : Bytes} (telling : Path.isIdle s = false) (onward : s ≠ Path.dotDot)
    (walked : t.walk l (s :: ss) = .ok m) :
    t.look l s = .ok (some .directory) ∧ t.walk (l ++ [s]) ss = .ok m := by
  rw [walk, telling, if_neg Bool.false_ne_true, if_neg onward] at walked
  split at walked
  · cases walked
  · cases walked
  · cases walked
  · rename_i there
    exact ⟨there, walked⟩

/-- A walk that comes through has entered directories only. -/
theorem item?_of_walk (telling : ∀ s ∈ ss, Path.isIdle s = false)
    (walked : t.walk l ss = .ok m) (member : k ∈ entered l ss) :
    t.item? k = some .directory := by
  induction ss generalizing l with
  | nil => cases member
  | cons s ss ih =>
    obtain ⟨shown, others⟩ := List.forall_mem_cons.mp telling
    rw [entered] at member
    split at member
    · rename_i back
      rw [walk, shown, if_neg Bool.false_ne_true, if_pos back] at walked
      exact ih others walked member
    · rename_i onward
      obtain ⟨there, walked⟩ := walk_telling shown onward walked
      rcases List.mem_cons.mp member with rfl | later
      · exact look_directory there
      · exact ih others walked later

/-- Once all directories on a way are made, they are there, and all else is as it was. -/
theorem item?_createFrom_of_made {fresh : Bool} (telling : ∀ s ∈ ss, Path.isIdle s = false)
    (made : (t.createFrom l fresh ss).2 = none) (k : Location) :
    (t.createFrom l fresh ss).1.item? k =
      (t.item? k).or (if k ∈ entered l ss then some .directory else none) := by
  have walked := walk_createFrom telling made
  rcases item?_createFrom t l fresh telling k with same | ⟨member, missing, there⟩
  · by_cases member : k ∈ entered l ss
    · have there := item?_of_walk telling walked member
      rw [there, ← same, there]
      rfl
    · rw [same, if_neg member, Option.or_none]
  · rw [there, missing, if_pos member]
    rfl

/-- The directories on two ways are those on the one or the other. -/
theorem directory_append (l : Location) (ls rest : List Location) :
    (if l ∈ ls ++ rest then some FileItem.directory else none) =
      (if l ∈ ls then some .directory else none).or
        (if l ∈ rest then some .directory else none) := by
  by_cases before : l ∈ ls <;> simp [before]

theorem place_of_resolve {parent : Location} {name : Bytes} {slashed : Bool}
    (led : t.resolve p = .ok (.entry parent name slashed)) : t.place p = parent ++ [name] := by
  obtain ⟨onward, before, parts, walked⟩ := of_resolve_entry led
  have telling : ∀ s ∈ before, Path.isIdle s = false := fun s member =>
    telling_segments p s (by rw [parts]; exact List.mem_append_left _ member)
  rw [place, parts, follow_append, ← walk_eq_follow telling walked, follow, if_neg onward]
  rfl

/-- What can be read is a file that lies where the path leads. -/
theorem of_read {c : Bytes} (value : t.read p = .ok c) : ∃ parent name mode,
    t.Writable p parent name ∧ t.item? (parent ++ [name]) = some (.file mode c) := by
  obtain ⟨item, found, told⟩ := of_bind value
  obtain ⟨destination, led, found⟩ := of_bind found
  match destination with
  | .directory l =>
    cases found
    cases told
  | .entry parent name slashed =>
    obtain ⟨there, looked, found⟩ := of_bind found
    match there, slashed with
    | none, _ | some (.file _ _), true => cases found
    | some .directory, _ =>
      cases found
      cases told
    | some (.file mode content), false =>
      cases found
      cases told
      have lies := (look_eq looked).symm
      exact ⟨parent, name, mode, ⟨led, short_of_look looked, by rw [lies]; rintro ⟨⟩⟩, lies⟩

variable {parent : Location} {name : Bytes} {mode : Nat} {c : Bytes}

theorem Writable.find (way : t.Writable p parent name)
    (there : t.item? (parent ++ [name]) = some (.file mode c)) :
    t.find p = .ok (.file mode c) := by
  have looked := way.look
  rw [there] at looked
  simp only [FileTree.find, way.led, looked, bind, Except.bind]
  rfl

theorem Writable.read (way : t.Writable p parent name)
    (there : t.item? (parent ++ [name]) = some (.file mode c)) : t.read p = .ok c := by
  rw [FileTree.read, way.find there]
  rfl

/-- A way stays as long as the directories do, and the file is none. -/
theorem Writable.mono (way : t.Writable p parent name)
    (kept : ∀ l, t.item? l = some .directory → t'.item? l = some .directory)
    (here : t'.here = t.here) (free : t'.item? (parent ++ [name]) ≠ some .directory) :
    t'.Writable p parent name :=
  ⟨resolve_mono kept here way.led, way.short, free⟩

/-- A file is read as it was while the directories stay and nothing is done to it. -/
theorem read_mono (value : t.read p = .ok c)
    (kept : ∀ l, t.item? l = some .directory → t'.item? l = some .directory)
    (here : t'.here = t.here) (same : t'.item? (t.place p) = t.item? (t.place p)) :
    t'.read p = .ok c := by
  obtain ⟨parent, name, mode, way, lies⟩ := of_read value
  rw [place_of_resolve way.led, lies] at same
  exact (way.mono kept here (by rw [same]; rintro ⟨⟩)).read same

/-- A file is read as it was when another one is written. -/
theorem Writable.read_other (way : t.Writable p parent name) {q : Path} (value : t.read q = .ok c)
    (other : t.place q ≠ parent ++ [name]) (item : FileItem) :
    (t.put (parent ++ [name]) item).read q = .ok c :=
  read_mono value (way.kept item) (here_put t _ item)
    ((item?_put (List.concat_ne_nil name parent)).trans (if_neg other))

theorem Writable.setMode (way : t.Writable p parent name)
    (there : t.item? (parent ++ [name]) = some (.file mode c)) (mode' : Nat) :
    t.setMode p mode' = .ok (t.put (parent ++ [name]) (.file mode' c)) := by
  have looked := way.look
  rw [there] at looked
  simp only [FileTree.setMode, way.led, looked, bind, Except.bind]
  rfl

/-- A directory is found as long as the directories stay. -/
theorem find_mono (found : t.find p = .ok .directory)
    (kept : ∀ l, t.item? l = some .directory → t'.item? l = some .directory)
    (here : t'.here = t.here) : t'.find p = .ok .directory := by
  obtain ⟨destination, led, found⟩ := of_bind found
  have led' := resolve_mono kept here led
  rcases destination with l | ⟨parent, name, slashed⟩
  · simp only [FileTree.find, led', bind, Except.bind]
    rfl
  obtain ⟨there, looked, found⟩ := of_bind found
  rcases there with _ | _ | ⟨mode, c⟩
  · cases found
  · have looked' : t'.look parent name = .ok (some .directory) := by
      rw [look, if_neg (short_of_look looked), kept _ (look_directory looked)]
    simp only [FileTree.find, led', looked', bind, Except.bind]
    rfl
  · cases slashed <;> cases found

/-- A path whose segments lead through directories is a directory. -/
theorem find_of_walk (checked : checkPath p = .ok ())
    (walked : t.walk (t.origin p) p.segments = .ok m) : t.find p = .ok .directory := by
  have through : t.walk (t.origin p) p.pieces = .ok m := (walk_shown t _ p.pieces).symm.trans walked
  have parts := (p.pieces.reverse.takeWhile_append_dropWhile (p := List.isEmpty)).symm
  cases named : p.pieces.reverse.dropWhile List.isEmpty with
  | nil =>
    have resolved : t.resolve p = .ok (.directory (t.origin p)) := by
      simp only [resolve, checked, named, walk, bind, Except.bind]
      rfl
    simp only [FileTree.find, resolved, bind, Except.bind]
    rfl
  | cons name before =>
    rw [named] at parts
    have turned := congrArg List.reverse parts
    rw [List.reverse_reverse, List.reverse_append] at turned
    rw [turned, walk_append] at through
    obtain ⟨m', walked, _⟩ := of_bind through
    by_cases marks : (Path.isIdle name || name == Path.dotDot) = true
    · have resolved : t.resolve p = .ok (.directory m') := by
        simp only [resolve, checked, named, bind, Except.bind, marks, if_true, walked]
        rfl
      simp only [FileTree.find, resolved, bind, Except.bind]
      rfl
    · rw [List.reverse_cons, walk_append] at walked
      obtain ⟨parent, walked, last⟩ := of_bind walked
      have resolved : t.resolve p = .ok (.entry parent name
          (decide ((name :: before).length < p.pieces.reverse.length))) := by
        simp only [resolve, checked, named, bind, Except.bind, if_neg marks, walked]
        rfl
      rw [Bool.or_eq_true, not_or, Bool.not_eq_true, beq_iff_eq] at marks
      obtain ⟨there, _⟩ := walk_telling marks.1 marks.2 last
      simp only [FileTree.find, resolved, there, bind, Except.bind]
      rfl

end Leading

section Below

variable {t t₁ : FileTree} {target q : Path} {base : Location} {ss : List Bytes}

theorem of_createAll (made : t.createAll q = (t₁, none)) :
    q.bytes = [] ∧ t₁ = t ∨
      checkPath q = .ok () ∧ t.createFrom (t.origin q) false q.segments = (t₁, none) := by
  rw [createAll] at made
  split at made
  · rename_i empty
    cases made
    exact .inl ⟨List.isEmpty_iff.mp empty, rfl⟩
  split at made
  · cases made
  · rename_i checked
    exact .inr ⟨checked, (createFrom_shown _ _ _ _).trans made⟩

/-- What is there stays when directories are made. -/
theorem item?_createAll_of_some {l : Location} {item : FileItem} (there : t.item? l = some item)
    (q : Path) : (t.createAll q).1.item? l = some item := by
  rcases createAll_eq t q with same | made
  · rw [same, there]
  · rw [made]
    rcases item?_createFrom t (t.origin q) false (telling_segments q) l with same | ⟨_, missing, _⟩
    · rw [same, there]
    · rw [there] at missing
      cases missing

theorem here_createAll (t : FileTree) (q : Path) : (t.createAll q).1.here = t.here := by
  rcases createAll_eq t q with same | made
  · rw [same]
  · rw [made, here_createFrom]

/-- A file is read as it was when directories are made. -/
theorem read_createAll {p : Path} {c : Bytes} (value : t.read p = .ok c) (q : Path) :
    (t.createAll q).1.read p = .ok c := by
  obtain ⟨parent, name, mode, way, lies⟩ := of_read value
  rw [← place_of_resolve way.led] at lies
  exact read_mono value (fun l there => item?_createAll_of_some there q) (here_createAll t q)
    ((item?_createAll_of_some lies q).trans lies.symm)

/-- Directories that are made are there, with those above them, and all else is as it was. -/
theorem item?_createAll (made : t.createAll q = (t₁, none)) (l : Location) : t₁.item? l =
    (t.item? l).or (if l ∈ t.way q then some .directory else none) := by
  obtain ⟨empty, rfl⟩ | ⟨_, created⟩ := of_createAll made
  · have none : q.segments = [] := by
      rw [Path.segments_eq, empty]
      rfl
    rw [way, none, entered, if_neg List.not_mem_nil, Option.or_none]
  · have items := item?_createFrom_of_made (telling_segments q) (congrArg Prod.snd created) l
    rwa [created] at items

/-- A directory that is made is there, with those on the way to it. -/
theorem standing_createAll (made : t.createAll q = (t₁, none)) {l : Location}
    (member : l ∈ t.way q) : t₁.item? l = some .directory := by
  have here := here_createAll t q
  rw [made] at here
  rw [way, ← origin_congr here] at member
  exact item?_of_walk (telling_segments q) (walk_createAll made) member

/-- The way to a path below a target goes on from the target. -/
theorem way_below (there : t.walk (t.origin target) target.segments = .ok base)
    (start : q.isAbsolute = target.isAbsolute) (parts : q.segments = target.segments ++ ss) :
    t.way q = t.way target ++ entered base ss := by
  rw [way, way, origin, start, ← origin, parts, entered_append,
    ← walk_eq_follow (telling_segments target) there]

/-- Directories that are made below a target are there, and all else is as it was. -/
theorem item?_createAll_below (there : t.walk (t.origin target) target.segments = .ok base)
    (start : q.isAbsolute = target.isAbsolute) (parts : q.segments = target.segments ++ ss)
    (made : t.createAll q = (t₁, none)) (l : Location) : t₁.item? l =
      (t.item? l).or (if l ∈ entered base ss then some .directory else none) := by
  rw [item?_createAll made, way_below there start parts]
  by_cases above : l ∈ t.way target
  · rw [item?_of_walk (telling_segments target) there above]
    rfl
  · simp only [List.mem_append, above, false_or]

end Below

section Free

variable {t t₁ : FileTree} {target p q : Path} {base l parent : Location} {ss : List Bytes}
  {name : Bytes}

/-- What is true of a path is true of a part at its front. -/
theorem checkPath_of_front (checked : checkPath p = .ok ()) (front : q.bytes <+: p.bytes) :
    q.bytes = [] ∨ checkPath q = .ok () := by
  by_cases empty : q.bytes.isEmpty = true
  · exact .inl (List.isEmpty_iff.mp empty)
  refine .inr ?_
  unfold checkPath at checked ⊢
  split at checked
  · cases checked
  rename_i plain
  split at checked
  · cases checked
  split at checked
  · cases checked
  rename_i fits
  have plain' : ¬q.bytes.contains 0 = true := by
    rw [List.contains_iff_mem] at plain ⊢
    exact fun member => plain (front.subset member)
  rw [if_neg plain', if_neg empty, if_neg fun long => fits (long.trans_le front.length_le)]

/-- A path whose last piece is a name leads to that name in the directory above. -/
theorem resolve_of_pieces {before : List Bytes} (checked : checkPath p = .ok ())
    (parts : p.pieces = before ++ [name]) (shown : Path.isIdle name = false)
    (onward : name ≠ Path.dotDot)
    (walked : t.walk (t.origin p) p.segments.dropLast = .ok parent) :
    t.resolve p = .ok (.entry parent name false) := by
  rw [Path.segments_concat parts shown, List.dropLast_concat, walk_shown] at walked
  have some : name.isEmpty = false := by
    rw [Path.isIdle, Bool.or_eq_false_iff] at shown
    exact shown.1
  have named : p.pieces.reverse.dropWhile List.isEmpty = name :: before.reverse := by
    rw [parts, List.reverse_append, List.reverse_singleton, List.singleton_append,
      List.dropWhile_cons_of_neg (by simp [some])]
  have marks : (Path.isIdle name || name == Path.dotDot) = false := by simp [shown, onward]
  simp only [resolve, checked, named, bind, Except.bind, marks, Bool.false_eq_true, if_false,
    List.reverse_reverse, walked]
  rw [parts, List.reverse_append, List.reverse_singleton, List.singleton_append,
    decide_eq_false (Nat.lt_irrefl _)]
  rfl

theorem Writable.write (way : t.Writable p parent name) (c : Bytes) :
    ∃ mode, t.write p c = .ok (t.put (parent ++ [name]) (.file mode c)) := by
  have looked := way.look
  cases there : t.item? (parent ++ [name]) with
  | none =>
    rw [there] at looked
    refine ⟨plainMode, ?_⟩
    simp only [FileTree.write, way.led, looked, bind, Except.bind]
    rfl
  | some item =>
    rw [there] at looked
    cases item with
    | directory => exact absurd there way.free
    | file mode old =>
      refine ⟨mode, ?_⟩
      simp only [FileTree.write, way.led, looked, bind, Except.bind]
      rfl

theorem Writable.remove {mode : Nat} {c : Bytes} (way : t.Writable p parent name)
    (there : t.item? (parent ++ [name]) = some (.file mode c)) :
    t.remove p = .ok (t.erase (parent ++ [name])) := by
  have looked := way.look
  rw [there] at looked
  simp only [FileTree.remove, way.led, looked, bind, Except.bind]
  rfl

/-- A path with the segments of one that is made is made with it. -/
theorem createAll_congr (made : t.createAll p = (t₁, none)) (start : q.isAbsolute = p.isAbsolute)
    (parts : q.segments = p.segments) (checked : q.bytes = [] ∨ checkPath q = .ok ()) :
    t.createAll q = (t₁, none) := by
  have created : t.createFrom (t.origin q) false q.segments = (t₁, none) := by
    rw [origin, start, ← origin, parts]
    obtain ⟨empty, rfl⟩ | ⟨_, created⟩ := of_createAll made
    · rw [Path.segments_eq, empty]
      rfl
    · exact created
  rw [createAll]
  rcases checked with empty | checked
  · rw [if_pos (List.isEmpty_iff.mpr empty)]
    rw [Path.segments_eq, empty] at created
    exact created
  split
  · rename_i empty
    rw [Path.segments_eq, List.isEmpty_iff.mp empty] at created
    exact created
  · rw [checked]
    exact (createFrom_shown _ _ _ _).symm.trans created

end Free

end FileTree

end LintBridge

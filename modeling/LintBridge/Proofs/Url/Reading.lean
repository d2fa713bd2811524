import LintBridge.Proofs.Url.FileUrl

namespace LintBridge

namespace Url

/-- The text of a URL that a name can be put behind: it has no query and no fragment, and ends in
neither a slash, nor what is read as one, nor a blank. -/
structure Stem (cs : List Char) : Prop where
  query : '?' ∉ cs
  fragment : '#' ∉ cs
  last : ∀ c ∈ cs.getLast?, 0x20 < c.toNat ∧ isSeparator true c = false

instance (cs : List Char) : Decidable (Stem cs) :=
  decidable_of_iff (cs.contains '?' = false ∧ cs.contains '#' = false ∧
      (cs.getLast?.all fun c => 0x20 < c.toNat && !isSeparator true c) = true) <| by
    simp only [List.contains_eq_mem, decide_eq_false_iff_not, Option.all_eq_true, Bool.and_eq_true,
      decide_eq_true_eq, Bool.not_eq_true']
    exact ⟨fun ⟨query, fragment, last⟩ => ⟨query, fragment, last⟩,
      fun ⟨query, fragment, last⟩ => ⟨query, fragment, last⟩⟩

/-- The text of names with slashes between them, as it stands in a URL. -/
def Inside (cs : List Char) : Prop := ∀ c ∈ cs, c = '/' ∨ Percent.isNameChar c = true

section Reading

variable {cs more : List Char}

theorem Inside.printed (inside : Inside cs) :
    ∀ c ∈ '/' :: cs, 0x20 < c.toNat ∧ c ≠ '?' ∧ c ≠ '#' ∧ c ≠ '\\' := by
  intro c member
  rcases List.mem_cons.mp member with rfl | own
  · decide
  rcases inside c own with rfl | name
  · decide
  · obtain ⟨low, _, kept, _, plain⟩ := Percent.isNameChar_bounds name
    refine ⟨low, ?_, ?_, plain⟩ <;> rintro rfl <;> exact absurd kept (by decide)

theorem getLast?_of_dropWhile {p : Char → Bool} {c : Char}
    (last : (cs.dropWhile p).getLast? = some c) : cs.getLast? = some c := by
  rw [← List.takeWhile_append_dropWhile (p := p) (l := cs), List.getLast?_append, last]
  rfl

/-- A text that does not end in a blank loses only those in front, and its tabs and line breaks. -/
theorem clean_eq (closed : ∀ c ∈ cs.getLast?, 0x20 < c.toNat) : clean cs =
    (cs.dropWhile fun c => decide (c.toNat ≤ 0x20)).filter
      fun c => c != '\t' && c != '\n' && c != '\r' := by
  have stop : (cs.dropWhile fun c => decide (c.toNat ≤ 0x20)).reverse.dropWhile
      (fun c => decide (c.toNat ≤ 0x20)) =
      (cs.dropWhile fun c => decide (c.toNat ≤ 0x20)).reverse := by
    cases turned : (cs.dropWhile fun c => decide (c.toNat ≤ 0x20)).reverse with
    | nil => rfl
    | cons c front =>
      have last : (cs.dropWhile fun c => decide (c.toNat ≤ 0x20)).getLast? = some c := by
        rw [← List.head?_reverse, turned, List.head?_cons]
      have shown := closed c (getLast?_of_dropWhile last)
      rw [List.dropWhile_cons, decide_eq_false (by omega)]
      rfl
  simp only [clean, stop, List.reverse_reverse]

theorem getLast?_clean (closed : ∀ c ∈ cs.getLast?, 0x20 < c.toNat) :
    (clean cs).getLast? = cs.getLast? := by
  cases last : cs.getLast? with
  | none =>
    rw [List.getLast?_eq_none_iff.mp last]
    rfl
  | some c =>
    have shown := closed c last
    obtain ⟨front, rfl⟩ := List.getLast?_eq_some_iff.mp last
    have behind : ∃ front', (front ++ [c]).dropWhile (fun c => decide (c.toNat ≤ 0x20)) =
        front' ++ [c] := by
      rw [List.dropWhile_append, List.dropWhile_cons, decide_eq_false (by omega)]
      split
      · exact ⟨[], rfl⟩
      · exact ⟨_, rfl⟩
    obtain ⟨front', behind⟩ := behind
    rw [clean_eq closed, behind, List.filter_append,
      List.filter_cons_of_pos (by exact kept_of_printed shown), List.filter_nil,
      List.getLast?_concat]

theorem clean_append (closed : ∀ c ∈ cs.getLast?, 0x20 < c.toNat)
    (printed : ∀ c ∈ more, 0x20 < c.toNat) : clean (cs ++ more) = clean cs ++ more := by
  have own := clean_of_printed printed
  rw [clean_eq fun c last => printed c (List.mem_of_getLast? last)] at own
  have closed' : ∀ c ∈ (cs ++ more).getLast?, 0x20 < c.toNat := by
    intro c last
    rw [List.getLast?_append, Option.mem_def, Option.or_eq_some_iff] at last
    rcases last with later | ⟨_, last⟩
    · exact printed c (List.mem_of_getLast? later)
    · exact closed c last
  rw [clean_eq closed', clean_eq closed, List.dropWhile_append]
  split
  · rename_i none
    rw [own, List.isEmpty_iff.mp none]
    rfl
  · rw [List.filter_append,
      List.filter_eq_self.mpr fun c member => kept_of_printed (printed c member)]

/-- A text that stops being of some kind, or has something behind it that is not, is cut there
whatever else follows. -/
theorem cut_append {p : Char → Bool}
    (stop : cs.dropWhile p ≠ [] ∨ ∀ c ∈ more.head?, p c = false) :
    (cs ++ more).takeWhile p = cs.takeWhile p ∧
      (cs ++ more).dropWhile p = cs.dropWhile p ++ more := by
  induction cs with
  | nil =>
    have first := stop.resolve_left fun some => some rfl
    cases more with
    | nil => exact ⟨rfl, rfl⟩
    | cons c more =>
      rw [List.nil_append, List.takeWhile_cons, List.dropWhile_cons, first c rfl]
      exact ⟨rfl, rfl⟩
  | cons c cs ih =>
    rw [List.dropWhile_cons] at stop
    rw [List.cons_append, List.takeWhile_cons, List.takeWhile_cons, List.dropWhile_cons,
      List.dropWhile_cons]
    cases inside : p c with
    | true =>
      rw [inside] at stop
      obtain ⟨front, behind⟩ := ih stop
      exact ⟨congrArg (c :: ·) front, behind⟩
    | false => exact ⟨rfl, rfl⟩

/-- Whether a character may stand in a scheme. -/
def inScheme (c : Char) : Bool := isAsciiLetter c || isAsciiDigit c || "+-.".toList.contains c

theorem scheme?_eq_some_iff {scheme : String} {rest : List Char} :
    scheme? cs = some (scheme, rest) ↔ (∃ c ∈ cs.head?, isAsciiLetter c = true) ∧
      cs.dropWhile inScheme = ':' :: rest ∧
      String.ofList ((cs.takeWhile inScheme).map lowerAscii) = scheme := by
  cases cs with
  | nil => exact ⟨nofun, fun ⟨⟨_, first, _⟩, _⟩ => by cases first⟩
  | cons first cs =>
    simp only [List.head?_cons, Option.mem_def, Option.some.injEq, exists_eq_left']
    rw [scheme?]
    by_cases letter : isAsciiLetter first = true
    · rw [if_pos letter]
      split
      · rename_i rest' behind
        have behind' : (first :: cs).dropWhile inScheme = ':' :: rest' := behind
        rw [behind', Option.some.injEq, Prod.mk.injEq, List.cons.injEq]
        exact ⟨fun ⟨name, same⟩ => ⟨letter, ⟨rfl, same⟩, name⟩,
          fun ⟨_, ⟨_, same⟩, name⟩ => ⟨name, same⟩⟩
      · rename_i other
        exact ⟨nofun, fun ⟨_, behind, _⟩ => absurd behind (other rest)⟩
    · rw [if_neg letter]
      exact ⟨nofun, fun ⟨letter', _⟩ => absurd letter' letter⟩

/-- What stands behind a URL is behind its scheme. -/
theorem scheme?_append {scheme : String} {rest : List Char}
    (found : scheme? cs = some (scheme, rest)) :
    scheme? (cs ++ more) = some (scheme, rest ++ more) := by
  obtain ⟨⟨c, first, letter⟩, behind, name⟩ := scheme?_eq_some_iff.mp found
  obtain ⟨same, after⟩ := @cut_append cs more inScheme (.inl (by rw [behind]; exact nofun))
  rw [behind] at after
  refine scheme?_eq_some_iff.mpr ⟨⟨c, ?_, letter⟩, after, same ▸ name⟩
  rw [List.head?_append, Option.mem_def.mp first]
  rfl

theorem mem_of_scheme? {scheme : String} {rest : List Char} {c : Char}
    (found : scheme? cs = some (scheme, rest)) (member : c ∈ rest) : c ∈ cs := by
  have behind := (scheme?_eq_some_iff.mp found).2.1
  exact (List.dropWhile_sublist _).mem (behind ▸ List.mem_cons_of_mem _ member)

theorem mem_of_clean {c : Char} (member : c ∈ clean cs) : c ∈ cs := by
  have body := (List.mem_filter.mp member).1
  have front := (List.dropWhile_sublist _).mem (List.mem_reverse.mp body)
  exact (List.dropWhile_sublist _).mem (List.mem_reverse.mp front)

theorem parts_of_plain (query : '?' ∉ cs) (fragment : '#' ∉ cs) : parts cs = (cs, none, none) := by
  rw [parts, cutAt_of_not_mem fragment]
  dsimp only
  rw [cutAt_of_not_mem query]

/-- A URL has the scheme that its text begins with. -/
theorem scheme_readBody {scheme : String} {query fragment : Option String} {url : Url}
    (read : readBody scheme cs query fragment = .ok url) : url.scheme = scheme := by
  simp only [readBody, bind, Except.bind, pure, Except.pure] at read
  repeat' split at read
  all_goals first | cases read; rfl | cases read

/-- The host of a file URL and the text of its path. -/
def fileParts (cs : List Char) : Except UrlError (Option Host × List Char) :=
  match cs with
  | a :: b :: rest =>
    if isSeparator true a && isSeparator true b then readFileHost rest else .ok (none, cs)
  | _ => .ok (none, cs)

theorem readBody_file (cs : List Char) : readBody "file" cs none none =
    (fileParts cs).map fun found =>
      ⟨"file", some (.ofHost found.1), false, readPath "file" found.2, none, none⟩ := by
  match cs with
  | [] => rfl
  | [_] => rfl
  | a :: b :: rest =>
    rw [readBody, if_pos (by decide), fileParts]
    split
    · cases readFileHost rest <;> rfl
    · rfl

theorem splitPath_ne_nil (special : Bool) (cs : List Char) : splitPath special cs ≠ [] := by
  cases cs with
  | nil => exact List.cons_ne_nil _ _
  | cons c cs =>
    rw [splitPath]
    split
    · exact List.cons_ne_nil _ _
    · split <;> exact List.cons_ne_nil _ _

theorem splitPath_append_slash (special : Bool) (front rest : List Char) :
    splitPath special (front ++ '/' :: rest) =
      splitPath special front ++ splitPath special rest := by
  induction front with
  | nil => rfl
  | cons c front ih =>
    obtain ⟨piece, pieces, behind⟩ := List.exists_cons_of_ne_nil (splitPath_ne_nil special front)
    rw [List.cons_append, splitPath, splitPath, ih, behind]
    split <;> rfl

/-- The host of a file URL stands before the first slash. It is left out if it is this machine, or
if a drive letter comes next. -/
theorem readFileHost_eq (cs : List Char) : readFileHost cs =
    let name := cs.takeWhile fun c => !isSeparator true c
    let path := cs.dropWhile fun c => !isSeparator true c
    if isDrive name then .ok (none, cs)
    else if name.isEmpty then .ok (none, path)
    else (Host.parse? name).map fun host =>
      (if host = .domain "localhost" ∨ isDrive ((splitPath true path.tail).headD []) = true
        then none else some host, path) := by
  dsimp only
  unfold readFileHost
  dsimp only
  split
  · rfl
  split
  · rfl
  cases Host.parse? (cs.takeWhile fun c => !isSeparator true c) with
  | error => rfl
  | ok host =>
    obtain ⟨first, pieces, parts⟩ := List.exists_cons_of_ne_nil
      (splitPath_ne_nil true (cs.dropWhile fun c => !isSeparator true c).tail)
    simp only [bind, Except.bind, pure, Except.pure, Except.map, parts, List.headD_cons]
    by_cases here : host = .domain "localhost"
    · rw [if_pos here, if_pos (.inl here)]
    · simp only [here, false_or, if_false]

theorem host_of_readFileHost {host : Option Host} {rest : List Char}
    (read : readFileHost cs = .ok (host, rest)) : host ≠ some (.domain "localhost") := by
  rintro rfl
  rw [readFileHost_eq] at read
  dsimp only at read
  split at read
  · cases read
  split at read
  · cases read
  cases parsed : Host.parse? (cs.takeWhile fun c => !isSeparator true c) with
  | error =>
    rw [parsed] at read
    cases read
  | ok served =>
    rw [parsed] at read
    have same := (Prod.mk.inj (Except.ok.inj read)).1
    split at same
    · cases same
    · rename_i there
      exact there (.inl (Option.some.inj same))

/-- A host that is left out is left out with more behind it. -/
theorem readFileHost_append {rest : List Char} (read : readFileHost cs = .ok (none, rest)) :
    readFileHost (cs ++ '/' :: more) = .ok (none, rest ++ '/' :: more) := by
  obtain ⟨name, path⟩ := @cut_append cs ('/' :: more) (fun c => !isSeparator true c)
    (.inr fun c first => by cases first; rfl)
  rw [readFileHost_eq] at read ⊢
  dsimp only at read ⊢
  rw [name, path]
  split at read
  · rename_i drive
    rw [if_pos drive, (Prod.mk.inj (Except.ok.inj read)).2]
  rename_i drive
  rw [if_neg drive]
  split at read
  · rename_i empty
    rw [if_pos empty, (Prod.mk.inj (Except.ok.inj read)).2]
  rename_i some
  rw [if_neg some]
  cases parsed : Host.parse? (cs.takeWhile fun c => !isSeparator true c) with
  | error =>
    rw [parsed] at read
    cases read
  | ok host =>
    rw [parsed] at read
    obtain ⟨hostless, rfl⟩ := Prod.mk.inj (Except.ok.inj read)
    refine congrArg (fun host => Except.ok (host, _)) (if_pos ?_)
    split at hostless
    · rename_i out
      refine out.imp_right fun drive => ?_
      cases behind : cs.dropWhile fun c => !isSeparator true c with
      | nil =>
        rw [behind] at drive
        cases drive
      | cons c tail =>
        obtain ⟨first, pieces, parts⟩ := List.exists_cons_of_ne_nil (splitPath_ne_nil true tail)
        rw [behind, List.tail_cons, parts] at drive
        rw [List.cons_append, List.tail_cons, splitPath_append_slash, parts]
        exact drive
    · cases hostless

theorem host_of_fileParts {host : Option Host} {rest : List Char}
    (parts : fileParts cs = .ok (host, rest)) : host ≠ some (.domain "localhost") := by
  unfold fileParts at parts
  split at parts
  · split at parts
    · exact host_of_readFileHost parts
    · cases parts
      exact nofun
  · cases parts
    exact nofun

theorem fileParts_append {rest : List Char} (parts : fileParts cs = .ok (none, rest))
    (few : ∀ c, cs = [c] → isSeparator true c = false)
    (first : ∀ c ∈ more.head?, isSeparator true c = false) :
    fileParts (cs ++ '/' :: more) = .ok (none, rest ++ '/' :: more) := by
  match cs with
  | [] =>
    cases parts
    cases more with
    | nil => rfl
    | cons c more =>
      rw [List.nil_append, fileParts, first c rfl]
      rfl
  | [c] =>
    cases parts
    rw [List.singleton_append, fileParts, few c rfl]
    rfl
  | a :: b :: tail =>
    rw [fileParts] at parts
    rw [List.cons_append, List.cons_append, fileParts]
    split at parts
    · rename_i both
      rw [if_pos both]
      exact readFileHost_append parts
    · rename_i other
      rw [if_neg other]
      cases parts
      rfl

theorem parse_eq_ok_iff {s : String} {url : Url} (query : '?' ∉ s.toList)
    (fragment : '#' ∉ s.toList) : parse s = .ok url ↔ ∃ rest,
      scheme? (clean s.toList) = some (url.scheme, rest) ∧
      readBody url.scheme rest none none = .ok url := by
  rw [parse]
  constructor
  · intro parsed
    split at parsed
    · rename_i scheme rest found
      have inside {c : Char} (member : c ∈ rest) : c ∈ s.toList :=
        mem_of_clean (mem_of_scheme? found member)
      rw [readRest, parts_of_plain (fun member => query (inside member))
        fun member => fragment (inside member)] at parsed
      have same := scheme_readBody parsed
      rw [same]
      exact ⟨rest, found, parsed⟩
    · cases parsed
  · rintro ⟨rest, found, read⟩
    have inside {c : Char} (member : c ∈ rest) : c ∈ s.toList :=
      mem_of_clean (mem_of_scheme? found member)
    rw [found]
    dsimp only
    rw [readRest, parts_of_plain (fun member => query (inside member))
      fun member => fragment (inside member)]
    exact read

theorem scheme?_clean_append {scheme : String} {rest : List Char} (stem : Stem cs)
    (inside : Inside more) (found : scheme? (clean cs) = some (scheme, rest)) :
    scheme? (clean (cs ++ '/' :: more)) = some (scheme, rest ++ '/' :: more) := by
  rw [clean_append (fun c last => (stem.last c last).1) fun c member => (inside.printed c member).1]
  exact scheme?_append found

/-- A file URL with a name behind it is read as the URL with the name behind its path. -/
theorem parse_append {uri : String} {rest path : List Char} (stem : Stem uri.toList)
    (found : scheme? (clean uri.toList) = some ("file", rest))
    (parts : fileParts rest = .ok (none, path)) (inside : Inside more)
    (first : ∀ c ∈ more.head?, isSeparator true c = false) :
    parse (String.ofList (uri.toList ++ '/' :: more)) = .ok
      ⟨"file", some (.ofHost none), false, readPath "file" (path ++ '/' :: more), none, none⟩ := by
  have few : ∀ c, rest = [c] → isSeparator true c = false := by
    rintro c rfl
    have behind := (scheme?_eq_some_iff.mp found).2.1
    have last := getLast?_of_dropWhile (by rw [behind]; rfl)
    rw [getLast?_clean fun c last => (stem.last c last).1] at last
    exact (stem.last c last).2
  have absent {mark : Char} (own : mark ∉ uri.toList) (other : mark ∉ '/' :: more) :
      mark ∉ uri.toList ++ '/' :: more := fun member => (List.mem_append.mp member).elim own other
  have body := readBody_file (rest ++ '/' :: more)
  rw [fileParts_append parts few first] at body
  refine (parse_eq_ok_iff ?_ ?_).mpr ⟨rest ++ '/' :: more, ?_, body⟩
  · rw [String.toList_ofList]
    exact absent stem.query fun member => (inside.printed _ member).2.1 rfl
  · rw [String.toList_ofList]
    exact absent stem.fragment fun member => (inside.printed _ member).2.2.1 rfl
  · rw [String.toList_ofList]
    exact scheme?_clean_append stem inside found

end Reading

end Url

end LintBridge

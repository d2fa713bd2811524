import LintBridge.Proofs.Path.Segments
import LintBridge.Proofs.Url.Encoded
import LintBridge.Url.File

namespace LintBridge

section Cleaning

theorem kept_of_printed {c : Char} (printed : 0x20 < c.toNat) :
    (c != '\t' && c != '\n' && c != '\r') = true := by
  simp only [Bool.and_eq_true, bne_iff_ne]
  refine ⟨⟨?_, ?_⟩, ?_⟩ <;> rintro rfl <;> exact absurd printed (by decide)

theorem clean_of_printed {cs : List Char} (printed : ∀ c ∈ cs, 0x20 < c.toNat) :
    Url.clean cs = cs := by
  have stop : ∀ ds : List Char, (∀ c ∈ ds, 0x20 < c.toNat) →
      ds.dropWhile (fun c => decide (c.toNat ≤ 0x20)) = ds := by
    intro ds all
    cases ds with
    | nil => rfl
    | cons c ds =>
      have shown := all c List.mem_cons_self
      rw [List.dropWhile_cons, decide_eq_false (by omega)]
      rfl
  have turned := stop cs.reverse fun c member => printed c (List.mem_reverse.mp member)
  simp only [Url.clean, stop cs printed, turned, List.reverse_reverse]
  exact List.filter_eq_self.mpr fun c member => kept_of_printed (printed c member)

theorem cutAt_of_not_mem {mark : Char} {cs : List Char} (absent : mark ∉ cs) :
    Url.cutAt mark cs = (cs, none) := by
  have none : cs.dropWhile (· != mark) = [] := by
    refine List.dropWhile_eq_nil_iff.mpr fun c member => ?_
    exact bne_iff_ne.mpr fun same => absent (same ▸ member)
  rw [Url.cutAt, none]

end Cleaning

namespace Path

/-- A segment as it stands in a file URL. -/
def named (s : Bytes) : List Char := Percent.encode Percent.inFileName s

/-- The pieces behind the root of a path with some segments: those of the root itself are one that
is empty. -/
def rootedPieces (ss : List Bytes) : List Bytes := if ss.isEmpty then [[]] else ss

/-- Whether a first segment is a letter and a bar. -/
def barsDrive : List Bytes → Bool
  | [c, m] :: _ => isAsciiLetter (Char.ofNat c.toNat) && m == 0x7c
  | _ => false

/-- Segments with a colon for a bar behind a drive letter. -/
def colonDrive : List Bytes → List Bytes
  | [c, m] :: rest =>
    if isAsciiLetter (Char.ofNat c.toNat) && m == 0x7c then [c, 0x3a] :: rest else [c, m] :: rest
  | ss => ss

theorem of_barsDrive {ss : List Bytes} (bars : barsDrive ss = true) : ∃ c rest,
    isAsciiLetter (Char.ofNat c.toNat) = true ∧ ss = [c, 0x7c] :: rest := by
  unfold barsDrive at bars
  split at bars
  · rename_i c m rest
    obtain ⟨letter, rfl⟩ : isAsciiLetter (Char.ofNat c.toNat) = true ∧ m = 0x7c := by
      simpa using bars
    exact ⟨c, rest, letter, rfl⟩
  · cases bars

theorem colonDrive_of_letter {c : UInt8} (letter : isAsciiLetter (Char.ofNat c.toNat) = true)
    (rest : List Bytes) : colonDrive ([c, 0x7c] :: rest) = [c, 0x3a] :: rest := by
  rw [colonDrive, letter]
  rfl

theorem colonDrive_of_not_barsDrive {ss : List Bytes} (free : barsDrive ss = false) :
    colonDrive ss = ss := by
  unfold colonDrive
  split
  · rw [barsDrive] at free
    rw [free]
    rfl
  · rfl

section Text

theorem rootedPieces_ne_nil (ss : List Bytes) : rootedPieces ss ≠ [] := by
  cases ss <;> exact nofun

theorem mem_rootedPieces {ss : List Bytes} {s : Bytes} (member : s ∈ rootedPieces ss) :
    s = [] ∨ s ∈ ss := by
  cases ss with
  | nil => exact .inl (List.mem_singleton.mp member)
  | cons => exact .inr member

theorem rootedPieces_injective {ss ss' : List Bytes} (telling : ∀ s ∈ ss, isIdle s = false)
    (telling' : ∀ s ∈ ss', isIdle s = false) (same : rootedPieces ss = rootedPieces ss') :
    ss = ss' := by
  cases ss with
  | nil =>
    cases ss' with
    | nil => rfl
    | cons s ss' =>
      cases same
      exact absurd (telling' [] List.mem_cons_self) (by decide)
  | cons s ss =>
    cases ss' with
    | nil =>
      cases same
      exact absurd (telling [] List.mem_cons_self) (by decide)
    | cons => exact same

theorem encodeSegments_eq (ss : List Bytes) :
    encodeSegments ss = Url.rooted ((rootedPieces ss).map named) := by
  induction ss with
  | nil => rfl
  | cons s ss ih =>
    cases ss with
    | nil =>
      rw [encodeSegments]
      exact congrArg ('/' :: ·) (List.append_nil _).symm
    | cons t ss =>
      rw [encodeSegments, ih]
      · rfl
      · exact nofun

theorem utf8Chars_slash (cs : List Char) : utf8Chars ('/' :: cs) = slash :: utf8Chars cs := rfl

/-- A path in a file URL decodes to its pieces with slashes between them. -/
theorem decodeChars_rooted {pieces : List Bytes} (some : pieces ≠ []) :
    Percent.decodeChars (Url.rooted (pieces.map named)) = slash :: unsplit pieces := by
  induction pieces with
  | nil => exact absurd rfl some
  | cons piece pieces ih =>
    rw [Percent.decodeChars, List.map_cons, Url.rooted, utf8Chars_slash,
      Percent.decode_of_ne (by decide), utf8Chars_append, named,
      Percent.decode_encode fun _ => Percent.inFileName_bounds]
    cases pieces with
    | nil => exact congrArg (slash :: ·) (List.append_nil piece)
    | cons next pieces =>
      rw [← Percent.decodeChars, ih (List.cons_ne_nil _ _), unsplit_cons (List.cons_ne_nil _ _)]

/-- A file URL names the segments of its path: two paths from the root have the same URL just when
they have the same segments. -/
theorem fileUrl?_eq_iff {p q : Path} (absolute : p.isAbsolute = true)
    (absolute' : q.isAbsolute = true) : p.fileUrl? = q.fileUrl? ↔ p.segments = q.segments := by
  rw [fileUrl?, fileUrl?, if_pos absolute, if_pos absolute']
  refine ⟨fun same => ?_, fun same => by rw [same]⟩
  have texts := List.append_cancel_left (String.ofList_injective (Option.some.inj same))
  rw [encodeSegments_eq, encodeSegments_eq] at texts
  have bytes := congrArg Percent.decodeChars texts
  rw [decodeChars_rooted (rootedPieces_ne_nil _),
    decodeChars_rooted (rootedPieces_ne_nil _)] at bytes
  have plain (r : Path) : ∀ s ∈ rootedPieces r.segments, slash ∉ s := by
    intro s member
    rcases mem_rootedPieces member with rfl | inside
    · exact List.not_mem_nil
    · exact (of_mem_segments inside).2
  have pieces := congrArg split (List.cons.inj bytes).2
  rw [split_unsplit (rootedPieces_ne_nil _) (plain p),
    split_unsplit (rootedPieces_ne_nil _) (plain q)] at pieces
  exact rootedPieces_injective (fun s member => (of_mem_segments member).1)
    (fun s member => (of_mem_segments member).1) pieces

end Text

section Dots

theorem plainDots_of_ne {c : Char} (other : c ≠ '%') (rest : List Char) :
    Url.plainDots (c :: rest) = c :: Url.plainDots rest := by
  rw [Url.plainDots]
  · exact fun _ same _ => other same
  · exact fun _ same _ => other same

theorem plainDots_encodeByte (b : UInt8) (rest : List Char) :
    Url.plainDots (Percent.encodeByte Percent.inFileName b ++ rest) =
      Percent.encodeByte Percent.inFileName b ++ Url.plainDots rest := by
  rw [Percent.encodeByte]
  split
  · rename_i kept
    have plain : ∀ n : Fin 256, Percent.inFileName (UInt8.ofNat n) = true →
        Char.ofNat (UInt8.ofNat n).toNat ≠ '%' := by decide +kernel
    have own := plain ⟨b.toNat, b.toNat_lt⟩
    rw [UInt8.ofNat_toNat] at own
    exact plainDots_of_ne (own kept) rest
  · rename_i escaped
    -- a point stands as it is, so that no escape is one of a point
    have digits : ∀ n : Fin 256, Percent.inFileName (UInt8.ofNat n) = false →
        hexDigitUpper (n / 16) ≠ '%' ∧ hexDigitUpper (n % 16) ≠ '%' ∧
          hexDigitUpper (n % 16) ≠ 'e' ∧
          (hexDigitUpper (n / 16) = '2' → hexDigitUpper (n % 16) ≠ 'E') := by decide +kernel
    obtain ⟨high, low, small, point⟩ := digits ⟨b.toNat, b.toNat_lt⟩ (by
      rw [UInt8.ofNat_toNat]
      exact Bool.eq_false_iff.mpr escaped)
    rw [Percent.escape, List.cons_append, List.cons_append, List.cons_append, List.nil_append,
      Url.plainDots, plainDots_of_ne high, plainDots_of_ne low]
    · rfl
    · intro _ _ same
      simp only [List.cons.injEq] at same
      exact small same.2.1
    · intro _ _ same
      simp only [List.cons.injEq] at same
      exact point same.1 same.2.1

theorem plainDots_named (s : Bytes) : Url.plainDots (named s) = named s := by
  induction s with
  | nil => rfl
  | cons b s ih =>
    rw [named, Percent.encode, List.flatMap_cons, plainDots_encodeByte]
    exact congrArg (_ ++ ·) ih

theorem named_inj {s t : Bytes} : named s = named t ↔ s = t :=
  ⟨Percent.encode_injective, congrArg named⟩

theorem spelled_named {t : Bytes} {most : Nat} (short : (named t).length ≤ most) (s : Bytes) :
    (decide ((named s).length ≤ most) && named s == named t) = decide (s = t) := by
  by_cases same : s = t
  · simp [same, short]
  · simp [named_inj, same]

/-- In a file URL a segment is `..` only where it was one. -/
theorem isDotDot_named (s : Bytes) : Url.isDotDot (named s) = decide (s = dotDot) := by
  have points : ['.', '.'] = named dotDot := by decide
  rw [Url.isDotDot, plainDots_named, points, spelled_named (by decide)]

theorem isDot_named (s : Bytes) : Url.isDot (named s) = decide (s = dot) := by
  have point : ['.'] = named dot := by decide
  rw [Url.isDot, plainDots_named, point, spelled_named (by decide)]

theorem encodeChars_named (s : Bytes) :
    Percent.encodeChars Percent.inPath (named s) = named s :=
  Percent.encodeChars_of_isNameChar fun _ => Percent.isNameChar_of_mem

/-- What is left of some pieces once `..` is followed are some of them, and none is `..`. -/
theorem followDots_named (kept pieces : List Bytes) (free : dotDot ∉ kept) :
    ∃ pieces' : List Bytes,
    Url.followDots (kept.map named) (pieces.map named) = pieces'.map named ∧ dotDot ∉ pieces' ∧
    ∀ s ∈ pieces', s = [] ∨ s ∈ kept ∨ s ∈ pieces := by
  induction pieces generalizing kept with
  | nil =>
    refine ⟨kept.reverse, ?_, fun member => free (List.mem_reverse.mp member),
      fun s member => .inr (.inl (List.mem_reverse.mp member))⟩
    rw [List.map_nil, Url.followDots, List.map_reverse]
  | cons piece pieces ih =>
    have further {kept' : List Bytes} (free' : dotDot ∉ kept')
        (from' : ∀ s ∈ kept', s = [] ∨ s ∈ kept ∨ s = piece) : ∃ pieces' : List Bytes,
        Url.followDots (kept'.map named) (pieces.map named) = pieces'.map named ∧
        dotDot ∉ pieces' ∧ ∀ s ∈ pieces', s = [] ∨ s ∈ kept ∨ s ∈ piece :: pieces := by
      obtain ⟨pieces', followed, free'', origin⟩ := ih kept' free'
      refine ⟨pieces', followed, free'', fun s member => ?_⟩
      rcases origin s member with none | old | later
      · exact .inl none
      · rcases from' s old with none | before | here
        · exact .inl none
        · exact .inr (.inl before)
        · exact .inr (.inr (here ▸ List.mem_cons_self))
      · exact .inr (.inr (List.mem_cons_of_mem piece later))
    -- a directory that is left ends in an empty segment
    have ending {kept' : List Bytes} (free' : dotDot ∉ kept') (from' : ∀ s ∈ kept', s ∈ kept) :
        ∃ pieces' : List Bytes, (if (pieces.map named).isEmpty then
            Url.followDots ([] :: kept'.map named) (pieces.map named)
          else Url.followDots (kept'.map named) (pieces.map named)) = pieces'.map named ∧
        dotDot ∉ pieces' ∧ ∀ s ∈ pieces', s = [] ∨ s ∈ kept ∨ s ∈ piece :: pieces := by
      split
      · refine @further ([] :: kept') (fun member => ?_) fun s member => ?_
        · exact (List.mem_cons.mp member).elim nofun free'
        · exact (List.mem_cons.mp member).imp_right fun old => .inl (from' s old)
      · exact further free' fun s member => .inr (.inl (from' s member))
    rw [List.map_cons, Url.followDots, isDotDot_named, isDot_named]
    by_cases back : piece = dotDot
    · rw [decide_eq_true back, if_pos rfl]
      dsimp only
      by_cases drive : Url.isDrive ((kept.map named).headD []) = true
      · rw [if_pos drive]
        exact ending free fun s member => member
      · rw [if_neg drive, ← List.map_tail]
        exact ending (fun member => free (List.mem_of_mem_tail member)) fun s member =>
          List.mem_of_mem_tail member
    rw [decide_eq_false back, if_neg Bool.false_ne_true]
    split
    · exact ending free fun s member => member
    · rw [encodeChars_named, ← List.map_cons]
      refine further (fun member => ?_) fun s member => ?_
      · exact (List.mem_cons.mp member).elim (fun same => back same.symm) free
      · exact (List.mem_cons.mp member).elim (fun same => .inr (.inr same)) fun old =>
          .inr (.inl old)

/-- Pieces without `.` and `..` stay as they are. -/
theorem followDots_of_forward {kept pieces : List Bytes} (forward : dotDot ∉ pieces)
    (moving : dot ∉ pieces) : Url.followDots (kept.map named) (pieces.map named) =
      (kept.reverse ++ pieces).map named := by
  induction pieces generalizing kept with
  | nil => rw [List.map_nil, Url.followDots, ← List.map_reverse, List.append_nil]
  | cons piece pieces ih =>
    have back : piece ≠ dotDot := fun same => forward (same ▸ List.mem_cons_self)
    have still : piece ≠ dot := fun same => moving (same ▸ List.mem_cons_self)
    have others := @ih (piece :: kept) (fun member => forward (List.mem_cons_of_mem _ member))
      fun member => moving (List.mem_cons_of_mem _ member)
    rw [List.map_cons, Url.followDots, isDotDot_named, isDot_named, decide_eq_false back,
      decide_eq_false still, if_neg Bool.false_ne_true, if_neg Bool.false_ne_true,
      encodeChars_named, ← List.map_cons, others, List.reverse_cons, List.append_assoc,
      List.singleton_append]

end Dots

section Drive

theorem lt_of_isAsciiLetter {c : Char} (letter : isAsciiLetter c = true) : c.toNat < 0x80 := by
  simp only [isAsciiLetter, decide_eq_true_eq, Char.le_def, UInt32.le_iff_toNat_le] at letter
  change _ ∧ c.toNat ≤ 122 ∨ _ ∧ c.toNat ≤ 90 at letter
  omega

/-- A letter and the mark behind it stand in a file URL as they are. -/
theorem named_drive {c : Char} (letter : isAsciiLetter c = true) :
    named [c.toNat.toUInt8, 0x7c] = [c, '|'] ∧ named [c.toNat.toUInt8, 0x3a] = [c, ':'] := by
  have each : ∀ n : Fin 0x80, isAsciiLetter (Char.ofNat n) = true →
      named [n.val.toUInt8, 0x7c] = [Char.ofNat n, '|'] ∧
        named [n.val.toUInt8, 0x3a] = [Char.ofNat n, ':'] := by decide +kernel
  have own := each ⟨c.toNat, lt_of_isAsciiLetter letter⟩ (by rwa [Char.ofNat_toNat])
  rwa [Char.ofNat_toNat] at own

theorem char_of_byte (b : UInt8) : (Char.ofNat b.toNat).toNat.toUInt8 = b := by
  have valid : b.toNat.isValidChar := .inl (by have := b.toNat_lt; omega)
  have value : (Char.ofNat b.toNat).toNat = b.toNat := by
    rw [Char.ofNat, dif_pos valid]
    rfl
  rw [value]
  exact UInt8.ofNat_toNat

/-- Segments of a URL with a colon behind a drive letter. -/
def coloned (segments : List (List Char)) : List (List Char) :=
  match segments with
  | [c, m] :: more => if Url.isDrive [c, m] then [c, ':'] :: more else segments
  | _ => segments

/-- Segments of a URL without the empty ones in front, but at least one. -/
def opened (segments : List (List Char)) : List (List Char) :=
  match segments.dropWhile List.isEmpty with
  | [] => [[]]
  | kept => kept

theorem fileSegments_eq (segments : List (List Char)) :
    Url.fileSegments segments = opened (coloned segments) := rfl

/-- A drive letter in front of a file URL is one in front of its path. -/
theorem coloned_named (pieces : List Bytes) :
    coloned (pieces.map named) = (colonDrive pieces).map named := by
  cases bars : barsDrive pieces with
  | true =>
    obtain ⟨c, rest, letter, rfl⟩ := of_barsDrive bars
    obtain ⟨barred, coloned⟩ := named_drive letter
    rw [char_of_byte] at barred coloned
    have drive : Url.isDrive [Char.ofNat c.toNat, '|'] = true := by simp [Url.isDrive, letter]
    rw [colonDrive_of_letter letter, List.map_cons, List.map_cons, barred, coloned]
    exact if_pos drive
  | false =>
    rw [colonDrive_of_not_barsDrive bars]
    unfold coloned
    split
    · rename_i c m more same
      split
      · rename_i drive
        simp only [Url.isDrive, Bool.and_eq_true, Bool.or_eq_true, beq_iff_eq] at drive
        obtain ⟨letter, rfl | rfl⟩ := drive
        · exact same.symm
        · cases pieces with
          | nil => cases same
          | cons piece pieces =>
            have first := (List.cons.inj same).1
            have bytes := named_inj.mp (first.trans (named_drive letter).1.symm)
            have byte := toNat_toUInt8 (n := c.toNat) (by have := lt_of_isAsciiLetter letter; omega)
            rw [bytes, barsDrive, byte, Char.ofNat_toNat, letter] at bars
            cases bars
      · rfl
    · rfl

theorem isEmpty_named (s : Bytes) : (named s).isEmpty = s.isEmpty := by
  cases s with
  | nil => rfl
  | cons b s =>
    have some : Percent.encodeByte Percent.inFileName b ≠ [] := by
      rw [Percent.encodeByte, Percent.escape]
      split <;> exact List.cons_ne_nil _ _
    rw [named, Percent.encode, List.flatMap_cons, List.isEmpty_cons, List.isEmpty_eq_false_iff]
    exact List.append_ne_nil_of_left_ne_nil some _

/-- The first segment of a file URL, if it is a drive, gets a colon, and the empty ones in front of
the others go. -/
theorem fileSegments_named (pieces : List Bytes) :
    Url.fileSegments (pieces.map named) =
      (rootedPieces ((colonDrive pieces).dropWhile List.isEmpty)).map named := by
  have empty : (List.isEmpty ∘ named : Bytes → Bool) = List.isEmpty := funext isEmpty_named
  rw [fileSegments_eq, coloned_named, opened, List.dropWhile_map, empty]
  cases (colonDrive pieces).dropWhile List.isEmpty <;> rfl

end Drive

section Reading

theorem splitPath_append {front : List Char} (names : ∀ c ∈ front, Percent.isNameChar c = true)
    (rest : List Char) : Url.splitPath true (front ++ '/' :: rest) =
      front :: Url.splitPath true rest ∧ Url.splitPath true front = [front] := by
  induction front with
  | nil => exact ⟨rfl, rfl⟩
  | cons c front ih =>
    obtain ⟨behind, alone⟩ := ih fun d member => names d (List.mem_cons_of_mem c member)
    obtain ⟨_, _, _, slashless, plain⟩ := Percent.isNameChar_bounds (names c List.mem_cons_self)
    have part : Url.isSeparator true c = false := by simp [Url.isSeparator, slashless, plain]
    rw [List.cons_append, Url.splitPath, Url.splitPath, part, behind, alone]
    exact ⟨rfl, rfl⟩

/-- The path of a file URL parts into the pieces it was made of. -/
theorem splitPath_rooted {pieces : List Bytes} (some : pieces ≠ []) : ∃ rest,
    Url.rooted (pieces.map named) = '/' :: rest ∧
    Url.splitPath true rest = pieces.map named := by
  induction pieces with
  | nil => exact absurd rfl some
  | cons piece pieces ih =>
    have names : ∀ c ∈ named piece, Percent.isNameChar c = true := fun _ =>
      Percent.isNameChar_of_mem
    refine ⟨named piece ++ Url.rooted (pieces.map named), rfl, ?_⟩
    cases pieces with
    | nil =>
      rw [List.map_nil, Url.rooted, List.append_nil]
      exact (splitPath_append names []).2
    | cons next pieces =>
      obtain ⟨rest, whole, parts⟩ := ih (List.cons_ne_nil _ _)
      rw [whole, (splitPath_append names rest).1, parts]
      rfl

theorem isNameChar_of_mem_encodeSegments {ss : List Bytes} {c : Char}
    (member : c ∈ encodeSegments ss) : c = '/' ∨ Percent.isNameChar c = true := by
  induction ss with
  | nil => exact .inl (List.mem_singleton.mp member)
  | cons s ss ih =>
    have first {more : List Char} (member : c ∈ '/' :: (named s ++ more)) :
        c = '/' ∨ Percent.isNameChar c = true ∨ c ∈ more := by
      rcases List.mem_cons.mp member with same | inside
      · exact .inl same
      · exact .inr ((List.mem_append.mp inside).imp_left Percent.isNameChar_of_mem)
    cases ss with
    | nil =>
      have alone : c ∈ '/' :: (named s ++ []) := by rwa [List.append_nil]
      rcases first alone with same | name | none
      · exact .inl same
      · exact .inr name
      · cases none
    | cons t ss =>
      rcases first member with same | name | later
      · exact .inl same
      · exact .inr name
      · exact ih later

/-- The URL that the text of a file URL is read as. -/
theorem parse_fileUrl (ss : List Bytes) :
    Url.parse (String.ofList ("file://".toList ++ encodeSegments ss)) = .ok ⟨"file",
      some (.ofHost none), false, Url.readPath "file" (encodeSegments ss), none, none⟩ := by
  have printed : ∀ c ∈ "file://".toList ++ encodeSegments ss,
      0x20 < c.toNat ∧ c ≠ '#' ∧ c ≠ '?' := by
    intro c member
    rcases List.mem_append.mp member with scheme | inside
    · have each : "file://".toList.all fun c => 0x20 < c.toNat && c != '#' && c != '?' := by decide
      simpa [and_assoc] using List.all_eq_true.mp each c scheme
    · rcases isNameChar_of_mem_encodeSegments inside with rfl | name
      · decide
      · obtain ⟨low, _, kept, _⟩ := Percent.isNameChar_bounds name
        refine ⟨low, ?_, ?_⟩ <;> rintro rfl <;> exact absurd kept (by decide)
  have cleaned := clean_of_printed fun c member => (printed c member).1
  have behind : ∀ c ∈ '/' :: '/' :: encodeSegments ss, c ≠ '#' ∧ c ≠ '?' := fun c member =>
    (printed c (List.mem_append_right "file:".toList member)).2
  have whole := cutAt_of_not_mem fun member => (behind '#' member).1 rfl
  have whole' := cutAt_of_not_mem fun member => (behind '?' member).2 rfl
  obtain ⟨rest, rooted, _⟩ := splitPath_rooted (rootedPieces_ne_nil ss)
  rw [Url.parse, String.toList_ofList, cleaned]
  change Url.readRest "file" ('/' :: '/' :: encodeSegments ss) = _
  rw [Url.readRest, Url.parts, whole]
  dsimp only
  rw [whole', encodeSegments_eq, rooted]
  rfl

theorem closeDrive_eq (bs : Bytes) : closeDrive bs = bs ∨ closeDrive bs = bs ++ [slash] := by
  unfold closeDrive
  split
  · split
    · exact .inr rfl
    · exact .inl rfl
  · exact .inl rfl

theorem closeDrive_unsplit {pieces : List Bytes} (some : pieces ≠ []) : ∃ idle,
    (∀ s ∈ idle, s = []) ∧
    closeDrive (slash :: unsplit pieces) = slash :: unsplit (pieces ++ idle) := by
  rcases closeDrive_eq (slash :: unsplit pieces) with same | closed
  · exact ⟨[], nofun, by rw [same, List.append_nil]⟩
  · refine ⟨[[]], fun s member => List.mem_singleton.mp member, ?_⟩
    rw [closed, unsplit_concat_empty some, List.cons_append]

/-- What the file URL of a path with some segments is read as: an absolute path in which `..` was
followed. If there was none, its pieces are the segments, with a colon behind a drive letter. -/
structure ReadFrom (ss : List Bytes) (q : Path) : Prop where
  absolute : q.isAbsolute = true
  forward : dotDot ∉ q.pieces
  text : (∀ s ∈ ss, IsUtf8 s) → IsUtf8 q.bytes
  pieces : dotDot ∉ ss → ∃ idle, (∀ s ∈ idle, s = []) ∧
    q.pieces = rootedPieces (colonDrive ss) ++ idle

/-- Segments without `..` and without a barred drive letter are read back as they are. -/
theorem ReadFrom.segments {ss : List Bytes} {q : Path} (read : ReadFrom ss q)
    (telling : ∀ s ∈ ss, isIdle s = false) (level : dotDot ∉ ss) (free : barsDrive ss = false) :
    q.segments = ss := by
  obtain ⟨idle, nothing, parts⟩ := read.pieces level
  have none : idle.filter (fun s => !isIdle s) = [] :=
    List.filter_eq_nil_iff.mpr fun s member => by rw [nothing s member]; decide
  rw [Path.segments, parts, colonDrive_of_not_barsDrive free, List.filter_append, none,
    List.append_nil]
  cases ss with
  | nil => rfl
  | cons => exact List.filter_eq_self.mpr fun s member => by rw [telling s member]; rfl

/-- The pieces in a file URL whose path is given by pieces. -/
theorem readPath_rooted {pieces : List Bytes} (some : pieces ≠ []) : ∃ followed : List Bytes,
    (Url.readPath "file" (Url.rooted (pieces.map named))).toList =
      Url.rooted ((rootedPieces ((colonDrive followed).dropWhile List.isEmpty)).map named) ∧
    dotDot ∉ followed ∧ (∀ s ∈ followed, s = [] ∨ s ∈ pieces) ∧
    (dotDot ∉ pieces → dot ∉ pieces → followed = pieces) := by
  obtain ⟨rest, rooted, parts⟩ := splitPath_rooted some
  obtain ⟨followed, same, forward, origin⟩ := followDots_named [] pieces List.not_mem_nil
  refine ⟨followed, ?_, forward, fun s member => (origin s member).imp_right fun old =>
    old.resolve_left List.not_mem_nil, fun forward moving => ?_⟩
  · rw [rooted]
    change (String.ofList (Url.rooted (Url.fileSegments
      (Url.followDots [] (Url.splitPath true rest))))).toList = _
    rw [String.toList_ofList, parts, ← List.map_nil, same, fileSegments_named]
  · have whole := same.symm.trans (@followDots_of_forward [] pieces forward moving)
    exact (List.map_inj_right fun _ _ => named_inj.mp).mp whole

theorem mem_colonDrive {ss : List Bytes} {s : Bytes} (member : s ∈ colonDrive ss) :
    s ∈ ss ∨ ∃ c : UInt8, isAsciiLetter (Char.ofNat c.toNat) = true ∧ s = [c, 0x3a] := by
  cases bars : barsDrive ss with
  | false => exact .inl (colonDrive_of_not_barsDrive bars ▸ member)
  | true =>
    obtain ⟨c, rest, letter, rfl⟩ := of_barsDrive bars
    rw [colonDrive_of_letter letter] at member
    exact (List.mem_cons.mp member).elim (fun first => .inr ⟨c, letter, first⟩) fun later =>
      .inl (List.mem_cons_of_mem _ later)

theorem slash_not_mem_drive {c : UInt8} (letter : isAsciiLetter (Char.ofNat c.toNat) = true) :
    slash ∉ [c, 0x3a] := by
  intro member
  rcases List.mem_cons.mp member with rfl | last
  · cases letter
  · cases List.mem_singleton.mp last

theorem isUtf8_drive {c : UInt8} (letter : isAsciiLetter (Char.ofNat c.toNat) = true) :
    IsUtf8 [c, 0x3a] := by
  refine ⟨[Char.ofNat c.toNat, ':'], ?_⟩
  rw [utf8Chars_cons, utf8Char_of_ascii (lt_of_isAsciiLetter letter), char_of_byte]
  rfl

theorem dropWhile_colonDrive {ss : List Bytes} (telling : ∀ s ∈ ss, isIdle s = false) :
    rootedPieces ((colonDrive (rootedPieces ss)).dropWhile List.isEmpty) =
      rootedPieces (colonDrive ss) := by
  cases ss with
  | nil => rfl
  | cons s ss =>
    have shown : s.isEmpty = false := (Bool.or_eq_false_iff.mp (telling s List.mem_cons_self)).1
    have stop : (colonDrive (s :: ss)).dropWhile List.isEmpty = colonDrive (s :: ss) := by
      cases bars : barsDrive (s :: ss) with
      | false =>
        rw [colonDrive_of_not_barsDrive bars, List.dropWhile_cons, shown]
        rfl
      | true =>
        obtain ⟨c, rest, letter, same⟩ := of_barsDrive bars
        rw [same, colonDrive_of_letter letter]
        rfl
    exact congrArg rootedPieces stop

/-- The path that a URL without a host names. -/
theorem ofUrl?_file {path : String} {rest : List Char} (rooted : path.toList = '/' :: rest) :
    ofUrl? ⟨"file", some (.ofHost none), false, path, none, none⟩ =
      some ⟨closeDrive (Percent.decodeChars path.toList)⟩ := by
  have starts : path.startsWith "/" = true := by
    rw [String.startsWith_string_iff, rooted]
    exact List.cons_prefix_cons.mpr ⟨rfl, List.nil_prefix⟩
  rw [ofUrl?, starts]
  rfl

/-- The pieces that are left of some segments once `..` was followed. -/
theorem of_mem_followed {ss followed : List Bytes} {s : Bytes} (forward : dotDot ∉ followed)
    (origin : ∀ s ∈ followed, s = [] ∨ s ∈ rootedPieces ss)
    (member : s ∈ rootedPieces ((colonDrive followed).dropWhile List.isEmpty)) :
    s = [] ∨ s ∈ ss ∧ s ≠ dotDot ∨
      ∃ c : UInt8, isAsciiLetter (Char.ofNat c.toNat) = true ∧ s = [c, 0x3a] := by
  rcases mem_rootedPieces member with empty | left
  · exact .inl empty
  rcases mem_colonDrive ((List.dropWhile_sublist _).mem left) with old | drive
  · have other : s ≠ dotDot := fun same => forward (same ▸ old)
    rcases origin s old with empty | first
    · exact .inl empty
    · exact (mem_rootedPieces first).imp_right fun own => .inl ⟨own, other⟩
  · exact .inr (.inr drive)

/-- Every file URL of this machine is read as a path, and `..` in it is followed. -/
theorem ofFileUrlText?_encodeSegments {ss : List Bytes} (plain : ∀ s ∈ ss, slash ∉ s)
    (telling : ∀ s ∈ ss, isIdle s = false) : ∃ q,
    ofFileUrlText? (String.ofList ("file://".toList ++ encodeSegments ss)) = some q ∧
    ReadFrom ss q := by
  obtain ⟨followed, read, forward, origin, kept⟩ := readPath_rooted (rootedPieces_ne_nil ss)
  let pieces := rootedPieces ((colonDrive followed).dropWhile List.isEmpty)
  have some : pieces ≠ [] := rootedPieces_ne_nil _
  obtain ⟨idle, none, closed⟩ := closeDrive_unsplit some
  have member {s : Bytes} (inside : s ∈ pieces ++ idle) : s = [] ∨ s ∈ ss ∧ s ≠ dotDot ∨
      ∃ c : UInt8, isAsciiLetter (Char.ofNat c.toNat) = true ∧ s = [c, 0x3a] :=
    (List.mem_append.mp inside).elim (of_mem_followed forward origin) fun last =>
      .inl (none s last)
  have slashless : ∀ s ∈ pieces ++ idle, slash ∉ s := by
    intro s inside
    rcases member inside with rfl | ⟨own, _⟩ | ⟨c, letter, rfl⟩
    · exact List.not_mem_nil
    · exact plain s own
    · exact slash_not_mem_drive letter
  have parts : (⟨slash :: unsplit (pieces ++ idle)⟩ : Path).pieces = pieces ++ idle :=
    (if_pos rfl).trans (split_unsplit (List.append_ne_nil_of_left_ne_nil some _) slashless)
  refine ⟨⟨slash :: unsplit (pieces ++ idle)⟩, ?_, rfl, ?_, fun texts => ?_, fun level => ?_⟩
  · obtain ⟨rest, rooted, _⟩ := splitPath_rooted some
    rw [ofFileUrlText?, parse_fileUrl, encodeSegments_eq]
    refine (ofUrl?_file (read.trans rooted)).trans ?_
    rw [read, decodeChars_rooted some, closed]
  · rw [parts]
    intro inside
    rcases member inside with empty | ⟨_, other⟩ | ⟨c, _, same⟩
    · cases empty
    · exact other rfl
    · cases same
  · have text : IsUtf8 (unsplit (pieces ++ idle)) := by
      refine isUtf8_unsplit fun s inside => ?_
      rcases member inside with rfl | ⟨own, _⟩ | ⟨c, letter, rfl⟩
      · exact ⟨[], rfl⟩
      · exact texts s own
      · exact isUtf8_drive letter
    obtain ⟨cs, same⟩ := text
    exact ⟨'/' :: cs, congrArg (slash :: ·) same⟩
  · have still : followed = rootedPieces ss := by
      refine kept (fun inside => ?_) fun inside => ?_
      · exact (mem_rootedPieces inside).elim nofun level
      · rcases mem_rootedPieces inside with empty | own
        · cases empty
        · cases telling dot own
    refine ⟨idle, none, parts.trans (congrArg (· ++ idle) ?_)⟩
    rw [show pieces = rootedPieces ((colonDrive followed).dropWhile List.isEmpty) from rfl, still]
    exact dropWhile_colonDrive telling

end Reading

end Path

end LintBridge

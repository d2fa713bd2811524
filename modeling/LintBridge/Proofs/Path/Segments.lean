import LintBridge.Path
import LintBridge.Proofs.Text.Written
import LintBridge.Url.Parser
import Mathlib.Data.List.TakeWhile

namespace LintBridge

/-- Bytes that are the text of some characters. -/
def IsUtf8 (bs : Bytes) : Prop := ∃ cs, bs = utf8Chars cs

theorem utf8Lossy_utf8Chars (cs : List Char) : utf8Lossy (utf8Chars cs) = String.ofList cs := by
  have units : utf8Units (utf8Chars cs) = cs.map some :=
    utf8Scan_utf8Chars cs (length_le_utf8Chars cs)
  rw [utf8Lossy, units, List.map_map]
  exact congrArg String.ofList (List.map_id cs)

/-- The byte of a slash is in no other character. -/
theorem slash_not_mem_utf8Char {c : Char} (other : c ≠ '/') : Path.slash ∉ utf8Char c := by
  have valid := c.valid
  rw [UInt32.isValidChar, show c.val.toNat = c.toNat from rfl, Nat.isValidChar] at valid
  have differs : c.toNat ≠ 0x2f := fun same => other (Char.toNat_inj.mp same)
  have high {n : Nat} (above : 0x80 ≤ n) (below : n < 0x100) : n.toUInt8 ≠ Path.slash := by
    intro same
    have value := congrArg UInt8.toNat same
    rw [toNat_toUInt8 below, show Path.slash.toNat = 0x2f from rfl] at value
    omega
  unfold utf8Char
  generalize c.toNat = n at valid differs
  intro member
  dsimp only at member
  split at member
  · have value := congrArg UInt8.toNat (List.mem_singleton.mp member)
    rw [toNat_toUInt8 (by omega), show Path.slash.toNat = 0x2f from rfl] at value
    exact differs value.symm
  split at member
  · simp only [List.mem_cons, List.not_mem_nil, or_false] at member
    rcases member with same | same <;> exact high (by omega) (by omega) same.symm
  split at member
  · simp only [List.mem_cons, List.not_mem_nil, or_false] at member
    rcases member with same | same | same <;> exact high (by omega) (by omega) same.symm
  · simp only [List.mem_cons, List.not_mem_nil, or_false] at member
    rcases member with same | same | same | same <;> exact high (by omega) (by omega) same.symm

namespace Path

section Splitting

theorem split_slash (rest : Bytes) : split (slash :: rest) = [] :: split rest := if_pos rfl

theorem split_ne_nil (bs : Bytes) : split bs ≠ [] := by
  cases bs with
  | nil => exact nofun
  | cons b rest =>
    rw [split]
    split
    · exact nofun
    · split <;> exact nofun

theorem split_of_ne {b : UInt8} (other : b ≠ slash) {rest : Bytes} {piece : Bytes}
    {pieces : List Bytes} (behind : split rest = piece :: pieces) :
    split (b :: rest) = (b :: piece) :: pieces := by
  rw [split, if_neg other, behind]

/-- Bytes without a slash stand in front of the first piece. -/
theorem split_append {front : Bytes} (plain : slash ∉ front) {rest : Bytes} {piece : Bytes}
    {pieces : List Bytes} (behind : split rest = piece :: pieces) :
    split (front ++ rest) = (front ++ piece) :: pieces := by
  induction front with
  | nil => exact behind
  | cons b front ih =>
    have other : b ≠ slash := fun same => plain (same ▸ List.mem_cons_self)
    exact split_of_ne other (ih fun member => plain (List.mem_cons_of_mem b member))

theorem split_append_slash (front rest : Bytes) :
    split (front ++ slash :: rest) = split front ++ split rest := by
  induction front with
  | nil => exact split_slash rest
  | cons b front ih =>
    by_cases same : b = slash
    · rw [same, List.cons_append, split_slash, split_slash, ih, List.cons_append]
    · obtain ⟨piece, pieces, behind⟩ := List.exists_cons_of_ne_nil (split_ne_nil front)
      rw [behind, List.cons_append] at ih
      rw [List.cons_append, split_of_ne same ih, split_of_ne same behind, List.cons_append]

theorem split_of_plain {bs : Bytes} (plain : slash ∉ bs) : split bs = [bs] := by
  have whole : split (bs ++ []) = [bs ++ []] := split_append plain rfl
  rwa [List.append_nil] at whole

theorem slash_not_mem {bs piece : Bytes} (member : piece ∈ split bs) : slash ∉ piece := by
  induction bs generalizing piece with
  | nil =>
    rw [List.mem_singleton.mp member]
    exact List.not_mem_nil
  | cons b bs ih =>
    by_cases same : b = slash
    · rw [same, split_slash] at member
      rcases List.mem_cons.mp member with rfl | later
      · exact List.not_mem_nil
      · exact ih later
    · obtain ⟨first, pieces, behind⟩ := List.exists_cons_of_ne_nil (split_ne_nil bs)
      rw [split_of_ne same behind] at member
      rcases List.mem_cons.mp member with rfl | later
      · intro inPiece
        rcases List.mem_cons.mp inPiece with here | inside
        · exact same here.symm
        · exact ih (behind ▸ List.mem_cons_self) inside
      · exact ih (behind ▸ List.mem_cons_of_mem first later)

theorem split_unsplit {pieces : List Bytes} (some : pieces ≠ [])
    (plain : ∀ piece ∈ pieces, slash ∉ piece) : split (unsplit pieces) = pieces := by
  induction pieces with
  | nil => exact absurd rfl some
  | cons piece pieces ih =>
    have first := split_of_plain (plain piece List.mem_cons_self)
    cases pieces with
    | nil => exact first
    | cons next pieces =>
      have others := ih nofun fun p member => plain p (List.mem_cons_of_mem piece member)
      rw [unsplit, split_append_slash, first, others, List.singleton_append]
      exact nofun

theorem unsplit_cons {pieces : List Bytes} (some : pieces ≠ []) (piece : Bytes) :
    unsplit (piece :: pieces) = piece ++ slash :: unsplit pieces := by
  cases pieces with
  | nil => exact absurd rfl some
  | cons => rfl

theorem unsplit_front (pieces rest : List Bytes) : unsplit pieces <+: unsplit (pieces ++ rest) := by
  induction pieces with
  | nil => exact List.nil_prefix
  | cons piece pieces ih =>
    cases pieces with
    | nil =>
      cases rest with
      | nil => exact List.prefix_rfl
      | cons next rest => exact List.prefix_append piece _
    | cons next pieces =>
      have some : next :: pieces ≠ [] := List.cons_ne_nil _ _
      rw [List.cons_append, unsplit_cons some,
        unsplit_cons (List.append_ne_nil_of_left_ne_nil some rest)]
      exact (List.prefix_append_right_inj piece).mpr (List.cons_prefix_cons.mpr ⟨rfl, ih⟩)

theorem unsplit_concat_empty {pieces : List Bytes} (some : pieces ≠ []) :
    unsplit (pieces ++ [[]]) = unsplit pieces ++ [slash] := by
  induction pieces with
  | nil => exact absurd rfl some
  | cons piece pieces ih =>
    cases pieces with
    | nil => rfl
    | cons next pieces =>
      have others := ih (List.cons_ne_nil _ _)
      rw [List.cons_append,
        unsplit_cons (List.append_ne_nil_of_left_ne_nil (List.cons_ne_nil _ _) _),
        others, unsplit_cons (List.cons_ne_nil _ _), List.append_assoc, List.cons_append]

theorem unsplit_split (bs : Bytes) : unsplit (split bs) = bs := by
  induction bs with
  | nil => rfl
  | cons b bs ih =>
    by_cases same : b = slash
    · rw [same, split_slash, unsplit_cons (split_ne_nil bs), ih, List.nil_append]
    · obtain ⟨piece, pieces, behind⟩ := List.exists_cons_of_ne_nil (split_ne_nil bs)
      rw [split_of_ne same behind]
      rw [behind] at ih
      cases pieces with
      | nil => exact congrArg (b :: ·) ih
      | cons next pieces => exact congrArg (b :: ·) ih

/-- The pieces of a text are the texts between its slashes. -/
theorem split_utf8Chars (cs : List Char) :
    split (utf8Chars cs) = (Url.splitPath false cs).map utf8Chars := by
  induction cs with
  | nil => rfl
  | cons c cs ih =>
    rw [utf8Chars_cons, Url.splitPath]
    by_cases same : c = '/'
    · rw [same, if_pos (show Url.isSeparator false '/' = true from rfl), List.map_cons, ← ih]
      exact split_slash _
    · have part : Url.isSeparator false c = false := by simp [Url.isSeparator, same]
      obtain ⟨piece, pieces, behind⟩ := List.exists_cons_of_ne_nil (split_ne_nil (utf8Chars cs))
      rw [split_append (slash_not_mem_utf8Char same) behind, part]
      rw [behind] at ih
      cases chars : Url.splitPath false cs with
      | nil =>
        rw [chars] at ih
        cases ih
      | cons first rest =>
        rw [chars, List.map_cons] at ih
        obtain ⟨rfl, rfl⟩ := List.cons.inj ih
        rfl

theorem isUtf8_of_mem_split {bs piece : Bytes} (text : IsUtf8 bs) (member : piece ∈ split bs) :
    IsUtf8 piece := by
  obtain ⟨cs, rfl⟩ := text
  rw [split_utf8Chars] at member
  obtain ⟨chars, _, rfl⟩ := List.mem_map.mp member
  exact ⟨chars, rfl⟩

theorem isUtf8_unsplit {pieces : List Bytes} (texts : ∀ piece ∈ pieces, IsUtf8 piece) :
    IsUtf8 (unsplit pieces) := by
  induction pieces with
  | nil => exact ⟨[], rfl⟩
  | cons piece pieces ih =>
    obtain ⟨cs, rfl⟩ := texts _ List.mem_cons_self
    cases pieces with
    | nil => exact ⟨cs, rfl⟩
    | cons next pieces =>
      obtain ⟨rest, behind⟩ := ih fun p member => texts p (List.mem_cons_of_mem _ member)
      refine ⟨cs ++ '/' :: rest, ?_⟩
      rw [unsplit, behind, utf8Chars_append, utf8Chars_cons]
      · rfl
      · exact nofun

end Splitting

section Texts

theorem ofText_ofList (cs : List Char) : ofText (String.ofList cs) = ⟨utf8Chars cs⟩ := by
  rw [ofText, utf8, String.toList_ofList]

theorem isUtf8_ofText (s : String) : IsUtf8 (ofText s).bytes := ⟨s.toList, rfl⟩

/-- A path that is a text is shown as it is. -/
theorem ofText_display {p : Path} (text : IsUtf8 p.bytes) : ofText p.display = p := by
  obtain ⟨bytes⟩ := p
  obtain ⟨cs, rfl⟩ := text
  rw [display, utf8Lossy_utf8Chars, ofText_ofList]

theorem display_ofText (s : String) : (ofText s).display = s := by
  rw [display, ofText, utf8, utf8Lossy_utf8Chars, String.ofList_toList]

end Texts

section Segments

variable {p base : Path}

theorem isUtf8_join (text : IsUtf8 base.bytes) (text' : IsUtf8 p.bytes) :
    IsUtf8 (base.join p).bytes := by
  obtain ⟨cs, same⟩ := text
  obtain ⟨cs', same'⟩ := text'
  rw [join]
  split
  · exact ⟨cs', same'⟩
  split
  · exact ⟨cs ++ cs', by rw [utf8Chars_append, same, same']⟩
  · refine ⟨cs ++ '/' :: cs', ?_⟩
    rw [utf8Chars_append, utf8Chars_cons, same, same']
    rfl

theorem pieces_of_absolute (absolute : p.isAbsolute = true) :
    p.bytes = slash :: p.bytes.tail ∧ p.pieces = split p.bytes.tail := by
  obtain ⟨bytes⟩ := p
  cases bytes with
  | nil => cases absolute
  | cons b bytes =>
    have first : b = slash := by simpa [isAbsolute] using absolute
    subst first
    exact ⟨rfl, if_pos rfl⟩

theorem segments_eq (p : Path) :
    p.segments = (split p.bytes).filter fun piece => !isIdle piece := by
  cases absolute : p.isAbsolute with
  | true =>
    obtain ⟨front, pieces⟩ := pieces_of_absolute absolute
    have whole := congrArg split front
    rw [split_slash] at whole
    rw [segments, pieces, whole]
    rfl
  | false => rw [segments, pieces, absolute, if_neg Bool.false_ne_true]

theorem segments_slash (bs : Bytes) :
    (⟨slash :: bs⟩ : Path).segments = (⟨bs⟩ : Path).segments := by
  rw [segments_eq, segments_eq, split_slash]
  rfl

theorem of_mem_segments {s : Bytes} (member : s ∈ p.segments) :
    isIdle s = false ∧ slash ∉ s := by
  rw [segments_eq, List.mem_filter, Bool.not_eq_true'] at member
  exact ⟨member.2, slash_not_mem member.1⟩

theorem join_of_absolute (absolute : p.isAbsolute = true) : base.join p = p := if_pos absolute

theorem isAbsolute_join (absolute : base.isAbsolute = true) : (base.join p).isAbsolute = true := by
  obtain ⟨front, _⟩ := pieces_of_absolute absolute
  rw [join]
  split
  · assumption
  · split <;> rw [isAbsolute, front] <;> rfl

theorem isAbsolute_join_of_relative (relative : p.isAbsolute = false) :
    (base.join p).isAbsolute = base.isAbsolute := by
  rw [join, if_neg (by rw [relative]; exact Bool.false_ne_true)]
  obtain ⟨bytes⟩ := base
  cases bytes with
  | nil => exact relative
  | cons b bytes => split <;> rfl

/-- A relative path behind another has the pieces of both, and between them at most an empty one
is lost. -/
theorem split_join (base : Path) (relative : p.isAbsolute = false) :
    ∃ front, front.filter (fun piece => !isIdle piece) = base.segments ∧
      split (base.join p).bytes = front ++ split p.bytes := by
  rw [join, if_neg (by rw [relative]; exact Bool.false_ne_true), segments_eq]
  split
  · rename_i closed
    rcases Bool.or_eq_true_iff.mp closed with none | last
    · have empty : base.bytes = [] := List.isEmpty_iff.mp none
      rw [empty]
      exact ⟨[], rfl, rfl⟩
    · obtain ⟨front, same⟩ := List.getLast?_eq_some_iff.mp (eq_of_beq last)
      rw [same]
      refine ⟨split front, ?_, ?_⟩
      · rw [split_append_slash, List.filter_append]
        exact (List.append_nil _).symm
      · rw [List.append_assoc, List.singleton_append, split_append_slash]
  · exact ⟨split base.bytes, rfl, split_append_slash _ _⟩

theorem segments_join (relative : p.isAbsolute = false) :
    (base.join p).segments = base.segments ++ p.segments := by
  obtain ⟨front, same, pieces⟩ := split_join base relative
  rw [segments_eq, pieces, List.filter_append, same, ← segments_eq]

/-- The last piece of a relative path stays the last behind a directory. -/
theorem pieces_join_concat (base : Path) (relative : p.isAbsolute = false) {before : List Bytes}
    {name : Bytes} (parts : p.pieces = before ++ [name]) :
    ∃ front, (base.join p).pieces = front ++ [name] := by
  obtain ⟨front, _, whole⟩ := split_join base relative
  rw [pieces, relative, if_neg Bool.false_ne_true] at parts
  rw [parts, ← List.append_assoc] at whole
  cases absolute : (base.join p).isAbsolute with
  | false => exact ⟨_, by rw [pieces, absolute, if_neg Bool.false_ne_true, whole]⟩
  | true =>
    obtain ⟨start, pieces⟩ := pieces_of_absolute absolute
    rw [start, split_slash, ← pieces] at whole
    cases turned : front ++ before with
    | nil =>
      -- there is more than the piece before the first slash
      rw [turned] at whole
      have none := (List.cons.inj whole).2
      rw [pieces] at none
      exact absurd none (split_ne_nil _)
    | cons piece others =>
      rw [turned] at whole
      exact ⟨others, (List.cons.inj whole).2⟩

/-- Behind a directory from the root a name stands as it is. -/
theorem pieces_join (absolute : base.isAbsolute = true) (relative : p.isAbsolute = false)
    (first : [] ∉ split p.bytes) :
    ∃ front, front.filter (fun piece => !isIdle piece) = base.segments ∧
      (base.join p).pieces = front ++ split p.bytes := by
  obtain ⟨front, same, parts⟩ := split_join base relative
  obtain ⟨start, pieces⟩ := pieces_of_absolute (isAbsolute_join (p := p) absolute)
  rw [start, split_slash, ← pieces] at parts
  cases front with
  | nil =>
    rw [List.nil_append] at parts
    exact absurd (by rw [← parts]; exact List.mem_cons_self) first
  | cons piece front =>
    obtain ⟨rfl, behind⟩ := List.cons.inj parts
    exact ⟨front, same, behind⟩

theorem resolveSegments_of_not_mem {ss : List Bytes} (forward : dotDot ∉ ss) :
    resolveSegments ss = ss := by
  have behind : ∀ (ss kept : List Bytes), dotDot ∉ ss →
      ss.foldl (fun kept s => if s = dotDot then kept.tail else s :: kept) kept =
        ss.reverse ++ kept := by
    intro ss
    induction ss with
    | nil => exact fun kept _ => rfl
    | cons s ss ih =>
      intro kept forward
      have other : s ≠ dotDot := fun same => forward (same ▸ List.mem_cons_self)
      rw [List.foldl_cons, if_neg other, ih _ fun member => forward (List.mem_cons_of_mem s member),
        List.reverse_cons, List.append_assoc, List.singleton_append]
  rw [resolveSegments, behind ss [] forward, List.append_nil, List.reverse_reverse]

theorem dotDot_not_mem_resolve (p : Path) : dotDot ∉ p.resolve := by
  have behind : ∀ (ss kept : List Bytes), dotDot ∉ kept →
      dotDot ∉ ss.foldl (fun kept s => if s = dotDot then kept.tail else s :: kept) kept := by
    intro ss
    induction ss with
    | nil => exact fun kept absent => absent
    | cons s ss ih =>
      intro kept absent
      rw [List.foldl_cons]
      refine ih _ fun member => ?_
      split at member
      · exact absent (List.mem_of_mem_tail member)
      · rename_i other
        exact (List.mem_cons.mp member).elim (fun same => other same.symm) absent
  rw [resolve, resolveSegments, List.mem_reverse]
  exact behind p.segments [] List.not_mem_nil

/-- Following `..` leaves a path as it is just when it has none. -/
theorem resolve_eq_segments_iff : p.resolve = p.segments ↔ dotDot ∉ p.segments :=
  ⟨fun same => same ▸ dotDot_not_mem_resolve p, resolveSegments_of_not_mem⟩

end Segments

section Stripping

/-- What is stripped off pieces are those that tell; some that do not may be left. -/
theorem stripPieces_append (pieces rest : List Bytes) : ∃ idle,
    (∀ piece ∈ idle, isIdle piece = true) ∧
    stripPieces (pieces.filter fun piece => !isIdle piece) (pieces ++ rest) =
      some (idle ++ rest) := by
  induction pieces with
  | nil => exact ⟨[], nofun, by rw [List.filter_nil, stripPieces]⟩
  | cons piece pieces ih =>
    obtain ⟨idle, means, stripped⟩ := ih
    cases nothing : isIdle piece with
    | true =>
      rw [List.filter_cons_of_neg (by simp [nothing]), List.cons_append]
      cases kept : pieces.filter fun piece => !isIdle piece with
      | nil =>
        refine ⟨piece :: pieces, fun other member => ?_, by rw [stripPieces]; rfl⟩
        rcases List.mem_cons.mp member with rfl | later
        · exact nothing
        · simpa using List.filter_eq_nil_iff.mp kept other later
      | cons s ss =>
        rw [kept] at stripped
        exact ⟨idle, means, by rw [stripPieces, nothing, if_pos rfl, stripped]⟩
    | false =>
      rw [List.filter_cons_of_pos (by simp [nothing]), List.cons_append, stripPieces, nothing,
        if_neg Bool.false_ne_true, if_pos rfl]
      exact ⟨idle, means, stripped⟩

/-- What is stripped off some pieces are the segments that it was asked to. -/
theorem of_stripPieces {ss pieces rest : List Bytes} (telling : ∀ s ∈ ss, isIdle s = false)
    (stripped : stripPieces ss pieces = some rest) :
    ∃ front, pieces = front ++ rest ∧ front.filter (fun piece => !isIdle piece) = ss := by
  induction pieces generalizing ss with
  | nil =>
    cases ss with
    | nil =>
      rw [stripPieces] at stripped
      exact ⟨[], Option.some.inj stripped, rfl⟩
    | cons s ss => cases stripped
  | cons piece pieces ih =>
    cases ss with
    | nil =>
      rw [stripPieces] at stripped
      exact ⟨[], Option.some.inj stripped, rfl⟩
    | cons s ss =>
      rw [stripPieces] at stripped
      split at stripped
      · rename_i nothing
        obtain ⟨front, rfl, kept⟩ := ih telling stripped
        exact ⟨piece :: front, rfl, by rw [List.filter_cons_of_neg (by simp [nothing]), kept]⟩
      split at stripped
      · rename_i something same
        obtain ⟨front, rfl, kept⟩ := ih (fun t member => telling t (List.mem_cons_of_mem s member))
          stripped
        exact ⟨piece :: front, rfl, by
          rw [List.filter_cons_of_pos (by simp [something]), kept, same]⟩
      · cases stripped

theorem trimEndPieces_append {pieces idle : List Bytes} (telling : ∀ s ∈ pieces, isIdle s = false)
    (nothing : ∀ s ∈ idle, isIdle s = true) : trimEndPieces (pieces ++ idle) = pieces := by
  have stop : pieces.reverse.dropWhile isIdle = pieces.reverse := by
    cases last : pieces.reverse with
    | nil => rfl
    | cons s ss =>
      have member : s ∈ pieces := List.mem_reverse.mp (last ▸ List.mem_cons_self)
      rw [List.dropWhile_cons, telling s member]
      rfl
  rw [trimEndPieces, List.reverse_append, List.dropWhile_append_of_pos, stop, List.reverse_reverse]
  exact fun s member => nothing s (List.mem_reverse.mp member)

theorem trimPieces_between {pieces before behind : List Bytes}
    (telling : ∀ s ∈ pieces, isIdle s = false) (some : pieces ≠ [])
    (nothing : ∀ s ∈ before, isIdle s = true) (nothing' : ∀ s ∈ behind, isIdle s = true) :
    trimPieces (before ++ (pieces ++ behind)) = pieces := by
  obtain ⟨first, others, rfl⟩ := List.exists_cons_of_ne_nil some
  have shown := telling first List.mem_cons_self
  have start : (before ++ (first :: others ++ behind)).dropWhile isIdle =
      first :: others ++ behind := by
    rw [List.dropWhile_append_of_pos nothing, List.cons_append, List.dropWhile_cons, shown]
    rfl
  rw [trimPieces, start, trimEndPieces_append telling nothing']

theorem trimEndPieces_spec (pieces : List Bytes) : ∃ idle, (∀ s ∈ idle, isIdle s = true) ∧
    pieces = trimEndPieces pieces ++ idle ∧
    ∀ s ∈ (trimEndPieces pieces).getLast?, isIdle s = false := by
  refine ⟨(pieces.reverse.takeWhile isIdle).reverse, fun s member =>
    List.mem_takeWhile_imp (List.mem_reverse.mp member), ?_, fun s last => ?_⟩
  · have parts := (pieces.reverse.takeWhile_append_dropWhile (p := isIdle)).symm
    have turned := congrArg List.reverse parts
    rwa [List.reverse_reverse, List.reverse_append] at turned
  · have none := List.head?_dropWhile_not isIdle pieces.reverse
    rw [trimEndPieces, List.getLast?_reverse] at last
    rw [last] at none
    exact Bool.eq_false_iff.mpr (by simpa using none)

theorem filter_trimEndPieces (pieces : List Bytes) :
    (trimEndPieces pieces).filter (fun s => !isIdle s) = pieces.filter fun s => !isIdle s := by
  obtain ⟨idle, nothing, whole, _⟩ := trimEndPieces_spec pieces
  have none : idle.filter (fun s => !isIdle s) = [] :=
    List.filter_eq_nil_iff.mpr fun s member => by simp [nothing s member]
  conv => rhs; rw [whole, List.filter_append, none, List.append_nil]

/-- Trimming some pieces takes nothing but pieces that mean nothing, and what is left begins with
one that means something. -/
theorem trimPieces_spec (pieces : List Bytes) : ∃ before behind,
    (∀ s ∈ before, isIdle s = true) ∧ (∀ s ∈ behind, isIdle s = true) ∧
    pieces = before ++ (trimPieces pieces ++ behind) ∧
    ∀ s ∈ (trimPieces pieces).head?, isIdle s = false := by
  obtain ⟨behind, nothing, whole, _⟩ := trimEndPieces_spec (pieces.dropWhile isIdle)
  rw [← trimPieces] at whole
  refine ⟨pieces.takeWhile isIdle, behind, fun s member => List.mem_takeWhile_imp member, nothing,
    ?_, fun s member => ?_⟩
  · rw [← whole]
    exact (List.takeWhile_append_dropWhile).symm
  · have first : (pieces.dropWhile isIdle).head? = some s := by
      rw [whole, List.head?_append, Option.mem_def.mp member, Option.some_or]
    have none := List.head?_dropWhile_not isIdle pieces
    rw [first] at none
    exact Bool.eq_false_iff.mpr (by simpa using none)

theorem mem_of_mem_trimPieces {pieces : List Bytes} {s : Bytes} (member : s ∈ trimPieces pieces) :
    s ∈ pieces := by
  obtain ⟨before, behind, _, _, whole, _⟩ := trimPieces_spec pieces
  rw [whole]
  exact List.mem_append_right _ (List.mem_append_left _ member)

theorem filter_trimPieces (pieces : List Bytes) :
    (trimPieces pieces).filter (fun s => !isIdle s) = pieces.filter fun s => !isIdle s := by
  obtain ⟨before, behind, nothing, nothing', whole, _⟩ := trimPieces_spec pieces
  have none {ss : List Bytes} (idle : ∀ s ∈ ss, isIdle s = true) :
      ss.filter (fun s => !isIdle s) = [] :=
    List.filter_eq_nil_iff.mpr fun s member => by simp [idle s member]
  conv => rhs; rw [whole, List.filter_append, List.filter_append, none nothing, none nothing',
    List.nil_append, List.append_nil]

theorem segments_unsplit {pieces : List Bytes} (plain : ∀ s ∈ pieces, slash ∉ s) :
    (⟨unsplit pieces⟩ : Path).segments = pieces.filter fun s => !isIdle s := by
  cases pieces with
  | nil => rfl
  | cons s ss => rw [segments_eq, split_unsplit (List.cons_ne_nil s ss) plain]

theorem isAbsolute_unsplit {pieces : List Bytes} (plain : ∀ s ∈ pieces, slash ∉ s)
    (first : ∀ s ∈ pieces.head?, s ≠ []) : (⟨unsplit pieces⟩ : Path).isAbsolute = false := by
  cases pieces with
  | nil => rfl
  | cons s ss =>
    cases s with
    | nil => exact absurd rfl (first [] rfl)
    | cons b s =>
      have other : b ≠ slash := fun same => plain _ List.mem_cons_self (same ▸ List.mem_cons_self)
      have start : (unsplit ((b :: s) :: ss)).head? = some b := by cases ss <;> rfl
      rw [isAbsolute, start]
      exact beq_eq_false_iff_ne.mpr fun same => other (Option.some.inj same)

end Stripping

section Parents

variable {p q : Path}

theorem slash_not_mem_of_pieces {piece : Bytes} (member : piece ∈ p.pieces) : slash ∉ piece := by
  rw [pieces] at member
  split at member
  · exact slash_not_mem member
  · exact slash_not_mem member

theorem head_pieces_ne_nil (relative : p.isAbsolute = false) (some : p.bytes ≠ []) :
    ∀ s ∈ p.pieces.head?, s ≠ [] := by
  obtain ⟨bytes⟩ := p
  obtain ⟨b, bs, rfl⟩ := List.exists_cons_of_ne_nil some
  have other : b ≠ slash := by
    rintro rfl
    cases relative
  obtain ⟨piece, pieces, behind⟩ := List.exists_cons_of_ne_nil (split_ne_nil bs)
  rw [Path.pieces, relative, if_neg Bool.false_ne_true, split_of_ne other behind]
  rintro s first rfl
  cases first

/-- The path above a path has the same segments but the last. Above a `.` stands the empty path. -/
theorem segments_parent? (above : p.parent? = some q) :
    q.bytes = [] ∧ p.segments = [] ∨
      q.isAbsolute = p.isAbsolute ∧ ∃ s, p.segments = q.segments ++ [s] := by
  rw [parent?] at above
  dsimp only at above
  split at above
  · rename_i turned
    have none : p.segments = [] := by
      rw [Path.segments, ← filter_trimEndPieces, List.reverse_eq_nil_iff.mp turned, List.filter_nil]
    split at above
    · cases above
      exact .inl ⟨rfl, none⟩
    · cases above
  rename_i last before turned
  obtain ⟨idle, nothing, whole, telling⟩ := trimEndPieces_spec p.pieces
  have parts : trimEndPieces p.pieces = before.reverse ++ [last] := by
    rw [← List.reverse_reverse (trimEndPieces p.pieces), turned, List.reverse_cons]
  have shown : isIdle last = false := telling last (by rw [parts, List.getLast?_concat]; rfl)
  have segments : p.segments = before.reverse.filter (fun s => !isIdle s) ++ [last] := by
    rw [Path.segments, ← filter_trimEndPieces, parts, List.filter_append,
      List.filter_cons_of_pos (by simp [shown]), List.filter_nil]
  have inside {s : Bytes} (member : s ∈ before.reverse) : s ∈ p.pieces := by
    rw [whole, parts]
    exact List.mem_append_left _ (List.mem_append_left _ member)
  obtain ⟨idle', _, kept, _⟩ := trimEndPieces_spec before.reverse
  have plain : ∀ s ∈ trimEndPieces before.reverse, slash ∉ s := fun s member =>
    slash_not_mem_of_pieces (inside (by rw [kept]; exact List.mem_append_left _ member))
  split at above
  · rename_i here
    simp only [Bool.and_eq_true, Bool.not_eq_true', List.isEmpty_iff] at here
    cases above
    refine .inr ⟨here.1.2.symm, last, ?_⟩
    rw [segments, ← filter_trimEndPieces, here.1.1]
    rfl
  · cases above
    cases absolute : p.isAbsolute with
    | true =>
      refine .inr ⟨rfl, last, ?_⟩
      rw [segments, ← filter_trimEndPieces, ← segments_unsplit plain]
      exact congrArg (· ++ [last]) (segments_slash _).symm
    | false =>
      refine .inr ⟨isAbsolute_unsplit plain fun s first => ?_, last, ?_⟩
      · have some : p.bytes ≠ [] := by
          intro empty
          have none : trimEndPieces p.pieces = [] := by
            rw [pieces, absolute, if_neg Bool.false_ne_true, empty]
            rfl
          rw [none] at parts
          exact List.append_ne_nil_of_right_ne_nil _ (List.cons_ne_nil _ _) parts.symm
        refine head_pieces_ne_nil absolute some s ?_
        rw [whole, parts, kept, List.append_assoc, List.append_assoc, List.head?_append,
          Option.mem_def.mp first]
        rfl
      · rw [segments, ← filter_trimEndPieces, ← segments_unsplit plain]
        rfl

theorem bytes_eq (p : Path) :
    p.bytes = (if p.isAbsolute then [slash] else []) ++ unsplit p.pieces := by
  cases absolute : p.isAbsolute with
  | true =>
    obtain ⟨start, pieces⟩ := pieces_of_absolute absolute
    rw [pieces, unsplit_split]
    exact start
  | false =>
    rw [pieces, absolute, if_neg Bool.false_ne_true, if_neg Bool.false_ne_true, unsplit_split]
    rfl

/-- The path above a path is written at its front. -/
theorem bytes_parent? (above : p.parent? = some q) : q.bytes <+: p.bytes := by
  rw [bytes_eq p]
  rw [parent?] at above
  dsimp only at above
  split at above
  · split at above
    · cases above
      exact List.nil_prefix
    · cases above
  rename_i last before turned
  obtain ⟨idle, _, whole, _⟩ := trimEndPieces_spec p.pieces
  have parts : trimEndPieces p.pieces = before.reverse ++ [last] := by
    rw [← List.reverse_reverse (trimEndPieces p.pieces), turned, List.reverse_cons]
  rw [parts, List.append_assoc] at whole
  split at above
  · rename_i here
    simp only [Bool.and_eq_true, Bool.not_eq_true', List.isEmpty_iff, beq_iff_eq] at here
    cases above
    obtain ⟨rest, front⟩ := List.head?_eq_some_iff.mp here.2
    rw [whole, here.1.2, front]
    exact unsplit_front [dot] _
  · cases above
    obtain ⟨idle', _, kept, _⟩ := trimEndPieces_spec before.reverse
    have front : p.pieces = trimEndPieces before.reverse ++ (idle' ++ ([last] ++ idle)) := by
      rw [← List.append_assoc, ← kept, whole]
    rw [front]
    exact (List.prefix_append_right_inj _).mpr (unsplit_front _ _)

theorem segments_of_parent?_eq_none (none : p.parent? = none) : p.segments = [] := by
  rw [parent?] at none
  dsimp only at none
  split at none
  · rename_i turned
    rw [Path.segments, ← filter_trimEndPieces, List.reverse_eq_nil_iff.mp turned, List.filter_nil]
  · split at none <;> cases none

end Parents

end Path

end LintBridge

import LintBridge.Proofs.Path.Segments
import LintBridge.Proofs.Text.Lossy

namespace LintBridge

section Bytes

variable {bs : Bytes}

theorem lossy_of_isUtf8 (text : IsUtf8 bs) : lossy bs = bs := by
  obtain ⟨cs, rfl⟩ := text
  rw [lossy, utf8Lossy_utf8Chars, utf8, String.toList_ofList]

theorem isUtf8_iff_lossy : IsUtf8 bs ↔ lossy bs = bs :=
  ⟨lossy_of_isUtf8, fun same => ⟨_, same.symm.trans (lossy_eq bs)⟩⟩

/-- What is shown as a text without U+FFFD is that text. -/
theorem lossy_eq_iff (cs : List Char) (whole : Char.ofNat 0xfffd ∉ cs) :
    lossy bs = utf8Chars cs ↔ bs = utf8Chars cs :=
  ⟨fun shown => eq_of_lossy shown whole, fun same => (lossy_of_isUtf8 ⟨cs, same⟩).trans same⟩

theorem lossy_eq_nil_iff : lossy bs = [] ↔ bs = [] := lossy_eq_iff [] List.not_mem_nil

theorem slash_not_mem_lossy (plain : Path.slash ∉ bs) : Path.slash ∉ lossy bs := by
  rw [lossy_eq, utf8Chars]
  intro member
  obtain ⟨c, shown, within⟩ := List.mem_flatMap.mp member
  obtain ⟨u, unit, rfl⟩ := List.mem_map.mp shown
  cases u with
  | some c => exact plain (mem_of_unit within unit)
  | none => exact slash_not_mem_utf8Char (by decide) within

end Bytes

namespace Path

theorem split_lossy (bs : Bytes) : split (lossy bs) = (split bs).map lossy := by
  generalize most : bs.length = n
  induction n using Nat.strongRecOn generalizing bs with
  | ind n ih =>
    by_cases plain : slash ∈ bs
    · obtain ⟨front, rest, rfl⟩ := List.append_of_mem plain
      rw [List.length_append, List.length_cons] at most
      rw [lossy_append (by decide), split_append_slash, split_append_slash, List.map_append,
        ih _ (by omega) _ rfl, ih _ (by omega) _ rfl]
    · rw [split_of_plain plain, split_of_plain (slash_not_mem_lossy plain)]
      rfl

theorem isIdle_lossy (piece : Bytes) : isIdle (lossy piece) = isIdle piece := by
  have empty : lossy piece = [] ↔ piece = [] := lossy_eq_nil_iff
  have same : lossy piece = dot ↔ piece = dot := lossy_eq_iff ['.'] (by decide)
  rw [Bool.eq_iff_iff]
  simp only [isIdle, Bool.or_eq_true, List.isEmpty_iff, beq_iff_eq, empty, same]

theorem lossy_eq_dotDot_iff {piece : Bytes} : lossy piece = dotDot ↔ piece = dotDot :=
  lossy_eq_iff ['.', '.'] (by decide)

/-- A path starts at the root when nothing stands before its first slash. -/
theorem isAbsolute_iff_split {p : Path} :
    p.isAbsolute = true ↔ ∃ pieces, split p.bytes = [] :: pieces ∧ pieces ≠ [] := by
  constructor
  · intro absolute
    obtain ⟨front, _⟩ := pieces_of_absolute absolute
    exact ⟨_, (congrArg split front).trans (split_slash _), split_ne_nil _⟩
  · rintro ⟨pieces, parts, some⟩
    obtain ⟨bytes⟩ := p
    cases bytes with
    | nil =>
      cases parts
      exact absurd rfl some
    | cons b rest =>
      by_cases front : b = slash
      · subst front
        rfl
      · obtain ⟨first, others, split⟩ := List.exists_cons_of_ne_nil (split_ne_nil rest)
        have whole := split_of_ne front split
        rw [whole] at parts
        cases parts

theorem pieces_eq (p : Path) :
    p.pieces = if p.isAbsolute then (split p.bytes).tail else split p.bytes := by
  cases absolute : p.isAbsolute with
  | false => simp only [pieces, absolute, Bool.false_eq_true, if_false]
  | true =>
    obtain ⟨front, pieces⟩ := pieces_of_absolute absolute
    rw [pieces, if_pos rfl, congrArg split front, split_slash]
    rfl

section Shown

variable (p : Path)

theorem split_shown : split (ofText p.display).bytes = (split p.bytes).map lossy :=
  split_lossy p.bytes

theorem isAbsolute_shown : (ofText p.display).isAbsolute = p.isAbsolute := by
  rw [Bool.eq_iff_iff, isAbsolute_iff_split, isAbsolute_iff_split, split_shown]
  constructor
  · rintro ⟨pieces, parts, some⟩
    obtain ⟨first, others, split, empty, rfl⟩ := List.map_eq_cons_iff.mp parts
    rw [split, lossy_eq_nil_iff.mp empty]
    exact ⟨others, rfl, fun none => some (by rw [none, List.map_nil])⟩
  · rintro ⟨pieces, parts, some⟩
    rw [parts]
    exact ⟨pieces.map lossy, rfl, fun none => some (List.map_eq_nil_iff.mp none)⟩

theorem pieces_shown : (ofText p.display).pieces = p.pieces.map lossy := by
  rw [pieces_eq, pieces_eq, isAbsolute_shown, split_shown]
  split
  · exact List.map_tail.symm
  · rfl

theorem segments_shown : (ofText p.display).segments = p.segments.map lossy := by
  rw [segments, segments, pieces_shown, List.filter_map]
  refine congrArg (List.map lossy) (List.filter_congr fun piece _ => ?_)
  exact congrArg not (isIdle_lossy piece)

theorem dotDot_mem_shown : dotDot ∈ (ofText p.display).segments ↔ dotDot ∈ p.segments := by
  simp only [segments_shown, List.mem_map, lossy_eq_dotDot_iff, exists_eq_right]

/-- A path is a text when its segments are shown as they are. -/
theorem isUtf8_iff_segments : IsUtf8 p.bytes ↔ (ofText p.display).segments = p.segments := by
  constructor
  · exact fun text => congrArg segments (ofText_display text)
  · intro same
    rw [segments_shown, ← List.map_id p.segments, List.map_map, List.map_inj_left] at same
    rw [← unsplit_split p.bytes]
    refine isUtf8_unsplit fun piece member => ?_
    by_cases idle : isIdle piece = true
    · rcases Bool.or_eq_true_iff.mp idle with empty | dot
      · exact ⟨[], List.isEmpty_iff.mp empty⟩
      · exact ⟨['.'], eq_of_beq dot⟩
    · have named : piece ∈ p.segments := by
        rw [segments_eq]
        exact List.mem_filter.mpr ⟨member, by simpa using idle⟩
      exact isUtf8_iff_lossy.mpr (same piece named)

end Shown

end Path

end LintBridge

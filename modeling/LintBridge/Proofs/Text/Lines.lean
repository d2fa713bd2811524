import LintBridge.Proofs.Text.Written
import LintBridge.Text.Blank
import Mathlib.Data.List.TakeWhile

namespace LintBridge

section Heads

theorem toNat_charOfNat {n : Nat} (valid : n.isValidChar) : (Char.ofNat n).toNat = n := by
  rw [Char.ofNat, dif_pos valid]
  rfl

/-- A byte behind the first one of a character carries six bits. -/
theorem of_utf8Tail? {b : UInt8} {t : Nat} (tail : utf8Tail? b = some t) :
    b.toNat = 0x80 + t ∧ t < 0x40 := by
  unfold utf8Tail? at tail
  split at tail
  · have same := Option.some.inj tail
    omega
  · cases tail

theorem toUInt8_of_toNat {b : UInt8} {n : Nat} (same : n = b.toNat) : n.toUInt8 = b := by
  rw [same]
  exact UInt8.ofNat_toNat

/-- What reads as a character are its bytes. -/
theorem of_utf8Head {b : UInt8} {rest behind : Bytes} {c : Char}
    (head : utf8Head b rest = .char c behind) : b :: rest = utf8Char c ++ behind := by
  have range := b.toNat_lt
  revert head
  -- one case for each length; in all others a run is broken
  fun_cases utf8Head b rest
  case case1 n one =>
    rintro ⟨⟩
    have same : (Char.ofNat n).toNat = n := toNat_charOfNat (.inl (by omega))
    rw [utf8Char, same, if_pos one, toUInt8_of_toNat rfl]
    rfl
  case case2 n _ lead b₁ r₁ t₁ tail₁ =>
    rintro ⟨⟩
    obtain ⟨byte₁, small₁⟩ := of_utf8Tail? tail₁
    have same : (Char.ofNat ((n - 0xc0) * 0x40 + t₁)).toNat = (n - 0xc0) * 0x40 + t₁ :=
      toNat_charOfNat (.inl (by omega))
    rw [utf8Char, same, if_neg (by omega), if_pos (by omega), toUInt8_of_toNat (b := b) (by omega),
      toUInt8_of_toNat (b := b₁) (by omega)]
    rfl
  case case6 n _ _ lead b₁ t₁ tail₁ bounds b₂ r₂ t₂ tail₂ =>
    rintro ⟨⟩
    obtain ⟨byte₁, small₁⟩ := of_utf8Tail? tail₁
    obtain ⟨byte₂, small₂⟩ := of_utf8Tail? tail₂
    have same : (Char.ofNat ((n - 0xe0) * 0x1000 + t₁ * 0x40 + t₂)).toNat =
        (n - 0xe0) * 0x1000 + t₁ * 0x40 + t₂ :=
      toNat_charOfNat (by rw [Nat.isValidChar]; omega)
    rw [utf8Char, same, if_neg (by omega), if_neg (by omega), if_pos (by omega),
      toUInt8_of_toNat (b := b) (by omega), toUInt8_of_toNat (b := b₁) (by omega),
      toUInt8_of_toNat (b := b₂) (by omega)]
    rfl
  case case12 n _ _ _ lead b₁ t₁ tail₁ bounds b₂ t₂ tail₂ b₃ r₃ t₃ tail₃ =>
    rintro ⟨⟩
    obtain ⟨byte₁, small₁⟩ := of_utf8Tail? tail₁
    obtain ⟨byte₂, small₂⟩ := of_utf8Tail? tail₂
    obtain ⟨byte₃, small₃⟩ := of_utf8Tail? tail₃
    have same : (Char.ofNat ((n - 0xf0) * 0x40000 + t₁ * 0x1000 + t₂ * 0x40 + t₃)).toNat =
        (n - 0xf0) * 0x40000 + t₁ * 0x1000 + t₂ * 0x40 + t₃ :=
      toNat_charOfNat (by rw [Nat.isValidChar]; omega)
    rw [utf8Char, same, if_neg (by omega), if_neg (by omega), if_neg (by omega),
      toUInt8_of_toNat (b := b) (by omega), toUInt8_of_toNat (b := b₁) (by omega),
      toUInt8_of_toNat (b := b₂) (by omega), toUInt8_of_toNat (b := b₃) (by omega)]
    rfl
  all_goals rintro ⟨⟩

end Heads

theorem of_utf8Scan {fuel : Nat} {bs : Bytes} (enough : bs.length ≤ fuel)
    (whole : (utf8Scan fuel bs).all Option.isSome = true) :
    utf8Chars ((utf8Scan fuel bs).filterMap id) = bs := by
  fun_induction utf8Scan fuel bs with
  | case1 bs => exact (List.length_eq_zero_iff.mp (Nat.le_zero.mp enough)).symm
  | case2 => rfl
  | case3 fuel b rest c behind head ih =>
    have bytes := of_utf8Head head
    obtain ⟨b', tail, written, _⟩ := utf8Head_utf8Char c
    have shorter : behind.length ≤ fuel := by
      have lengths := congrArg List.length bytes
      rw [written] at lengths
      simp only [List.length_cons, List.length_append] at lengths enough
      omega
    rw [List.all_cons, Option.isSome_some, Bool.true_and] at whole
    rw [List.filterMap_cons]
    dsimp only [id]
    rw [utf8Chars_cons, ih shorter whole, bytes]
  | case4 => cases whole

/-- Bytes read as some characters just when they are the bytes of these. -/
theorem utf8Chars?_eq_some_iff {bs : Bytes} {cs : List Char} :
    utf8Chars? bs = some cs ↔ bs = utf8Chars cs := by
  refine ⟨fun read => ?_, fun same => same ▸ utf8Chars?_utf8Chars cs⟩
  unfold utf8Chars? at read
  dsimp only at read
  split at read
  · rename_i whole
    cases read
    exact (of_utf8Scan (Nat.le_refl _) whole).symm
  · cases read

/-- A byte of a character that is none of the first 128 is beyond those too. -/
theorem ascii_of_mem_utf8Char {c : Char} {b : UInt8} (member : b ∈ utf8Char c)
    (ascii : b.toNat < 0x80) : c.toNat = b.toNat := by
  have valid := c.valid
  rw [UInt32.isValidChar, show c.val.toNat = c.toNat from rfl, Nat.isValidChar] at valid
  unfold utf8Char at member
  generalize c.toNat = n at valid member
  have byte (m : Nat) (small : m < 0x100) (same : b = m.toUInt8) : b.toNat = m :=
    same ▸ toNat_toUInt8 small
  dsimp only at member
  split at member
  · rw [byte n (by omega) (List.mem_singleton.mp member)]
  split at member
  · simp only [List.mem_cons, List.not_mem_nil, or_false] at member
    rcases member with same | same <;> have := byte _ (by omega) same <;> omega
  split at member
  · simp only [List.mem_cons, List.not_mem_nil, or_false] at member
    rcases member with same | same | same <;> have := byte _ (by omega) same <;> omega
  · simp only [List.mem_cons, List.not_mem_nil, or_false] at member
    rcases member with same | same | same | same <;> have := byte _ (by omega) same <;> omega

/-- The byte of a character below 128 comes in the bytes of some characters just when that one is
among them. -/
theorem mem_utf8Chars_iff {c : Char} {cs : List Char} (ascii : c.toNat < 0x80) :
    c.toNat.toUInt8 ∈ utf8Chars cs ↔ c ∈ cs := by
  have value : c.toNat.toUInt8.toNat = c.toNat := toNat_toUInt8 (by omega)
  rw [utf8Chars, List.mem_flatMap]
  constructor
  · rintro ⟨d, inside, member⟩
    have same := ascii_of_mem_utf8Char member (by omega)
    rw [value] at same
    exact Char.toNat_inj.mp same ▸ inside
  · intro inside
    refine ⟨c, inside, ?_⟩
    rw [utf8Char_of_ascii ascii]
    exact List.mem_singleton_self _

section Trimming

variable {cs front behind : List Char}

theorem trimStartChars_append (blank : ∀ c ∈ front, isBlank c = true) (cs : List Char) :
    trimStartChars (front ++ cs) = trimStartChars cs :=
  List.dropWhile_append_of_pos blank

theorem trimEndChars_append (blank : ∀ c ∈ behind, isBlank c = true) (cs : List Char) :
    trimEndChars (cs ++ behind) = trimEndChars cs := by
  have blank' : ∀ c ∈ behind.reverse, isBlank c = true := fun c member =>
    blank c (List.mem_reverse.mp member)
  rw [trimEndChars, List.reverse_append, List.dropWhile_append_of_pos blank', trimEndChars]

/-- What is dropped in front is blank. -/
theorem trimStartChars_eq (cs : List Char) :
    ∃ front, (∀ c ∈ front, isBlank c = true) ∧ cs = front ++ trimStartChars cs := by
  refine ⟨cs.takeWhile isBlank, fun c member => ?_, List.takeWhile_append_dropWhile.symm⟩
  exact List.all_eq_true.mp List.all_takeWhile c member

/-- What is dropped behind is blank. -/
theorem trimEndChars_eq (cs : List Char) :
    ∃ behind, (∀ c ∈ behind, isBlank c = true) ∧ cs = trimEndChars cs ++ behind := by
  obtain ⟨front, blank, same⟩ := trimStartChars_eq cs.reverse
  refine ⟨front.reverse, fun c member => blank c (List.mem_reverse.mp member), ?_⟩
  have turned := congrArg List.reverse same
  rw [List.reverse_reverse, List.reverse_append] at turned
  exact turned

theorem trimChars_trimStartChars (cs : List Char) :
    trimChars (trimStartChars cs) = trimChars cs := by
  obtain ⟨front, blank, same⟩ := trimStartChars_eq cs
  have again : trimStartChars (trimStartChars cs) = trimStartChars cs := by
    conv => rhs; rw [same, trimStartChars_append blank]
  rw [trimChars, trimChars, again]

theorem trimChars_append (blank : ∀ c ∈ behind, isBlank c = true) (cs : List Char) :
    trimChars (cs ++ behind) = trimChars cs := by
  rw [trimChars, trimChars, trimStartChars, List.dropWhile_append]
  split
  · rename_i none
    have nothing := trimStartChars_append blank []
    rw [List.append_nil] at nothing
    rw [trimStartChars, List.isEmpty_iff.mp none]
    exact congrArg trimEndChars nothing
  · exact trimEndChars_append blank _

theorem trimChars_trimEndChars (cs : List Char) : trimChars (trimEndChars cs) = trimChars cs := by
  obtain ⟨behind, blank, same⟩ := trimEndChars_eq cs
  conv => rhs; rw [same, trimChars_append blank]

/-- A text is trimmed at its two ends, and not where a character stands between. -/
theorem trimChars_around (front behind : List Char) {c : Char} (shown : isBlank c = false) :
    trimChars (front ++ c :: behind) = trimStartChars front ++ c :: trimEndChars behind := by
  have start : trimStartChars (front ++ c :: behind) = trimStartChars front ++ c :: behind := by
    rw [trimStartChars, List.dropWhile_append]
    split
    · rename_i none
      rw [trimStartChars, List.isEmpty_iff.mp none]
      exact trimStartChars_of_head shown
    · rfl
  have ends (cs : List Char) :
      trimEndChars (cs ++ c :: behind) = cs ++ c :: trimEndChars behind := by
    rw [trimEndChars, List.reverse_append, List.reverse_cons, List.append_assoc,
      List.dropWhile_append]
    split
    · rename_i none
      rw [trimEndChars, List.isEmpty_iff.mp none]
      rw [List.singleton_append, List.dropWhile_cons, shown]
      simp
    · simp [trimEndChars]
  rw [trimChars, start, ends]

theorem trimChars_eq_nil_iff : trimChars cs = [] ↔ ∀ c ∈ cs, isBlank c = true := by
  constructor
  · intro none
    by_contra some
    simp only [not_forall, Bool.not_eq_true] at some
    obtain ⟨c, member, shown⟩ := some
    obtain ⟨front, behind, rfl⟩ := List.append_of_mem member
    rw [trimChars_around front behind shown] at none
    exact List.append_ne_nil_of_right_ne_nil _ (List.cons_ne_nil _ _) none
  · intro blank
    have same := trimChars_append blank []
    rwa [List.nil_append] at same

end Trimming

end LintBridge

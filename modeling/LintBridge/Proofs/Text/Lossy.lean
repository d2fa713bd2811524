import LintBridge.Proofs.Text.Lines
import Mathlib.Data.List.Basic

namespace LintBridge

namespace Utf8Head

/-- What is behind a character or an ill-formed run. -/
def behind : Utf8Head → Bytes
  | char _ rest | broken rest => rest

/-- The character, if it is one. -/
def unit : Utf8Head → Option Char
  | char c _ => some c
  | broken _ => none

/-- The same with more bytes behind it. -/
def onto (more : Bytes) : Utf8Head → Utf8Head
  | char c rest => char c (rest ++ more)
  | broken rest => broken (rest ++ more)

theorem behind_onto (more : Bytes) (h : Utf8Head) : (h.onto more).behind = h.behind ++ more := by
  cases h <;> rfl

theorem unit_onto (more : Bytes) (h : Utf8Head) : (h.onto more).unit = h.unit := by
  cases h <;> rfl

end Utf8Head

section Units

variable {a : UInt8}

theorem behind_suffix (b : UInt8) (rest : Bytes) : (utf8Head b rest).behind <:+ rest := by
  fun_cases utf8Head b rest <;> simp [Utf8Head.behind, List.suffix_cons_iff]

/-- An ASCII byte is part of no longer character or run. -/
theorem utf8Head_append (ascii : a.toNat < 0x80) (b : UInt8) (rest more : Bytes) :
    utf8Head b (rest ++ a :: more) = (utf8Head b rest).onto (a :: more) := by
  have ends : utf8Tail? a = none := if_neg (by omega)
  unfold utf8Head
  generalize b.toNat = n
  dsimp only
  split
  · rfl
  split
  · rcases rest with _ | ⟨b₁, rest⟩
    · simp [ends, Utf8Head.onto]
    · cases tail₁ : utf8Tail? b₁ <;> simp [tail₁, Utf8Head.onto]
  split
  · rcases rest with _ | ⟨b₁, rest⟩
    · simp [ends, Utf8Head.onto]
    cases tail₁ : utf8Tail? b₁ with
    | none => simp [tail₁, Utf8Head.onto]
    | some t₁ =>
      simp only [List.cons_append, tail₁]
      split
      · rfl
      rcases rest with _ | ⟨b₂, rest⟩
      · simp [ends, Utf8Head.onto]
      · cases tail₂ : utf8Tail? b₂ <;> simp [tail₂, Utf8Head.onto]
  split
  · rcases rest with _ | ⟨b₁, rest⟩
    · simp [ends, Utf8Head.onto]
    cases tail₁ : utf8Tail? b₁ with
    | none => simp [tail₁, Utf8Head.onto]
    | some t₁ =>
      simp only [List.cons_append, tail₁]
      split
      · rfl
      rcases rest with _ | ⟨b₂, rest⟩
      · simp [ends, Utf8Head.onto]
      cases tail₂ : utf8Tail? b₂ with
      | none => simp [tail₂, Utf8Head.onto]
      | some t₂ =>
        rcases rest with _ | ⟨b₃, rest⟩
        · simp [ends, tail₂, Utf8Head.onto]
        · cases tail₃ : utf8Tail? b₃ <;> simp [tail₂, tail₃, Utf8Head.onto]
  · rfl

theorem utf8Scan_succ (fuel : Nat) (b : UInt8) (rest : Bytes) : utf8Scan (fuel + 1) (b :: rest) =
    (utf8Head b rest).unit :: utf8Scan fuel (utf8Head b rest).behind := by
  rw [utf8Scan]
  split <;> rename_i same <;> rw [same] <;> rfl

/-- Steps that are enough read the same as any others that are. -/
theorem utf8Scan_congr {fuel fuel' : Nat} {bs : Bytes} (enough : bs.length ≤ fuel)
    (enough' : bs.length ≤ fuel') : utf8Scan fuel bs = utf8Scan fuel' bs := by
  induction fuel generalizing fuel' bs with
  | zero =>
    obtain rfl := List.length_eq_zero_iff.mp (Nat.le_zero.mp enough)
    cases fuel' <;> rfl
  | succ fuel ih =>
    cases bs with
    | nil => cases fuel' <;> rfl
    | cons b rest =>
      cases fuel' with
      | zero => cases enough'
      | succ fuel' =>
        have shorter := (behind_suffix b rest).length_le
        rw [List.length_cons] at enough enough'
        rw [utf8Scan_succ, utf8Scan_succ]
        exact congrArg _ (ih (by omega) (by omega))

theorem utf8Units_cons (b : UInt8) (rest : Bytes) : utf8Units (b :: rest) =
    (utf8Head b rest).unit :: utf8Units (utf8Head b rest).behind := by
  rw [utf8Units, List.length_cons, utf8Scan_succ, utf8Units,
    utf8Scan_congr (behind_suffix b rest).length_le (Nat.le_refl _)]

/-- What stands before an ASCII byte reads apart from what stands behind. -/
theorem utf8Units_append (ascii : a.toNat < 0x80) (front more : Bytes) :
    utf8Units (front ++ a :: more) = utf8Units front ++ utf8Units (a :: more) := by
  generalize most : front.length = n
  induction n using Nat.strongRecOn generalizing front with
  | ind n ih =>
    cases front with
    | nil => rfl
    | cons b rest =>
      have shorter := (behind_suffix b rest).length_le
      rw [List.length_cons] at most
      rw [List.cons_append, utf8Units_cons, utf8Units_cons b rest, utf8Head_append ascii,
        Utf8Head.behind_onto, Utf8Head.unit_onto, List.cons_append, ih _ (by omega) _ rfl]

/-- The bytes of a character that is read stand among those that it is read from. -/
theorem mem_of_unit {c : Char} {b : UInt8} (within : b ∈ utf8Char c) {bs : Bytes}
    (unit : some c ∈ utf8Units bs) : b ∈ bs := by
  generalize most : bs.length = n
  induction n using Nat.strongRecOn generalizing bs with
  | ind n ih =>
    cases bs with
    | nil => cases unit
    | cons b' rest =>
      have behind := behind_suffix b' rest
      have shorter := behind.length_le
      rw [List.length_cons] at most
      rw [utf8Units_cons] at unit
      rcases List.mem_cons.mp unit with first | later
      · cases head : utf8Head b' rest with
        | char c' rest' =>
          rw [head] at first
          cases first
          rw [of_utf8Head head]
          exact List.mem_append_left _ within
        | broken =>
          rw [head] at first
          cases first
      · exact List.mem_cons_of_mem b' (behind.subset (ih _ (by omega) later rfl))

end Units

/-- The bytes of the text that some bytes are shown as. -/
def lossy (bs : Bytes) : Bytes := utf8 (utf8Lossy bs)

section Lossy

variable {a : UInt8} {bs : Bytes}

theorem lossy_eq (bs : Bytes) :
    lossy bs = utf8Chars ((utf8Units bs).map fun u => u.getD (Char.ofNat 0xfffd)) := by
  rw [lossy, utf8, utf8Lossy, String.toList_ofList]

theorem lossy_append (ascii : a.toNat < 0x80) (front more : Bytes) :
    lossy (front ++ a :: more) = lossy front ++ a :: lossy more := by
  have head : utf8Head a more = .char (Char.ofNat a.toNat) more := if_pos ascii
  have same : (Char.ofNat a.toNat).toNat = a.toNat := toNat_charOfNat (.inl (by omega))
  have byte : utf8Char (Char.ofNat a.toNat) = [a] := by
    rw [utf8Char_of_ascii (by omega), same, toUInt8_of_toNat rfl]
  rw [lossy_eq, lossy_eq, lossy_eq, utf8Units_append ascii, utf8Units_cons, head, List.map_append,
    utf8Chars_append, List.map_cons, utf8Chars_cons]
  exact congrArg _ (congrArg (· ++ _) byte)

/-- A text without U+FFFD is shown for its own bytes only. -/
theorem eq_of_lossy {cs : List Char} (shown : lossy bs = utf8Chars cs)
    (whole : Char.ofNat 0xfffd ∉ cs) : bs = utf8Chars cs := by
  rw [lossy_eq] at shown
  have read := utf8Chars?_eq_some_iff.mpr shown
  rw [utf8Chars?_utf8Chars, Option.some.injEq] at read
  have good : ∀ u ∈ utf8Units bs, id u = some (u.getD (Char.ofNat 0xfffd)) := fun u member => by
    cases u with
    | some => rfl
    | none => exact absurd (read ▸ List.mem_map_of_mem member) whole
  have all : (utf8Units bs).all Option.isSome = true :=
    List.all_eq_true.mpr fun u member => Option.isSome_of_eq_some (good u member)
  rw [← of_utf8Scan (Nat.le_refl _) all, ← read]
  exact congrArg utf8Chars (List.filterMap_eq_map_iff_forall_eq_some.mpr good)

end Lossy

end LintBridge

import LintBridge.Proofs.Text.Written
import LintBridge.Url.Percent

namespace LintBridge

namespace Percent

/-- A character that may stand in an encoded file name. -/
def isNameChar (c : Char) : Bool :=
  0x20 < c.toNat && c.toNat < 0x7f && inPath c.toNat.toUInt8 && c != '/' && c != '\\'

theorem isNameChar_of_mem_encodeByte {b : UInt8} {c : Char}
    (member : c ∈ encodeByte inFileName b) : isNameChar c = true := by
  have each : ∀ n : Fin 256, ((encodeByte inFileName (UInt8.ofNat n)).all isNameChar) = true := by
    decide +kernel
  have own := each ⟨b.toNat, b.toNat_lt⟩
  rw [UInt8.ofNat_toNat] at own
  exact List.all_eq_true.mp own c member

/-- An encoded file name holds no separator, no mark of a query or fragment and no blank. -/
theorem isNameChar_of_mem {bs : Bytes} {c : Char} (member : c ∈ encode inFileName bs) :
    isNameChar c = true := by
  obtain ⟨b, _, inByte⟩ := List.mem_flatMap.mp member
  exact isNameChar_of_mem_encodeByte inByte

theorem isNameChar_bounds {c : Char} (name : isNameChar c = true) :
    0x20 < c.toNat ∧ c.toNat < 0x7f ∧ inPath c.toNat.toUInt8 = true ∧ c ≠ '/' ∧ c ≠ '\\' := by
  simpa [isNameChar, and_assoc] using name

/-- What is encoded as a file name needs no encoding inside a path. -/
theorem encodeChars_of_isNameChar {cs : List Char} (names : ∀ c ∈ cs, isNameChar c = true) :
    encodeChars inPath cs = cs := by
  induction cs with
  | nil => rfl
  | cons c cs ih =>
    obtain ⟨_, ascii, kept, _⟩ := isNameChar_bounds (names c List.mem_cons_self)
    have others := ih fun d member => names d (List.mem_cons_of_mem c member)
    have bytes : utf8Char c = [c.toNat.toUInt8] := utf8Char_of_ascii (by omega)
    have byte : encodeByte inPath c.toNat.toUInt8 = [c] := by
      rw [encodeByte, if_pos kept, toNat_toUInt8 (by omega), Char.ofNat_toNat]
    rw [encodeChars, encode, utf8Chars_cons, bytes, List.singleton_append, List.flatMap_cons, byte]
    exact congrArg (c :: ·) others

theorem decode_of_ne {b : UInt8} (other : b ≠ 0x25) (rest : Bytes) :
    decode (b :: rest) = b :: decode rest := by
  rw [decode]
  intro h l tail same
  exact absurd same other

theorem decode_percent {rest : Bytes} (broken : ∀ h l tail, rest = h :: l :: tail →
    hexValue? (Char.ofNat h.toNat) = none ∨ hexValue? (Char.ofNat l.toNat) = none) :
    decode (0x25 :: rest) = 0x25 :: decode rest := by
  match rest with
  | [] => rfl
  | [h] => rfl
  | h :: l :: tail =>
    rw [decode]
    rcases broken h l tail rfl with none | none <;> rw [none]
    split
    · contradiction
    · rfl

/-- What stands before a byte that is no part of an escape is decoded alone. -/
theorem decode_append {mark : UInt8} (other : mark ≠ 0x25)
    (digit : hexValue? (Char.ofNat mark.toNat) = none) (front rest : Bytes) :
    decode (front ++ mark :: rest) = decode front ++ mark :: decode rest := by
  fun_induction decode front with
  | case1 h l tail hi lo high low ih =>
    simp only [List.cons_append]
    rw [decode, high, low, ih]
  | case2 h l tail broken ih =>
    have none : hexValue? (Char.ofNat h.toNat) = none ∨ hexValue? (Char.ofNat l.toNat) = none := by
      cases high : hexValue? (Char.ofNat h.toNat) with
      | none => exact .inl rfl
      | some hi =>
        refine .inr ?_
        cases low : hexValue? (Char.ofNat l.toNat) with
        | none => rfl
        | some lo => exact absurd low (broken hi lo high)
    rw [List.cons_append, decode_percent, ih, List.cons_append]
    intro h' l' tail' same
    obtain ⟨rfl, rest⟩ := List.cons.inj same
    obtain ⟨rfl, _⟩ := List.cons.inj rest
    exact none
  | case3 b tail short ih =>
    by_cases percent : b = 0x25
    · subst percent
      rw [List.cons_append, decode_percent, ih, List.cons_append]
      -- too little is there for an escape before the byte that is in none
      intro h l tail' same
      cases tail with
      | nil => exact .inl ((List.cons.inj same).1 ▸ digit)
      | cons b' tail =>
        cases tail with
        | nil => exact .inr ((List.cons.inj (List.cons.inj same).2).1 ▸ digit)
        | cons => exact absurd rfl (short _ _ _ rfl)
    · rw [List.cons_append, decode_of_ne percent, ih, List.cons_append]
  | case4 => exact decode_of_ne other rest

theorem length_decode_le (bs : Bytes) : (decode bs).length ≤ bs.length := by
  fun_induction decode bs with
  | case1 => simp only [List.length_cons]; omega
  | case2 => simp only [List.length_cons] at *; omega
  | case3 => simp only [List.length_cons]; omega
  | case4 => exact Nat.le_refl _

theorem hexValue?_hexDigitUpper {n : Nat} (small : n < 16) :
    hexValue? (Char.ofNat ((hexDigitUpper n).toNat.toUInt8).toNat) = some n := by
  have each : ∀ m : Fin 16,
      hexValue? (Char.ofNat ((hexDigitUpper m).toNat.toUInt8).toNat) = some m.val := by decide
  exact each ⟨n, small⟩

theorem utf8Chars_escape (b : UInt8) : utf8Chars (escape b) =
    [0x25, (hexDigitUpper (b.toNat / 16)).toNat.toUInt8,
      (hexDigitUpper (b.toNat % 16)).toNat.toUInt8] := by
  have ascii : ∀ m : Fin 16, (hexDigitUpper m).toNat < 0x80 := by decide
  have high := ascii ⟨b.toNat / 16, by have := b.toNat_lt; omega⟩
  have low := ascii ⟨b.toNat % 16, by omega⟩
  simp only [escape, utf8Chars, List.flatMap_cons, List.flatMap_nil, utf8Char_of_ascii high,
    utf8Char_of_ascii low]
  rfl

theorem inFileName_bounds {b : UInt8} (kept : inFileName b = true) :
    b ≠ 0x25 ∧ b.toNat < 0x80 := by
  have each : ∀ n : Fin 256, inFileName (UInt8.ofNat n) = true →
      UInt8.ofNat n ≠ 0x25 ∧ n.val < 0x80 := by decide +kernel
  have own := each ⟨b.toNat, b.toNat_lt⟩ (by rw [UInt8.ofNat_toNat]; exact kept)
  rwa [UInt8.ofNat_toNat] at own

section Decoding

variable {keep : UInt8 → Bool} (plain : ∀ b, keep b = true → b ≠ 0x25 ∧ b.toNat < 0x80)

include plain

/-- An encoded byte decodes to itself, whatever follows, if no `%` stands for itself. -/
theorem decode_encodeByte (b : UInt8) (rest : Bytes) :
    decode (utf8Chars (encodeByte keep b) ++ rest) = b :: decode rest := by
  rw [encodeByte]
  split
  · rename_i kept
    obtain ⟨other, ascii⟩ := plain b kept
    have char : (Char.ofNat b.toNat).toNat = b.toNat := by
      have valid : b.toNat.isValidChar := .inl (by have := b.toNat_lt; omega)
      rw [Char.ofNat, dif_pos valid]
      rfl
    have byte : utf8Char (Char.ofNat b.toNat) = [b] := by
      rw [utf8Char_of_ascii (by rw [char]; exact ascii), char]
      exact congrArg (· :: []) UInt8.ofNat_toNat
    rw [utf8Chars, List.flatMap_singleton, byte, List.singleton_append, decode_of_ne other]
  · have digits := b.toNat_lt
    have whole : b.toNat / 16 * 16 + b.toNat % 16 = b.toNat := by omega
    rw [utf8Chars_escape]
    simp only [List.cons_append, List.nil_append]
    rw [decode, hexValue?_hexDigitUpper (by omega), hexValue?_hexDigitUpper (by omega)]
    simp only [whole]
    exact congrArg (· :: decode rest) UInt8.ofNat_toNat

/-- Encoded bytes decode to themselves, whatever follows. -/
theorem decode_encode (bs rest : Bytes) :
    decode (utf8Chars (encode keep bs) ++ rest) = bs ++ decode rest := by
  induction bs with
  | nil => rfl
  | cons b bs ih =>
    rw [encode, List.flatMap_cons, utf8Chars_append, List.append_assoc, decode_encodeByte plain]
    exact congrArg (b :: ·) ih

end Decoding

theorem encode_injective {bs bs' : Bytes} (same : encode inFileName bs = encode inFileName bs') :
    bs = bs' := by
  have left := decode_encode (fun _ => inFileName_bounds) bs []
  have right := decode_encode (fun _ => inFileName_bounds) bs' []
  rw [same] at left
  exact List.append_cancel_right (left.symm.trans right)

end Percent

end LintBridge

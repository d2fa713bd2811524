import LintBridge.Text.Blank
import LintBridge.Text.Utf8
import Mathlib.Data.Nat.Notation

namespace LintBridge

section Bytes

theorem toNat_toUInt8 {n : Nat} (small : n < 0x100) : n.toUInt8.toNat = n := by
  rw [UInt8.toNat_ofNat']
  omega

theorem utf8Tail?_of_lt {n : Nat} (small : n < 0x40) :
    utf8Tail? (0x80 + n).toUInt8 = some n := by
  have byte := toNat_toUInt8 (n := 0x80 + n) (by omega)
  rw [utf8Tail?, byte, if_pos (by omega)]
  exact congrArg some (by omega)

/-- The bytes of a character read back as it, whatever follows. -/
theorem utf8Head_utf8Char (c : Char) : ∃ b tail, utf8Char c = b :: tail ∧
    ∀ rest, utf8Head b (tail ++ rest) = .char c rest := by
  have valid := c.valid
  have same : Char.ofNat c.toNat = c := Char.ofNat_toNat c
  rw [UInt32.isValidChar, show c.val.toNat = c.toNat from rfl, Nat.isValidChar] at valid
  unfold utf8Char
  generalize c.toNat = n at valid same
  have last := utf8Tail?_of_lt (n := n % 0x40) (by omega)
  have third := utf8Tail?_of_lt (n := n / 0x40 % 0x40) (by omega)
  have second := utf8Tail?_of_lt (n := n / 0x1000 % 0x40) (by omega)
  by_cases one : n < 0x80
  · have lead := toNat_toUInt8 (n := n) (by omega)
    refine ⟨_, _, if_pos one, fun rest => ?_⟩
    simp only [utf8Head, lead, if_pos one, same, List.nil_append]
  by_cases two : n < 0x800
  · have lead := toNat_toUInt8 (n := 0xc0 + n / 0x40) (by omega)
    have sum : (0xc0 + n / 0x40 - 0xc0) * 0x40 + n % 0x40 = n := by omega
    refine ⟨_, _, (if_neg one).trans (if_pos two), fun rest => ?_⟩
    simp only [utf8Head, lead, last, List.cons_append, List.nil_append]
    rw [if_neg (by omega), if_pos (by omega), sum, same]
  by_cases three : n < 0x10000
  · have lead := toNat_toUInt8 (n := 0xe0 + n / 0x1000) (by omega)
    have sum : (0xe0 + n / 0x1000 - 0xe0) * 0x1000 + n / 0x40 % 0x40 * 0x40 + n % 0x40 = n := by
      omega
    refine ⟨_, _, (if_neg one).trans ((if_neg two).trans (if_pos three)), fun rest => ?_⟩
    simp only [utf8Head, lead, third, last, List.cons_append, List.nil_append]
    rw [if_neg (by omega), if_neg (by omega), if_pos (by omega), if_neg (by omega), sum, same]
  · have lead := toNat_toUInt8 (n := 0xf0 + n / 0x40000) (by omega)
    have sum : (0xf0 + n / 0x40000 - 0xf0) * 0x40000 + n / 0x1000 % 0x40 * 0x1000 +
        n / 0x40 % 0x40 * 0x40 + n % 0x40 = n := by
      omega
    refine ⟨_, _, (if_neg one).trans ((if_neg two).trans (if_neg three)), fun rest => ?_⟩
    simp only [utf8Head, lead, second, third, last, List.cons_append, List.nil_append]
    rw [if_neg (by omega), if_neg (by omega), if_neg (by omega), if_pos (by omega),
      if_neg (by omega), sum, same]

theorem utf8Chars_cons (c : Char) (cs : List Char) :
    utf8Chars (c :: cs) = utf8Char c ++ utf8Chars cs := List.flatMap_cons

theorem utf8Chars_append (cs more : List Char) :
    utf8Chars (cs ++ more) = utf8Chars cs ++ utf8Chars more := List.flatMap_append

theorem length_le_utf8Chars (cs : List Char) : cs.length ≤ (utf8Chars cs).length := by
  induction cs with
  | nil => exact Nat.le_refl _
  | cons c cs ih =>
    obtain ⟨b, tail, bytes, _⟩ := utf8Head_utf8Char c
    simp only [utf8Chars_cons, bytes, List.length_append, List.length_cons]
    omega

theorem utf8Scan_utf8Chars (cs : List Char) {fuel : Nat} (enough : cs.length ≤ fuel) :
    utf8Scan fuel (utf8Chars cs) = cs.map some := by
  induction cs generalizing fuel with
  | nil => cases fuel <;> rfl
  | cons c cs ih =>
    cases fuel with
    | zero => cases enough
    | succ fuel =>
      obtain ⟨b, tail, bytes, head⟩ := utf8Head_utf8Char c
      have later := ih (Nat.le_of_succ_le_succ enough)
      rw [utf8Chars_cons, bytes, List.cons_append, utf8Scan, head, List.map_cons]
      exact congrArg (some c :: ·) later

theorem utf8Chars?_utf8Chars (cs : List Char) : utf8Chars? (utf8Chars cs) = some cs := by
  have units : utf8Units (utf8Chars cs) = cs.map some :=
    utf8Scan_utf8Chars cs (length_le_utf8Chars cs)
  have whole : (cs.map some).all Option.isSome = true := by simp
  simp only [utf8Chars?, units, whole, if_true, List.filterMap_map, Option.some.injEq]
  exact List.filterMap_some

theorem utf8Text?_utf8Chars (cs : List Char) :
    utf8Text? (utf8Chars cs) = some (String.ofList cs) := by
  rw [utf8Text?, utf8Chars?_utf8Chars, Option.map_some]

theorem utf8Char_of_ascii {c : Char} (ascii : c.toNat < 0x80) : utf8Char c = [c.toNat.toUInt8] :=
  if_pos ascii

end Bytes

section Decimals

theorem isAsciiDigit_of_mem {n : Nat} {c : Char} (member : c ∈ Nat.toDigits 10 n) :
    isAsciiDigit c = true := by
  have digit := Nat.isDigit_of_mem_toDigits (by decide) (Nat.le_refl 10) member
  simp only [Char.isDigit, Bool.and_eq_true, decide_eq_true_eq] at digit
  simp only [isAsciiDigit, decide_eq_true_eq]
  exact digit

/-- Digits are no letters, no marks and no blanks. -/
theorem toNat_of_isAsciiDigit {c : Char} (digit : isAsciiDigit c = true) :
    48 ≤ c.toNat ∧ c.toNat ≤ 57 := by
  simp only [isAsciiDigit, decide_eq_true_eq, Char.le_def, UInt32.le_iff_toNat_le] at digit
  exact digit

theorem toDigits_eq_cons (n : Nat) :
    ∃ c cs, Nat.toDigits 10 n = c :: cs ∧ isAsciiDigit c = true := by
  cases written : Nat.toDigits 10 n with
  | nil => exact absurd written Nat.toDigits_ne_nil
  | cons c cs => exact ⟨c, cs, rfl, isAsciiDigit_of_mem (written ▸ List.mem_cons_self)⟩

theorem digitsValue_toDigits (n : Nat) :
    digitsValue 10 ((Nat.toDigits 10 n).map fun c => c.toNat - 48) = n := by
  have value := Nat.ofDigitChars_toDigits (n := n) (by decide : 1 < 10) (Nat.le_refl 10)
  rw [digitsValue, List.foldl_map]
  simp only [Nat.ofDigitChars, Nat.mul_comm 10] at value
  exact value

theorem decimal?_toDigits (n : Nat) : decimal? (Nat.toDigits 10 n) = some n := by
  have digits : (Nat.toDigits 10 n).all isAsciiDigit = true :=
    List.all_eq_true.mpr fun c member => isAsciiDigit_of_mem member
  have some : (Nat.toDigits 10 n).isEmpty = false :=
    List.isEmpty_eq_false_iff.mpr Nat.toDigits_ne_nil
  rw [decimal?, some, digits, digitsValue_toDigits]
  rfl

/-- A natural of 64 bits reads back from its digits. -/
theorem unsigned64?_toDigits {n : Nat} (small : n ≤ 0xffffffffffffffff) :
    unsigned64? (String.ofList (Nat.toDigits 10 n)) = some n := by
  have digits := decimal?_toDigits n
  obtain ⟨c, cs, written, digit⟩ := toDigits_eq_cons n
  rw [written] at digits ⊢
  unfold unsigned64?
  rw [String.toList_ofList]
  split
  · rename_i rest plus
    rw [(List.cons.inj plus).1] at digit
    cases digit
  · simp only [digits, Option.filter_some, small, decide_true, if_true]

/-- Only zero begins with a zero. -/
theorem head?_toDigits {n : Nat} (zero : (Nat.toDigits 10 n).head? = some '0') : n = 0 := by
  induction n using Nat.strongRecOn with
  | _ n ih =>
    rw [Nat.toDigits_eq_if (by decide)] at zero
    by_cases small : n < 10
    · rw [if_pos small, List.head?_cons, Option.some.injEq] at zero
      have digit : ∀ m : Fin 10, Nat.digitChar m = '0' → m = 0 := by decide
      exact congrArg Fin.val (digit ⟨n, small⟩ zero)
    · rw [if_neg small, List.head?_append,
        List.head?_eq_some_head Nat.toDigits_ne_nil, Option.some_or,
        ← List.head?_eq_some_head Nat.toDigits_ne_nil] at zero
      have none := ih (n / 10) (by omega) zero
      omega

end Decimals

section Trimming

theorem trimStartChars_of_head {c : Char} {cs : List Char} (shown : isBlank c = false) :
    trimStartChars (c :: cs) = c :: cs := by
  rw [trimStartChars, List.dropWhile_cons, shown]
  rfl

theorem trimEndChars_of_last {c : Char} {cs : List Char} (shown : isBlank c = false) :
    trimEndChars (cs ++ [c]) = cs ++ [c] := by
  rw [trimEndChars, List.reverse_append, List.reverse_singleton, List.singleton_append,
    List.dropWhile_cons, shown]
  simp

end Trimming

end LintBridge

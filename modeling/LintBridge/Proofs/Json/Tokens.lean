import LintBridge.Json.Reader
import LintBridge.Json.Writer
import LintBridge.Proofs.Text.Written

namespace LintBridge

namespace Document

section Texts

theorem hexQuad?_hexDigit {n : Nat} (small : n < 0x20) :
    hexQuad? '0' '0' (hexDigit (n / 16)) (hexDigit (n % 16)) = some n := by
  have each : ∀ m : Fin 0x20,
      hexQuad? '0' '0' (hexDigit (m / 16)) (hexDigit (m % 16)) = some m.val := by decide
  exact each ⟨n, small⟩

theorem joinUnits_code {n : Nat} (small : n < 0xd800) (us : List Unit16) :
    joinUnits (.code n :: us) = (joinUnits us).map (Char.ofNat n :: ·) := by
  have high : ¬ (0xd800 ≤ n) := by omega
  have low : ¬ (0xdc00 ≤ n) := by omega
  rcases us with _ | ⟨_ | _, us⟩ <;> simp [joinUnits, high, low]

theorem quoted_short {e c : Char} (short : shortEscape? e = some c) (cs : List Char) :
    quoted ('\\' :: e :: cs) = (quoted cs).map fun (us, rest) => (.char c :: us, rest) := by
  have letter : e ≠ 'u' := by
    rintro rfl
    cases short
  rw [quoted, short]
  · cases quoted cs <;> rfl
  · intro _ _ _ _ _ same
    exact absurd same letter

theorem quoted_hex {n : Nat} (small : n < 0x20) (cs : List Char) :
    quoted ('\\' :: 'u' :: '0' :: '0' :: hexDigit (n / 16) :: hexDigit (n % 16) :: cs) =
      (quoted cs).map fun (us, rest) => (.code n :: us, rest) := by
  rw [quoted, hexQuad?_hexDigit small]
  cases quoted cs <;> rfl

theorem quoted_printed {c : Char} (quote : c ≠ '"') (slash : c ≠ '\\') (printed : ¬ c.toNat < 0x20)
    (cs : List Char) :
    quoted (c :: cs) = (quoted cs).map fun (us, rest) => (.char c :: us, rest) := by
  rw [quoted, if_neg (not_or.mpr ⟨printed, slash⟩)]
  · cases quoted cs <;> rfl
  · exact quote
  · intro _ _ _ _ _ same
    exact absurd same slash
  · intro _ _ same
    exact absurd same slash

/-- The escaped form of a character is one unit, and the unit stands for the character. -/
theorem quoted_escapeChar (c : Char) : ∃ u : Unit16,
    (∀ cs, quoted (Json.escapeChar c ++ cs) = (quoted cs).map fun (us, rest) => (u :: us, rest)) ∧
    ∀ us, joinUnits (u :: us) = (joinUnits us).map (c :: ·) := by
  unfold Json.escapeChar
  split
  case h_8 quote slash _ _ _ _ _ =>
    split
    · rename_i small
      refine ⟨.code c.toNat, quoted_hex small, fun us => ?_⟩
      rw [joinUnits_code (by omega), Char.ofNat_toNat]
    · rename_i printed
      exact ⟨.char c, quoted_printed quote slash printed, fun us => rfl⟩
  all_goals exact ⟨.char _, quoted_short rfl, fun us => rfl⟩

theorem quoted_flatMap_escapeChar (cs rest : List Char) : ∃ us,
    quoted (cs.flatMap Json.escapeChar ++ '"' :: rest) = some (us, rest) ∧
    joinUnits us = some cs := by
  induction cs with
  | nil => exact ⟨[], rfl, rfl⟩
  | cons c cs ih =>
    obtain ⟨us, read, joined⟩ := ih
    obtain ⟨u, unit, char⟩ := quoted_escapeChar c
    refine ⟨u :: us, ?_, ?_⟩
    · rw [List.flatMap_cons, List.append_assoc, unit, read, Option.map_some]
    · rw [char, joined, Option.map_some]

/-- A text in quotes reads back, from behind its opening quote. -/
theorem quotedText_quoteChars (s : String) (rest : List Char) :
    quotedText (s.toList.flatMap Json.escapeChar ++ '"' :: rest) = some (some s, rest) := by
  obtain ⟨us, read, joined⟩ := quoted_flatMap_escapeChar s.toList rest
  simp only [quotedText, read, joined, Option.map_some, String.ofList_toList]

end Texts

section Numbers

/-- What may follow a number: nothing that would belong to it. -/
def Ends (rest : List Char) : Prop :=
  ∀ c ∈ rest.head?, isAsciiDigit c = false ∧ c ≠ '.' ∧ c ≠ 'e' ∧ c ≠ 'E'

theorem Ends.nil : Ends [] := fun _ member => nomatch member

theorem Ends.cons {c : Char} (foreign : isAsciiDigit c = false ∧ c ≠ '.' ∧ c ≠ 'e' ∧ c ≠ 'E')
    (rest : List Char) : Ends (c :: rest) := by
  intro _ member
  cases member
  exact foreign

theorem digits_append {cs rest : List Char} (all : ∀ c ∈ cs, isAsciiDigit c = true)
    (ends : Ends rest) : digits (cs ++ rest) = (cs.map fun c => c.toNat - 48, rest) := by
  have stop : rest.takeWhile isAsciiDigit = [] ∧ rest.dropWhile isAsciiDigit = rest := by
    cases rest with
    | nil => exact ⟨rfl, rfl⟩
    | cons c rest =>
      have other := (ends c rfl).1
      simp [other]
  rw [digits, List.takeWhile_append_of_pos all, List.dropWhile_append_of_pos all, stop.1, stop.2,
    List.append_nil]

/-- A natural is written without a leading zero. -/
theorem lead_toDigits {n : Nat}
    (zero : ((Nat.toDigits 10 n).map fun c => c.toNat - 48).head? = some 0) : n = 0 := by
  rw [List.head?_map, Option.map_eq_some_iff] at zero
  obtain ⟨c, first, value⟩ := zero
  have digit := toNat_of_isAsciiDigit (isAsciiDigit_of_mem (List.mem_of_head? first))
  have same : c = '0' := Char.toNat_inj.mp (show c.toNat = 48 by omega)
  exact head?_toDigits (same ▸ first)

theorem unsignedNumber_toDigits (negative : Bool) (n : Nat) {rest : List Char}
    (ends : Ends rest) : unsignedNumber negative (Nat.toDigits 10 n ++ rest) =
      some (⟨negative, (Nat.toDigits 10 n).map fun c => c.toNat - 48, none, none⟩, rest) := by
  have read := digits_append (fun c => isAsciiDigit_of_mem (n := n) (c := c)) ends
  have lead : ¬ (((Nat.toDigits 10 n).map fun c => c.toNat - 48).isEmpty = true ∨
      ((Nat.toDigits 10 n).map fun c => c.toNat - 48).head? = some 0 ∧
        ((Nat.toDigits 10 n).map fun c => c.toNat - 48).length ≠ 1) := by
    rintro (none | ⟨zero, longer⟩)
    · simp at none
    · rw [lead_toDigits zero] at longer
      exact longer rfl
  rw [unsignedNumber, read]
  simp only [lead, if_false]
  cases rest with
  | nil => rfl
  | cons c rest =>
    obtain ⟨_, point, small, capital⟩ := ends c rfl
    simp [point, small, capital]

theorem le_foldl_digits (m : Nat) (ds : List Nat) : m ≤ ds.foldl (fun n d => n * 10 + d) m := by
  induction ds generalizing m with
  | nil => exact Nat.le_refl m
  | cons d ds ih =>
    have further := ih (m * 10 + d)
    rw [List.foldl_cons]
    omega

theorem fitting_of_le {m : Nat} {ds : List Nat}
    (small : ds.foldl (fun n d => n * 10 + d) m ≤ 0xffffffffffffffff) :
    NumberText.fitting m ds = (ds.foldl (fun n d => n * 10 + d) m, []) := by
  induction ds generalizing m with
  | nil => rfl
  | cons d ds ih =>
    rw [List.foldl_cons] at small
    have grows := le_foldl_digits (m * 10 + d) ds
    rw [NumberText.fitting, if_pos (by omega), ih small, List.foldl_cons]

theorem fitting_toDigits {n : Nat} (small : n ≤ 0xffffffffffffffff) :
    NumberText.fitting 0 ((Nat.toDigits 10 n).map fun c => c.toNat - 48) = (n, []) := by
  have value := digitsValue_toDigits n
  rw [digitsValue] at value
  have fits := fitting_of_le (m := 0) (value.symm ▸ small)
  rw [fits, value]

/-- An integer of 64 bits, with or without a sign, reads back from its digits. -/
theorem number_intChars {i : Int} (low : -0x8000000000000000 ≤ i) (high : i ≤ 0xffffffffffffffff)
    {rest : List Char} (ends : Ends rest) : ∃ t,
    number (Json.intChars i ++ rest) = some (t, rest) ∧ t.value? = some (.int i) := by
  cases i with
  | ofNat n =>
    have small : n ≤ 0xffffffffffffffff := by
      have bound : (n : Int) ≤ 0xffffffffffffffff := high
      omega
    have read := unsignedNumber_toDigits false n ends
    have bare : number (Nat.toDigits 10 n ++ rest) =
        unsignedNumber false (Nat.toDigits 10 n ++ rest) := by
      obtain ⟨c, cs, written, digit⟩ := toDigits_eq_cons n
      rw [written, List.cons_append, number]
      intro _ minus
      rw [(List.cons.inj minus).1] at digit
      cases digit
    refine ⟨_, bare.trans read, ?_⟩
    simp [NumberText.value?, fitting_toDigits small]
  | negSucc n =>
    have small : n + 1 ≤ 0x8000000000000000 := by omega
    have fits := fitting_toDigits (n := n + 1) (by omega)
    have read := unsignedNumber_toDigits true (n + 1) ends
    refine ⟨_, read, ?_⟩
    simp [NumberText.value?, fits, small, Int.negSucc_eq]

theorem digits_append_of_ends (cs : List Char) {rest : List Char} (ends : Ends rest) :
    digits (cs ++ rest) = ((digits cs).1, (digits cs).2 ++ rest) := by
  induction cs with
  | nil => exact @digits_append [] _ (fun _ member => nomatch member) ends
  | cons c cs ih =>
    obtain ⟨first, second⟩ := Prod.mk.inj ih
    cases digit : isAsciiDigit c with
    | false => simp [digits, digit]
    | true =>
      simp only [digits, List.cons_append, List.takeWhile_cons, List.dropWhile_cons, digit, if_true,
        List.map_cons]
      rw [first, second]
      rfl

/-- The decimals of a number, and what follows them. -/
def decimals : List Char → Option (Option (List Nat) × List Char)
  | '.' :: more =>
    if (digits more).1.isEmpty then none else some (some (digits more).1, (digits more).2)
  | cs => some (none, cs)

/-- The sign of an exponent, and what follows it. -/
def exponentSign : List Char → Bool × List Char
  | '-' :: more => (true, more)
  | '+' :: more => (false, more)
  | more => (false, more)

/-- The exponent of a number, and what follows it. -/
def exponent : List Char → Option (Option (Bool × List Nat) × List Char)
  | e :: more =>
    if e = 'e' ∨ e = 'E' then
      let (down, more) := exponentSign more
      if (digits more).1.isEmpty then none else some (some (down, (digits more).1), (digits more).2)
    else some (none, e :: more)
  | [] => some (none, [])

/-- A number in its parts. -/
theorem unsignedNumber_eq (negative : Bool) (cs : List Char) :
    unsignedNumber negative cs =
      if (digits cs).1.isEmpty ∨ ((digits cs).1.head? = some 0 ∧ (digits cs).1.length ≠ 1) then none
      else (decimals (digits cs).2).bind fun f => (exponent f.2).map fun e =>
        (⟨negative, (digits cs).1, f.1, e.1⟩, e.2) := by
  rw [unsignedNumber]
  generalize digits cs = read
  obtain ⟨whole, behind⟩ := read
  dsimp only
  split
  · rfl
  rcases behind with _ | ⟨c, behind⟩
  · rfl
  by_cases point : c = '.'
  · subst point
    cases none : (digits behind).1.isEmpty with
    | true => simp [decimals, none]
    | false =>
      rcases further : (digits behind).2 with _ | ⟨e, more⟩
      · simp [decimals, none, further, exponent]
      · by_cases mark : e = 'e' ∨ e = 'E'
        · simp only [decimals, none, further, exponent, if_pos mark, Option.bind_eq_bind,
            Option.bind_some, Bool.false_eq_true, if_false, apply_ite (Option.map _)]
          rfl
        · simp [decimals, none, further, exponent, mark]
  · by_cases mark : c = 'e' ∨ c = 'E'
    · simp only [List.cons.injEq, point, false_and, imp_self, implies_true, mark, if_true, decimals,
        exponent, Option.bind_eq_bind, Option.bind_some, apply_ite (Option.map _)]
      rfl
    · simp [decimals, point, exponent, mark]

theorem decimals_append {cs tail : List Char} {f : Option (List Nat)}
    (read : decimals cs = some (f, tail)) {rest : List Char} (ends : Ends rest) :
    decimals (cs ++ rest) = some (f, tail ++ rest) := by
  have bare (other : ∀ more, cs ++ rest ≠ '.' :: more) (same : decimals cs = some (none, cs)) :
      decimals (cs ++ rest) = some (f, tail ++ rest) := by
    cases same.symm.trans read
    rw [decimals]
    exact other
  rcases cs with _ | ⟨c, cs⟩
  · refine bare ?_ rfl
    rintro more rfl
    exact (ends _ rfl).2.1 rfl
  by_cases point : c = '.'
  · subst point
    rw [decimals] at read
    simp only [List.cons_append, decimals, digits_append_of_ends cs ends]
    cases none : (digits cs).1.isEmpty with
    | true =>
      rw [none] at read
      cases read
    | false =>
      rw [none] at read
      cases read
      rfl
  · refine bare (fun more same => point (List.cons.inj same).1) ?_
    rw [decimals]
    exact fun more same => point (List.cons.inj same).1

theorem exponentSign_append {cs : List Char} (some : (digits (exponentSign cs).2).1 ≠ [])
    (rest : List Char) :
    exponentSign (cs ++ rest) = ((exponentSign cs).1, (exponentSign cs).2 ++ rest) := by
  rcases cs with _ | ⟨c, cs⟩
  · exact absurd rfl some
  by_cases minus : c = '-'
  · subst minus
    rfl
  by_cases plus : c = '+'
  · subst plus
    rfl
  simp [exponentSign, minus, plus]

theorem exponent_append {cs tail : List Char} {e : Option (Bool × List Nat)}
    (read : exponent cs = some (e, tail)) {rest : List Char} (ends : Ends rest) :
    exponent (cs ++ rest) = some (e, tail ++ rest) := by
  rcases cs with _ | ⟨c, cs⟩
  · cases read
    rcases rest with _ | ⟨c, rest⟩
    · rfl
    · simp [exponent, (ends c rfl).2.2]
  by_cases mark : c = 'e' ∨ c = 'E'
  · simp only [exponent, List.cons_append, if_pos mark] at read ⊢
    cases none : (digits (exponentSign cs).2).1 with
    | nil =>
      rw [none] at read
      cases read
    | cons d ds =>
      have some : (digits (exponentSign cs).2).1 ≠ [] := by simp [none]
      rw [none] at read
      cases read
      simp only [exponentSign_append some, digits_append_of_ends _ ends, none]
      rfl
  · simp only [exponent, List.cons_append, if_neg mark] at read ⊢
    cases read
    rfl

/-- A number ends where it does, whatever follows that would not belong to it. -/
theorem unsignedNumber_append {negative : Bool} {cs tail : List Char} {t : NumberText}
    (read : unsignedNumber negative cs = some (t, tail)) {rest : List Char} (ends : Ends rest) :
    unsignedNumber negative (cs ++ rest) = some (t, tail ++ rest) := by
  rw [unsignedNumber_eq] at read ⊢
  simp only [digits_append_of_ends cs ends]
  split at read
  · cases read
  rename_i lead
  rw [if_neg lead]
  obtain ⟨⟨f, behind⟩, fraction, read⟩ := Option.bind_eq_some_iff.mp read
  obtain ⟨⟨e, last⟩, power, same⟩ := Option.map_eq_some_iff.mp read
  cases same
  simp only [decimals_append fraction ends, Option.bind_some, exponent_append power ends,
    Option.map_some]

theorem number_append {cs tail : List Char} {t : NumberText} (read : number cs = some (t, tail))
    {rest : List Char} (ends : Ends rest) : number (cs ++ rest) = some (t, tail ++ rest) := by
  rcases cs with _ | ⟨c, cs⟩
  · cases read
  by_cases minus : c = '-'
  · subst minus
    exact unsignedNumber_append read ends
  · have bare (cs : List Char) : number (c :: cs) = unsignedNumber false (c :: cs) := by
      rw [number]
      exact fun _ same => minus (List.cons.inj same).1
    rw [bare] at read
    rw [List.cons_append, bare]
    exact unsignedNumber_append read ends

/-- A character with which a number begins. -/
def Starts (c : Char) : Prop := isAsciiDigit c = true ∨ c = '-'

instance (c : Char) : Decidable (Starts c) := inferInstanceAs (Decidable (_ ∨ _))

/-- The text of a number begins with a digit or a sign. -/
theorem starts_of_number {cs tail : List Char} {t : NumberText}
    (read : number cs = some (t, tail)) : ∃ c rest, cs = c :: rest ∧ Starts c := by
  rcases cs with _ | ⟨c, cs⟩
  · cases read
  refine ⟨c, cs, rfl, ?_⟩
  by_cases minus : c = '-'
  · exact .inr minus
  left
  rw [number, unsignedNumber_eq] at read
  · cases digit : isAsciiDigit c with
    | true => rfl
    | false =>
      have none : (digits (c :: cs)).1 = [] := by simp [digits, digit]
      simp [none] at read
  · exact fun _ same => minus (List.cons.inj same).1

end Numbers

end Document

end LintBridge

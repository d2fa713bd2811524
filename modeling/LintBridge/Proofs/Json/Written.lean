import LintBridge.Proofs.Json.ReadBack
import LintBridge.Proofs.Json.Sought

namespace LintBridge

/-- An integer of 64 bits with a sign. -/
def Fits (i : Int) : Prop := -0x8000000000000000 ≤ i ∧ i ≤ 0x7fffffffffffffff

instance (i : Int) : Decidable (Fits i) := inferInstanceAs (Decidable (_ ∧ _))

theorem fits_toInt (x : Int64) : Fits x.toInt := by
  have low := x.le_toInt
  have high := x.toInt_lt
  constructor
  · exact low
  · omega

theorem fits_next_iff (x : Int64) : Fits (x.toInt + 1) ↔ x < Int64.maxValue := by
  have low := x.le_toInt
  rw [Int64.lt_iff_toInt_lt, Int64.toInt_maxValue, Fits]
  omega

namespace Decoder

theorem toOption_int64 (i : Int) :
    (int64 (Document.ofJson (.int i))).toOption = if Fits i then some i else none := by
  rw [Json.int, Document.ofJson, int64, integer]
  by_cases fits : Fits i
  · rw [if_pos fits, if_pos (show _ ∧ _ from fits)]
    rfl
  · rw [if_neg fits, if_neg (show ¬(_ ∧ _) from fits)]
    rfl

theorem int64_toInt (x : Int64) : int64 (Document.ofJson (.int x.toInt)) = .ok x.toInt :=
  of_toOption ((toOption_int64 _).trans (if_pos (fits_toInt x)))

theorem text_str (s : String) : text (Document.ofJson (.str s)) = .ok s := rfl

theorem toOption_nullable {α : Type} {read : Decoder α} {d : Document} (shown : d ≠ .null) :
    (nullable read d).toOption = (read d).toOption.map some := by
  unfold nullable
  split
  · exact absurd rfl shown
  · cases read d <;> rfl

/-- A field that may be left out is read as what it is written for. -/
theorem elim_nullable {α β : Type} {read : Decoder β} {f : α → Json} {g : α → β}
    (each : ∀ a, read (Document.ofJson (f a)) = .ok (g a))
    (shown : ∀ a, Document.ofJson (f a) ≠ .null) (o : Option α) :
    ((o.map f).map Document.ofJson).elim (some none)
      (fun d => (nullable read d).toOption) = some (o.map g) := by
  cases o with
  | none => rfl
  | some a =>
    rw [Option.map_some, Option.map_some, Option.elim_some, toOption_nullable (shown a), each]
    rfl

/-- The items of a list that are read as they are written, if all of them are. -/
theorem toOption_list {α β : Type} {read : Decoder β} {f : α → Json} {g : α → β} {p : α → Prop}
    [DecidablePred p]
    (each : ∀ a, (read (Document.ofJson (f a))).toOption = if p a then some (g a) else none)
    (as : List α) : (list read (Document.ofJson (.arr (as.map f)))).toOption =
      if ∀ a ∈ as, p a then some (as.map g) else none := by
  rw [Document.ofJson, list]
  induction as with
  | nil => rfl
  | cons a as ih =>
    have first := each a
    rw [List.map_cons, Document.ofItems, List.mapM_cons]
    by_cases here : p a
    · rw [if_pos here] at first
      rw [of_toOption first]
      by_cases others : ∀ a ∈ as, p a
      · have all : ∀ b ∈ a :: as, p b := List.forall_mem_cons.mpr ⟨here, others⟩
        rw [if_pos others] at ih
        rw [of_toOption ih, if_pos all]
        rfl
      · have some : ¬∀ b ∈ a :: as, p b := fun all => others (List.forall_mem_cons.mp all).2
        rw [if_neg others] at ih
        rw [if_neg some]
        cases rest : (Document.ofItems (as.map f)).mapM read with
        | error e => rfl
        | ok bs => rw [rest] at ih; cases ih
    · have some : ¬∀ b ∈ a :: as, p b := fun all => here (List.forall_mem_cons.mp all).1
      rw [if_neg here] at first
      rw [if_neg some]
      cases value : read (Document.ofJson (f a)) with
      | error e => rfl
      | ok b => rw [value] at first; cases first

theorem list_map {α β : Type} {read : Decoder β} {f : α → Json} {g : α → β}
    (each : ∀ a, read (Document.ofJson (f a)) = .ok (g a)) (as : List α) :
    list read (Document.ofJson (.arr (as.map f))) = .ok (as.map g) := by
  have reads (a : α) : (read (Document.ofJson (f a))).toOption =
      if True then some (g a) else none := by
    rw [each a, if_pos trivial]
    rfl
  exact of_toOption ((toOption_list reads as).trans (if_pos fun _ _ => trivial))

end Decoder

namespace Json

theorem int_shown (i : Int) : Document.ofJson (.int i) ≠ .null := by
  simp [Json.int, Document.ofJson]

theorem str_shown (s : String) : Document.ofJson (.str s) ≠ .null := by
  simp [Document.ofJson]

theorem present_shown (fields : List (String × Option Json)) :
    Document.ofJson (.present fields) ≠ .null := by
  simp [Json.present, Json.object, Document.ofJson]

section Plain

variable {depth : Nat}

theorem plain_present {fields : List (String × Option Json)}
    (each : ∀ f ∈ fields, ∀ v ∈ f.2, v.Plain depth) : (Json.present fields).Plain (depth + 1) := by
  refine .object fun f member => ?_
  obtain ⟨g, within, same⟩ := List.mem_filterMap.mp member
  obtain ⟨v, value, rfl⟩ := Option.map_eq_some_iff.mp same
  exact each g within v value

theorem plain_list {α : Type} {f : α → Json} {as : List α} (each : ∀ a ∈ as, (f a).Plain depth) :
    (Json.arr (as.map f)).Plain (depth + 1) := by
  refine .arr fun v member => ?_
  obtain ⟨a, within, rfl⟩ := List.mem_map.mp member
  exact each a within

theorem plain_toInt (x : Int64) : (Json.int x.toInt).Plain depth := by
  obtain ⟨low, high⟩ := fits_toInt x
  exact .int low (by omega)

theorem plain_next (x : Int64) : (Json.int (x.toInt + 1)).Plain depth := by
  obtain ⟨low, high⟩ := fits_toInt x
  exact .int (by omega) (by omega)

theorem plain_some {v : Json} (plain : v.Plain depth) : ∀ w ∈ some v, w.Plain depth := by
  rintro _ ⟨⟩
  exact plain

theorem plain_map {α : Type} {f : α → Json} (each : ∀ a, (f a).Plain depth) (o : Option α) :
    ∀ v ∈ o.map f, v.Plain depth := by
  intro v member
  obtain ⟨a, _, rfl⟩ := Option.map_eq_some_iff.mp member
  exact each a

end Plain

end Json

end LintBridge

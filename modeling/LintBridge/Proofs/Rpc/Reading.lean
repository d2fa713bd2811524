import LintBridge.Rpc.Frame

namespace LintBridge

namespace Frame

/-- The values of the frames at the front of some bytes, and the bytes behind these frames. -/
inductive Reads (limit : Nat) (closed : Bool) : Bytes → List Json → Bytes → Prop
  | done (bs : Bytes) : Reads limit closed bs [] bs
  | frame {bs rest behind : Bytes} {value : Json} {values : List Json} :
      next limit closed bs = .frame value rest → Reads limit closed rest values behind →
      Reads limit closed bs (value :: values) behind

theorem header_of_cutLine {closed started : Bool} {found : Option Nat} {bs line rest : Bytes}
    (cut : cutLine bs = some (line, rest)) : header closed started found bs =
      match lineMeaning found line with
      | .blank => finishHeader found rest
      | .length found => header closed true found rest
      | .failed e => .failed e := by
  rw [header]
  split
  · rename_i same
    rw [cut] at same
    cases same
    rfl
  · rename_i none
    rw [cut] at none
    cases none

theorem cutLine_append_right {bs line rest : Bytes} (cut : cutLine bs = some (line, rest))
    (more : Bytes) : cutLine (bs ++ more) = some (line, rest ++ more) := by
  induction bs generalizing line with
  | nil => cases cut
  | cons b bs ih =>
    rw [cutLine] at cut
    rw [List.cons_append, cutLine]
    split at cut
    · rename_i ends
      cases cut
      rw [if_pos ends]
    · rename_i inside
      obtain ⟨⟨front, behind⟩, found, same⟩ := Option.map_eq_some_iff.mp cut
      cases same
      rw [if_neg inside, ih found, Option.map_some]

theorem finishHeader_complete {found : Option Nat} {bs rest : Bytes} {n : Nat}
    (complete : finishHeader found bs = .complete n rest) : found = some n ∧ bs = rest := by
  cases found with
  | none => cases complete
  | some m =>
    cases complete
    exact ⟨rfl, rfl⟩

theorem finishHeader_ne (found : Option Nat) (bs : Bytes) :
    finishHeader found bs ≠ .unfinished ∧ finishHeader found bs ≠ .ended := by
  cases found <;> exact ⟨Header.noConfusion, Header.noConfusion⟩

/-- A header that has been read is read of more bytes, and leaves the more. -/
theorem header_append {closed started : Bool} {found : Option Nat} {bs rest : Bytes} {n : Nat}
    (complete : header false started found bs = .complete n rest) (more : Bytes) :
    header closed started found (bs ++ more) = .complete n (rest ++ more) := by
  -- along the lines of the header; without a line it would not be complete
  fun_induction header false started found bs with
  | case1 started found bs line behind cut blank =>
    obtain ⟨rfl, rfl⟩ := finishHeader_complete complete
    rw [header_of_cutLine (cutLine_append_right cut more), blank]
    rfl
  | case2 started found bs line behind cut found' length ih =>
    rw [header_of_cutLine (cutLine_append_right cut more), length]
    exact ih complete
  | case3 => cases complete
  | case4 => cases complete
  | case5 | case6 | case7 | case8 | case9 => contradiction

/-- A header takes a byte at least. -/
theorem header_length {closed started : Bool} {found : Option Nat} {bs rest : Bytes} {n : Nat}
    (complete : header closed started found bs = .complete n rest) : rest.length < bs.length := by
  fun_induction header closed started found bs with
  | case1 started found bs line behind cut =>
    obtain ⟨_, rfl⟩ := finishHeader_complete complete
    exact cutLine_length cut
  | case2 started found bs line behind cut found' _ ih =>
    have shorter := cutLine_length cut
    have less := ih complete
    omega
  | case7 started found bs _ _ nonempty =>
    obtain ⟨_, rfl⟩ := finishHeader_complete complete
    cases bs with
    | nil => exact absurd rfl nonempty
    | cons b bs => exact Nat.succ_pos _
  | case3 | case4 | case5 | case6 | case8 | case9 => cases complete

/-- Where no byte will follow, the header does not wait for one. -/
theorem header_of_closed (started : Bool) (found : Option Nat) (bs : Bytes) :
    header true started found bs ≠ .unfinished := by
  fun_induction header true started found bs with
  | case1 | case7 => exact (finishHeader_ne _ _).1
  | case2 _ _ _ _ _ _ _ _ ih => exact ih
  | case4 => contradiction
  | case3 | case5 | case6 | case8 | case9 => exact Header.noConfusion

theorem header_eq_ended (closed started : Bool) (found : Option Nat) (bs : Bytes) :
    header closed started found bs = .ended ↔ closed = true ∧ started = false ∧ bs = [] := by
  have cut_ne {bs line rest : Bytes} (cut : cutLine bs = some (line, rest)) : bs ≠ [] := by
    rintro rfl
    cases cut
  fun_induction header closed started found bs with
  | case1 _ _ _ _ _ cut =>
    exact iff_of_false (finishHeader_ne _ _).2 fun ⟨_, _, empty⟩ => cut_ne cut empty
  | case2 _ _ _ _ _ cut _ _ ih =>
    -- behind a line the header has started, so its bytes cannot end
    refine iff_of_false (fun same => ?_) fun ⟨_, _, empty⟩ => cut_ne cut empty
    exact Bool.noConfusion (ih.mp same).2.1
  | case3 _ _ _ _ _ cut =>
    exact iff_of_false Header.noConfusion fun ⟨_, _, empty⟩ => cut_ne cut empty
  | case4 _ _ _ _ hears =>
    refine iff_of_false Header.noConfusion fun ⟨closed, _⟩ => ?_
    rw [closed] at hears
    cases hears
  | case5 => exact iff_of_false Header.noConfusion fun ⟨_, fresh, _⟩ => Bool.noConfusion fresh
  | case6 _ _ _ _ ends empty fresh =>
    refine iff_of_true rfl ⟨?_, Bool.eq_false_iff.mpr fresh, List.isEmpty_iff.mp empty⟩
    simpa using ends
  | case7 _ _ _ _ _ nonempty =>
    refine iff_of_false (finishHeader_ne _ _).2 fun ⟨_, _, empty⟩ => nonempty ?_
    exact List.isEmpty_iff.mpr empty
  | case8 _ _ _ _ _ nonempty | case9 _ _ _ _ _ nonempty =>
    refine iff_of_false Header.noConfusion fun ⟨_, _, empty⟩ => nonempty ?_
    exact List.isEmpty_iff.mpr empty

section Next

variable {limit : Nat} {closed : Bool} {bs rest : Bytes} {value : Json}

/-- How a frame in front lies in the bytes. -/
theorem next_eq_frame (reads : next limit closed bs = .frame value rest) : ∃ length body,
    header closed false none bs = .complete length body ∧ length ≤ limit ∧
      length ≤ body.length ∧ decodeBody (body.take length) = some value ∧
      body.drop length = rest := by
  unfold next at reads
  split at reads
  case h_4 length body complete =>
    split at reads
    · cases reads
    split at reads
    · split at reads <;> cases reads
    split at reads
    · rename_i short long _ decoded
      cases reads
      exact ⟨length, body, complete, by omega, by omega, decoded, rfl⟩
    · cases reads
  all_goals cases reads

/-- A frame that has been read is read of more bytes, and leaves the more. -/
theorem next_append (reads : next limit false bs = .frame value rest) (more : Bytes) :
    next limit closed (bs ++ more) = .frame value (rest ++ more) := by
  obtain ⟨length, body, complete, short, whole, decoded, rfl⟩ := next_eq_frame reads
  have longer : ¬ (body ++ more).length < length := by
    rw [List.length_append]
    omega
  simp only [next, header_append complete more, if_neg (Nat.not_lt.mpr short), if_neg longer,
    List.take_append_of_le_length whole, decoded, List.drop_append_of_le_length whole]

/-- A frame takes a byte at least. -/
theorem next_length (reads : next limit closed bs = .frame value rest) :
    rest.length < bs.length := by
  obtain ⟨length, body, complete, _, _, _, rfl⟩ := next_eq_frame reads
  have less := header_length complete
  rw [List.length_drop]
  omega

/-- Where no byte will follow, reading does not wait for one. -/
theorem next_of_closed (limit : Nat) (bs : Bytes) : next limit true bs ≠ .unfinished := by
  have header := header_of_closed false none bs
  unfold next
  split
  · contradiction
  · exact Next.noConfusion
  · exact Next.noConfusion
  · split
    · exact Next.noConfusion
    split
    · exact Next.noConfusion
    · split <;> exact Next.noConfusion

/-- The bytes end between frames where there are none left and none will follow. -/
theorem next_eq_ended : next limit closed bs = .ended ↔ closed = true ∧ bs = [] := by
  have header := header_eq_ended closed false none bs
  rw [and_iff_right rfl] at header
  rw [← header]
  unfold next
  split
  · rename_i same
    rw [same]
    exact iff_of_false Next.noConfusion Header.noConfusion
  · rename_i same
    rw [same]
    exact iff_of_true rfl rfl
  · rename_i same
    rw [same]
    exact iff_of_false Next.noConfusion Header.noConfusion
  · rename_i same
    rw [same]
    refine iff_of_false ?_ Header.noConfusion
    split
    · exact Next.noConfusion
    split
    · split <;> exact Next.noConfusion
    · split <;> exact Next.noConfusion

theorem Reads.concat {values : List Json} {behind : Bytes}
    (reads : Reads limit closed bs values rest)
    (more : next limit closed rest = .frame value behind) :
    Reads limit closed bs (values ++ [value]) behind := by
  induction reads with
  | done => exact .frame more (.done behind)
  | frame first _ ih => exact .frame first (ih more)

/-- The frames of some bytes are read of more of them, and the more is left. -/
theorem Reads.append {values : List Json} (reads : Reads limit false bs values rest)
    (more : Bytes) : Reads limit closed (bs ++ more) values (rest ++ more) := by
  induction reads with
  | done => exact .done _
  | frame first _ ih => exact .frame (next_append first more) ih

end Next

end Frame

end LintBridge

import LintBridge.Proofs.Rpc.Layout

namespace LintBridge

namespace Frame

/-- What is kept while the bytes of a frame come in. -/
inductive Intake where
  /-- A line that has not ended, behind others that have told a length or none. -/
  | line (started : Bool) (found : Option Nat) (bytes : Bytes)
  /-- What has come of a body, and the room that was made for the whole of it. -/
  | body (room : Nat) (come : Bytes)
  | failed (e : FrameError)

/-- What is read behind a header. -/
def ofHeader (limit : Nat) (closed : Bool) : Header → Next
  | .unfinished => .unfinished
  | .ended => .ended
  | .failed e => .failed e
  | .complete length rest =>
    if limit < length then .failed (.tooLong length limit)
    else if rest.length < length then (if closed then .failed .shortBody else .unfinished)
    else
      match decodeBody (rest.take length) with
      | some value => .frame value (rest.drop length)
      | none => .failed .badBody

theorem next_eq_ofHeader (limit : Nat) (closed : Bool) (bs : Bytes) :
    next limit closed bs = ofHeader limit closed (header closed false none bs) := rfl

theorem header_of_uncut {closed started : Bool} {found : Option Nat} {bs : Bytes}
    (whole : lineFeed ∉ bs) : header closed started found bs =
      if !closed then .unfinished
      else if bs.isEmpty then (if started then .failed .endInHeader else .ended)
      else
        match lineMeaning found bs with
        | .blank => finishHeader found []
        | .length _ => .failed .endInHeader
        | .failed e => .failed e := by
  have uncut : cutLine bs = none := by
    cases cut : cutLine bs with
    | none => rfl
    | some parts =>
      obtain ⟨rfl, _⟩ := of_cutLine cut
      exact absurd (List.mem_append_right _ List.mem_cons_self) whole
  rw [header]
  split
  · rename_i cut
    cases uncut.symm.trans cut
  · rfl

namespace Intake

/-- Nothing has come. -/
def fresh : Intake := .line false none []

/-- A body comes next, of the length that was told, if one was and it is within the limit. -/
def enter (limit : Nat) : Option Nat → Intake
  | none => .failed .noLength
  | some n => if limit < n then .failed (.tooLong n limit) else .body n []

/-- Whether a further byte is asked for. -/
def wants : Intake → Bool
  | .line _ _ _ => true
  | .body room come => come.length < room
  | .failed _ => false

/-- Take a byte in. -/
def take (limit : Nat) : Intake → UInt8 → Intake
  | .line started found bytes, b =>
    if b = lineFeed then
      match lineMeaning found bytes with
      | .blank => enter limit found
      | .length found => .line true found []
      | .failed e => .failed e
    else .line started found (bytes ++ [b])
  | .body room come, b => .body room (come ++ [b])
  | .failed e, _ => .failed e

/-- Take bytes in as long as they are asked for, and leave the others. -/
def run (limit : Nat) : Intake → Bytes → Intake × Bytes
  | i, [] => (i, [])
  | i, b :: bs => if i.wants then run limit (i.take limit b) bs else (i, b :: bs)

/-- What a reader comes to behind a header with what it has kept, and the bytes it has left. -/
def settle (closed : Bool) : Intake → Bytes → Next
  | .line _ _ _, _ => .unfinished
  | .failed e, _ => .failed e
  | .body room come, rest =>
    if come.length < room then (if closed then .failed .shortBody else .unfinished)
    else
      match decodeBody come with
      | some value => .frame value rest
      | none => .failed .badBody

/-- What a reader comes to when no further byte has come. A last line needs no end. -/
def finish (limit : Nat) (closed : Bool) : Intake × Bytes → Next
  | (.line started found bytes, _) =>
    if !closed then .unfinished
    else if bytes.isEmpty then (if started then .failed .endInHeader else .ended)
    else
      match lineMeaning found bytes with
      | .blank => settle closed (enter limit found) []
      | .length _ => .failed .endInHeader
      | .failed e => .failed e
  | (.body room come, rest) => settle closed (.body room come) rest
  | (.failed e, _) => .failed e

variable {limit : Nat} {closed started : Bool} {found : Option Nat} {i : Intake}

theorem run_failed (e : FrameError) (bs : Bytes) : run limit (.failed e) bs = (.failed e, bs) := by
  cases bs <;> rfl

/-- A body is complete with as many bytes as there is room for. -/
theorem finish_run_body {room : Nat} {come : Bytes} (fits : come.length ≤ room) (bs : Bytes) :
    finish limit closed (run limit (.body room come) bs) =
      if (come ++ bs).length < room then (if closed then .failed .shortBody else .unfinished)
      else
        match decodeBody ((come ++ bs).take room) with
        | some value => .frame value ((come ++ bs).drop room)
        | none => .failed .badBody := by
  induction bs generalizing come with
  | nil =>
    rw [List.append_nil, List.take_of_length_le fits, List.drop_of_length_le fits]
    rfl
  | cons b bs ih =>
    rw [run]
    by_cases short : come.length < room
    · have asks : wants (.body room come) = true := decide_eq_true short
      have fits' : (come ++ [b]).length ≤ room := by
        rw [List.length_append]
        exact short
      rw [if_pos asks, take, ih fits', List.append_assoc, List.singleton_append]
    · have sated : ¬wants (.body room come) = true := fun asks => short (of_decide_eq_true asks)
      have full : room = come.length := by omega
      have enough : ¬(come ++ b :: bs).length < room := by
        rw [List.length_append]
        omega
      rw [if_neg sated, if_neg enough, full, List.take_left, List.drop_left, finish, settle,
        if_neg (Nat.lt_irrefl _)]

theorem finish_enter (found : Option Nat) (rest : Bytes) :
    finish limit closed (enter limit found, rest) = settle closed (enter limit found) rest := by
  cases found with
  | none => rfl
  | some n =>
    rw [enter]
    split <;> rfl

/-- Behind a header the reader goes on as the header tells. -/
theorem finish_run_enter (found : Option Nat) (bs : Bytes) :
    finish limit closed (run limit (enter limit found) bs) =
      ofHeader limit closed (finishHeader found bs) := by
  cases found with
  | none => rw [enter, run_failed, finish, finishHeader, ofHeader]
  | some n =>
    rw [enter, finishHeader, ofHeader]
    split
    · rw [run_failed, finish]
    · rw [finish_run_body (Nat.zero_le _)]
      rfl

/-- A reader comes to what is read of its line and of the bytes that come. -/
theorem finish_run_line {bytes : Bytes} (whole : lineFeed ∉ bytes) (bs : Bytes) :
    finish limit closed (run limit (.line started found bytes) bs) =
      ofHeader limit closed (header closed started found (bytes ++ bs)) := by
  induction bs generalizing started found bytes with
  | nil =>
    rw [List.append_nil, header_of_uncut whole, run, finish]
    split
    · rfl
    split
    · split <;> rfl
    cases lineMeaning found bytes with
    | blank =>
      rw [← finish_run_enter found [], run]
      exact (finish_enter found []).symm
    | length => rfl
    | failed => rfl
  | cons b bs ih =>
    rw [run, if_pos (show wants (.line started found bytes) = true from rfl), take]
    by_cases ends : b = lineFeed
    · have cut := cutLine_append (fun c member same => whole (same ▸ member)) bs
      rw [if_pos ends, ends, header_of_cutLine cut]
      cases lineMeaning found bytes with
      | blank => exact finish_run_enter found bs
      | length found => exact ih List.not_mem_nil
      | failed e =>
        dsimp only
        rw [run_failed]
        rfl
    · have whole' : lineFeed ∉ bytes ++ [b] := fun member =>
        (List.mem_append.mp member).elim whole fun last => ends (List.mem_singleton.mp last).symm
      rw [if_neg ends, ih whole', List.append_assoc, List.singleton_append]

/-- Bytes that come in one by one are read as they are read as a whole. -/
theorem next_eq_finish (limit : Nat) (closed : Bool) (bs : Bytes) :
    next limit closed bs = finish limit closed (fresh.run limit bs) := by
  rw [next_eq_ofHeader, fresh, finish_run_line List.not_mem_nil, List.nil_append]

/-- Room is made for a body within the limit only, and is never overfilled. -/
def Within (limit : Nat) : Intake → Prop
  | .body room come => come.length ≤ room ∧ room ≤ limit
  | .line _ _ _ | .failed _ => True

theorem within_enter (limit : Nat) (found : Option Nat) : (enter limit found).Within limit := by
  cases found with
  | none => trivial
  | some n =>
    rw [enter]
    split
    · trivial
    · rename_i short
      exact ⟨Nat.zero_le n, Nat.not_lt.mp short⟩

/-- A byte that is asked for keeps a body within its room. -/
theorem Within.take (within : i.Within limit) (asks : i.wants = true) (b : UInt8) :
    (i.take limit b).Within limit := by
  cases i with
  | line started found bytes =>
    rw [Intake.take]
    split
    · cases lineMeaning found bytes with
      | blank => exact within_enter limit found
      | length | failed => trivial
    · trivial
  | body room come =>
    obtain ⟨_, small⟩ := within
    refine ⟨?_, small⟩
    rw [List.length_append]
    exact of_decide_eq_true asks
  | failed e => trivial

theorem Within.run (within : i.Within limit) (bs : Bytes) : (i.run limit bs).1.Within limit := by
  induction bs generalizing i with
  | nil => exact within
  | cons b bs ih =>
    rw [Intake.run]
    split
    · rename_i asks
      exact ih (within.take asks b)
    · exact within

end Intake

/-- Frames are read one after the other till the bytes end behind one, or are no frame. -/
inductive Ends (limit : Nat) (bs : Bytes) : List Json × Option FrameError → Prop
  | ended {values : List Json} : Reads limit true bs values [] → Ends limit bs (values, none)
  | failed {values : List Json} {behind : Bytes} {e : FrameError} :
      Reads limit true bs values behind → next limit true behind = .failed e →
      Ends limit bs (values, some e)

/-- As many frames as there are bytes are more than can be read of them. -/
theorem ends_readSome (limit : Nat) {fuel : Nat} {bs : Bytes} (enough : bs.length < fuel) :
    Ends limit bs (readSome limit fuel bs) := by
  induction fuel generalizing bs with
  | zero => exact absurd enough (Nat.not_lt_zero _)
  | succ fuel ih =>
    rw [readSome]
    cases reads : next limit true bs with
    | unfinished => exact absurd reads (next_of_closed limit bs)
    | ended =>
      obtain ⟨_, rfl⟩ := next_eq_ended.mp reads
      exact .ended (.done [])
    | failed e => exact .failed (.done bs) reads
    | frame value rest =>
      have shorter := next_length reads
      have others : Ends limit rest (readSome limit fuel rest) := ih (by omega)
      dsimp only
      generalize readSome limit fuel rest = result at others ⊢
      cases others with
      | ended others => exact .ended (.frame reads others)
      | failed others fails => exact .failed (.frame reads others) fails

/-- Of finished bytes a frame is read just where one lies, nothing where there are none, and else
an error; reading on comes to an end; and a reader that takes them in one by one comes to the same,
with never more of a body kept than the limit. -/
theorem frames_are_read_where_they_lie (limit : Nat) (bs : Bytes) :
    (∀ value rest, next limit true bs = .frame value rest ↔ Lies limit bs value rest) ∧
    (next limit true bs = .ended ↔ bs = []) ∧
    ((∃ e, next limit true bs = .failed e) ↔ bs ≠ [] ∧ ∀ value rest, ¬Lies limit bs value rest) ∧
    Ends limit bs (readAll limit bs) ∧
    next limit true bs = Intake.finish limit true (Intake.fresh.run limit bs) ∧
    ∀ come, (Intake.fresh.run limit come).1.Within limit := by
  have empty : next limit true bs = .ended ↔ bs = [] := next_eq_ended.trans (and_iff_right rfl)
  refine ⟨fun _ _ => next_eq_frame_iff, empty, ?_, ends_readSome limit (Nat.lt_succ_self _),
    Intake.next_eq_finish limit true bs, Intake.Within.run (i := .fresh) trivial⟩
  constructor
  · rintro ⟨e, fails⟩
    refine ⟨fun none => ?_, fun value rest lies => ?_⟩
    · cases fails.symm.trans (empty.mpr none)
    · cases fails.symm.trans (next_eq_frame_iff.mpr lies)
  · rintro ⟨some, outside⟩
    cases reads : next limit true bs with
    | unfinished => exact absurd reads (next_of_closed limit bs)
    | ended => exact absurd (empty.mp reads) some
    | failed e => exact ⟨e, rfl⟩
    | frame value rest => exact absurd (next_eq_frame_iff.mp reads) (outside value rest)

/-- Other headers are passed over, and a length that is told again counts. -/
theorem last_length_counts :
    let first := "X: é".toList
    let second := "Content-Length: 9".toList
    let third := "content-LENGTH : +2 \r".toList
    let bs := lineBytes [first, second, third, " \u00a0\r".toList] ++ (utf8 "42" ++ [0xff])
    next 2 true bs = .frame (.int 42) [0xff] := by
  intro first second third bs
  have nine : Tells ("Content-Length".toList ++ ':' :: " 9".toList) " 9".toList :=
    .intro (by decide) (by decide)
  have two : Tells ("content-LENGTH ".toList ++ ':' :: " +2 \r".toList) " +2 \r".toList :=
    .intro (by decide) (by decide)
  have other (value : List Char) (tells : Tells (['X'] ++ ':' :: " é".toList) value) : False :=
    absurd ((tells_iff (by decide)).mp tells).1 (by decide)
  have shown (line : List Char) (some : line.all isBlank = false) : ¬Blank line := fun blank =>
    Bool.noConfusion (some.symm.trans (List.all_eq_true.mpr blank))
  have finds : Finds none [first, second, third] (some 2) :=
    .silent (shown first (by decide)) other
      (.told (n := 9) (shown second (by decide)) nine (by decide)
        (.told (shown third (by decide)) two (by decide) .nil))
  have forms : Forms 2 [first, second, third] " \u00a0\r".toList (utf8 "42") (.int 42) :=
    ⟨by decide, List.all_eq_true.mp (by decide), finds_none_iff.mp finds, by decide, rfl⟩
  exact ((frames_are_read_where_they_lie 2 bs).1 _ _).mpr ⟨_, _, _, forms, rfl⟩

end Frame

end LintBridge

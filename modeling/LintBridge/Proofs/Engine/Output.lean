import LintBridge.Proofs.Text.Lines
import LintBridge.Shell.Machine

namespace LintBridge

theorem utf8Units_eq_nil_iff {bs : Bytes} : utf8Units bs = [] ↔ bs = [] := by
  constructor
  · intro none
    cases bs with
    | nil => rfl
    | cons b bs =>
      rw [utf8Units, List.length_cons, utf8Scan] at none
      split at none <;> cases none
  · rintro rfl
    rfl

/-- A text is read from bytes where there are any, well formed or not. -/
theorem isEmpty_utf8Lossy (bs : Bytes) : (utf8Lossy bs).isEmpty = bs.isEmpty := by
  rw [Bool.eq_iff_iff, String.isEmpty_iff, List.isEmpty_iff, utf8Lossy, String.ofList_eq_empty_iff,
    List.map_eq_nil_iff, utf8Units_eq_nil_iff]

/-- The pieces of two streams as they come, each stream's in their order. -/
inductive Merges : List Bytes → List Bytes → List ProcessEvent → Prop
  | nil : Merges [] [] []
  | out {outs errs : List Bytes} {events : List ProcessEvent} (piece : Bytes) :
      Merges outs errs events → Merges (piece :: outs) errs (.out piece :: events)
  | err {outs errs : List Bytes} {events : List ProcessEvent} (piece : Bytes) :
      Merges outs errs events → Merges outs (piece :: errs) (.err piece :: events)

section Merges

variable {outs errs : List Bytes} {events : List ProcessEvent}

theorem merges_map_err (errs : List Bytes) : Merges [] errs (errs.map .err) := by
  induction errs with
  | nil => exact .nil
  | cons piece errs ih => exact .err piece ih

/-- One stream may be read to its end before the other. -/
theorem merges_append (outs errs : List Bytes) :
    Merges outs errs (outs.map .out ++ errs.map .err) := by
  induction outs with
  | nil => exact merges_map_err errs
  | cons piece outs ih => exact .out piece ih

theorem Merges.not_broken (merges : Merges outs errs events) (reason : String) :
    .broken reason ∉ events := by
  induction merges with
  | nil => exact List.not_mem_nil
  | out _ _ ih | err _ _ ih => exact List.not_mem_cons_of_ne_of_not_mem nofun ih

/-- What is read are pieces of the two streams, up to where one can no longer be read. -/
theorem merges_or_broken (events : List ProcessEvent) :
    (∃ outs errs, Merges outs errs events) ∨ ∃ outs errs before reason after,
      Merges outs errs before ∧ events = before ++ .broken reason :: after := by
  induction events with
  | nil => exact .inl ⟨_, _, .nil⟩
  | cons event events ih =>
    cases event with
    | broken reason => exact .inr ⟨_, _, [], reason, events, .nil, rfl⟩
    | out piece =>
      rcases ih with ⟨_, _, merges⟩ | ⟨_, _, before, reason, after, merges, rfl⟩
      · exact .inl ⟨_, _, merges.out piece⟩
      · exact .inr ⟨_, _, _ :: before, reason, after, merges.out piece, rfl⟩
    | err piece =>
      rcases ih with ⟨_, _, merges⟩ | ⟨_, _, before, reason, after, merges, rfl⟩
      · exact .inl ⟨_, _, merges.err piece⟩
      · exact .inr ⟨_, _, _ :: before, reason, after, merges.err piece, rfl⟩

end Merges

namespace Capture

variable {command : Command} {limit : Nat} {c c' : Capture} {outs errs : List Bytes}
variable {events : List ProcessEvent}

/-- Neither stream is kept beyond the limit. -/
def Within (limit : Nat) (c : Capture) : Prop := c.out.length ≤ limit ∧ c.err.length ≤ limit

theorem feed_out (piece : Bytes) : c.feed command limit (.out piece) =
    if limit < (c.out ++ piece).length then .error (.outputTooLarge limit)
    else .ok ⟨c.out ++ piece, c.err⟩ := by
  rw [feed, extend, List.length_append]
  split <;> rfl

theorem feed_err (piece : Bytes) : c.feed command limit (.err piece) =
    if limit < (c.err ++ piece).length then .error (.outputTooLarge limit)
    else .ok ⟨c.out, c.err ++ piece⟩ := by
  rw [feed, extend, List.length_append]
  split <;> rfl

/-- An event that is taken in keeps both streams within the limit. -/
theorem Within.feed (within : c.Within limit) {event : ProcessEvent}
    (ok : c.feed command limit event = .ok c') : c'.Within limit := by
  cases event with
  | out piece =>
    rw [feed_out] at ok
    split at ok
    · cases ok
    · rename_i fits
      cases ok
      exact ⟨Nat.not_lt.mp fits, within.2⟩
  | err piece =>
    rw [feed_err] at ok
    split at ok
    · cases ok
    · rename_i fits
      cases ok
      exact ⟨within.1, Nat.not_lt.mp fits⟩
  | broken reason => cases ok

theorem Within.feedAll (within : c.Within limit)
    (ok : c.feedAll command limit events = .ok c') : c'.Within limit := by
  induction events generalizing c with
  | nil =>
    cases ok
    exact within
  | cons event events ih =>
    rw [Capture.feedAll] at ok
    split at ok
    · cases ok
    · rename_i fed
      exact ih (within.feed fed) ok

theorem feedAll_append (before after : List ProcessEvent) :
    c.feedAll command limit (before ++ after) =
      (c.feedAll command limit before).bind fun c => c.feedAll command limit after := by
  induction before generalizing c with
  | nil => rfl
  | cons event before ih =>
    rw [List.cons_append, feedAll, feedAll]
    split
    · rfl
    · exact ih

/-- The bytes of both streams are put behind what was read, where they stay within the limit. -/
theorem feedAll_of_merges (within : c.Within limit) (merges : Merges outs errs events) :
    c.feedAll command limit events =
      if limit < (c.out ++ outs.flatten).length ∨ limit < (c.err ++ errs.flatten).length then
        .error (.outputTooLarge limit)
      else .ok ⟨c.out ++ outs.flatten, c.err ++ errs.flatten⟩ := by
  induction merges generalizing c with
  | nil =>
    obtain ⟨short, short'⟩ := within
    rw [List.flatten_nil, List.append_nil, List.append_nil, if_neg (by omega), feedAll]
  | @out outs errs events piece merges ih =>
    rw [feedAll, feed_out, List.flatten_cons, ← List.append_assoc]
    by_cases long : limit < (c.out ++ piece).length
    · have longer : limit < (c.out ++ piece ++ outs.flatten).length := by
        rw [List.length_append]
        omega
      rw [if_pos long, if_pos (.inl longer)]
    · rw [if_neg long]
      exact ih ⟨Nat.not_lt.mp long, within.2⟩
  | @err outs errs events piece merges ih =>
    rw [feedAll, feed_err, List.flatten_cons, ← List.append_assoc]
    by_cases long : limit < (c.err ++ piece).length
    · have longer : limit < (c.err ++ piece ++ errs.flatten).length := by
        rw [List.length_append]
        omega
      rw [if_pos long, if_pos (.inr longer)]
    · rw [if_neg long]
      exact ih ⟨within.1, Nat.not_lt.mp long⟩

theorem conclude_eq (status : ExitStatus) : c.conclude command status =
    if status ≠ .code 0 ∨ c.err ≠ [] then
      .error (.process command.display status.code? (utf8Lossy c.err))
    else .ok (utf8Lossy c.out) := by
  have fails : (!status.isSuccess || !(utf8Lossy c.err).isEmpty) = true ↔
      status ≠ .code 0 ∨ c.err ≠ [] := by
    rw [isEmpty_utf8Lossy, Bool.or_eq_true, Bool.not_eq_true', Bool.not_eq_true',
      ExitStatus.isSuccess, beq_eq_false_iff_ne, List.isEmpty_eq_false_iff]
  rw [conclude]
  exact if_congr fails rfl rfl

end Capture

namespace Process

/-- What a run comes to by the bytes of the two streams and by how the program ended. -/
def verdict (command : Command) (limit : Nat) (status : ExitStatus) (stdout stderr : Bytes) :
    Except EngineError String :=
  if limit < stdout.length ∨ limit < stderr.length then .error (.outputTooLarge limit)
  else if status ≠ .code 0 ∨ stderr ≠ [] then
    .error (.process command.display status.code? (utf8Lossy stderr))
  else .ok (utf8Lossy stdout)

variable {command : Command} {limit : Nat} {outs errs : List Bytes} {events : List ProcessEvent}

theorem feedAll_empty (merges : Merges outs errs events) :
    Capture.empty.feedAll command limit events =
      if limit < outs.flatten.length ∨ limit < errs.flatten.length then
        .error (.outputTooLarge limit)
      else .ok ⟨outs.flatten, errs.flatten⟩ :=
  Capture.feedAll_of_merges ⟨Nat.zero_le _, Nat.zero_le _⟩ merges

/-- The pieces and their order make no difference. -/
theorem execute_of_merges (status : ExitStatus) (merges : Merges outs errs events) :
    execute command limit events status =
      verdict command limit status outs.flatten errs.flatten := by
  rw [execute, feedAll_empty merges, verdict]
  by_cases long : limit < outs.flatten.length ∨ limit < errs.flatten.length
  · rw [if_pos long, if_pos long]
  · rw [if_neg long, if_neg long]
    exact Capture.conclude_eq status

/-- Nothing is made of what was read where a stream can no longer be read. -/
theorem execute_of_broken (status : ExitStatus) (reason : String) (after : List ProcessEvent)
    (merges : Merges outs errs events) :
    execute command limit (events ++ .broken reason :: after) status = .error
      (if limit < outs.flatten.length ∨ limit < errs.flatten.length then .outputTooLarge limit
        else .spawn command.display reason) := by
  rw [execute, Capture.feedAll_append, feedAll_empty merges]
  by_cases long : limit < outs.flatten.length ∨ limit < errs.flatten.length
  · rw [if_pos long, if_pos long]
    rfl
  · rw [if_neg long, if_neg long]
    rfl

section Pieces

theorem flatten_pieces_of_size (size n : Nat) (bs : Bytes) :
    ((List.range n).map fun i => (bs.drop (i * size)).take size).flatten = bs.take (n * size) := by
  induction n with
  | zero => rw [Nat.zero_mul, List.take_zero, List.range_zero, List.map_nil, List.flatten_nil]
  | succ n ih =>
    rw [List.range_succ, List.map_append, List.flatten_append, ih, Nat.succ_mul, List.take_add,
      List.map_singleton, List.flatten_singleton]

/-- The pieces that are read at a time make up the bytes. -/
theorem flatten_pieces (bs : Bytes) : (pieces bs).flatten = bs := by
  rw [pieces, flatten_pieces_of_size]
  refine List.take_of_length_le ?_
  rw [pieceSize]
  omega

/-- No piece is empty, or longer than what is read at a time. -/
theorem of_mem_pieces {bs piece : Bytes} (member : piece ∈ pieces bs) :
    piece ≠ [] ∧ piece.length ≤ pieceSize := by
  obtain ⟨i, inside, rfl⟩ := List.mem_map.mp member
  have before : i * pieceSize < bs.length := by
    rw [List.mem_range] at inside
    rw [pieceSize] at inside ⊢
    omega
  refine ⟨List.length_pos_iff.mp ?_, List.length_take_le _ _⟩
  rw [List.length_take, List.length_drop, pieceSize]
  rw [pieceSize] at before
  omega

/-- The machine comes to what a program has written by the bytes of its two streams. -/
theorem execute_of_finite {m : Machine} {ran : Machine.Ran} {stdout stderr : Bytes}
    (starts : m.start command = .ok ran) (out : ran.out = .finite stdout)
    (err : ran.err = .finite stderr) (limit : Nat) :
    m.execute command limit false =
      (ran.tree, verdict command limit ran.status stdout stderr) := by
  have read : execute command limit ((pieces stdout).map .out ++ (pieces stderr).map .err)
      ran.status = _ := execute_of_merges ran.status (merges_append _ _)
  rw [flatten_pieces, flatten_pieces] at read
  rw [Machine.execute, starts]
  simp only [out, err]
  rw [← read]
  rfl

end Pieces

/-- A run comes to what the bytes of the two streams and the end of the program say, in whatever
pieces and order they are read. Neither stream is ever kept beyond the limit, and a stream that can
no longer be read is an error. So the machine comes to what a program has written that ends, which
it reads in pieces of a limited size. -/
theorem run_is_told_by_totals (command : Command) (limit : Nat) (status : ExitStatus) :
    (∀ outs errs events, Merges outs errs events → execute command limit events status =
      verdict command limit status outs.flatten errs.flatten) ∧
    (∀ outs errs events reason after, Merges outs errs events →
      execute command limit (events ++ .broken reason :: after) status = .error
        (if limit < outs.flatten.length ∨ limit < errs.flatten.length then .outputTooLarge limit
          else .spawn command.display reason)) ∧
    (∀ events reason, .broken reason ∈ events →
      ∃ e, execute command limit events status = .error e) ∧
    (∀ events c, Capture.empty.feedAll command limit events = .ok c → c.Within limit ∧
      ∃ outs errs, Merges outs errs events ∧ c = ⟨outs.flatten, errs.flatten⟩) ∧
    (∀ (m : Machine) (ran : Machine.Ran) stdout stderr, m.start command = .ok ran →
      ran.out = .finite stdout → ran.err = .finite stderr →
      m.execute command limit false =
        (ran.tree, verdict command limit ran.status stdout stderr)) ∧
    ∀ bs, (pieces bs).flatten = bs ∧
      ∀ piece ∈ pieces bs, piece ≠ [] ∧ piece.length ≤ pieceSize := by
  refine ⟨fun _ _ _ => execute_of_merges status,
    fun _ _ _ reason after => execute_of_broken status reason after, ?_, ?_,
    fun m ran stdout stderr starts out err => execute_of_finite starts out err limit,
    fun bs => ⟨flatten_pieces bs, fun _ => of_mem_pieces⟩⟩
  · intro events reason member
    rcases merges_or_broken events with
      ⟨outs, errs, merges⟩ | ⟨outs, errs, before, reason, after, merges, rfl⟩
    · exact absurd member (merges.not_broken reason)
    · exact ⟨_, execute_of_broken status reason after merges⟩
  · intro events c fed
    refine ⟨Capture.Within.feedAll ⟨Nat.zero_le _, Nat.zero_le _⟩ fed, ?_⟩
    rcases merges_or_broken events with
      ⟨outs, errs, merges⟩ | ⟨outs, errs, before, reason, after, merges, rfl⟩
    · refine ⟨outs, errs, merges, ?_⟩
      rw [feedAll_empty merges] at fed
      split at fed <;> cases fed
      rfl
    · rw [Capture.feedAll_append, feedAll_empty merges] at fed
      split at fed <;> cases fed

/-- A character may come in two pieces, and one byte too many is too many. -/
theorem pieces_within_a_character :
    let command : Command := ⟨"lint", [], none⟩
    let events : List ProcessEvent := [.out [0x6e, 0xc3], .out [0xa9]]
    execute command 3 events (.code 0) = .ok "né" ∧
      execute command 2 events (.code 0) = .error (.outputTooLarge 2) ∧
      execute command 3 (events ++ [.broken "gone", .err []]) (.code 0) =
        .error (.spawn "lint" "gone") := by
  intro command events
  have merges : Merges [[0x6e, 0xc3], [0xa9]] [] events := .out _ (.out _ .nil)
  refine ⟨?_, ?_, ?_⟩
  · exact (run_is_told_by_totals command 3 (.code 0)).1 _ _ _ merges
  · exact (run_is_told_by_totals command 2 (.code 0)).1 _ _ _ merges
  · exact (run_is_told_by_totals command 3 (.code 0)).2.1 _ _ _ "gone" [.err []] merges

end Process

end LintBridge

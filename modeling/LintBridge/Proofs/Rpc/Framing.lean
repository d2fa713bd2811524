import LintBridge.Proofs.Json.ReadBack
import LintBridge.Proofs.Rpc.Reading
import LintBridge.Rpc.Message
import Mathlib.Data.List.Forall2

namespace LintBridge

namespace Frame

/-- The bytes of a value. -/
def body (value : Json) : Bytes := utf8Chars value.compactChars

section Header

theorem cutLine_append {line : Bytes} (inside : ∀ b ∈ line, b ≠ lineFeed) (rest : Bytes) :
    cutLine (line ++ lineFeed :: rest) = some (line, rest) := by
  induction line with
  | nil => rw [List.nil_append, cutLine, if_pos rfl]
  | cons b line ih =>
    have other := inside b List.mem_cons_self
    have later := ih fun c member => inside c (List.mem_cons_of_mem b member)
    rw [List.cons_append, cutLine, if_neg other, later, Option.map_some]

/-- The name of the header that tells a length. -/
def lengthName : List Char :=
  ['C', 'o', 'n', 't', 'e', 'n', 't', '-', 'L', 'e', 'n', 'g', 't', 'h']

/-- The line that tells a length, up to the mark before its end. -/
def lengthLine (n : Nat) : List Char := lengthName ++ ':' :: ' ' :: Nat.toDigits 10 n

theorem utf8Char_lineFeed : utf8Char '\n' = [lineFeed] := utf8Char_of_ascii (by decide)

theorem utf8_header (n : Nat) : utf8 ("Content-Length: " ++ toString n ++ "\r\n\r\n") =
    utf8Chars (lengthLine n ++ ['\r']) ++ lineFeed :: (utf8Chars ['\r'] ++ [lineFeed]) := by
  have name : "Content-Length: ".toList = lengthName ++ [':', ' '] := rfl
  have digits : (toString n).toList = Nat.toDigits 10 n := by
    rw [Nat.toString_eq_repr, Nat.toList_repr]
  have ends : "\r\n\r\n".toList = ['\r'] ++ ('\n' :: (['\r'] ++ ['\n'])) := rfl
  have line : lengthName ++ [':', ' '] ++ Nat.toDigits 10 n ++ ['\r'] = lengthLine n ++ ['\r'] := by
    simp only [lengthLine, List.append_assoc, List.cons_append, List.nil_append]
  rw [utf8, String.toList_append, String.toList_append, name, digits, ends, ← List.append_assoc,
    line, utf8Chars_append, utf8Chars_cons, utf8Chars_append ['\r'], utf8Char_lineFeed,
    show utf8Chars ['\n'] = [lineFeed] from utf8Char_lineFeed]
  rfl

theorem write_eq (value : Json) : write value =
    utf8Chars (lengthLine (body value).length ++ ['\r']) ++ lineFeed ::
      (utf8Chars ['\r'] ++ lineFeed :: body value) := by
  have header := utf8_header (body value).length
  rw [body] at header
  rw [write, body, header]
  simp only [List.append_assoc, List.cons_append, List.nil_append]

theorem ascii_of_mem_lengthLine {n : Nat} {c : Char} (member : c ∈ lengthLine n ++ ['\r']) :
    c.toNat < 0x80 ∧ c ≠ '\n' := by
  have names : lengthName.all fun d => decide (d.toNat < 0x80 ∧ d ≠ '\n') := by decide
  simp only [lengthLine, List.mem_append, List.mem_cons, List.not_mem_nil, or_false] at member
  rcases member with (name | rfl | rfl | digit) | rfl
  · exact of_decide_eq_true (List.all_eq_true.mp names c name)
  · decide
  · decide
  · have range := toNat_of_isAsciiDigit (isAsciiDigit_of_mem digit)
    refine ⟨by omega, ?_⟩
    rintro rfl
    exact absurd range (by decide)
  · decide

theorem ne_lineFeed_of_mem {cs : List Char} (each : ∀ c ∈ cs, c.toNat < 0x80 ∧ c ≠ '\n')
    {b : UInt8} (member : b ∈ utf8Chars cs) : b ≠ lineFeed := by
  rw [utf8Chars, List.mem_flatMap] at member
  obtain ⟨c, inside, byte⟩ := member
  obtain ⟨ascii, other⟩ := each c inside
  rw [utf8Char_of_ascii ascii, List.mem_singleton] at byte
  intro same
  have value := toNat_toUInt8 (n := c.toNat) (by omega)
  rw [← byte, same] at value
  exact other (Char.toNat_inj.mp value.symm)

theorem isBlank_of_isAsciiDigit {c : Char} (digit : isAsciiDigit c = true) : isBlank c = false := by
  have range := toNat_of_isAsciiDigit digit
  simp only [isBlank, Bool.or_eq_false_iff, Bool.and_eq_false_iff, decide_eq_false_iff_not,
    beq_eq_false_iff_ne]
  omega

theorem trimEndChars_toDigits (front : List Char) (n : Nat) :
    trimEndChars (front ++ Nat.toDigits 10 n) = front ++ Nat.toDigits 10 n := by
  have last := List.getLast_mem (Nat.toDigits_ne_nil (n := n) (b := 10))
  have shown := isBlank_of_isAsciiDigit (isAsciiDigit_of_mem last)
  rw [← List.dropLast_concat_getLast (Nat.toDigits_ne_nil (n := n) (b := 10)), ← List.append_assoc,
    trimEndChars_of_last shown]

theorem trimChars_lengthLine (n : Nat) : trimChars (lengthLine n ++ ['\r']) = lengthLine n := by
  have start : trimStartChars (lengthLine n ++ ['\r']) = lengthLine n ++ ['\r'] :=
    trimStartChars_of_head (by decide)
  have mark : trimEndChars (lengthLine n ++ ['\r']) = trimEndChars (lengthLine n) := by
    rw [trimEndChars, List.reverse_append]
    rfl
  have line : lengthLine n = (lengthName ++ [':', ' ']) ++ Nat.toDigits 10 n := by
    simp only [lengthLine, List.append_assoc, List.cons_append, List.nil_append]
  rw [trimChars, start, mark, line, trimEndChars_toDigits]

theorem lengthOf_lengthLine {n : Nat} (small : n ≤ 0xffffffffffffffff) :
    lengthOf (lengthLine n) = .ok (some n) := by
  have name : (lengthLine n).takeWhile (· != ':') = lengthName := rfl
  have value : (lengthLine n).dropWhile (· != ':') = ':' :: ' ' :: Nat.toDigits 10 n := rfl
  have trimmed : trimChars (' ' :: Nat.toDigits 10 n) = Nat.toDigits 10 n := by
    obtain ⟨c, cs, written, digit⟩ := toDigits_eq_cons n
    have start : trimStartChars (' ' :: Nat.toDigits 10 n) = Nat.toDigits 10 n := by
      rw [trimStartChars, List.dropWhile_cons, if_pos (by decide), written]
      exact trimStartChars_of_head (isBlank_of_isAsciiDigit digit)
    rw [trimChars, start]
    exact trimEndChars_toDigits [] n
  have same : eqIgnoringAsciiCase (String.ofList (trimChars lengthName)) "Content-Length" = true :=
    by decide
  simp only [lengthOf, name, value, trimmed, same, if_true, unsigned64?_toDigits small]

theorem lineMeaning_lengthLine {n : Nat} (small : n ≤ 0xffffffffffffffff) :
    lineMeaning none (utf8Chars (lengthLine n ++ ['\r'])) = .length (some n) := by
  simp only [lineMeaning, utf8Chars?_utf8Chars, trimChars_lengthLine, lengthOf_lengthLine small]
  rfl

theorem lineMeaning_mark (n : Nat) : lineMeaning (some n) (utf8Chars ['\r']) = .blank := by
  simp only [lineMeaning, utf8Chars?_utf8Chars]
  rfl

/-- The header of a written frame tells the length of its body, and ends where the body begins. -/
theorem header_write (closed : Bool) {value : Json} (rest : Bytes)
    (small : (body value).length ≤ 0xffffffffffffffff) :
    header closed false none (write value ++ rest) =
      .complete (body value).length (body value ++ rest) := by
  have first := cutLine_append
    (fun b => ne_lineFeed_of_mem (fun c => ascii_of_mem_lengthLine (n := (body value).length)))
    (utf8Chars ['\r'] ++ lineFeed :: (body value ++ rest))
  have mark : ∀ c ∈ ['\r'], c.toNat < 0x80 ∧ c ≠ '\n' :=
    List.forall_mem_singleton.mpr ⟨by decide, by decide⟩
  have second := cutLine_append (fun b => ne_lineFeed_of_mem (b := b) mark) (body value ++ rest)
  rw [write_eq, List.append_assoc, List.cons_append, List.append_assoc, List.cons_append,
    header_of_cutLine first]
  simp only [lineMeaning_lengthLine small]
  rw [header_of_cutLine second]
  simp only [lineMeaning_mark, finishHeader]

end Header

/-- A value fits when it is plain and its bytes stay within the limit of a frame. -/
def Fits (value : Json) : Prop :=
  value.Plain Document.maxDepth ∧ (body value).length ≤ defaultLimit

theorem decodeBody_body {value : Json} (plain : value.Plain Document.maxDepth) :
    decodeBody (body value) = some value := by
  rw [decodeBody, body, utf8Text?_utf8Chars, Option.bind_some, Json.read?_compactChars plain]

/-- The frame in front is the one written there, and the bytes behind it are left. -/
theorem next_write (closed : Bool) {value : Json} (fits : Fits value) (rest : Bytes) :
    next defaultLimit closed (write value ++ rest) = .frame value rest := by
  obtain ⟨plain, short⟩ := fits
  have small : defaultLimit ≤ 0xffffffffffffffff := by decide
  have whole : ¬ (body value ++ rest).length < (body value).length := by
    rw [List.length_append]
    omega
  simp only [next, header_write closed rest (Nat.le_trans short small),
    if_neg (Nat.not_lt.mpr short), if_neg whole, List.take_left, List.drop_left,
    decodeBody_body plain]

theorem reads_writeAll (closed : Bool) {values : List Json} (fits : ∀ v ∈ values, Fits v)
    (rest : Bytes) : Reads defaultLimit closed (writeAll values ++ rest) values rest := by
  induction values with
  | nil => exact .done rest
  | cons v vs ih =>
    have first := next_write closed (fits v List.mem_cons_self) (writeAll vs ++ rest)
    have others := ih fun w member => fits w (List.mem_cons_of_mem v member)
    rw [← List.append_assoc] at first
    exact .frame first others

end Frame

namespace Rpc

/-- What a message is built from. -/
inductive Message where
  | request (id : Nat) (method : String) (params : Json)
  | notification (method : String) (params : Json)
  | response (id : Nat) (result : Json)
  | error (id : Nat) (code : Int) (text : String)

namespace Message

/-- The frame of a message. -/
def frame : Message → Json
  | request id method params => Rpc.request id method params
  | notification method params => Rpc.notification method params
  | response id result => Rpc.response (.nat id) result
  | error id code text => Rpc.errorResponse (.nat id) code text

/-- An incoming frame says a message when all the message was built from can be told from it. -/
inductive SaidBy : Message → Incoming → Prop
  | request {id : Nat} {method : String} {params : Json} :
      SaidBy (.request id method params) (.request (.nat id) method params)
  | notification {method : String} {params : Json} :
      SaidBy (.notification method params) (.notification method params)
  | response {id : Nat} {result body : Json} :
      body.field? "result" = some result → (body.field? "error").isNone →
      SaidBy (.response id result) (.response id body)
  | error {id : Nat} {code : Int} {text : String} {body reason : Json} :
      (body.field? "result").isNone → body.field? "error" = some reason →
      reason.field? "code" = some (.int code) → reason.field? "message" = some (.str text) →
      SaidBy (.error id code text) (.response id body)

/-- A message is told apart as what it is, and nothing it was built from is lost. -/
theorem saidBy_frame (m : Message) : ∃ said, Incoming.ofFrame? m.frame = some said ∧
    m.SaidBy said := by
  cases m with
  | request id method params =>
    refine ⟨_, ?_, .request⟩
    simp [frame, Rpc.request, Incoming.ofFrame?, Json.field?_object, Json.text?]
  | notification method params =>
    refine ⟨_, ?_, .notification⟩
    simp [frame, Rpc.notification, Incoming.ofFrame?, Json.field?_object, Json.text?]
  | response id result =>
    refine ⟨.response id (Rpc.response (.nat id) result), ?_, .response ?_ ?_⟩
    · simp [frame, Rpc.response, Incoming.ofFrame?, Json.field?_object, Json.natural?, Json.nat]
    · simp [Rpc.response, Json.field?_object]
    · simp [Rpc.response, Json.field?_object]
  | error id code text =>
    have reason : (Rpc.errorResponse (.nat id) code text).field? "error" =
        some (Json.object [("code", .int code), ("message", .str text)]) := by
      simp [Rpc.errorResponse, Json.field?_object]
    refine ⟨.response id (Rpc.errorResponse (.nat id) code text), ?_, .error ?_ reason ?_ ?_⟩
    · simp [frame, Rpc.errorResponse, Incoming.ofFrame?, Json.field?_object, Json.natural?,
        Json.nat]
    · simp [Rpc.errorResponse, Json.field?_object]
    · simp [Json.field?_object]
    · simp [Json.field?_object]

/-- A message is plain when its numbers are of 64 bits and its frame does not nest too deep. -/
inductive Plain : Message → Prop
  | request {id : Nat} {params : Json} (method : String) : id ≤ 0xffffffffffffffff →
      params.Plain 126 → Plain (.request id method params)
  | notification {params : Json} (method : String) : params.Plain 126 →
      Plain (.notification method params)
  | response {id : Nat} {result : Json} : id ≤ 0xffffffffffffffff → result.Plain 126 →
      Plain (.response id result)
  | error {id : Nat} {code : Int} (text : String) : id ≤ 0xffffffffffffffff →
      -0x8000000000000000 ≤ code → code ≤ 0x7fffffffffffffff → Plain (.error id code text)

theorem plain_nat {depth n : Nat} (small : n ≤ 0xffffffffffffffff) : (Json.nat n).Plain depth :=
  .int (by omega) (by omega)

theorem plain_frame {m : Message} (plain : m.Plain) : m.frame.Plain Document.maxDepth := by
  cases plain with
  | request method small params =>
    refine Json.plain_fields fun f member => ?_
    simp only [List.mem_cons, List.not_mem_nil, or_false] at member
    rcases member with rfl | rfl | rfl | rfl
    exacts [.str _, plain_nat small, .str _, params]
  | notification method params =>
    refine Json.plain_fields fun f member => ?_
    simp only [List.mem_cons, List.not_mem_nil, or_false] at member
    rcases member with rfl | rfl | rfl
    exacts [.str _, .str _, params]
  | response small result =>
    refine Json.plain_fields fun f member => ?_
    simp only [List.mem_cons, List.not_mem_nil, or_false] at member
    rcases member with rfl | rfl | rfl
    exacts [.str _, plain_nat small, result]
  | @error _ code text small low high =>
    have reason : ∀ f ∈ [("code", Json.int code), ("message", .str text)], f.2.Plain 125 := by
      intro f member
      simp only [List.mem_cons, List.not_mem_nil, or_false] at member
      rcases member with rfl | rfl
      exacts [.int low (by omega), .str _]
    refine Json.plain_fields fun f member => ?_
    simp only [List.mem_cons, List.not_mem_nil, or_false] at member
    rcases member with rfl | rfl | rfl
    exacts [.str _, plain_nat small, .object reason]

end Message

end Rpc

/-- Frames that were written read back as their values, in order, and leave exactly the bytes
behind them. A frame that was built as a message is told apart as that message. -/
theorem Frame.written_frames_read_back (closed : Bool) (rest : Bytes) :
    (∀ values : List Json, (∀ v ∈ values, Fits v) →
      Reads defaultLimit closed (writeAll values ++ rest) values rest) ∧
    (∀ m : Rpc.Message, ∃ said, Incoming.ofFrame? m.frame = some said ∧ m.SaidBy said) ∧
    ∀ messages : List Rpc.Message,
      (∀ m ∈ messages, m.Plain ∧ (body m.frame).length ≤ defaultLimit) →
      ∃ frames, Reads defaultLimit closed
          (writeAll (messages.map Rpc.Message.frame) ++ rest) frames rest ∧
        List.Forall₂ (fun m v => ∃ said, Incoming.ofFrame? v = some said ∧ m.SaidBy said)
          messages frames := by
  refine ⟨fun values fits => reads_writeAll closed fits rest, Rpc.Message.saidBy_frame, ?_⟩
  intro messages fits
  have each : ∀ v ∈ messages.map Rpc.Message.frame, Fits v := by
    intro v member
    obtain ⟨m, inside, rfl⟩ := List.mem_map.mp member
    obtain ⟨plain, short⟩ := fits m inside
    exact ⟨m.plain_frame plain, short⟩
  refine ⟨_, reads_writeAll closed each rest, ?_⟩
  rw [List.forall₂_map_right_iff]
  exact List.forall₂_same.mpr fun m _ => m.saidBy_frame

/-- A body is as long as its bytes, not as its characters. -/
theorem Frame.accents_read_back :
    let value := Json.object [("text", .str "né"), ("n", .int (-1))]
    let m := Rpc.Message.request 7 "é" .null
    Reads defaultLimit false (writeAll [value, .arr [value]] ++ [0x43]) [value, .arr [value]]
        [0x43] ∧
      ∃ frames, Reads defaultLimit true (writeAll [m.frame] ++ [0x43]) frames [0x43] ∧
        List.Forall₂ (fun m v => ∃ said, Incoming.ofFrame? v = some said ∧ m.SaidBy said)
          [m] frames := by
  intro value m
  have inner (depth : Nat) : value.Plain (depth + 1) := by
    refine Json.Plain.object fun f member => ?_
    simp only [List.mem_cons, List.not_mem_nil, or_false] at member
    rcases member with rfl | rfl
    exacts [.str _, .int (by omega) (by omega)]
  have outer : (Json.arr [value]).Plain Document.maxDepth := by
    refine .arr fun v member => ?_
    rw [List.mem_singleton.mp member]
    exact inner 125
  have message : m.Plain := .request "é" (by omega) .null
  have values : ∀ v ∈ [value, .arr [value]], Fits v := by
    simp only [List.mem_cons, List.not_mem_nil, or_false]
    rintro v (rfl | rfl)
    · exact ⟨inner 126, by decide⟩
    · exact ⟨outer, by decide⟩
  refine ⟨(written_frames_read_back false [0x43]).1 _ values,
    (written_frames_read_back true [0x43]).2.2 [m] fun n member => ?_⟩
  rw [List.mem_singleton.mp member]
  exact ⟨message, by decide⟩

end LintBridge

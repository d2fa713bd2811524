import LintBridge.Json.Reader
import LintBridge.Json.Writer
import LintBridge.Text.Blank
import LintBridge.Text.Utf8

namespace LintBridge

inductive FrameError where
  | headerText
  | endInHeader
  | badLength (text : String)
  | noLength
  | tooLong (length limit : Nat)
  | shortBody
  | badBody

namespace FrameError

def message : FrameError → String
  | headerText => "reading frame header"
  | endInHeader => "stream ended inside frame headers"
  | badLength text => "invalid Content-Length `" ++ text ++ "`"
  | noLength => "frame has no Content-Length header"
  | tooLong length limit =>
    "frame of " ++ toString length ++ " bytes exceeds limit of " ++ toString limit
  | shortBody => "reading frame body"
  | badBody => "decoding frame body"

/-- Why a text is no length. -/
def lengthReason (text : String) : String :=
  let digits := match text.toList with
    | '+' :: rest => rest
    | cs => cs
  if text.isEmpty then "cannot parse integer from empty string"
  else if digits.isEmpty || !digits.all isAsciiDigit then "invalid digit found in string"
  else "number too large to fit in target type"

def causes : FrameError → List String
  | headerText => ["stream did not contain valid UTF-8"]
  | badLength text => [lengthReason text]
  | shortBody => ["early eof"]
  | _ => []

end FrameError

namespace Frame

/-- The longest body that is read where nothing else is said. -/
def defaultLimit : Nat := 16 * 1024 * 1024

def lineFeed : UInt8 := 0x0a

/-- What a header line says about the length: nothing, a length, or no number. -/
def lengthOf (line : List Char) : Except FrameError (Option Nat) :=
  match line.dropWhile (· != ':') with
  | _ :: value =>
    let name := String.ofList (trimChars (line.takeWhile (· != ':')))
    if eqIgnoringAsciiCase name "Content-Length" then
      let text := String.ofList (trimChars value)
      match unsigned64? text with
      | some n => .ok (some n)
      | none => .error (.badLength text)
    else .ok none
  | [] => .ok none

inductive Header where
  /-- The bytes end before the header does. -/
  | unfinished
  /-- No byte is left and no header has begun. -/
  | ended
  | failed (e : FrameError)
  /-- The length of a body and the bytes behind the header. -/
  | complete (length : Nat) (rest : Bytes)

/-- A line of bytes without its end, and what follows. -/
def cutLine : Bytes → Option (Bytes × Bytes)
  | [] => none
  | b :: rest =>
    if b = lineFeed then some ([], rest)
    else (cutLine rest).map fun (line, rest) => (b :: line, rest)

theorem cutLine_length {bs line rest : Bytes} (h : cutLine bs = some (line, rest)) :
    rest.length < bs.length := by
  induction bs generalizing line rest with
  | nil => simp [cutLine] at h
  | cons b bs ih =>
    unfold cutLine at h
    split at h
    · simp only [Option.some.injEq, Prod.mk.injEq] at h
      simp [← h.2]
    · simp only [Option.map_eq_some_iff] at h
      obtain ⟨⟨line', rest'⟩, found, same⟩ := h
      simp only [Prod.mk.injEq] at same
      have shorter := ih found
      simp only [List.length_cons, ← same.2]
      omega

/-- What one header line does to the length found so far. -/
inductive LineMeaning where
  | blank
  | length (found : Option Nat)
  | failed (e : FrameError)

def lineMeaning (found : Option Nat) (line : Bytes) : LineMeaning :=
  match utf8Chars? line with
  | none => .failed .headerText
  | some cs =>
    let cs := trimChars cs
    if cs.isEmpty then .blank
    else
      match lengthOf cs with
      | .ok (some n) => .length (some n)
      | .ok none => .length found
      | .error e => .failed e

/-- The end of a header: a length has to be known. -/
def finishHeader (found : Option Nat) (rest : Bytes) : Header :=
  match found with
  | some n => .complete n rest
  | none => .failed .noLength

/-- The header in front. `closed` says that no byte will follow, `started` that lines of this
header have been read and `found` what they say about the length. -/
def header (closed : Bool) (started : Bool) (found : Option Nat) (bs : Bytes) : Header :=
  match _h : cutLine bs with
  | some (line, rest) =>
    match lineMeaning found line with
    | .blank => finishHeader found rest
    | .length found => header closed true found rest
    | .failed e => .failed e
  | none =>
    if !closed then .unfinished
    else if bs.isEmpty then (if started then .failed .endInHeader else .ended)
    else
      match lineMeaning found bs with
      | .blank => finishHeader found []
      | .length _ => .failed .endInHeader
      | .failed e => .failed e
termination_by bs.length
decreasing_by exact cutLine_length _h

inductive Next where
  /-- More bytes are needed. -/
  | unfinished
  /-- The bytes end between frames. -/
  | ended
  | failed (e : FrameError)
  | frame (value : Json) (rest : Bytes)

def decodeBody (body : Bytes) : Option Json := (utf8Text? body).bind Json.read?

def next (limit : Nat) (closed : Bool) (bs : Bytes) : Next :=
  match header closed false none bs with
  | .unfinished => .unfinished
  | .ended => .ended
  | .failed e => .failed e
  | .complete length rest =>
    if limit < length then .failed (.tooLong length limit)
    else if rest.length < length then (if closed then .failed .shortBody else .unfinished)
    else
      match decodeBody (rest.take length) with
      | some value => .frame value (rest.drop length)
      | none => .failed .badBody

/-- Frames from the front of finished bytes, at most so many, and why reading ended. -/
def readSome (limit : Nat) : Nat → Bytes → List Json × Option FrameError
  | 0, _ => ([], none)
  | fuel + 1, bs =>
    match next limit true bs with
    | .frame value rest =>
      let (values, ending) := readSome limit fuel rest
      (value :: values, ending)
    | .failed e => ([], some e)
    | .ended => ([], none)
    | .unfinished => ([], none)

/-- All frames of finished bytes, and the error that ended them, if one did. -/
def readAll (limit : Nat) (bs : Bytes) : List Json × Option FrameError :=
  readSome limit (bs.length + 1) bs

def write (value : Json) : Bytes :=
  let body := utf8Chars value.compactChars
  utf8 ("Content-Length: " ++ toString body.length ++ "\r\n\r\n") ++ body

def writeAll (values : List Json) : Bytes := values.flatMap write

end Frame

end LintBridge

import LintBridge.Json.Document
import LintBridge.Text.Ascii

namespace LintBridge

/-- The significant characters of a number, as written. -/
structure NumberText where
  negative : Bool
  whole : List Nat
  fraction : Option (List Nat)
  exponent : Option (Bool × List Nat)

namespace NumberText

/-- The digits of a decimal significand as far as they fit into 64 bits, and the others. -/
def fitting : Nat → List Nat → Nat × List Nat
  | m, [] => (m, [])
  | m, d :: ds =>
    if m * 10 + d ≤ 0xffffffffffffffff then fitting (m * 10 + d) ds else (m, d :: ds)

/-- The largest power of ten that is a double. -/
def maxPower : Nat := 308

/-- A magnitude times or over the double nearest to a power of ten. -/
def scaled? (up : Bool) (magnitude power : Nat) : Option Nat := do
  let (n, d) := Binary64.quotient magnitude
  let (p, q) := Binary64.quotient (← Binary64.nearest? (Nat.pow 10 power) 1)
  if up then Binary64.nearest? (n * p) (d * q) else Binary64.nearest? (n * q) (d * p)

/-- Bring a magnitude down by powers of ten, at most `maxPower` at a time. -/
def scaleDown? : Nat → Nat → Nat → Option Nat
  | 0, magnitude, _ => some magnitude
  | fuel + 1, magnitude, power =>
    if power ≤ maxPower then scaled? false magnitude power
    else if magnitude = 0 then some 0
    else do scaleDown? fuel (← scaled? false magnitude maxPower) (power - maxPower)

/-- The double for `significand · 10^exponent`: the rounded significand times or over a
rounded power of ten. None when it is too large. -/
def double? (negative : Bool) (significand : Nat) (exponent : Int) : Option Number := do
  let start ← Binary64.nearest? significand 1
  let magnitude ←
    if 0 ≤ exponent then
      if exponent.toNat ≤ maxPower then scaled? true start exponent.toNat
      else if start = 0 then some 0
      else none
    else scaleDown? 8 start (-exponent).toNat
  pure (.float ⟨negative, magnitude⟩)

/-- The value of a number, if it is not too large. A significand keeps the leading digits
that fit into 64 bits; the whole ones beyond count as zeros, the decimals beyond as nothing. -/
def value? (t : NumberText) : Option Number :=
  let (m, lost) := fitting 0 t.whole
  if t.fraction.isNone ∧ t.exponent.isNone ∧ lost.isEmpty then
    if t.negative then
      if m = 0 then some (.float ⟨true, 0⟩)
      else if m ≤ 0x8000000000000000 then some (.int (-(m : Int)))
      else (Binary64.nearest? m 1).map fun b => .float ⟨true, b⟩
    else some (.int m)
  else
    let decimals := t.fraction.getD []
    let (m, unused) := fitting m decimals
    let base : Int := (lost.length : Int) - ((decimals.length : Int) - unused.length)
    match t.exponent with
    | none => double? t.negative m base
    | some (down, ds) =>
      let e := digitsValue 10 ds
      if e < 0x80000000 then
        let target := if down then base - e else base + e
        double? t.negative m (max (-0x80000000) (min 0x7fffffff target))
      else if m ≠ 0 ∧ !down then none
      else some (.float ⟨t.negative, 0⟩)

end NumberText

namespace Document

/-- One unit of a quoted text: a character, or a number given by a `u` escape. -/
inductive Unit16 where
  | char (c : Char)
  | code (n : Nat)

/-- Join escaped surrogate pairs; none if a surrogate has no partner. -/
def joinUnits : List Unit16 → Option (List Char)
  | [] => some []
  | .char c :: rest => (joinUnits rest).map (c :: ·)
  | .code hi :: .code lo :: rest =>
    if 0xd800 ≤ hi ∧ hi < 0xdc00 then
      if 0xdc00 ≤ lo ∧ lo < 0xe000 then
        (joinUnits rest).map (Char.ofNat (0x10000 + (hi - 0xd800) * 0x400 + (lo - 0xdc00)) :: ·)
      else none
    else if 0xdc00 ≤ hi ∧ hi < 0xe000 then none
    else (joinUnits (.code lo :: rest)).map (Char.ofNat hi :: ·)
  | .code n :: rest =>
    if 0xd800 ≤ n ∧ n < 0xe000 then none else (joinUnits rest).map (Char.ofNat n :: ·)

/-- The character that a short escape stands for. -/
def shortEscape? : Char → Option Char
  | '"' => some '"'
  | '\\' => some '\\'
  | '/' => some '/'
  | 'b' => some '\x08'
  | 'f' => some '\x0c'
  | 'n' => some '\n'
  | 'r' => some '\r'
  | 't' => some '\t'
  | _ => none

def hexQuad? (a b c d : Char) : Option Nat := do
  pure (digitsValue 16 [← hexValue? a, ← hexValue? b, ← hexValue? c, ← hexValue? d])

/-- The units of a quoted text up to its closing quote, and the rest. -/
def quoted : List Char → Option (List Unit16 × List Char)
  | [] => none
  | '"' :: rest => some ([], rest)
  | '\\' :: 'u' :: a :: b :: c :: d :: rest => do
    let n ← hexQuad? a b c d
    let (units, rest) ← quoted rest
    pure (.code n :: units, rest)
  | '\\' :: e :: rest => do
    let c ← shortEscape? e
    let (units, rest) ← quoted rest
    pure (.char c :: units, rest)
  | c :: rest =>
    if c.toNat < 0x20 ∨ c = '\\' then none
    else do
      let (units, rest) ← quoted rest
      pure (.char c :: units, rest)

/-- A quoted text after its opening quote. -/
def quotedText (cs : List Char) : Option (Option String × List Char) :=
  (quoted cs).map fun (units, rest) => ((joinUnits units).map String.ofList, rest)

/-- The blanks that JSON allows between tokens. -/
def isJsonBlank (c : Char) : Bool := c == ' ' || c == '\n' || c == '\t' || c == '\r'

def skip (cs : List Char) : List Char := cs.dropWhile isJsonBlank

def digits (cs : List Char) : List Nat × List Char :=
  ((cs.takeWhile isAsciiDigit).map fun c => c.toNat - 48, cs.dropWhile isAsciiDigit)

/-- A number after its sign. -/
def unsignedNumber (negative : Bool) (cs : List Char) : Option (NumberText × List Char) := do
  let (whole, rest) := digits cs
  if whole.isEmpty ∨ (whole.head? = some 0 ∧ whole.length ≠ 1) then none
  else
    let (fraction, rest) ← match rest with
      | '.' :: more =>
        let (ds, rest) := digits more
        if ds.isEmpty then none else some (some ds, rest)
      | _ => some (none, rest)
    let (exponent, rest) ← match rest with
      | e :: more =>
        if e = 'e' ∨ e = 'E' then
          let (down, more) := match more with
            | '-' :: m => (true, m)
            | '+' :: m => (false, m)
            | m => (false, m)
          let (ds, rest) := digits more
          if ds.isEmpty then none else some (some (down, ds), rest)
        else some (none, rest)
      | [] => some (none, rest)
    pure (⟨negative, whole, fraction, exponent⟩, rest)

def number : List Char → Option (NumberText × List Char)
  | '-' :: rest => unsignedNumber true rest
  | cs => unsignedNumber false cs

mutual
/-- One value, blanks in front skipped, and what follows it. -/
def value : Nat → List Char → Option (Document × List Char)
  | 0, _ => none
  | fuel + 1, cs =>
    match skip cs with
    | 'n' :: 'u' :: 'l' :: 'l' :: rest => some (.null, rest)
    | 't' :: 'r' :: 'u' :: 'e' :: rest => some (.bool true, rest)
    | 'f' :: 'a' :: 'l' :: 's' :: 'e' :: rest => some (.bool false, rest)
    | '"' :: rest => (quotedText rest).map fun (s, rest) => (.str s, rest)
    | '[' :: rest =>
      match skip rest with
      | ']' :: rest => some (.arr [], rest)
      | rest => (items fuel rest).map fun (ds, rest) => (.arr ds, rest)
    | '{' :: rest =>
      match skip rest with
      | '}' :: rest => some (.obj [], rest)
      | rest => (fields fuel rest).map fun (fs, rest) => (.obj fs, rest)
    | rest => (number rest).map fun (t, rest) => (.num t.value?, rest)

/-- The items of an array, at least one, up to its closing bracket. -/
def items : Nat → List Char → Option (List Document × List Char)
  | 0, _ => none
  | fuel + 1, cs => do
    let (d, rest) ← value fuel cs
    match skip rest with
    | ']' :: rest => some ([d], rest)
    | ',' :: rest => do
      let (ds, rest) ← items fuel rest
      pure (d :: ds, rest)
    | _ => none

/-- The fields of an object, at least one, up to its closing brace. -/
def fields : Nat → List Char → Option (List (Option String × Document) × List Char)
  | 0, _ => none
  | fuel + 1, cs =>
    match skip cs with
    | '"' :: rest => do
      let (name, rest) ← quotedText rest
      match skip rest with
      | ':' :: rest => do
        let (d, rest) ← value fuel rest
        match skip rest with
        | '}' :: rest => some ([(name, d)], rest)
        | ',' :: rest => do
          let (fs, rest) ← fields fuel rest
          pure ((name, d) :: fs, rest)
        | _ => none
      | _ => none
    | _ => none
end

def readChars? (cs : List Char) : Option Document := do
  let (d, rest) ← value (cs.length + 1) cs
  if (skip rest).isEmpty then some d else none

def read? (s : String) : Option Document := readChars? s.toList

end Document

def Json.read? (s : String) : Option Json :=
  (Document.read? s).bind (Document.value? Document.maxDepth)

end LintBridge

import LintBridge.Toml.Basic
import LintBridge.Text.Ascii

namespace LintBridge

namespace Toml

/-- Digits of a base with single underscores between them, as a number. -/
def digitsWith? (base : Nat) (cs : List Char) : Option Nat :=
  let rec go : Bool → Nat → List Char → Option Nat
    | open_, n, [] => if open_ then none else some n
    | open_, n, c :: rest =>
      if c = '_' then (if open_ then none else go true n rest)
      else
        match hexValue? c with
        | some d => if d < base then go false (n * base + d) rest else none
        | none => none
  go true 0 cs

/-- A decimal without a needless zero in front. -/
def plainDecimal? (cs : List Char) : Option Nat :=
  match cs with
  | '0' :: _ :: _ => none
  | cs => digitsWith? 10 cs

/-- A sign and what follows it. -/
def signed (cs : List Char) : Option Bool × List Char :=
  match cs with
  | '+' :: rest => (some false, rest)
  | '-' :: rest => (some true, rest)
  | cs => (none, cs)

def integer? (cs : List Char) : Option Int :=
  match cs with
  | '0' :: 'x' :: rest => (digitsWith? 16 rest).map Int.ofNat
  | '0' :: 'o' :: rest => (digitsWith? 8 rest).map Int.ofNat
  | '0' :: 'b' :: rest => (digitsWith? 2 rest).map Int.ofNat
  | cs =>
    let (sign, rest) := signed cs
    (plainDecimal? rest).map fun n => if sign = some true then -(n : Int) else n

def isExponent (cs : List Char) : Bool := (digitsWith? 10 (signed cs).2).isSome

def isFloat (cs : List Char) : Bool :=
  let body := (signed cs).2
  if body == "inf".toList || body == "nan".toList then true
  else
    let isMark (c : Char) : Bool := c == 'e' || c == 'E'
    let mantissa := body.takeWhile fun c => !isMark c
    let exponent := body.dropWhile fun c => !isMark c
    let exponentFits := match exponent with
      | [] => true
      | _ :: e => isExponent e
    match mantissa.dropWhile (· != '.') with
    | _ :: decimals =>
      exponentFits && (plainDecimal? (mantissa.takeWhile (· != '.'))).isSome &&
        (digitsWith? 10 decimals).isSome
    | [] => !exponent.isEmpty && exponentFits && (plainDecimal? mantissa).isSome

/-- A number of so many digits in front, within bounds. -/
def field? (size least most : Nat) (cs : List Char) : Option (List Char) := do
  let n ← decimal? (cs.take size)
  if (cs.take size).length = size ∧ least ≤ n ∧ n ≤ most then some (cs.drop size) else none

def dateField? (cs : List Char) : Option (List Char) := do
  let rest ← field? 4 0 9999 cs
  let rest ← if rest.head? = some '-' then field? 2 1 12 rest.tail else none
  if rest.head? = some '-' then field? 2 1 31 rest.tail else none

/-- A time in front. Seconds and their decimals may be left out. -/
def timeField? (cs : List Char) : Option (List Char) := do
  let rest ← field? 2 0 23 cs
  let rest ← if rest.head? = some ':' then field? 2 0 59 rest.tail else none
  match rest with
  | ':' :: more =>
    let rest ← field? 2 0 60 more
    match rest with
    | '.' :: decimals =>
      if (decimals.head?.map isAsciiDigit).getD false then some (decimals.dropWhile isAsciiDigit)
      else none
    | rest => some rest
  | rest => some rest

/-- Whether a text is an offset from universal time, or nothing. -/
def isOffset (cs : List Char) : Bool :=
  match cs with
  | [] => true
  | [c] => c == 'Z' || c == 'z'
  | c :: rest =>
    if c == '+' || c == '-' then
      match field? 2 0 23 rest with
      | some (':' :: more) => field? 2 0 59 more == some []
      | _ => false
    else false

/-- Whether a text is a date, a time, or both. -/
def isDate (cs : List Char) : Bool :=
  match dateField? cs with
  | some [] => true
  | some (c :: rest) =>
    (c == 'T' || c == 't' || c == ' ') && ((timeField? rest).map isOffset).getD false
  | none => timeField? cs == some []

def scalar? (cs : List Char) : Option Toml :=
  if cs == "true".toList then some (.boolean true)
  else if cs == "false".toList then some (.boolean false)
  else
    match integer? cs with
    | some i => some (.integer i)
    | none => if isFloat cs then some .float else if isDate cs then some .date else none

end Toml

end LintBridge

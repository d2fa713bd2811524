namespace LintBridge

/-- The lower-case form of A to Z; every other character is kept. -/
def lowerAscii (c : Char) : Char :=
  if 'A' ≤ c ∧ c ≤ 'Z' then Char.ofNat (c.toNat + 32) else c

def lowerAsciiText (s : String) : String := String.ofList (s.toList.map lowerAscii)

/-- Equality up to the case of A to Z. -/
def eqIgnoringAsciiCase (a b : String) : Bool :=
  a.toList.map lowerAscii == b.toList.map lowerAscii

def isAsciiLetter (c : Char) : Bool := ('a' ≤ c ∧ c ≤ 'z') ∨ ('A' ≤ c ∧ c ≤ 'Z')

def isAsciiDigit (c : Char) : Bool := '0' ≤ c ∧ c ≤ '9'

def hexValue? (c : Char) : Option Nat :=
  if '0' ≤ c ∧ c ≤ '9' then some (c.toNat - 48)
  else if 'a' ≤ c ∧ c ≤ 'f' then some (c.toNat - 87)
  else if 'A' ≤ c ∧ c ≤ 'F' then some (c.toNat - 55)
  else none

def hexDigit (n : Nat) : Char := if n < 10 then Char.ofNat (48 + n) else Char.ofNat (87 + n)

def hexDigitUpper (n : Nat) : Char := if n < 10 then Char.ofNat (48 + n) else Char.ofNat (55 + n)

/-- Digits as a number, read from the left in the given base. -/
def digitsValue (base : Nat) (ds : List Nat) : Nat := ds.foldl (fun n d => n * base + d) 0

/-- A non-empty run of decimal digits as a number; anything else is refused. -/
def decimal? (cs : List Char) : Option Nat :=
  if cs.isEmpty || !cs.all isAsciiDigit then none
  else some (digitsValue 10 (cs.map fun c => c.toNat - 48))

/-- A decimal with an optional plus sign that fits into 64 bits without a sign. -/
def unsigned64? (s : String) : Option Nat :=
  let body := match s.toList with
    | '+' :: rest => rest
    | cs => cs
  (decimal? body).filter (· ≤ 0xffffffffffffffff)

/-- A decimal with an optional sign that fits into 64 bits with a sign. -/
def signed64? (s : String) : Option Int :=
  match s.toList with
  | '-' :: rest => ((decimal? rest).filter (· ≤ 0x8000000000000000)).map fun n => -(n : Int)
  | '+' :: rest => ((decimal? rest).filter (· ≤ 0x7fffffffffffffff)).map Int.ofNat
  | cs => ((decimal? cs).filter (· ≤ 0x7fffffffffffffff)).map Int.ofNat

end LintBridge

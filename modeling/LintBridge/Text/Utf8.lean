import LintBridge.Text.Ascii

namespace LintBridge

abbrev Bytes := List UInt8

def utf8Char (c : Char) : Bytes :=
  let n := c.toNat
  if n < 0x80 then [n.toUInt8]
  else if n < 0x800 then [(0xc0 + n / 0x40).toUInt8, (0x80 + n % 0x40).toUInt8]
  else if n < 0x10000 then
    [(0xe0 + n / 0x1000).toUInt8, (0x80 + n / 0x40 % 0x40).toUInt8, (0x80 + n % 0x40).toUInt8]
  else
    [(0xf0 + n / 0x40000).toUInt8, (0x80 + n / 0x1000 % 0x40).toUInt8,
      (0x80 + n / 0x40 % 0x40).toUInt8, (0x80 + n % 0x40).toUInt8]

def utf8Chars (cs : List Char) : Bytes := cs.flatMap utf8Char

def utf8 (s : String) : Bytes := utf8Chars s.toList

/-- What stands at the front of some bytes. -/
inductive Utf8Head where
  | char (c : Char) (rest : Bytes)
  | broken (rest : Bytes)

/-- The bits that a byte after the first one carries, if it is such a byte. -/
def utf8Tail? (b : UInt8) : Option Nat :=
  if 0x80 ≤ b.toNat ∧ b.toNat ≤ 0xbf then some (b.toNat - 0x80) else none

/-- The character or ill-formed run that begins with byte `b`. -/
def utf8Head (b : UInt8) (rest : Bytes) : Utf8Head :=
  let n := b.toNat
  if n < 0x80 then .char (Char.ofNat n) rest
  else if 0xc2 ≤ n ∧ n ≤ 0xdf then
    match rest with
    | b1 :: r1 =>
      match utf8Tail? b1 with
      | some t1 => .char (Char.ofNat ((n - 0xc0) * 0x40 + t1)) r1
      | none => .broken rest
    | [] => .broken rest
  else if 0xe0 ≤ n ∧ n ≤ 0xef then
    match rest with
    | b1 :: r1 =>
      match utf8Tail? b1 with
      | some t1 =>
        if (n = 0xe0 ∧ t1 < 0x20) ∨ (n = 0xed ∧ 0x20 ≤ t1) then .broken rest
        else
          match r1 with
          | b2 :: r2 =>
            match utf8Tail? b2 with
            | some t2 => .char (Char.ofNat ((n - 0xe0) * 0x1000 + t1 * 0x40 + t2)) r2
            | none => .broken r1
          | [] => .broken r1
      | none => .broken rest
    | [] => .broken rest
  else if 0xf0 ≤ n ∧ n ≤ 0xf4 then
    match rest with
    | b1 :: r1 =>
      match utf8Tail? b1 with
      | some t1 =>
        if (n = 0xf0 ∧ t1 < 0x10) ∨ (n = 0xf4 ∧ 0x10 ≤ t1) then .broken rest
        else
          match r1 with
          | b2 :: r2 =>
            match utf8Tail? b2 with
            | some t2 =>
              match r2 with
              | b3 :: r3 =>
                match utf8Tail? b3 with
                | some t3 =>
                  .char (Char.ofNat ((n - 0xf0) * 0x40000 + t1 * 0x1000 + t2 * 0x40 + t3)) r3
                | none => .broken r2
              | [] => .broken r2
            | none => .broken r1
          | [] => .broken r1
      | none => .broken rest
    | [] => .broken rest
  else .broken rest

/-- The characters found in the next `fuel` steps; `none` stands for an ill-formed run. -/
def utf8Scan : Nat → Bytes → List (Option Char)
  | 0, _ => []
  | _, [] => []
  | fuel + 1, b :: rest =>
    match utf8Head b rest with
    | .char c rest => some c :: utf8Scan fuel rest
    | .broken rest => none :: utf8Scan fuel rest

def utf8Units (bs : Bytes) : List (Option Char) := utf8Scan bs.length bs

def utf8Chars? (bs : Bytes) : Option (List Char) :=
  let units := utf8Units bs
  if units.all Option.isSome then some (units.filterMap id) else none

def utf8Text? (bs : Bytes) : Option String := (utf8Chars? bs).map String.ofList

/-- The text of any bytes, with U+FFFD for each ill-formed run. -/
def utf8Lossy (bs : Bytes) : String :=
  String.ofList ((utf8Units bs).map fun u => u.getD (Char.ofNat 0xfffd))

/-- Each byte as two lower-case hexadecimal digits. -/
def hexText (bs : Bytes) : String :=
  String.ofList (bs.flatMap fun b => [hexDigit (b.toNat / 16), hexDigit (b.toNat % 16)])

/-- The bytes that pairs of hexadecimal digits stand for. -/
def hexBytes? : List Char → Option Bytes
  | [] => some []
  | a :: b :: rest => do
    let hi ← hexValue? a
    let lo ← hexValue? b
    let bytes ← hexBytes? rest
    pure ((hi * 16 + lo).toUInt8 :: bytes)
  | [_] => none

end LintBridge

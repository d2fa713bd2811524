import LintBridge.Text.Utf8

namespace LintBridge

namespace Percent

/-- Printable ASCII bytes; all parts of a URL encode the others. -/
def isPlain (b : UInt8) : Bool := 0x20 ≤ b.toNat && b.toNat ≤ 0x7e

def isAmong (s : String) (b : UInt8) : Bool := s.toList.any fun c => c.toNat == b.toNat

def inFragment (b : UInt8) : Bool := isPlain b && !isAmong " \"<>`" b

/-- What a path leaves as it is. -/
def inPath (b : UInt8) : Bool := inFragment b && !isAmong "#?\x7b\x7d" b

/-- What a file name inside a file URL leaves as it is. -/
def inFileName (b : UInt8) : Bool := inPath b && !isAmong "/%\\" b

def inUserInfo (b : UInt8) : Bool := inPath b && !isAmong "/:;=@[\\]^|" b

def inQuery (b : UInt8) : Bool := isPlain b && !isAmong " \"#<>" b

def inSpecialQuery (b : UInt8) : Bool := inQuery b && !isAmong "'" b

/-- A byte as `%` and two digits. -/
def escape (b : UInt8) : List Char :=
  ['%', hexDigitUpper (b.toNat / 16), hexDigitUpper (b.toNat % 16)]

/-- A byte, encoded unless it may stand for itself. -/
def encodeByte (keep : UInt8 → Bool) (b : UInt8) : List Char :=
  if keep b then [Char.ofNat b.toNat] else escape b

/-- Bytes, each encoded unless it may stand for itself. -/
def encode (keep : UInt8 → Bool) (bs : Bytes) : List Char := bs.flatMap (encodeByte keep)

def encodeChars (keep : UInt8 → Bool) (cs : List Char) : List Char := encode keep (utf8Chars cs)

/-- The bytes that percent-encoded bytes stand for. -/
def decode : Bytes → Bytes
  | 0x25 :: h :: l :: rest =>
    match hexValue? (Char.ofNat h.toNat), hexValue? (Char.ofNat l.toNat) with
    | some hi, some lo => (hi * 16 + lo).toUInt8 :: decode rest
    | _, _ => 0x25 :: decode (h :: l :: rest)
  | b :: rest => b :: decode rest
  | [] => []

def decodeChars (cs : List Char) : Bytes := decode (utf8Chars cs)

end Percent

end LintBridge

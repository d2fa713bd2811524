import LintBridge.Url.Punycode
import LintBridge.Text.Utf8

namespace LintBridge

namespace Domain

/-- Characters that a domain may not hold, besides controls. -/
def isForbidden (c : Char) : Bool :=
  c.toNat ≤ 0x20 || c.toNat == 0x7f || "#/:<>?@[\\]^|%".toList.contains c

/-- Characters that are dropped from a domain. -/
def isIgnored (c : Char) : Bool :=
  let n := c.toNat
  n == 0xad || n == 0x200b || n == 0x2060 || n == 0xfeff || (0xfe00 ≤ n && n ≤ 0xfe0f)

/-- The lower-case forms of letters outside ASCII. -/
def lowerForm (n : Nat) : Nat :=
  if (0xc0 ≤ n ∧ n ≤ 0xde ∧ n ≠ 0xd7) then n + 32
  else if 0x100 ≤ n ∧ n ≤ 0x12f ∧ n % 2 = 0 then n + 1
  else if 0x132 ≤ n ∧ n ≤ 0x137 ∧ n % 2 = 0 then n + 1
  else if 0x139 ≤ n ∧ n ≤ 0x148 ∧ n % 2 = 1 then n + 1
  else if 0x14a ≤ n ∧ n ≤ 0x177 ∧ n % 2 = 0 then n + 1
  else if n = 0x178 then 0xff
  else if 0x179 ≤ n ∧ n ≤ 0x17e ∧ n % 2 = 1 then n + 1
  else if (0x391 ≤ n ∧ n ≤ 0x3a1) ∨ (0x3a3 ≤ n ∧ n ≤ 0x3ab) then n + 32
  else if n = 0x386 then 0x3ac
  else if 0x388 ≤ n ∧ n ≤ 0x38a then n + 37
  else if n = 0x38c then 0x3cc
  else if n = 0x38e ∨ n = 0x38f then n + 63
  else if 0x400 ≤ n ∧ n ≤ 0x40f then n + 80
  else if 0x410 ≤ n ∧ n ≤ 0x42f then n + 32
  else if 0x460 ≤ n ∧ n ≤ 0x481 ∧ n % 2 = 0 then n + 1
  else if 0x48a ≤ n ∧ n ≤ 0x4bf ∧ n % 2 = 0 then n + 1
  else if 0x4d0 ≤ n ∧ n ≤ 0x52f ∧ n % 2 = 0 then n + 1
  else if 0x531 ≤ n ∧ n ≤ 0x556 then n + 48
  else if 0x1e00 ≤ n ∧ n ≤ 0x1e95 ∧ n % 2 = 0 then n + 1
  else if 0x1ea0 ≤ n ∧ n ≤ 0x1eff ∧ n % 2 = 0 then n + 1
  else n

/-- The form that a character takes in a domain. -/
def mapped (c : Char) : Char :=
  let n := c.toNat
  if n = 0x3002 ∨ n = 0xff0e ∨ n = 0xff61 then '.'
  else if 0xff01 ≤ n ∧ n ≤ 0xff5e then lowerAscii (Char.ofNat (n - 0xfee0))
  else if n < 128 then lowerAscii c
  else Char.ofNat (lowerForm n)

def labels : List Char → List (List Char)
  | [] => [[]]
  | c :: rest =>
    if c = '.' then [] :: labels rest
    else
      match labels rest with
      | [] => [[c]]
      | label :: more => (c :: label) :: more

def joinLabels : List (List Char) → List Char
  | [] => []
  | [label] => label
  | label :: more => label ++ '.' :: joinLabels more

/-- Characters outside ASCII that a label may not hold: controls, and joiners, which no letter of
these alphabets asks for. -/
def isMisplaced (c : Char) : Bool :=
  let n := c.toNat
  (0x80 ≤ n && n ≤ 0x9f) || n == 0x200c || n == 0x200d

/-- Whether a label may stand in a domain as it is read. -/
def isProper (label : List Char) : Bool :=
  (label.any fun c => 128 ≤ c.toNat) && !label.any isMisplaced && label.map mapped == label

/-- A label in ASCII; none if it claims to be Punycode and is not. -/
def labelToAscii? (label : List Char) : Option (List Char) :=
  if label.take 4 == "xn--".toList then
    match Punycode.decode? (label.drop 4) with
    | some decoded => if isProper decoded then some label else none
    | none => none
  else if label.any fun c => 128 ≤ c.toNat then
    if isProper label then some ("xn--".toList ++ Punycode.encode label) else none
  else some label

def toAscii? (cs : List Char) : Option (List Char) := do
  let labels ← (labels ((cs.filter fun c => !isIgnored c).map mapped)).mapM labelToAscii?
  let domain := joinLabels labels
  if domain.any isForbidden then none else some domain

end Domain

end LintBridge

namespace LintBridge

/-- A finite double: a sign and the other 63 bits, exponent field first. -/
structure Binary64 where
  negative : Bool
  magnitude : Nat
  deriving DecidableEq, Repr

namespace Binary64

/-- The least magnitude that is no longer finite. -/
def limit : Nat := 2047 * Nat.pow 2 52

/-- The significand `m` of a magnitude that stands for `m · 2^(exponent - 1074)`. -/
def significand (magnitude : Nat) : Nat :=
  if magnitude < Nat.pow 2 52 then magnitude else Nat.pow 2 52 + magnitude % Nat.pow 2 52

/-- The exponent of a magnitude, counted from the least one. -/
def exponent (magnitude : Nat) : Nat := magnitude / Nat.pow 2 52 - 1

/-- A magnitude as a quotient of two naturals. -/
def quotient (magnitude : Nat) : Nat × Nat :=
  (significand magnitude * Nat.pow 2 (exponent magnitude), Nat.pow 2 1074)

/-- A quotient rounded to the nearest natural, a half to the even one. -/
def roundHalfEven (num den : Nat) : Nat :=
  let whole := num / den
  let rest := num % den
  if 2 * rest < den then whole
  else if den < 2 * rest then whole + 1
  else whole + whole % 2

/-- The magnitude nearest to `num / den`, if it is finite. -/
def nearest? (num den : Nat) : Option Nat :=
  -- `scaled / den` counts the value in units of the least magnitude
  let scaled := num * Nat.pow 2 1074
  let whole := scaled / den
  let shift := if whole < Nat.pow 2 53 then 0 else whole.log2 - 52
  let magnitude := shift * Nat.pow 2 52 + roundHalfEven scaled (den * Nat.pow 2 shift)
  if magnitude < limit then some magnitude else none

def digitCount (n : Nat) : Nat := (Nat.toDigits 10 n).length

/-- The least `k ≤ fuel` with `den ≤ num · 10^k`. -/
def leadingZeros (den : Nat) : Nat → Nat → Nat
  | 0, _ => 0
  | fuel + 1, num => if den ≤ num then 0 else leadingZeros den fuel (num * 10) + 1

/-- The exponent of the leading decimal digit of `num / den`. -/
def decimalExponent (num den : Nat) : Int :=
  if den ≤ num then (digitCount (num / den) : Int) - 1
  else -(leadingZeros den 400 num : Int)

/-- `num / den` divided by `10^k`, as a quotient. -/
def scaleDown (num den : Nat) (k : Int) : Nat × Nat :=
  if 0 ≤ k then (num, den * Nat.pow 10 k.toNat) else (num * Nat.pow 10 (-k).toNat, den)

/-- Whether `d · 10^k` rounds to `magnitude`. -/
def readsBack (magnitude d : Nat) (k : Int) : Bool :=
  let (num, den) := if 0 ≤ k then (d * Nat.pow 10 k.toNat, 1) else (d, Nat.pow 10 (-k).toNat)
  nearest? num den == some magnitude

/-- The first grid of at least `n` digits that holds a decimal reading back as `magnitude`. -/
def shortestFrom (magnitude num den : Nat) (lead : Int) : Nat → Nat → Nat × Int
  | 0, n => (0, lead - n + 1)
  | fuel + 1, n =>
    let k := lead - (n : Int) + 1
    let (a, b) := scaleDown num den k
    let below := a / b
    let lowFits := readsBack magnitude below k
    let highFits := readsBack magnitude (below + 1) k
    if lowFits && highFits then
      -- of two decimals the nearer one, an exact tie going to the even digit
      (roundHalfEven a b, k)
    else if lowFits then (below, k)
    else if highFits then (below + 1, k)
    else shortestFrom magnitude num den lead fuel (n + 1)

/-- The shortest decimal `d · 10^k` that reads back as a magnitude. -/
def shortest (magnitude : Nat) : Nat × Int :=
  if magnitude = 0 then (0, 0)
  else
    let (num, den) := quotient magnitude
    shortestFrom magnitude num den (decimalExponent num den) 17 1

def digitChars (n : Nat) : List Char := Nat.toDigits 10 n

/-- `d · 10^k` written without an exponent and with at least one place after the point. -/
def positionalChars (d : Nat) (k : Int) : List Char :=
  let ds := digitChars d
  if 0 ≤ k then ds ++ List.replicate k.toNat '0' ++ ['.', '0']
  else
    let places := (-k).toNat
    if places < ds.length then
      ds.take (ds.length - places) ++ '.' :: ds.drop (ds.length - places)
    else '0' :: '.' :: List.replicate (places - ds.length) '0' ++ ds

/-- `d · 10^k` written as one digit, the others after a point, and a signed exponent. -/
def scientificChars (d : Nat) (k : Int) : List Char :=
  let ds := digitChars d
  let e : Int := k + ((ds.length : Int) - 1)
  let tail := ds.drop 1
  ds.take 1 ++ (if tail.isEmpty then [] else '.' :: tail) ++
    ['e', if e < 0 then '-' else '+'] ++ digitChars e.natAbs

/-- The text of a number in a JSON document: positional for leading exponents -5 to 15. -/
def jsonChars (x : Binary64) : List Char :=
  let (d, k) := shortest x.magnitude
  let lead : Int := k + ((digitChars d).length : Int) - 1
  (if x.negative then ['-'] else []) ++
    if -5 ≤ lead ∧ lead ≤ 15 then positionalChars d k else scientificChars d k

/-- The text of a number without an exponent, however long. -/
def plainChars (x : Binary64) : List Char :=
  let (d, k) := shortest x.magnitude
  (if x.negative then ['-'] else []) ++ positionalChars d k

end Binary64

end LintBridge

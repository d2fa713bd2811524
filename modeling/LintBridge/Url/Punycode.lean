import LintBridge.Text.Ascii

namespace LintBridge

namespace Punycode

/-- The digit for a value below 36: a to z, then 0 to 9. -/
def digit (d : Nat) : Char := if d < 26 then Char.ofNat (97 + d) else Char.ofNat (22 + d)

def digit? (c : Char) : Option Nat :=
  if 'a' ≤ c ∧ c ≤ 'z' then some (c.toNat - 97)
  else if 'A' ≤ c ∧ c ≤ 'Z' then some (c.toNat - 65)
  else if '0' ≤ c ∧ c ≤ '9' then some (c.toNat - 22)
  else none

/-- The threshold of the digit at position `k`. -/
def threshold (k bias : Nat) : Nat := min 26 (max 1 (k - bias))

/-- Divide by 35 until small, counting by 36. -/
def settle : Nat → Nat → Nat → Nat
  | 0, delta, k => k + 36 * delta / (delta + 38)
  | fuel + 1, delta, k =>
    if 455 < delta then settle fuel (delta / 35) (k + 36) else k + 36 * delta / (delta + 38)

/-- The bias after a difference. -/
def adapt (delta points : Nat) (first : Bool) : Nat :=
  let delta := if first then delta / 700 else delta / 2
  settle 64 (delta + delta / points) 0

def differenceDigits (bias : Nat) : Nat → Nat → Nat → List Char
  | 0, _, _ => []
  | fuel + 1, k, q =>
    let t := threshold k bias
    if q < t then [digit q]
    else digit (t + (q - t) % (36 - t)) :: differenceDigits bias fuel (k + 36) ((q - t) / (36 - t))

structure Progress where
  written : List Char
  delta : Nat
  bias : Nat
  handled : Nat

/-- Go over the label once for the code point `n`. -/
def pass (basic n : Nat) (label : List Char) (p : Progress) : Progress :=
  label.foldl (fun p c =>
    if c.toNat < n then { p with delta := p.delta + 1 }
    else if c.toNat = n then
      ⟨p.written ++ differenceDigits p.bias 64 36 p.delta, 0,
        adapt p.delta (p.handled + 1) (p.handled == basic), p.handled + 1⟩
    else p) p

/-- One pass for each code point outside ASCII, in ascending order. -/
def passes (basic : Nat) (label : List Char) : List Nat → Nat → Progress → Progress
  | [], _, p => p
  | n :: more, last, p =>
    let p := pass basic n label { p with delta := p.delta + (n - last) * (p.handled + 1) }
    passes basic label more (n + 1) { p with delta := p.delta + 1 }

def encode (label : List Char) : List Char :=
  let ascii := label.filter fun c => c.toNat < 128
  let others := ((label.filter fun c => 128 ≤ c.toNat).map Char.toNat).mergeSort.eraseDups
  let front := if ascii.isEmpty then [] else ascii ++ ['-']
  (passes ascii.length label others 128 ⟨front, 0, 72, ascii.length⟩).written

/-- Read one difference: its value added to `i`, and the rest. -/
def difference? (bias : Nat) : List Char → Nat → Nat → Nat → Option (Nat × List Char)
  | [], _, _, _ => none
  | c :: rest, k, weight, i => do
    let d ← digit? c
    let i := i + d * weight
    let t := threshold k bias
    if 0xffffffff < i then none
    else if d < t then some (i, rest)
    else difference? bias rest (k + 36) (weight * (36 - t)) i

/-- Insert the characters that differences stand for. -/
def insertions? : Nat → List Char → List Char → Nat → Nat → Nat → Option (List Char)
  | 0, _, _, _, _, _ => none
  | _, [], label, _, _, _ => some label
  | fuel + 1, cs, label, n, i, bias => do
    let (j, rest) ← difference? bias cs 36 1 i
    let points := label.length + 1
    let code := n + j / points
    let place := j % points
    if 0x110000 ≤ code ∨ (0xd800 ≤ code ∧ code < 0xe000) then none
    else
      insertions? fuel rest (label.take place ++ Char.ofNat code :: label.drop place) code
        (place + 1) (adapt (j - i) points (i == 0))

/-- The label that a Punycode text stands for. -/
def decode? (cs : List Char) : Option (List Char) :=
  let (front, back) :=
    match cs.reverse.span (· != '-') with
    | (tail, _ :: head) => (head.reverse, tail.reverse)
    | (_, []) => ([], cs)
  if front.any fun c => 128 ≤ c.toNat then none
  else insertions? (back.length + 1) back front 128 0 72

end Punycode

end LintBridge

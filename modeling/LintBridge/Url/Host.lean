import LintBridge.Url.Domain
import LintBridge.Url.Percent

namespace LintBridge

inductive UrlError where
  | relative
  | rootlessBase
  | emptyHost
  | port
  | ipv4
  | ipv6
  | domain
  | character
  deriving DecidableEq

namespace UrlError

def message : UrlError → String
  | relative => "relative URL without a base"
  | rootlessBase => "relative URL with a cannot-be-a-base base"
  | emptyHost => "empty host"
  | port => "invalid port number"
  | ipv4 => "invalid IPv4 address"
  | ipv6 => "invalid IPv6 address"
  | domain => "invalid international domain name"
  | character => "invalid domain character"

end UrlError

/-- A host. An address of sixteen bytes is a list of eight numbers of two bytes. -/
inductive Host where
  | domain (name : String)
  | ipv4 (address : Nat)
  | ipv6 (groups : List Nat)
  deriving DecidableEq

namespace Host

/-- A number of an address: decimal, octal behind `0`, hexadecimal behind `0x`. The outer
option is none for other texts, the inner one for numbers over 32 bits. -/
def number? (cs : List Char) : Option (Option Nat) :=
  let (base, digits) :=
    match cs with
    | '0' :: 'x' :: rest => (16, rest)
    | '0' :: 'X' :: rest => (16, rest)
    | '0' :: d :: rest => (8, d :: rest)
    | cs => (10, cs)
  if cs.isEmpty then none
  else
    match digits.mapM hexValue? with
    | none => none
    | some values =>
      if values.all (· < base) then
        let n := digitsValue base values
        some (if n ≤ 0xffffffff then some n else none)
      else none

/-- Whether a domain has to be read as an address. -/
def endsInNumber (cs : List Char) : Bool :=
  let last? : Option (List Char) :=
    match (Domain.labels cs).reverse with
    | [] :: last :: _ => some last
    | [[]] => none
    | last :: _ => some last
    | [] => none
  match last? with
  | none => false
  | some last => (!last.isEmpty && last.all isAsciiDigit) || (number? last).isSome

/-- An address of four bytes from up to four numbers, the last filling what is left. -/
def ipv4? (cs : List Char) : Option Nat := do
  let parts := Domain.labels cs
  let parts := if parts.getLast? == some [] then parts.dropLast else parts
  if 4 < parts.length then none
  else
    let numbers ← parts.mapM fun p => (number? p).bind id
    let last ← numbers.getLast?
    let front := numbers.dropLast
    if Nat.pow 2 (32 - 8 * front.length) ≤ last ∨ front.any (255 < ·) then none
    else some (front.zipIdx.foldl (fun sum (n, i) => sum + n * Nat.pow 2 (24 - 8 * i)) last)

/-- A number of up to four hexadecimal digits in front, and the rest. -/
def group (cs : List Char) : Nat × Nat × List Char :=
  let run := (cs.takeWhile fun c => (hexValue? c).isSome).take 4
  (digitsValue 16 (run.filterMap hexValue?), run.length, cs.drop run.length)

/-- Four decimal bytes without leading zeros, parted by dots. -/
def tailBytes? (cs : List Char) : Option (List Nat) := do
  let parts := Domain.labels cs
  if parts.length ≠ 4 then none
  else
    parts.mapM fun p => do
      let n ← decimal? p
      if 255 < n ∨ (p.head? = some '0' ∧ p.length ≠ 1) then none else some n

/-- The groups read so far, and the place of `::` among them. -/
structure Groups where
  values : List Nat
  gap : Option Nat

/-- The groups of an address of sixteen bytes from here on. -/
def groups? : Nat → List Char → Groups → Option Groups
  | 0, _, _ => none
  | _, [], g => some g
  | fuel + 1, ':' :: rest, g =>
    if g.values.length = 8 ∨ g.gap.isSome then none
    else groups? fuel rest { g with gap := some g.values.length }
  | fuel + 1, cs, g =>
    if g.values.length = 8 then none
    else
      let (n, size, rest) := group cs
      match rest with
      | '.' :: _ =>
        if size = 0 ∨ 6 < g.values.length then none
        else do
          let bytes ← tailBytes? cs
          match bytes with
          | [a, b, c, d] => some { g with values := g.values ++ [a * 256 + b, c * 256 + d] }
          | _ => none
      | ':' :: more =>
        if more.isEmpty then none
        else groups? fuel more { g with values := g.values ++ [n] }
      | [] => some { g with values := g.values ++ [n] }
      | _ => none

/-- An address of sixteen bytes without its brackets. -/
def ipv6? (cs : List Char) : Option (List Nat) := do
  let start : Option (List Char × Groups) :=
    match cs with
    | ':' :: ':' :: rest => some (rest, ⟨[], some 0⟩)
    | ':' :: _ => none
    | cs => some (cs, ⟨[], none⟩)
  let (cs, g) ← start
  let g ← groups? (cs.length + 1) cs g
  match g.gap with
  | some place =>
    if 8 ≤ g.values.length then none
    else
      some (g.values.take place ++ List.replicate (8 - g.values.length) 0 ++ g.values.drop place)
  | none => if g.values.length = 8 then some g.values else none

/-- A host between brackets. -/
def bracketed? (cs : List Char) : Except UrlError Host :=
  if cs.getLast? ≠ some ']' then .error .ipv6
  else
    match ipv6? cs.tail.dropLast with
    | some groups => .ok (.ipv6 groups)
    | none => .error .ipv6

/-- The host of a URL with a special scheme. -/
def parse? (cs : List Char) : Except UrlError Host :=
  if cs.head? = some '[' then bracketed? cs
  else
    match (utf8Chars? (Percent.decodeChars cs)).bind Domain.toAscii? with
    | none => .error .domain
    | some [] => .error .emptyHost
    | some name =>
      if endsInNumber name then
        match ipv4? name with
        | some address => .ok (.ipv4 address)
        | none => .error .ipv4
      else .ok (.domain (String.ofList name))

/-- The host of a URL with another scheme; it may be empty and is not interpreted. -/
def parseOther? (cs : List Char) : Except UrlError Host :=
  if cs.head? = some '[' then bracketed? cs
  else if cs.any fun c => "\x00\t\n\r #/:<>?@[\\]^|".toList.contains c then .error .character
  else .ok (.domain (String.ofList (Percent.encodeChars Percent.isPlain cs)))

/-- The first longest run of at least two zeros: its place and length. -/
def longestZeros (groups : List Nat) : Option (Nat × Nat) :=
  let runs := (List.range groups.length).map fun i =>
    (i, ((groups.drop i).takeWhile (· == 0)).length)
  let best := runs.foldl (fun best run => if best.2 < run.2 then run else best) (0, 0)
  if 2 ≤ best.2 then some best else none

def groupsText (groups : List Nat) : String :=
  ":".intercalate (groups.map fun n => String.ofList (Nat.toDigits 16 n))

def text : Host → String
  | .domain name => name
  | .ipv4 n =>
    ".".intercalate ([n / 0x1000000, n / 0x10000 % 256, n / 0x100 % 256, n % 256].map toString)
  | .ipv6 groups =>
    match longestZeros groups with
    | some (place, length) =>
      let front := groupsText (groups.take place)
      "[" ++ front ++ "::" ++ groupsText (groups.drop (place + length)) ++ "]"
    | none => "[" ++ groupsText groups ++ "]"

end Host

end LintBridge

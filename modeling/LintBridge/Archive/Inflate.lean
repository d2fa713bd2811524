import LintBridge.Text.Utf8

namespace LintBridge

namespace Inflate

abbrev Bits := List Bool

/-- The bits of some bytes, the lowest bit of each byte first. -/
def bitsOf (bs : Bytes) : Bits :=
  bs.flatMap fun b => (List.range 8).map fun i => b.toNat.testBit i

/-- Why unpacking stopped early. -/
inductive Stop where
  /-- The data end too soon. -/
  | starved
  /-- The data break the format. -/
  | corrupt
  deriving DecidableEq

abbrev Reader (α : Type) := Bits → Except Stop (α × Bits)

/-- A number of some bits, the lowest one first. -/
def number : Nat → Reader Nat
  | 0, bits => .ok (0, bits)
  | _ + 1, [] => .error .starved
  | n + 1, b :: bits =>
    match number n bits with
    | .ok (k, rest) => .ok (2 * k + b.toNat, rest)
    | .error stop => .error stop

/-- A code in which shorter words come first: the number of words of each length from one on,
and the symbols in the order of their words. -/
structure Code where
  counts : List Nat
  symbols : Array Nat

def maxWord : Nat := 15

/-- How much of all words a set of word lengths takes up, in words of the greatest length. -/
def weight (lengths : List Nat) : Nat :=
  lengths.foldl (fun n l => if l = 0 then n else n + Nat.pow 2 (maxWord - l)) 0

/-- The code in which symbol `i` has a word of length `lengths[i]`, none for length zero. The
words have to take up everything unless there is at most one. -/
def Code.ofLengths (lengths : List Nat) : Except Stop Code :=
  let used := lengths.filter (· ≠ 0)
  if weight lengths ≠ Nat.pow 2 maxWord ∧ 1 < used.length then .error .corrupt
  else
    let widths := (List.range maxWord).map (· + 1)
    let symbolsOf (w : Nat) := (lengths.zipIdx.filter fun entry => entry.1 == w).map (·.2)
    .ok ⟨widths.map fun w => lengths.count w, (widths.flatMap symbolsOf).toArray⟩

/-- Read a word bit by bit. `word` is what was read of it, `first` the first word of the length
reached and `index` the number of shorter words. -/
def symbolFrom (symbols : Array Nat) (word first index : Nat) : List Nat → Reader Nat
  | [], _ => .error .corrupt
  | _ :: _, [] => .error .starved
  | count :: counts, b :: bits =>
    let word := word + b.toNat
    if word < first + count then .ok (symbols.getD (index + (word - first)) 0, bits)
    else symbolFrom symbols (2 * word) (2 * (first + count)) (index + count) counts bits

def Code.symbol (c : Code) : Reader Nat := symbolFrom c.symbols 0 0 0 c.counts

/-- The lengths of copies by symbol: the least length and the number of further bits. -/
def lengthTable : List (Nat × Nat) :=
  [(3, 0), (4, 0), (5, 0), (6, 0), (7, 0), (8, 0), (9, 0), (10, 0), (11, 1), (13, 1), (15, 1),
    (17, 1), (19, 2), (23, 2), (27, 2), (31, 2), (35, 3), (43, 3), (51, 3), (59, 3), (67, 4),
    (83, 4), (99, 4), (115, 4), (131, 5), (163, 5), (195, 5), (227, 5), (258, 0)]

/-- The distances of copies by symbol: the least distance and the number of further bits. -/
def distanceTable : List (Nat × Nat) :=
  [(1, 0), (2, 0), (3, 0), (4, 0), (5, 1), (7, 1), (9, 2), (13, 2), (17, 3), (25, 3), (33, 4),
    (49, 4), (65, 5), (97, 5), (129, 6), (193, 6), (257, 7), (385, 7), (513, 8), (769, 8),
    (1025, 9), (1537, 9), (2049, 10), (3073, 10), (4097, 11), (6145, 11), (8193, 12),
    (12289, 12), (16385, 13), (24577, 13)]

/-- The value that a symbol stands for in a table, its further bits taken in. -/
def extended (table : List (Nat × Nat)) (symbol : Nat) : Reader Nat := fun bits =>
  match table[symbol]? with
  | none => .error .corrupt
  | some (least, extra) =>
    match number extra bits with
    | .ok (more, rest) => .ok (least + more, rest)
    | .error stop => .error stop

/-- Copy bytes that lie some distance back, one after the other. -/
def copyBack (distance : Nat) : Nat → Array UInt8 → Array UInt8
  | 0, out => out
  | n + 1, out => copyBack distance n (out.push (out.getD (out.size - distance) 0))

/-- What unpacking gave: the bytes, and why it stopped if it did. -/
structure Progress where
  out : Array UInt8
  stop : Option Stop
  rest : Bits

/-- Unpack the symbols of a block up to its end. Each symbol takes a bit at least. -/
def symbols (literals distances : Code) : Nat → Array UInt8 → Bits → Progress
  | 0, out, bits => ⟨out, some .starved, bits⟩
  | fuel + 1, out, bits =>
    match literals.symbol bits with
    | .error stop => ⟨out, some stop, bits⟩
    | .ok (s, bits) =>
      if s < 256 then symbols literals distances fuel (out.push s.toUInt8) bits
      else if s = 256 then ⟨out, none, bits⟩
      else
        let copied : Except Stop (Nat × Nat × Bits) := do
          let (length, bits) ← extended lengthTable (s - 257) bits
          let (d, bits) ← distances.symbol bits
          let (distance, bits) ← extended distanceTable d bits
          if out.size < distance then throw .corrupt
          return (length, distance, bits)
        match copied with
        | .error stop => ⟨out, some stop, bits⟩
        | .ok (length, distance, bits) =>
          symbols literals distances fuel (copyBack distance length out) bits

/-- Unpack a block of plain bytes: they start at a byte, behind their number given twice, the
second time with its bits turned over. -/
def plainBytes : Nat → Array UInt8 → Bits → Progress
  | 0, out, bits => ⟨out, none, bits⟩
  | n + 1, out, bits =>
    match number 8 bits with
    | .error stop => ⟨out, some stop, bits⟩
    | .ok (b, rest) => plainBytes n (out.push b.toUInt8) rest

def plainBlock (out : Array UInt8) (bits : Bits) : Progress :=
  let bits := bits.drop (bits.length % 8)
  let head : Except Stop (Nat × Bits) := do
    let (n, bits) ← number 16 bits
    let (m, bits) ← number 16 bits
    if n + m ≠ 0xffff then throw .corrupt
    return (n, bits)
  match head with
  | .error stop => ⟨out, some stop, bits⟩
  | .ok (n, bits) => plainBytes n out bits

/-- The lengths of the words for literals where a block does not give them. -/
def fixedLiterals : List Nat :=
  List.replicate 144 8 ++ List.replicate 112 9 ++ List.replicate 24 7 ++ List.replicate 8 8

def fixedDistances : List Nat := List.replicate 32 5

/-- The order in which a block gives the lengths of words for lengths. -/
def lengthOrder : List Nat := [16, 17, 18, 0, 8, 7, 9, 6, 10, 5, 11, 4, 12, 3, 13, 2, 14, 1, 15]

def triples : Nat → Reader (List Nat)
  | 0, bits => .ok ([], bits)
  | n + 1, bits => do
    let (k, bits) ← number 3 bits
    let (ks, bits) ← triples n bits
    return (k :: ks, bits)

/-- Read word lengths until there are `total`; `found` holds those read, the last one first.
Some symbols repeat the last length or zero. -/
def wordLengths (code : Code) (total : Nat) : Nat → List Nat → Reader (List Nat)
  | 0, _, _ => .error .starved
  | fuel + 1, found, bits =>
    if total ≤ found.length then
      if found.length = total then .ok (found.reverse, bits) else .error .corrupt
    else do
      let (s, bits) ← code.symbol bits
      if s < 16 then wordLengths code total fuel (s :: found) bits
      else if s = 16 then
        match found with
        | [] => throw .corrupt
        | last :: _ => do
          let (n, bits) ← number 2 bits
          wordLengths code total fuel (List.replicate (n + 3) last ++ found) bits
      else if s = 17 then do
        let (n, bits) ← number 3 bits
        wordLengths code total fuel (List.replicate (n + 3) 0 ++ found) bits
      else do
        let (n, bits) ← number 7 bits
        wordLengths code total fuel (List.replicate (n + 11) 0 ++ found) bits

def givenCodes : Reader (Code × Code) := fun bits => do
  let (literals, bits) ← number 5 bits
  let (distances, bits) ← number 5 bits
  let (lengths, bits) ← number 4 bits
  let (widths, bits) ← triples (lengths + 4) bits
  let table := lengthOrder.zip widths
  let byValue := (List.range 19).map fun s =>
    ((table.find? fun entry => entry.1 == s).map (·.2)).getD 0
  let code ← Code.ofLengths byValue
  let (all, bits) ← wordLengths code (literals + 257 + distances + 1) (bits.length + 1) [] bits
  let first ← Code.ofLengths (all.take (literals + 257))
  let second ← Code.ofLengths (all.drop (literals + 257))
  return ((first, second), bits)

def block (kind : Nat) (out : Array UInt8) (bits : Bits) : Progress :=
  let coded (codes : Except Stop ((Code × Code) × Bits)) : Progress :=
    match codes with
    | .error stop => ⟨out, some stop, bits⟩
    | .ok ((literals, distances), bits) => symbols literals distances (bits.length + 1) out bits
  match kind with
  | 0 => plainBlock out bits
  | 1 => coded do
    let literals ← Code.ofLengths fixedLiterals
    let distances ← Code.ofLengths fixedDistances
    return ((literals, distances), bits)
  | 2 => coded (givenCodes bits)
  | _ => ⟨out, some .corrupt, bits⟩

/-- Unpack blocks up to the last one. Each block takes three bits at least. -/
def blocks : Nat → Array UInt8 → Bits → Progress
  | 0, out, bits => ⟨out, some .starved, bits⟩
  | fuel + 1, out, bits =>
    match number 3 bits with
    | .error stop => ⟨out, some stop, bits⟩
    | .ok (head, bits) =>
      let p := block (head / 2) out bits
      if p.stop.isSome || head % 2 = 1 then p else blocks fuel p.out p.rest

/-- The bytes that are kept together while unpacking. -/
def window : Nat := 32768

end Inflate

/-- Unpack deflated data. Tells the bytes that come out, and whether the data were whole. -/
def inflate (bs : Bytes) : Bytes × Bool :=
  let bits := Inflate.bitsOf bs
  let p := Inflate.blocks (bits.length + 1) #[] bits
  match p.stop with
  | none => (p.out.toList, true)
  | some .starved => (p.out.toList, false)
  | some .corrupt => (p.out.toList.take (p.out.size / Inflate.window * Inflate.window), false)

end LintBridge

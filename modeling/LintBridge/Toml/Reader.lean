import LintBridge.Json.Record
import LintBridge.Toml.Scalar

namespace LintBridge

namespace Toml

def skipBlanks (cs : List Char) : List Char := cs.dropWhile fun c => c == ' ' || c == '\t'

/-- Characters that a text or comment may not hold as themselves. -/
def isControl (c : Char) : Bool := (c.toNat < 0x20 && c != '\t') || c.toNat == 0x7f

/-- What follows a line break in front. -/
def lineBreak? : List Char → Option (List Char)
  | '\n' :: rest => some rest
  | '\r' :: '\n' :: rest => some rest
  | _ => none

/-- What follows a comment in front, if there is one. -/
def comment? : List Char → Option (List Char)
  | '#' :: rest =>
    let rest := rest.dropWhile fun c => !isControl c
    if rest.isEmpty || (lineBreak? rest).isSome then some rest else none
  | cs => some cs

/-- What follows the rest of a line that may hold nothing more. -/
def lineEnd? (cs : List Char) : Option (List Char) := do
  let rest ← comment? (skipBlanks cs)
  if rest.isEmpty then some [] else lineBreak? rest

/-- Skip blanks, line breaks and comments, at most so many times. -/
def skipLines : Nat → List Char → Option (List Char)
  | 0, cs => some cs
  | fuel + 1, cs =>
    match skipBlanks cs with
    | '#' :: rest => (comment? ('#' :: rest)).bind (skipLines fuel)
    | rest =>
      match lineBreak? rest with
      | some rest => skipLines fuel rest
      | none => some rest

/-- The character with a code, if it is one. -/
def scalarChar? (n : Nat) : Option Char :=
  if n < 0xd800 ∨ (0xe000 ≤ n ∧ n < 0x110000) then some (Char.ofNat n) else none

/-- A character given by so many hexadecimal digits, and the rest. -/
def hexChar? (size : Nat) (cs : List Char) : Option (Char × List Char) := do
  let values ← (cs.take size).mapM hexValue?
  if values.length = size then
    let c ← scalarChar? (digitsValue 16 values)
    some (c, cs.drop size)
  else none

/-- The character that an escape stands for, behind its backslash. -/
def escape? : List Char → Option (Char × List Char)
  | 'b' :: rest => some ('\x08', rest)
  | 't' :: rest => some ('\t', rest)
  | 'n' :: rest => some ('\n', rest)
  | 'f' :: rest => some ('\x0c', rest)
  | 'r' :: rest => some ('\r', rest)
  | 'e' :: rest => some ('\x1b', rest)
  | '"' :: rest => some ('"', rest)
  | '\\' :: rest => some ('\\', rest)
  | 'x' :: rest => hexChar? 2 rest
  | 'u' :: rest => hexChar? 4 rest
  | 'U' :: rest => hexChar? 8 rest
  | _ => none

/-- A text in double quotes on one line, behind its opening quote. -/
def quotedLine : Nat → List Char → Option (List Char × List Char)
  | 0, _ => none
  | _, [] => none
  | _ + 1, '"' :: rest => some ([], rest)
  | fuel + 1, '\\' :: rest => do
    let (c, rest) ← escape? rest
    let (cs, rest) ← quotedLine fuel rest
    pure (c :: cs, rest)
  | fuel + 1, c :: rest =>
    if isControl c then none
    else do
      let (cs, rest) ← quotedLine fuel rest
      pure (c :: cs, rest)

/-- A text in single quotes on one line, behind its opening quote. -/
def literalLine (cs : List Char) : Option (List Char × List Char) :=
  let body := cs.takeWhile (· != '\'')
  match cs.dropWhile (· != '\'') with
  | _ :: rest => if body.any isControl then none else some (body, rest)
  | [] => none

/-- Three quotes in front that close a text, with up to two quotes before them. -/
def closing? (q : Char) (cs : List Char) : Option (List Char × List Char) :=
  let run := (cs.takeWhile (· == q)).take 5
  if 3 ≤ run.length then some (run.drop 3, cs.drop run.length) else none

/-- A text of several lines behind its opening quotes. -/
def manyLines (q : Char) : Nat → List Char → Option (List Char × List Char)
  | 0, _ => none
  | _, [] => none
  | fuel + 1, c :: rest =>
    match closing? q (c :: rest) with
    | some closed => some closed
    | none =>
      if c = '\\' ∧ q = '"' then
        match lineBreak? (skipBlanks rest) with
        | some _ =>
          manyLines q fuel (rest.dropWhile fun c => c == ' ' || c == '\t' || c == '\n' || c == '\r')
        | none => do
          let (e, rest) ← escape? rest
          let (cs, rest) ← manyLines q fuel rest
          pure (e :: cs, rest)
      else
        match lineBreak? (c :: rest) with
        | some rest => do
          let (cs, rest) ← manyLines q fuel rest
          pure ('\n' :: cs, rest)
        | none =>
          if isControl c then none
          else do
            let (cs, rest) ← manyLines q fuel rest
            pure (c :: cs, rest)

/-- A text in any of its four spellings. -/
def text? (cs : List Char) : Option (String × List Char) :=
  let fuel := cs.length + 1
  let named (r : Option (List Char × List Char)) : Option (String × List Char) :=
    r.map fun (body, rest) => (String.ofList body, rest)
  match cs with
  | '"' :: '"' :: '"' :: rest => named (manyLines '"' fuel ((lineBreak? rest).getD rest))
  | '\'' :: '\'' :: '\'' :: rest => named (manyLines '\'' fuel ((lineBreak? rest).getD rest))
  | '"' :: rest => named (quotedLine fuel rest)
  | '\'' :: rest => named (literalLine rest)
  | _ => none

/-- Characters of a key without quotes. -/
def isBare (c : Char) : Bool := isAsciiLetter c || isAsciiDigit c || c == '_' || c == '-'

def keyPart? (cs : List Char) : Option (String × List Char) :=
  match cs with
  | '"' :: rest =>
    (quotedLine (cs.length + 1) rest).map fun (body, rest) => (String.ofList body, rest)
  | '\'' :: rest => (literalLine rest).map fun (body, rest) => (String.ofList body, rest)
  | cs =>
    let body := cs.takeWhile isBare
    if body.isEmpty then none else some (String.ofList body, cs.dropWhile isBare)

/-- A key of parts with dots between them. -/
def key? : Nat → List Char → Option (List String × List Char)
  | 0, _ => none
  | fuel + 1, cs => do
    let (part, rest) ← keyPart? (skipBlanks cs)
    match skipBlanks rest with
    | '.' :: more => do
      let (parts, rest) ← key? fuel more
      pure (part :: parts, rest)
    | rest => some ([part], rest)

/-- Characters of a scalar. -/
def isScalarChar (c : Char) : Bool :=
  isAsciiLetter c || isAsciiDigit c || c == '+' || c == '-' || c == '_' || c == '.' || c == ':'

/-- A scalar in front. A date and a time may stand apart by a space. -/
def scalarText (cs : List Char) : List Char × List Char :=
  let first := cs.takeWhile isScalarChar
  let rest := cs.dropWhile isScalarChar
  match rest with
  | ' ' :: d :: more =>
    if dateField? first == some [] && isAsciiDigit d then
      (first ++ ' ' :: (d :: more).takeWhile isScalarChar, (d :: more).dropWhile isScalarChar)
    else (first, rest)
  | _ => (first, rest)

mutual
def value? : Nat → List Char → Option (Toml × List Char)
  | 0, _ => none
  | fuel + 1, cs =>
    match cs with
    | '"' :: _ => (text? cs).map fun (s, rest) => (.text s, rest)
    | '\'' :: _ => (text? cs).map fun (s, rest) => (.text s, rest)
    | '[' :: rest => (items? fuel rest).map fun (vs, rest) => (.array vs, rest)
    | '\x7b' :: rest => do
      let (pairs, rest) ← pairs? fuel rest
      let entries ← inlineEntries? pairs []
      pure (.inlineTable entries, rest)
    | cs => do
      let (body, rest) := scalarText cs
      pure (← scalar? body, rest)

def items? : Nat → List Char → Option (List Toml × List Char)
  | 0, _ => none
  | fuel + 1, cs => do
    match ← skipLines cs.length cs with
    | ']' :: rest => some ([], rest)
    | cs => do
      let (v, rest) ← value? fuel cs
      match ← skipLines rest.length rest with
      | ']' :: rest => some ([v], rest)
      | ',' :: rest => do
        let (vs, rest) ← items? fuel rest
        pure (v :: vs, rest)
      | _ => none

def pairs? : Nat → List Char → Option (List (List String × Toml) × List Char)
  | 0, _ => none
  | fuel + 1, cs => do
    match ← skipLines cs.length cs with
    | '\x7d' :: rest => some ([], rest)
    | cs => do
      let (keys, rest) ← key? (cs.length + 1) cs
      match rest with
      | '=' :: rest => do
        let (v, rest) ← value? fuel (skipBlanks rest)
        match ← skipLines rest.length rest with
        | '\x7d' :: rest => some ([(keys, v)], rest)
        | ',' :: rest => do
          let (more, rest) ← pairs? fuel rest
          pure ((keys, v) :: more, rest)
        | _ => none
      | _ => none
end

inductive Line where
  | header (keys : List String)
  | listHeader (keys : List String)
  | assignment (keys : List String) (value : Toml)

def line? (cs : List Char) : Option (Line × List Char) :=
  let fuel := cs.length + 1
  match cs with
  | '[' :: '[' :: rest => do
    let (keys, rest) ← key? fuel rest
    match rest with
    | ']' :: ']' :: rest => some (.listHeader keys, ← lineEnd? rest)
    | _ => none
  | '[' :: rest => do
    let (keys, rest) ← key? fuel rest
    match rest with
    | ']' :: rest => some (.header keys, ← lineEnd? rest)
    | _ => none
  | cs => do
    let (keys, rest) ← key? fuel cs
    match rest with
    | '=' :: rest => do
      let (v, rest) ← value? fuel (skipBlanks rest)
      some (.assignment keys v, ← lineEnd? rest)
    | _ => none

def lines? : Nat → List Char → Option (List Line)
  | 0, _ => none
  | fuel + 1, cs => do
    match ← skipLines cs.length cs with
    | [] => some []
    | cs => do
      let (l, rest) ← line? cs
      let ls ← lines? fuel rest
      pure (l :: ls)

/-- The root table after some lines, the last header's keys being `here`. -/
def build? : List Line → List String → Entries → Option Entries
  | [], _, root => some root
  | .header keys :: more, _, root => do
    let root ← changeAt (defineTable (keys.getLast?.getD "")) keys.dropLast root
    build? more keys root
  | .listHeader keys :: more, _, root => do
    let root ← changeAt (defineItem (keys.getLast?.getD "")) keys.dropLast root
    build? more keys root
  | .assignment keys v :: more, here, root => do
    let root ← changeAt (assign v keys) here root
    build? more here root

/-- The root table of a document, a byte order mark in front allowed. -/
def read? (s : String) : Option Entries := do
  let cs := match s.toList with
    | '\ufeff' :: rest => rest
    | cs => cs
  let lines ← lines? (cs.length + 1) cs
  build? lines [] []

def decode {α : Type} (read : Decoder α) (s : String) : Option α := do
  let root ← read? s
  (read (.obj (entryDocuments root))).toOption

end Toml

end LintBridge

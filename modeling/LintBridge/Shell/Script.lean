import LintBridge.Text.Ascii
import LintBridge.Text.Utf8

namespace LintBridge

namespace Shell

/-- A piece of a word. A variable outside quotes is parted at its blanks. -/
inductive Piece where
  | text (chars : List Char)
  | named (name : String) (quoted : Bool)

abbrev Word := List Piece

/-- Where the output of a stream goes, or the input comes from. -/
inductive Redirect where
  /-- To where another stream goes now. -/
  | stream (source target : Nat)
  /-- Into a file. -/
  | file (source : Nat) (behind : Bool) (name : Word)
  /-- Out of a file. -/
  | input (name : Word)

structure Simple where
  words : List Word
  redirects : List Redirect

/-- When a pipeline runs, given the outcome of the one before it. -/
inductive Link where
  | always
  | onSuccess
  | onFailure

/-- A script: pipelines in their order. -/
abbrev Script := List (Link × List Simple)

inductive Token where
  | word (w : Word)
  | stream (source target : Nat)
  | file (source : Nat) (behind : Bool)
  | input
  | pipe
  | link (l : Link)

def isGap (c : Char) : Bool := c == ' ' || c == '\t'

/-- Whether a character may belong to the name of a variable. -/
def isNameChar (c : Char) : Bool := isAsciiLetter c || isAsciiDigit c || c == '_'

/-- The name of a variable at the front of the text behind its sign, and what follows. -/
def variableName : List Char → Option (String × List Char)
  | '\x7b' :: rest =>
    match rest.dropWhile (· != '\x7d') with
    | _ :: after => some (String.ofList (rest.takeWhile (· != '\x7d')), after)
    | [] => none
  | c :: rest =>
    if "$?#@*0123456789".toList.contains c then some (String.singleton c, rest)
    else
      match (c :: rest).takeWhile isNameChar with
      | [] => none
      | name => some (String.ofList name, (c :: rest).drop name.length)
  | [] => none

def readQuoted : Nat → List Char → Word × List Char
  | 0, cs => ([], cs)
  | _, [] => ([], [])
  | _, '"' :: rest => ([], rest)
  | fuel + 1, '\\' :: c :: rest =>
    let chars := if "$`\"\\".toList.contains c then [c] else ['\\', c]
    let (w, rest) := readQuoted fuel rest
    (.text chars :: w, rest)
  | fuel + 1, '$' :: rest =>
    match variableName rest with
    | some (name, rest) =>
      let (w, rest) := readQuoted fuel rest
      (.named name true :: w, rest)
    | none =>
      let (w, rest) := readQuoted fuel rest
      (.text ['$'] :: w, rest)
  | fuel + 1, c :: rest =>
    let (w, rest) := readQuoted fuel rest
    (.text [c] :: w, rest)

/-- Read a word up to the blank or sign that ends it. -/
def readWord : Nat → List Char → Word × List Char
  | 0, cs => ([], cs)
  | _, [] => ([], [])
  | fuel + 1, c :: rest =>
    if isGap c || "\n;|&<>".toList.contains c then ([], c :: rest)
    else
      match c, rest with
      | '\'', rest =>
        let (w, after) := readWord fuel (rest.dropWhile (· != '\'')).tail
        (.text (rest.takeWhile (· != '\'')) :: w, after)
      | '"', rest =>
        let (quoted, rest) := readQuoted fuel rest
        let (w, rest) := readWord fuel rest
        (.text [] :: quoted ++ w, rest)
      | '\\', d :: rest =>
        let (w, rest) := readWord fuel rest
        (.text [d] :: w, rest)
      | '$', rest =>
        match variableName rest with
        | some (name, rest) =>
          let (w, rest) := readWord fuel rest
          (.named name false :: w, rest)
        | none =>
          let (w, rest) := readWord fuel rest
          (.text ['$'] :: w, rest)
      | c, rest =>
        let (w, rest) := readWord fuel rest
        (.text [c] :: w, rest)

/-- Read what follows the sign that sends a stream elsewhere. -/
def readTarget (source : Nat) : List Char → Token × List Char
  | '&' :: c :: rest => (.stream source ((hexValue? c).getD 1), rest)
  | '>' :: rest => (.file source true, rest)
  | rest => (.file source false, rest)

def tokens : Nat → List Char → List Token
  | 0, _ => []
  | _, [] => []
  | fuel + 1, c :: rest =>
    if isGap c then tokens fuel rest
    else
      match c, rest with
      | '\n', rest => .link .always :: tokens fuel rest
      | ';', rest => .link .always :: tokens fuel rest
      | '#', rest => tokens fuel (rest.dropWhile (· != '\n'))
      | '|', '|' :: rest => .link .onFailure :: tokens fuel rest
      | '&', '&' :: rest => .link .onSuccess :: tokens fuel rest
      | '|', rest => .pipe :: tokens fuel rest
      | '<', rest => .input :: tokens fuel rest
      | '>', rest =>
        let (t, rest) := readTarget 1 rest
        t :: tokens fuel rest
      | '1', '>' :: rest =>
        let (t, rest) := readTarget 1 rest
        t :: tokens fuel rest
      | '2', '>' :: rest =>
        let (t, rest) := readTarget 2 rest
        t :: tokens fuel rest
      | c, rest =>
        let (w, after) := readWord fuel (c :: rest)
        if w.isEmpty then tokens fuel rest else .word w :: tokens fuel after

/-- Put a command together from tokens: `words` and `redirects` hold what was read of it, the
last one first. -/
def commandOf (words : List Word) (redirects : List Redirect) : List Simple :=
  if words.isEmpty && redirects.isEmpty then [] else [⟨words.reverse, redirects.reverse⟩]

/-- Put tokens together: `link` and `pipeline` belong to the pipeline being read. -/
def build (link : Link) (pipeline : List Simple) (words : List Word) (redirects : List Redirect) :
    List Token → Script
  | [] =>
    match pipeline ++ commandOf words redirects with
    | [] => []
    | commands => [(link, commands)]
  | .word w :: rest => build link pipeline (w :: words) redirects rest
  | .stream a b :: rest => build link pipeline words (.stream a b :: redirects) rest
  | .file a behind :: .word w :: rest =>
    build link pipeline words (.file a behind w :: redirects) rest
  | .file _ _ :: rest => build link pipeline words redirects rest
  | .input :: .word w :: rest => build link pipeline words (.input w :: redirects) rest
  | .input :: rest => build link pipeline words redirects rest
  | .pipe :: rest => build link (pipeline ++ commandOf words redirects) [] [] rest
  | .link next :: rest =>
    match pipeline ++ commandOf words redirects with
    | [] => build link [] [] [] rest
    | commands => (link, commands) :: build next [] [] [] rest

/-- What a word that sets a variable sets: its name, and the value behind the sign. -/
def assignmentFrom (name : List Char) : Word → Option (String × Word)
  | .text ['='] :: value => if name.isEmpty then none else some (String.ofList name, value)
  | .text [c] :: rest =>
    if isNameChar c && !(name.isEmpty && isAsciiDigit c) then assignmentFrom (name ++ [c]) rest
    else none
  | _ => none

/-- What a word sets, if it is one that sets a variable. -/
def assignment? (w : Word) : Option (String × Word) := assignmentFrom [] w

def parse (s : String) : Script :=
  build .always [] [] [] (tokens (s.toList.length + 1) s.toList)

end Shell

end LintBridge

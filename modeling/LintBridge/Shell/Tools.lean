import LintBridge.Files.Basic
import LintBridge.Text.Blank

namespace LintBridge

namespace Shell

/-- Bytes that flow from one command to the next. -/
inductive Flow where
  | finite (bytes : Bytes)
  /-- A pattern again and again, without an end. -/
  | endless (pattern : Bytes)

namespace Flow

def none : Flow := .finite []

def append : Flow → Flow → Flow
  | .finite a, .finite b => .finite (a ++ b)
  | .finite a, .endless p => if a.isEmpty then .endless p else .endless (a ++ p)
  | .endless p, _ => .endless p

def map (f : UInt8 → UInt8) : Flow → Flow
  | .finite bs => .finite (bs.map f)
  | .endless p => .endless (p.map f)

def take (n : Nat) : Flow → Bytes
  | .finite bs => bs.take n
  | .endless [] => []
  | .endless (b :: bs) =>
    ((List.replicate (n / (bs.length + 1) + 1) (b :: bs)).flatten).take n

end Flow

structure Effect where
  out : Flow
  err : Bytes
  status : Nat

def Effect.wrote (out : Bytes) : Effect := ⟨.finite out, [], 0⟩

def Effect.failed (status : Nat) (message : String) : Effect :=
  ⟨.none, if message.isEmpty then [] else utf8 (message ++ "\n"), status⟩

/-- The byte of up to three octal digits at the front of a text, and what follows. -/
def octalByte (cs : List Char) : UInt8 × List Char :=
  let digits := (cs.take 3).takeWhile fun c => '0' ≤ c && c ≤ '7'
  let value : Nat := digits.foldl (fun n c => 8 * n + (c.toNat - 48)) 0
  (value.toUInt8, cs.drop digits.length)

/-- The bytes of a text with escapes behind backslashes. -/
def unescape : Nat → List Char → Bytes
  | 0, _ => []
  | _, [] => []
  | fuel + 1, '\\' :: c :: rest =>
    if '0' ≤ c && c ≤ '7' then
      let (b, rest) := octalByte (c :: rest)
      b :: unescape fuel rest
    else
      match c with
      | 'n' => 0x0a :: unescape fuel rest
      | 't' => 0x09 :: unescape fuel rest
      | 'r' => 0x0d :: unescape fuel rest
      | 'a' => 0x07 :: unescape fuel rest
      | 'b' => 0x08 :: unescape fuel rest
      | 'f' => 0x0c :: unescape fuel rest
      | 'v' => 0x0b :: unescape fuel rest
      | '\\' => 0x5c :: unescape fuel rest
      | c => 0x5c :: utf8Char c ++ unescape fuel rest
  | fuel + 1, c :: rest => utf8Char c ++ unescape fuel rest

def unescaped (cs : List Char) : Bytes := unescape (cs.length + 1) cs

/-- Write arguments as a format says, once. Tells what is left of the arguments. -/
def formatOnce : Nat → List Char → List String → Bytes × List String
  | 0, _, args => ([], args)
  | _, [], args => ([], args)
  | fuel + 1, '%' :: '%' :: rest, args =>
    let (out, args) := formatOnce fuel rest args
    (0x25 :: out, args)
  | fuel + 1, '%' :: c :: rest, args =>
    let arg := args.headD (if c == 'd' || c == 'i' then "0" else "")
    let bytes := if c == 'b' then unescaped arg.toList else utf8 arg
    let (out, args) := formatOnce fuel rest args.tail
    (bytes ++ out, args)
  | fuel + 1, '\\' :: c :: rest, args =>
    if '0' ≤ c && c ≤ '7' then
      let (b, rest) := octalByte (c :: rest)
      let (out, args) := formatOnce fuel rest args
      (b :: out, args)
    else
      let (out, args) := formatOnce fuel rest args
      (unescaped ['\\', c] ++ out, args)
  | fuel + 1, c :: rest, args =>
    let (out, args) := formatOnce fuel rest args
    (utf8Char c ++ out, args)

/-- Write arguments as a format says, again and again until none is left. -/
def format (template : List Char) : Nat → List String → Bytes
  | 0, _ => []
  | fuel + 1, args =>
    let (out, left) := formatOnce (template.length + 1) template args
    if left.isEmpty || left.length == args.length then out
    else out ++ format template fuel left

/-- A file that is not to be found in the tree but always there. -/
def device? (p : String) : Option Flow :=
  if p == "/dev/null" then some .none
  else if p == "/dev/zero" then some (.endless [0])
  else none

def readFile (t : FileTree) (p : String) : Except Fault Flow :=
  match device? p with
  | some flow => .ok flow
  | none => (t.read (.ofText p)).map .finite

/-- The wording of a fault in the messages of programs. -/
def plainFault : Fault → String
  | .missing => "No such file or directory"
  | .denied => "Permission denied"
  | .occupied => "File exists"
  | .notDirectory => "Not a directory"
  | .isDirectory => "Is a directory"
  | .nameTooLong => "File name too long"
  | .nulInName => "Invalid argument"
  | .notText => "Invalid argument"

def cat (t : FileTree) (input : Flow) : List String → Effect
  | [] => ⟨.none, [], 0⟩
  | name :: names =>
    let rest := cat t input names
    let found := if name == "-" then .ok input else readFile t name
    match found with
    | .ok flow => { rest with out := flow.append rest.out }
    | .error fault =>
      { rest with
        err := utf8 ("cat: " ++ name ++ ": " ++ plainFault fault ++ "\n") ++ rest.err
        status := 1 }

/-- Write the first bytes of a file or of what flows in. -/
def head (t : FileTree) (input : Flow) : List String → Effect
  | "-c" :: n :: names =>
    let size := (unsigned64? n).getD 0
    match names with
    | [] => .wrote (input.take size)
    | name :: _ =>
      match readFile t name with
      | .ok flow => .wrote (flow.take size)
      | .error fault =>
        .failed 1 ("head: cannot open '" ++ name ++ "' for reading: " ++ plainFault fault)
  | _ => .wrote (input.take 8192)

/-- Put bytes in the place of others, by their positions in two sets. -/
def substitute (input : Flow) (source target : String) : Effect :=
  let froms := unescaped source.toList
  let tos := unescaped target.toList
  let change (b : UInt8) : UInt8 :=
    match froms.idxOf? b with
    | some i => tos.getD i (tos.getLast?.getD b)
    | none => b
  ⟨input.map change, [], 0⟩

def condition (t : FileTree) : List String → Bool
  | [] => false
  | [a] => !a.isEmpty
  | ["!", a] => a.isEmpty
  | ["-n", a] => !a.isEmpty
  | ["-z", a] => a.isEmpty
  | ["-e", p] => t.existsAt (.ofText p)
  | ["-f", p] => t.isFile (.ofText p)
  | ["-d", p] => t.isDirectory (.ofText p)
  | [a, "=", b] => a == b
  | [a, "!=", b] => a != b
  | [a, "-eq", b] => signed64? a == signed64? b
  | [a, "-ne", b] => signed64? a != signed64? b
  | _ => false

def quiet (ok : Bool) : Effect := ⟨.none, [], if ok then 0 else 1⟩

def spaced (args : List String) : List Char := (" ".intercalate args).toList

/-- The programs by name; none if there is no such program. -/
def tool? (t : FileTree) (name : String) (args : List String) (input : Flow) : Option Effect :=
  match name, args with
  | "true", _ => some (quiet true)
  | ":", _ => some (quiet true)
  | "false", _ => some (quiet false)
  | "sleep", _ => some (quiet true)
  | "echo", "-n" :: args => some (.wrote (unescaped (spaced args)))
  | "echo", args => some (.wrote (unescaped (spaced args) ++ [0x0a]))
  | "printf", template :: args =>
    some (.wrote (format template.toList (args.length + 1) args))
  | "cat", [] => some ⟨input, [], 0⟩
  | "cat", names => some (cat t input names)
  | "head", args => some (head t input args)
  | "tr", [source, target] => some (substitute input source target)
  | "yes", [] => some ⟨.endless [0x79, 0x0a], [], 0⟩
  | "yes", args => some ⟨.endless (utf8Chars (spaced args) ++ [0x0a]), [], 0⟩
  | "pwd", _ => some (.wrote (Path.slash :: Path.unsplit t.here ++ [0x0a]))
  | "test", args => some (quiet (condition t args))
  | "[", args => some (quiet (condition t args.dropLast))
  | _, _ => none

end Shell

end LintBridge

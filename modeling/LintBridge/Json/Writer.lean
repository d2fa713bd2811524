import LintBridge.Json.Basic
import LintBridge.Text.Ascii

namespace LintBridge

namespace Json

/-- The escaped form of a character inside a quoted text. -/
def escapeChar (c : Char) : List Char :=
  match c with
  | '"' => ['\\', '"']
  | '\\' => ['\\', '\\']
  | '\x08' => ['\\', 'b']
  | '\x0c' => ['\\', 'f']
  | '\n' => ['\\', 'n']
  | '\r' => ['\\', 'r']
  | '\t' => ['\\', 't']
  | c =>
    if c.toNat < 0x20 then
      ['\\', 'u', '0', '0', hexDigit (c.toNat / 16), hexDigit (c.toNat % 16)]
    else [c]

def quoteChars (s : String) : List Char := '"' :: (s.toList.flatMap escapeChar ++ ['"'])

def intChars : Int → List Char
  | .ofNat n => Binary64.digitChars n
  | .negSucc n => '-' :: Binary64.digitChars (n + 1)

def numberChars : Number → List Char
  | .int i => intChars i
  | .float x => x.jsonChars

mutual
/-- A value without any blank. -/
def compactChars : Json → List Char
  | .null => ['n', 'u', 'l', 'l']
  | .bool true => ['t', 'r', 'u', 'e']
  | .bool false => ['f', 'a', 'l', 's', 'e']
  | .num n => numberChars n
  | .str s => quoteChars s
  | .arr [] => ['[', ']']
  | .arr (v :: vs) => '[' :: (compactChars v ++ compactItems vs)
  | .obj [] => ['{', '}']
  | .obj ((name, v) :: fs) =>
    '{' :: (quoteChars name ++ ':' :: (compactChars v ++ compactFields fs))

/-- The items of an array behind the first, and the closing bracket. -/
def compactItems : List Json → List Char
  | [] => [']']
  | v :: vs => ',' :: (compactChars v ++ compactItems vs)

/-- The fields of an object behind the first, and the closing brace. -/
def compactFields : List (String × Json) → List Char
  | [] => ['}']
  | (name, v) :: fs => ',' :: (quoteChars name ++ ':' :: (compactChars v ++ compactFields fs))
end

/-- The text of a value without any blank. -/
def compact (v : Json) : String := String.ofList (compactChars v)

/-- A line break and the indentation of a level. -/
def newline (level : Nat) : List Char := '\n' :: List.replicate (2 * level) ' '

mutual
/-- A value whose first line stands at a level of indentation. -/
def prettyChars (level : Nat) : Json → List Char
  | .null => ['n', 'u', 'l', 'l']
  | .bool true => ['t', 'r', 'u', 'e']
  | .bool false => ['f', 'a', 'l', 's', 'e']
  | .num n => numberChars n
  | .str s => quoteChars s
  | .arr [] => ['[', ']']
  | .arr (v :: vs) =>
    '[' :: (newline (level + 1) ++ prettyChars (level + 1) v ++ prettyItems level vs)
  | .obj [] => ['{', '}']
  | .obj ((name, v) :: fs) =>
    '{' :: (newline (level + 1) ++ quoteChars name ++ ':' :: ' ' ::
      (prettyChars (level + 1) v ++ prettyFields level fs))

def prettyItems (level : Nat) : List Json → List Char
  | [] => newline level ++ [']']
  | v :: vs =>
    ',' :: (newline (level + 1) ++ prettyChars (level + 1) v ++ prettyItems level vs)

def prettyFields (level : Nat) : List (String × Json) → List Char
  | [] => newline level ++ ['}']
  | (name, v) :: fs =>
    ',' :: (newline (level + 1) ++ quoteChars name ++ ':' :: ' ' ::
      (prettyChars (level + 1) v ++ prettyFields level fs))
end

/-- The text of a value with one item a line. -/
def pretty (v : Json) : String := String.ofList (prettyChars 0 v)

end Json

end LintBridge

import LintBridge.Path

namespace LintBridge

/-- The variables of a process. -/
structure Environment where
  bindings : List (String × Bytes)

namespace Environment

def bytes? (env : Environment) (name : String) : Option Bytes :=
  (env.bindings.find? fun v => v.1 == name).map (·.2)

/-- The text of a variable, empty if it is unset or not well-formed UTF-8. -/
def text (env : Environment) (name : String) : List Char :=
  if name.isEmpty then [] else ((env.bytes? name).bind utf8Chars?).getD []

/-- Expand the rest of a text. `group` holds the characters of an open group, last one first. -/
def expandFrom (env : Environment) : (group : Option (List Char)) → List Char → List Char
  | none, '$' :: '\x7b' :: rest => expandFrom env (some []) rest
  | none, c :: rest => c :: expandFrom env none rest
  | none, [] => []
  | some name, '\x7d' :: rest =>
    env.text (String.ofList name.reverse) ++ expandFrom env none rest
  | some name, c :: rest => expandFrom env (some (c :: name)) rest
  | some name, [] => '$' :: '\x7b' :: name.reverse

/-- A text with every closed group replaced by its variable. -/
def expand (env : Environment) (s : String) : String :=
  String.ofList (expandFrom env none s.toList)

def home? (env : Environment) : Option Path :=
  ((env.bytes? "HOME").filter fun b => !b.isEmpty).map Path.mk

end Environment

end LintBridge

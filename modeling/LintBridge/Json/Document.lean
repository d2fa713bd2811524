import LintBridge.Json.Basic

namespace LintBridge

/-- A value as written in a JSON text. -/
inductive Document where
  | null
  | bool (b : Bool)
  | num (n : Option Number)
  | str (s : Option String)
  | arr (items : List Document)
  | obj (fields : List (Option String × Document))

namespace Document

instance : Inhabited Document := ⟨.null⟩

/-- The most levels of nesting that a value may have. -/
def maxDepth : Nat := 127

mutual
/-- The value of a document with at most `depth` levels of nesting, if all of it has one. -/
def value? : Nat → Document → Option Json
  | _, .null => some .null
  | _, .bool b => some (.bool b)
  | _, .num n => n.map .num
  | _, .str s => s.map .str
  | depth + 1, .arr items => (values? depth items).map .arr
  | depth + 1, .obj fields => (fieldValues? depth fields).map Json.object
  | 0, .arr _ => none
  | 0, .obj _ => none

def values? : Nat → List Document → Option (List Json)
  | _, [] => some []
  | depth, d :: ds =>
    match value? depth d, values? depth ds with
    | some v, some vs => some (v :: vs)
    | _, _ => none

def fieldValues? : Nat → List (Option String × Document) → Option (List (String × Json))
  | _, [] => some []
  | depth, (name, d) :: ds =>
    match name, value? depth d, fieldValues? depth ds with
    | some n, some v, some vs => some ((n, v) :: vs)
    | _, _, _ => none
end

mutual
def ofJson : Json → Document
  | .null => .null
  | .bool b => .bool b
  | .num n => .num (some n)
  | .str s => .str (some s)
  | .arr items => .arr (ofItems items)
  | .obj fields => .obj (ofFields fields)

def ofItems : List Json → List Document
  | [] => []
  | v :: vs => ofJson v :: ofItems vs

def ofFields : List (String × Json) → List (Option String × Document)
  | [] => []
  | (name, v) :: vs => (some name, ofJson v) :: ofFields vs
end

end Document

end LintBridge

import LintBridge.Json.Binary64

namespace LintBridge

/-- A number: an integer of 64 bits, with or without a sign, or a double. -/
inductive Number where
  | int (i : Int)
  | float (x : Binary64)
  deriving DecidableEq

inductive Json where
  | null
  | bool (b : Bool)
  | num (n : Number)
  | str (s : String)
  | arr (items : List Json)
  | obj (fields : List (String × Json))

namespace Json

instance : Inhabited Json := ⟨.null⟩

/-- Put a field among fields in ascending order, replacing one of the same name. -/
def insertField {α : Type} (name : String) (value : α) : List (String × α) → List (String × α)
  | [] => [(name, value)]
  | (n, v) :: rest =>
    if name < n then (name, value) :: (n, v) :: rest
    else if name = n then (name, value) :: rest
    else (n, v) :: insertField name value rest

/-- Fields in ascending order of their names, the last one of a name winning. -/
def sortFields {α : Type} (fields : List (String × α)) : List (String × α) :=
  fields.foldl (fun sorted field => insertField field.1 field.2 sorted) []

def object (fields : List (String × Json)) : Json := .obj (sortFields fields)

def int (i : Int) : Json := .num (.int i)

def nat (n : Nat) : Json := .num (.int n)

/-- A text, or null in its absence. -/
def optionalText : Option String → Json
  | some s => .str s
  | none => .null

/-- The field of an object; none for other values. -/
def field? (name : String) : Json → Option Json
  | .obj fields => (fields.find? fun f => f.1 == name).map (·.2)
  | _ => none

def text? : Json → Option String
  | .str s => some s
  | _ => none

/-- The number of an integer without a sign. -/
def natural? : Json → Option Nat
  | .num (.int (.ofNat n)) => some n
  | _ => none

def isNull : Json → Bool
  | .null => true
  | _ => false

end Json

end LintBridge

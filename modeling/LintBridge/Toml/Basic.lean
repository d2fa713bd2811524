import LintBridge.Json.Document

namespace LintBridge

/-- How a table came to be. -/
inductive TableOrigin where
  /-- Only named on the way to another table. -/
  | implied
  /-- By a header of its own. -/
  | header
  /-- By a dotted key. -/
  | dotted
  deriving DecidableEq

/-- A value in TOML. Floats and dates are kept apart by kind alone. -/
inductive Toml where
  | text (s : String)
  | integer (i : Int)
  | float
  | boolean (b : Bool)
  | date
  | array (items : List Toml)
  | inlineTable (entries : List (String × Toml))
  | table (origin : TableOrigin) (entries : List (String × Toml))
  | tables (items : List (List (String × Toml)))

namespace Toml

abbrev Entries := List (String × Toml)

def lookup? (key : String) (entries : Entries) : Option Toml :=
  (entries.find? fun e => e.1 == key).map (·.2)

/-- Put a value under a key, in place of the one that is there. -/
def put (key : String) (value : Toml) : Entries → Entries
  | [] => [(key, value)]
  | (k, v) :: rest => if k = key then (k, value) :: rest else (k, v) :: put key value rest

def changeLast (change : Entries → Option Entries) : List Entries → Option (List Entries)
  | [] => none
  | [last] => (change last).map fun last => [last]
  | first :: rest => (changeLast change rest).map (first :: ·)

/-- Change the table that a header's keys lead to, tables on the way being implied. -/
def changeAt (change : Entries → Option Entries) : List String → Entries → Option Entries
  | [], entries => change entries
  | key :: more, entries =>
    match lookup? key entries with
    | none => (changeAt change more []).map fun t => put key (.table .implied t) entries
    | some (.table origin inner) =>
      (changeAt change more inner).map fun t => put key (.table origin t) entries
    | some (.tables items) =>
      (changeLast (changeAt change more) items).map fun ts => put key (.tables ts) entries
    | some _ => none

/-- Define the table of a header among the entries beside it. -/
def defineTable (key : String) (entries : Entries) : Option Entries :=
  match lookup? key entries with
  | none => some (put key (.table .header []) entries)
  | some (.table .implied inner) => some (put key (.table .header inner) entries)
  | some _ => none

/-- Start a further table of a list. -/
def defineItem (key : String) (entries : Entries) : Option Entries :=
  match lookup? key entries with
  | none => some (put key (.tables [[]]) entries)
  | some (.tables items) => some (put key (.tables (items ++ [[]])) entries)
  | some _ => none

/-- Put a value under dotted keys. -/
def assign (value : Toml) : List String → Entries → Option Entries
  | [], _ => none
  | [key], entries =>
    match lookup? key entries with
    | none => some (put key value entries)
    | some _ => none
  | key :: more, entries =>
    match lookup? key entries with
    | none => (assign value more []).map fun t => put key (.table .dotted t) entries
    | some (.table .header _) => none
    | some (.table origin inner) =>
      (assign value more inner).map fun t => put key (.table origin t) entries
    | some _ => none

/-- The entries of an inline table from its dotted keys and values. -/
def inlineEntries? : List (List String × Toml) → Entries → Option Entries
  | [], entries => some entries
  | (keys, value) :: more, entries => (assign value keys entries).bind (inlineEntries? more)

mutual
def toDocument : Toml → Document
  | .text s => .str (some s)
  | .integer i => .num (some (.int i))
  | .float => .num (some (.float ⟨false, 0⟩))
  | .boolean b => .bool b
  | .date => .obj [(some "$date", .str (some ""))]
  | .array items => .arr (itemDocuments items)
  | .inlineTable entries => .obj (entryDocuments entries)
  | .table _ entries => .obj (entryDocuments entries)
  | .tables items => .arr (tableDocuments items)

def itemDocuments : List Toml → List Document
  | [] => []
  | v :: vs => toDocument v :: itemDocuments vs

def entryDocuments : List (String × Toml) → List (Option String × Document)
  | [] => []
  | (key, v) :: vs => (some key, toDocument v) :: entryDocuments vs

def tableDocuments : List (List (String × Toml)) → List Document
  | [] => []
  | t :: ts => .obj (entryDocuments t) :: tableDocuments ts
end

end Toml

end LintBridge

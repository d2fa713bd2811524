import LintBridge.Json.Reader
import LintBridge.Json.Writer
import LintBridge.Text.Quoted

namespace LintBridge

/-- What a decoder found where it wanted something else. -/
inductive Met where
  | null
  | bool (b : Bool)
  | integer (i : Int)
  | float (x : Binary64)
  | text (s : String)
  | sequence
  | map

inductive DecodeError where
  | unexpected (met : Met) (wanted : String)
  | outOfRange (i : Int) (wanted : String)
  | unknownVariant (name : String) (known : List String)
  | unknownStatus (code : Nat)
  | tooShort (length : Nat) (shape : String) (size : Nat)
  | tooLong (length : Nat)
  | missing (field : String)
  | repeated (field : String)
  | manyKeys
  | noAlternative
  | unreadable

namespace Met

def wording : Met → String
  | null => "null"
  | bool b => "boolean `" ++ (if b then "true" else "false") ++ "`"
  | integer i => "integer `" ++ String.ofList (Json.intChars i) ++ "`"
  | float x => "floating point `" ++ String.ofList x.plainChars ++ "`"
  | text s => "string " ++ shownText s
  | sequence => "sequence"
  | map => "map"

end Met

namespace DecodeError

/-- A list of alternatives, each between backticks. -/
def oneOf : List String → String
  | [] => ""
  | [a] => "`" ++ a ++ "`"
  | [a, b] => "`" ++ a ++ "` or `" ++ b ++ "`"
  | names => "one of " ++ ", ".intercalate (names.map fun n => "`" ++ n ++ "`")

def message : DecodeError → String
  | unexpected met wanted => "invalid type: " ++ met.wording ++ ", expected " ++ wanted
  | outOfRange i wanted =>
    "invalid value: integer `" ++ String.ofList (Json.intChars i) ++ "`, expected " ++ wanted
  | unknownVariant name known => "unknown variant `" ++ name ++ "`, expected " ++ oneOf known
  | unknownStatus code => "unknown status code: " ++ toString code
  | tooShort length shape size =>
    "invalid length " ++ toString length ++ ", expected struct " ++ shape ++ " with " ++
      toString size ++ (if size = 1 then " element" else " elements")
  | tooLong length =>
    "invalid length " ++ toString length ++ ", expected fewer elements in array"
  | missing field => "missing field `" ++ field ++ "`"
  | repeated field => "duplicate field `" ++ field ++ "`"
  | manyKeys => "invalid value: map, expected map with a single key"
  | noAlternative => "data did not match any variant"
  | unreadable => "unreadable value"

end DecodeError

/-- A reader of documents of one shape. -/
abbrev Decoder (α : Type) := Document → Except DecodeError α

namespace Document

/-- What a document is, for an error message; none if it stands for no value. -/
def met? : Document → Option Met
  | .null => some .null
  | .bool b => some (.bool b)
  | .num n => n.map fun
    | .int i => .integer i
    | .float x => .float x
  | .str s => s.map .text
  | .arr _ => some .sequence
  | .obj _ => some .map

def mismatch {α : Type} (wanted : String) (d : Document) : Except DecodeError α :=
  match d.met? with
  | some met => .error (.unexpected met wanted)
  | none => .error .unreadable

end Document

namespace Decoder

def text : Decoder String
  | .str (some s) => .ok s
  | d => d.mismatch "a string"

def boolean : Decoder Bool
  | .bool b => .ok b
  | d => d.mismatch "a boolean"

/-- An integer between two bounds. -/
def integer (wanted : String) (least most : Int) : Decoder Int
  | .num (some (.int i)) =>
    if least ≤ i ∧ i ≤ most then .ok i else .error (.outOfRange i wanted)
  | d => d.mismatch wanted

def int64 : Decoder Int := integer "i64" (-0x8000000000000000) 0x7fffffffffffffff

def nat8 : Decoder Nat := fun d => (integer "u8" 0 0xff d).map Int.toNat

def nat32 : Decoder Nat := fun d => (integer "u32" 0 0xffffffff d).map Int.toNat

def nat64 : Decoder Nat := fun d => (integer "u64" 0 0xffffffffffffffff d).map Int.toNat

/-- Null for nothing, else what another decoder reads. -/
def nullable {α : Type} (read : Decoder α) : Decoder (Option α)
  | .null => .ok none
  | d => (read d).map some

def list {α : Type} (read : Decoder α) : Decoder (List α)
  | .arr items => items.mapM read
  | d => d.mismatch "a sequence"

/-- Any value with at most `depth` levels of nesting. -/
def value (depth : Nat) : Decoder Json := fun d =>
  match d.value? depth with
  | some v => .ok v
  | none => .error .unreadable

/-- The first alternative that reads the document; one that has no value fits none. -/
def either {α : Type} (depth : Nat) (first second : Decoder α) : Decoder α := fun d =>
  if (d.value? depth).isNone then .error .unreadable
  else
    match first d with
    | .ok a => .ok a
    | .error _ =>
      match second d with
      | .ok a => .ok a
      | .error _ => .error .noAlternative

/-- One of several names, alone or as the only key of an object whose value is null. -/
def variant {α : Type} (table : List (String × α)) : Decoder α := fun d =>
  let named (name : String) : Except DecodeError α :=
    match table.find? fun entry => entry.1 == name with
    | some entry => .ok entry.2
    | none => .error (.unknownVariant name (table.map (·.1)))
  match d with
  | .str (some name) => named name
  | .obj [(some name, inner)] => do
    let a ← named name
    match inner with
    | .null => .ok a
    | inner => inner.mismatch "unit"
  | .obj _ => .error .manyKeys
  | d => d.mismatch "string or map"

end Decoder

/-- What a missing field means. -/
inductive Absent (β : Type) where
  /-- An error. -/
  | required
  /-- A value where an object leaves the field out, an error where an array is too short. -/
  | named (b : β)
  /-- A value everywhere. -/
  | always (b : β)

/-- The fields of a structure, each with its reader and with what was read for it so far. -/
inductive Record : Type → Type 1 where
  | build {α : Type} (a : α) : Record α
  | field {α β : Type} (before : Record (β → α)) (name : String) (read : Decoder β)
      (absent : Absent β) (found : Option β) : Record α

namespace Record

/-- A further field that has to be there. -/
def required {α β : Type} (before : Record (β → α)) (name : String) (read : Decoder β) :
    Record α := .field before name read .required none

/-- A further field that may be null or, in an object, missing. -/
def nullable {α β : Type} (before : Record (Option β → α)) (name : String) (read : Decoder β) :
    Record α := .field before name (Decoder.nullable read) (.named none) none

/-- A further field that may be null or missing. -/
def optional {α β : Type} (before : Record (Option β → α)) (name : String) (read : Decoder β) :
    Record α := .field before name (Decoder.nullable read) (.always none) none

/-- A further field with a value for its absence. -/
def defaulted {α β : Type} (before : Record (β → α)) (name : String) (read : Decoder β)
    (value : β) : Record α := .field before name read (.always value) none

def size : {α : Type} → Record α → Nat
  | _, .build _ => 0
  | _, .field before _ _ _ _ => before.size + 1

/-- Take one field of an object in; none if the record does not know it. -/
def feed : {α : Type} → Record α → String → Document → Except DecodeError (Option (Record α))
  | _, .build _, _, _ => .ok none
  | _, .field before known read absent found, name, d =>
    if known = name then
      match found with
      | some _ => .error (.repeated name)
      | none => (read d).map fun b => some (.field before known read absent (some b))
    else (before.feed name d).map fun fed =>
      fed.map fun before => .field before known read absent found

/-- Take the fields of an object in, in their order, passing over unknown ones. -/
def feedAll {α : Type} : Record α → List (Option String × Document) → Except DecodeError (Record α)
  | r, [] => .ok r
  | _, (none, _) :: _ => .error .unreadable
  | r, (some name, d) :: rest =>
    match r.feed name d with
    | .error e => .error e
    | .ok none => r.feedAll rest
    | .ok (some r) => r.feedAll rest

/-- The structure of the fields found, the first missing one deciding an error. -/
def finish : {α : Type} → Record α → Except DecodeError α
  | _, .build a => .ok a
  | _, .field before name _ absent found => do
    let make ← before.finish
    match found, absent with
    | some b, _ => .ok (make b)
    | none, .required => .error (.missing name)
    | none, .named b => .ok (make b)
    | none, .always b => .ok (make b)

/-- The structure of fields given by position, and the items behind them. -/
def place (shape : String) (total : Nat) :
    {α : Type} → Record α → List Document → Except DecodeError (α × List Document)
  | _, .build a, items => .ok (a, items)
  | _, .field before _ read absent _, items => do
    let (make, items) ← before.place shape total items
    match items, absent with
    | d :: rest, _ => (read d).map fun b => (make b, rest)
    | [], .always b => .ok (make b, [])
    | [], _ => .error (.tooShort before.size shape total)

/-- The decoder of a structure under its name. -/
def decoder {α : Type} (shape : String) (r : Record α) : Decoder α
  | .obj fields =>
    match r.feedAll fields with
    | .ok r => r.finish
    | .error e => .error e
  | .arr items => do
    let (a, rest) ← r.place shape r.size items
    if rest.isEmpty then .ok a else .error (.tooLong items.length)
  | d => d.mismatch ("struct " ++ shape)

end Record

def Json.decode {α : Type} (read : Decoder α) (v : Json) : Except DecodeError α :=
  read (Document.ofJson v)

def decodeText {α : Type} (read : Decoder α) (s : String) : Except DecodeError α :=
  match Document.read? s with
  | some d => read d
  | none => .error .unreadable

end LintBridge

import LintBridge.Json.Record
import LintBridge.Text.Blank

namespace LintBridge

/-- A reason to analyze. -/
inductive Trigger where
  | none
  | force
  | onStart
  | onOpen
  | onType
  | onSave
  deriving DecidableEq, Repr

/-- A trigger name that is not known, as it was given. -/
structure UnknownTrigger where
  name : String

def UnknownTrigger.message (e : UnknownTrigger) : String := "unknown run trigger: " ++ e.name

namespace Trigger

def all : List Trigger := [.none, .force, .onStart, .onOpen, .onType, .onSave]

def name : Trigger → String
  | none => "none"
  | force => "force"
  | onStart => "onStart"
  | onOpen => "onOpen"
  | onType => "onType"
  | onSave => "onSave"

/-- The triggers allowed where nothing is configured. -/
def defaults : List Trigger := [.onOpen, .onSave]

/-- The trigger with a name, whatever its case and the blanks around it. -/
def parse (s : String) : Except UnknownTrigger Trigger :=
  match all.find? fun t => eqIgnoringAsciiCase t.name (trimBlank s) with
  | some t => .ok t
  | Option.none => .error ⟨s⟩

/-- The known names of a list, in order. -/
def recognized (names : List String) : List Trigger :=
  names.filterMap fun name => (parse name).toOption

def decoder : Decoder Trigger := Decoder.variant (all.map fun t => (t.name, t))

def toJson (t : Trigger) : Json := .str t.name

end Trigger

end LintBridge

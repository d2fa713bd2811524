import LintBridge.Json.Record
import LintBridge.Path

namespace LintBridge

/-- The name of an operation: a document or project, or one name for all others. -/
structure OperationId where
  text : String
  deriving DecidableEq

namespace OperationId

def system : OperationId := ⟨"_system"⟩

def ofPath (p : Path) : OperationId := ⟨p.display⟩

/-- Whether an operation concerns no document. -/
def isSystem (id : OperationId) : Bool := id == system

def decoder : Decoder OperationId := fun d => (Decoder.text d).map OperationId.mk

end OperationId

inductive Status where
  | progressStart
  | progressEnd
  /-- No engine can be used. -/
  | noCli
  deriving DecidableEq, Repr

structure UnknownStatus where
  code : Nat

def UnknownStatus.message (e : UnknownStatus) : String :=
  "unknown status code: " ++ toString e.code

namespace Status

def all : List Status := [.progressStart, .progressEnd, .noCli]

def code : Status → Nat
  | progressStart => 1
  | progressEnd => 2
  | noCli => 10

def name : Status → String
  | progressStart => "ProgressStart"
  | progressEnd => "ProgressEnd"
  | noCli => "NoCli"

def ofCode (code : Nat) : Except UnknownStatus Status :=
  match all.find? fun s => s.code == code with
  | some s => .ok s
  | none => .error ⟨code⟩

def decoder : Decoder Status := fun d => do
  let code ← Decoder.nat8 d
  match ofCode code with
  | .ok s => .ok s
  | .error e => .error (.unknownStatus e.code)

end Status

end LintBridge

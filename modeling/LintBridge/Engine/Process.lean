import LintBridge.Engine.Command
import LintBridge.Engine.Error

namespace LintBridge

inductive ExitStatus where
  | code (n : Int)
  | killed
  deriving DecidableEq

/-- What is read from a program while it runs. -/
inductive ProcessEvent where
  | out (piece : Bytes)
  | err (piece : Bytes)
  /-- A stream can no longer be read. -/
  | broken (reason : String)

/-- What was read so far. -/
structure Capture where
  out : Bytes
  err : Bytes
  deriving DecidableEq

namespace ExitStatus

/-- The code of a program that was not killed. -/
def code? : ExitStatus → Option Int
  | code n => some n
  | killed => none

def isSuccess (s : ExitStatus) : Bool := s == .code 0

end ExitStatus

namespace Capture

def empty : Capture := ⟨[], []⟩

/-- Put a piece behind what was read, within a limit. -/
def extend (limit : Nat) (read piece : Bytes) : Except EngineError Bytes :=
  if limit < read.length + piece.length then .error (.outputTooLarge limit)
  else .ok (read ++ piece)

def feed (command : Command) (limit : Nat) (c : Capture) :
    ProcessEvent → Except EngineError Capture
  | .out piece => (extend limit c.out piece).map fun out => { c with out }
  | .err piece => (extend limit c.err piece).map fun err => { c with err }
  | .broken reason => .error (.spawn command.display reason)

def feedAll (command : Command) (limit : Nat) :
    Capture → List ProcessEvent → Except EngineError Capture
  | c, [] => .ok c
  | c, event :: events =>
    match c.feed command limit event with
    | .error e => .error e
    | .ok c => feedAll command limit c events

/-- What a run comes to once the program has ended. -/
def conclude (command : Command) (status : ExitStatus) (c : Capture) :
    Except EngineError String :=
  let stderr := utf8Lossy c.err
  if !status.isSuccess || !stderr.isEmpty then
    .error (.process command.display status.code? stderr)
  else .ok (utf8Lossy c.out)

end Capture

namespace Process

def pieceSize : Nat := 8192

/-- Bytes in pieces of the size that is read at a time. -/
def pieces (bs : Bytes) : List Bytes :=
  (List.range ((bs.length + pieceSize - 1) / pieceSize)).map fun i =>
    (bs.drop (i * pieceSize)).take pieceSize

/-- What a run comes to, given the events up to the program's end. -/
def execute (command : Command) (limit : Nat) (events : List ProcessEvent) (status : ExitStatus) :
    Except EngineError String :=
  match Capture.empty.feedAll command limit events with
  | .error e => .error e
  | .ok c => c.conclude command status

end Process

end LintBridge

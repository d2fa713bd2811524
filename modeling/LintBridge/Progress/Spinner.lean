import LintBridge.Progress.Tracker

namespace LintBridge

inductive SpinnerFrames where
  | braille
  | ascii
  /-- No spinner turns. -/
  | none
  deriving DecidableEq

def SpinnerFrames.glyphs : SpinnerFrames → List String
  | braille => ["⠋", "⠙", "⠹", "⠸", "⠼", "⠴", "⠦", "⠧", "⠇", "⠏"]
  | ascii => ["-", "\\", "|", "/"]
  | none => []

/-- A spinner that turns, with the number of frames it has shown, counted in 64 bits. -/
structure Spinner where
  generation : Nat
  frame : Nat
  deriving DecidableEq

namespace Spinner

/-- The number at which the count of frames starts over. -/
def frameLimit : Nat := 0x10000000000000000

/-- The spinner that a call of the tracker starts, if it showed progress and there are frames. -/
def ofTracked? (frames : List String) (t : Tracked) : Option Spinner :=
  if t.changed && t.tracker.visible && !frames.isEmpty then some ⟨t.tracker.generation, 0⟩ else none

/-- The time between two frames for a configured one, in milliseconds. -/
def interval (configured : Nat) : Nat := max configured 1

/-- Whether a spinner belongs to the showing under way. -/
def isCurrent (s : Spinner) (t : Tracker) : Bool := s.generation == t.generation && t.visible

/-- A spinner is due: the frame that it shows and the spinner afterwards, unless it stops. -/
def tick? (frames : List String) (t : Tracker) (s : Spinner) : Option (ProgressEvent × Spinner) :=
  if s.isCurrent t then
    (frames[s.frame % frames.length]?).map fun glyph =>
      (.text glyph, { s with frame := (s.frame + 1) % frameLimit })
  else none

end Spinner

end LintBridge

import LintBridge.Rehearsal.Memo
import LintBridge.Workspace.Site

namespace LintBridge

/-- The key under which a script holds what a command comes to: the mode it is called in, or else
the program and its first argument. -/
def Command.scriptKey (c : Command) : String :=
  match c.args.find? fun a => "--mode=".isPrefixOf a with
  | some a => String.ofList (a.toList.drop 7)
  | none => c.program ++ " " ++ c.args.headD ""

structure Script where
  engine : List (String × List (Cue (Except EngineError String)))
  installer : List (Cue (Except InstallError Path))
  /-- How releases are to be loaded; without it the question has to be answered from outside. -/
  policy : Option InstallPolicy

namespace Script

def engineCue (s : Script) (c : Command) : Cue (Except EngineError String) × Script :=
  let key := c.scriptKey
  match (s.engine.find? fun q => q.1 == key).bind fun q => Cue.take? q.2 with
  | some (cue, rest) =>
    (cue, { s with engine := s.engine.map fun q => if q.1 == key then (key, rest) else q })
  | none => (⟨none, .error (.unavailable "no reply scripted")⟩, s)

def installerCue (s : Script) : Cue (Except InstallError Path) × Script :=
  match Cue.take? s.installer with
  | some (cue, rest) => (cue, { s with installer := rest })
  | none => (⟨none, .error (.httpStatus "https://releases.invalid/cli.zip" 404)⟩, s)

/-- A script whose cues are replaced where another one has some. -/
def replace (s new : Script) : Script where
  engine := new.engine ++ s.engine.filter fun q => !new.engine.any fun n => n.1 == q.1
  installer := if new.installer.isEmpty then s.installer else new.installer
  policy := new.policy.or s.policy

end Script

/-- Who waits for an answer: a task by itself, or all that joined an attempt. -/
inductive Waiter where
  | task (n : Nat)
  | attempt (client : ClientId) (kept : Kept) (n : Nat)
  deriving DecidableEq

structure Pending where
  waiter : Waiter
  token : Token
  cue : Cue Answer
  /-- What comes instead if the token is cancelled before the gate is open. -/
  cut : Answer

/-- What can be put on a stage: something in which numbered tasks go on. -/
class Play (σ : Type) where
  site : σ → Site
  /-- A move of the site, with whatever follows from it at once. -/
  move : σ → Move → σ
  /-- A task goes on that waits for nothing. -/
  advance : σ → Nat → σ
  /-- Whether a task is over. -/
  isOver : σ → Nat → Bool
  /-- What a task waits for. -/
  need? : σ → Nat → Option Need

instance : Play Site where
  site := id
  move := Site.move
  advance s n := s.move (.advance n)
  isOver s n := (s.task? n).isNone || (s.outcome? n).isSome
  need? := Site.need?

structure Stage (σ : Type) where
  play : σ
  script : Script
  opened : List String
  /-- The tasks whose turn comes. -/
  ready : List Nat
  pending : List Pending
  /-- Tasks that wait, with what they wait as. -/
  parked : List (Nat × Waiter)

namespace Stage

variable {σ : Type} [Play σ]

def new (play : σ) (script : Script) : Stage σ := ⟨play, script, [], [], [], []⟩

/-- Whether an answer comes: its gate is open, or it has been cut short. -/
def isDue (s : Stage σ) (p : Pending) : Bool :=
  p.cue.given s.opened ||
    (p.cue.gate.isSome && (Play.site s.play).workspace.isCancelled p.token)

def answerOf (s : Stage σ) (p : Pending) : Answer :=
  if p.cue.gate.isSome && (Play.site s.play).workspace.isCancelled p.token then p.cut
  else p.cue.outcome

/-- Give tasks a turn that are not about to have one. -/
def wake (s : Stage σ) (tasks : List Nat) : Stage σ :=
  { s with
    ready := s.ready ++ tasks.filter fun n => !s.ready.contains n
    parked := s.parked.filter fun p => !tasks.contains p.1 }

def waitingAs (s : Stage σ) (w : Waiter) : List Nat :=
  (s.parked.filter fun p => p.2 == w).map (·.1)

/-- Give a turn to every task whose answer has become due. -/
def wakeDue (s : Stage σ) : Stage σ :=
  s.wake ((s.pending.filter s.isDue).flatMap fun p => s.waitingAs p.waiter)

/-- The answer that a waiter waits for, taken from the script if it is the first time. -/
def expect (s : Stage σ) (w : Waiter) (need : Need) : Stage σ × Option Pending :=
  match s.pending.find? fun p => p.waiter == w with
  | some p => (s, some p)
  | none =>
    let add (script : Script) (p : Pending) : Stage σ × Option Pending :=
      ({ s with script := script, pending := s.pending ++ [p] }, some p)
    let ofEngine (token : Token) (c : Command) : Stage σ × Option Pending :=
      let (cue, script) := s.script.engineCue c
      add script ⟨w, token, ⟨cue.gate, .ran cue.outcome⟩, .ran (.error .cancelled)⟩
    match need with
    | .command token c => ofEngine token c
    | .install token _ =>
      let (cue, script) := s.script.installerCue
      add script ⟨w, token, ⟨cue.gate, .installed cue.outcome⟩, .installed (.error .cancelled)⟩
    | .policy => (s, none)
    | .attempt client kept _ =>
      match (Play.site s.play).attemptCommand? client kept with
      | some (token, c) => ofEngine token c
      | none => (s, none)

/-- Hand an answer over to its waiter. -/
def deliver (s : Stage σ) (w : Waiter) (a : Answer) : Stage σ :=
  let s := { s with pending := s.pending.filter fun p => p.waiter != w }
  match w, a with
  | .task n, a => { s with play := Play.move s.play (.receive n a) }
  | .attempt client kept n, .ran r =>
    { s with play := Play.move s.play (.finish client kept n r) }.wake (s.waitingAs w)
  | .attempt _ _ _, _ => s

/-- The turn of a task: it goes on until it waits for an answer that is not due, or is over. It
has fewer than `fuel` points to pass. -/
def turn (s : Stage σ) (n : Nat) : Nat → Stage σ
  | 0 => s
  | fuel + 1 =>
    if Play.isOver s.play n then s
    else
      match Play.need? s.play n with
      | none => turn { s with play := Play.advance s.play n } n fuel
      | some need =>
        match need, s.script.policy with
        | .policy, some policy =>
          turn { s with play := Play.move s.play (.receive n (.policy policy)) } n fuel
        | _, _ =>
          let w : Waiter := match need with
            | .attempt client kept attempt => .attempt client kept attempt
            | _ => .task n
          match s.expect w need with
          | (s, none) => { s with parked := s.parked ++ [(n, w)] }
          | (s, some p) =>
            if s.isDue p then turn (s.deliver w (s.answerOf p)) n fuel
            else { s with parked := s.parked ++ [(n, w)] }

/-- The points that a task can pass in a turn; no errand has more. -/
def turnFuel : Nat := 256

/-- The next task has its turn; none if there is none. -/
def next? (s : Stage σ) : Option (Stage σ) :=
  match s.ready with
  | [] => none
  | n :: rest => some (({ s with ready := rest }.turn n turnFuel).wakeDue)

/-- Give turns until no task has one. -/
def run (s : Stage σ) : Nat → Stage σ
  | 0 => s
  | fuel + 1 =>
    match s.next? with
    | none => s
    | some s => s.run fuel

/-- Turns that are enough for the tasks there are: each wakes a task at most once. -/
def runFuel (s : Stage σ) : Nat :=
  let tasks := (Play.site s.play).tasks.length
  16 * (tasks + 1) * (tasks + 1)

def «open» (s : Stage σ) (gate : String) : Stage σ := { s with opened := gate :: s.opened }.wakeDue

/-- Nothing waits for a task any more that was abandoned. -/
def forget (s : Stage σ) (n : Nat) : Stage σ :=
  { s with
    ready := s.ready.filter (· != n)
    pending := s.pending.filter fun p => p.waiter != .task n
    parked := s.parked.filter fun p => p.1 != n }

end Stage

end LintBridge

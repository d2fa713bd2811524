import LintBridge.Memo

namespace LintBridge

/-- What an attempt comes to once its gate, if it has one, is open. The last of several lasts. -/
structure Cue (β : Type) where
  gate : Option String
  outcome : β

/-- The next cue of a script, and the script afterwards: the last cue is used again. -/
def Cue.take? {β : Type} : List (Cue β) → Option (Cue β × List (Cue β))
  | [] => none
  | [last] => some (last, [last])
  | cue :: next :: rest => some (cue, next :: rest)

def Cue.given {β : Type} (opened : List String) (cue : Cue β) : Bool :=
  cue.gate.all opened.contains

inductive MemoStep where
  | call (name : String)
  | forget
  | drop (name : String)
  | «open» (gate : String)

structure MemoRehearsal where
  memo : Memo String String
  script : List (Cue (Except String String))
  opened : List String
  /-- Every caller by number, with its name; one that was dropped has none. -/
  callers : List (Option String × Caller String String)
  /-- The callers whose turn comes. -/
  ready : List Nat
  /-- Attempts that are going, with their cues. -/
  going : List (Nat × Cue (Except String String))
  /-- Callers that wait, with the attempts they wait for. -/
  parked : List (Nat × Nat)

namespace MemoRehearsal

def new (script : List (Cue (Except String String))) : MemoRehearsal :=
  ⟨.new, script, [], [], [], [], []⟩

/-- Give callers a turn that are not about to have one. -/
def wake (r : MemoRehearsal) (callers : List Nat) : MemoRehearsal :=
  { r with
    ready := r.ready ++ callers.filter fun c => !r.ready.contains c
    parked := r.parked.filter fun p => !callers.contains p.1 }

/-- Set an attempt going by the next cue. -/
def launch (r : MemoRehearsal) (n : Nat) : MemoRehearsal :=
  match Cue.take? r.script with
  | some (cue, script) =>
    { r with memo := r.memo.launch n, script := script, going := r.going ++ [(n, cue)] }
  | none =>
    let cue : Cue (Except String String) := ⟨none, .error "no reply scripted"⟩
    { r with memo := r.memo.launch n, going := r.going ++ [(n, cue)] }

/-- Let an attempt end whose cue is given. -/
def conclude (r : MemoRehearsal) (n : Nat) : MemoRehearsal :=
  match r.going.find? fun g => g.1 == n with
  | some (_, cue) =>
    if cue.given r.opened then
      let waiting := (r.parked.filter fun p => p.2 == n).map (·.1)
      { r with
        memo := r.memo.finish n cue.outcome
        going := r.going.filter fun g => g.1 != n }.wake waiting
    else r
  | none => r

/-- The turn of a caller: it goes on until it has to wait or has its answer. A turn joins, sets an
attempt going, and takes its result, so that `fuel` need not be more than four. -/
def turn (r : MemoRehearsal) (c : Nat) : Nat → MemoRehearsal
  | 0 => r
  | fuel + 1 =>
    match r.callers[c]? with
    | some (some name, caller) =>
      match caller with
      | .answered _ => r
      | .asking =>
        let (memo, caller) := r.memo.step caller
        turn { r with memo := memo, callers := r.callers.set c (some name, caller) } c fuel
      | .waiting n =>
        if r.memo.isAgreed n then turn (r.launch n) c fuel
        else
          let r := r.conclude n
          if r.memo.isRunning n then { r with parked := r.parked ++ [(c, n)] }
          else
            let (memo, caller) := r.memo.step caller
            turn { r with memo := memo, callers := r.callers.set c (some name, caller) } c fuel
    | _ => r

/-- Give turns until no caller has one. Each turn ends a caller or parks it until it is woken. -/
def run (r : MemoRehearsal) : Nat → MemoRehearsal
  | 0 => r
  | fuel + 1 =>
    match r.ready with
    | [] => r
    | c :: rest => run (turn { r with ready := rest } c 4) fuel

def named (r : MemoRehearsal) (name : String) : List Nat :=
  (List.range r.callers.length).filter fun c => (r.callers[c]?.bind (·.1)) == some name

def step (r : MemoRehearsal) : MemoStep → MemoRehearsal
  | .call name =>
    { r with
      callers := r.callers ++ [(some name, .asking)]
      ready := r.ready ++ [r.callers.length] }
  | .forget => { r with memo := r.memo.forget }
  | .drop name =>
    let gone := r.named name
    { r with
      callers := gone.foldl (fun callers c => callers.set c (none, .asking)) r.callers
      ready := r.ready.filter fun c => !gone.contains c
      parked := r.parked.filter fun p => !gone.contains p.1 }
  | .open gate =>
    let r := { r with opened := gate :: r.opened }
    let woken := (r.going.filter fun g => g.2.gate == some gate).map (·.1)
    r.wake (woken.flatMap fun n => (r.parked.filter fun p => p.2 == n).map (·.1))

/-- Take the answers of the callers that have one, in the order in which they called. -/
def answers (r : MemoRehearsal) : MemoRehearsal × List (String × Except String String) :=
  let taken := r.callers.filterMap fun
    | (some name, .answered result) => some (name, result)
    | _ => none
  let left := r.callers.map fun
    | (some _, .answered result) => (none, .answered result)
    | caller => caller
  ({ r with callers := left }, taken)

/-- Carry out a step, give turns unless they have to wait, and take the answers. -/
def perform (r : MemoRehearsal) (s : MemoStep) (wait : Bool) :
    MemoRehearsal × List (String × Except String String) :=
  let r := r.step s
  (if wait then r else r.run (2 * r.callers.length + 2)).answers

end MemoRehearsal

end LintBridge

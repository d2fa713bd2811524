import LintBridge.Rehearsal.Stage
import LintBridge.Server.Handle

namespace LintBridge

instance : Play Server where
  site := Server.site
  move := Server.move
  advance := Server.advance
  isOver := Server.isOver
  need? := Server.need?

inductive ServerStep where
  | input (bytes : Bytes)
  /-- The editor closes its side. -/
  | eof
  /-- The editor listens no more. -/
  | deaf
  | «open» (gate : String)
  | revise (engine : List (String × List (Cue (Except EngineError String))))
    (installer : List (Cue (Except InstallError Path)))
  /-- Time goes by. -/
  | elapse (ms : Nat)
  /-- Look at something, which changes nothing. -/
  | look

structure ServerRehearsal where
  stage : Stage Server
  deaf : Bool
  /-- Whether the session has ended, so that nothing is read any more. -/
  done : Bool

structure ServerEntry where
  sent : List Json
  events : List Event
  /-- How the session ended, if it did in this step. -/
  served : Option Served

namespace ServerRehearsal

def new (s : Server) (script : Script) : ServerRehearsal := ⟨.new s script, false, false⟩

/-- The server has become another one: the tasks it has begun wait for their turns, and those
whose answers have come are woken. -/
def withServer (r : ServerRehearsal) (s : Server) : ServerRehearsal :=
  let began := List.range' r.stage.play.jobs.length (s.jobs.length - r.stage.play.jobs.length)
  let heard := (s.asked.filter fun a => (s.outbound.conclude? a.request).isSome).map Asked.task
  let stage := { r.stage with play := s }.wakeDue
  let parked := heard.filter fun n => stage.parked.any fun p => p.1 == n
  let stage := stage.wake parked
  { r with stage := { stage with ready := stage.ready ++ began } }

/-- Handle one frame after another, so that what each of them wakes is woken in that order. -/
def serve (r : ServerRehearsal) : Nat → ServerRehearsal
  | 0 => r
  | fuel + 1 =>
    let s := r.stage.play
    let next := s.serve 1
    let more := next.input.length < s.input.length && next.ended.isNone
    let r := r.withServer next
    if more then r.serve fuel else r

def close (r : ServerRehearsal) : ServerRehearsal :=
  let s := r.stage.play
  let others := (List.range s.jobs.length).filter fun n => !r.stage.ready.contains n
  { r with
    done := true
    stage := { r.stage with play := s.close (r.stage.ready ++ others), ready := [], parked := [] } }

def step (r : ServerRehearsal) : ServerStep → ServerRehearsal
  | .input bytes =>
    if r.done then r
    else
      let s := r.stage.play.feed bytes
      { r with stage := { r.stage with play := s } }.serve (s.input.length + 1)
  | .eof =>
    if r.done then r
    else
      let s := { r.stage.play with closed := true }
      { r with stage := { r.stage with play := s } }.serve (s.input.length + 1)
  | .deaf => { r with deaf := true }
  | .open gate => { r with stage := r.stage.open gate }
  | .revise engine installer =>
    let script := r.stage.script
    { r with stage := { r.stage with script := script.replace ⟨engine, installer, none⟩ } }
  | .elapse ms =>
    r.withServer { r.stage.play with outbound := r.stage.play.outbound.elapse ms }
  | .look => r

/-- Carry out a step, let the tasks go on or end the session, and take what happened. -/
def perform (r : ServerRehearsal) (s : ServerStep) : ServerRehearsal × ServerEntry :=
  let r := r.step s
  let ends := r.stage.play.ended.isSome && !r.done
  let r := if ends then r.close else { r with stage := r.stage.run r.stage.runFuel }
  let server := r.stage.play
  let entry : ServerEntry :=
    ⟨if r.deaf then [] else server.sent, server.site.workspace.events,
      if ends then server.ended else none⟩
  let server :=
    { server with sent := [], site? := server.site?.map Site.forgetEvents }
  ({ r with stage := { r.stage with play := server } }, entry)

end ServerRehearsal

end LintBridge

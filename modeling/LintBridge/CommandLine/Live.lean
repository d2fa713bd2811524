import LintBridge.CommandLine.Run

namespace LintBridge

/-- A session of the server in a world. -/
structure LiveSession where
  world : World
  defaults : Defaults
  server : Server

namespace LiveSession

def new (w : World) (d : Defaults) : LiveSession := ⟨w, d, CommandLine.serverOf w d⟩

/-- The world's files, as the workspace has them. -/
def worldNow (l : LiveSession) : World := l.world.withFiles l.server.site.workspace.files

def withWorld (l : LiveSession) (w : World) : LiveSession :=
  let site := l.server.site
  let next : Site := { site with workspace := { site.workspace with files := w.files } }
  { l with world := w, server := { l.server with site? := l.server.site?.map fun _ => next } }

def execute (l : LiveSession) (token : Token) (c : Command) :
    LiveSession × Except EngineError String :=
  let cancelled := l.server.site.workspace.isCancelled token
  let (w, r) := l.worldNow.execute c l.defaults.maxOutputBytes cancelled
  (l.withWorld w, r)

/-- What a task waits for comes at once, unless it comes from the editor. -/
def answer? (l : LiveSession) (n : Nat) : Need → Option LiveSession
  | .command token c =>
    let (l, r) := l.execute token c
    some { l with server := l.server.move (.receive n (.ran r)) }
  | .install token r =>
    let cancelled := l.server.site.workspace.isCancelled token
    let (w, result) := l.worldNow.install l.defaults r cancelled
    let l := l.withWorld w
    some { l with server := l.server.move (.receive n (.installed result)) }
  | .policy => none
  | .attempt client kept attempt =>
    (l.server.site.attemptCommand? client kept).map fun (token, c) =>
      let (l, r) := l.execute token c
      { l with server := l.server.move (.finish client kept attempt r) }

/-- A task goes on until it is over or waits for the editor, by fewer than `fuel` points. -/
def turn (l : LiveSession) (n : Nat) : Nat → LiveSession
  | 0 => l
  | fuel + 1 =>
    if l.server.isOver n then l
    else
      match l.server.need? n with
      | none => turn { l with server := l.server.advance n } n fuel
      | some need =>
        match l.answer? n need with
        | some l => turn l n fuel
        | none => l

/-- The points that a task can pass; no errand has more. -/
def turnFuel : Nat := 256

def settle (l : LiveSession) : LiveSession :=
  (List.range l.server.jobs.length).foldl (fun l n => l.turn n turnFuel) l

/-- The session ends: its tasks are abandoned. -/
def close (l : LiveSession) : LiveSession :=
  { l with server := l.server.close (List.range l.server.jobs.length) }

/-- Input has come, or none will come any more. -/
def hear (l : LiveSession) (bytes : Bytes) : LiveSession :=
  let s := { l.server.feed bytes with closed := bytes.isEmpty }.serveAll
  let l := { l with server := s }
  if s.ended.isSome then l.close else l.settle

/-- Time goes by, and with it the time of requests to the editor. -/
def elapse (l : LiveSession) (ms : Nat) : LiveSession :=
  { l with server := { l.server with outbound := l.server.outbound.elapse ms } }.settle

def take (l : LiveSession) : LiveSession × Bytes :=
  ({ l with server := { l.server with sent := [] } }, Frame.writeAll l.server.sent)

/-- How the program ends, once the session has. -/
def ending? (l : LiveSession) : Option Ending := l.server.ended.map (CommandLine.endingOf [])

end LiveSession

end LintBridge

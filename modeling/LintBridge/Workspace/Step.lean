import LintBridge.Workspace.Task

namespace LintBridge

namespace Start

def outcome (s : Start) (p : Phase) : Outcome :=
  match s.installed with
  | some path => .installed (.ok path)
  | none => .phase p

end Start

namespace Purpose

/-- What a task comes to that cannot install an engine. -/
def failed (p : Purpose) (e : EngineError) : Point :=
  match p with
  | bootstrap s => .commit s (.error e)
  | renewal _ _ _ => .leave (.installed (.error e))

end Purpose

namespace Workspace

def stepCall (w : Workspace) (client : ClientId) (call : Call) : Workspace × Call :=
  match w.clients[client]? with
  | none => (w, call)
  | some c =>
    let (c, call, started) := c.step call
    let w := { w with clients := w.clients.set client c }
    match started with
    | some command => (w.emit (.runs command), call)
    | none => (w, call)

/-- A client of the settings of a start is made and asked for its version. -/
def probe (w : Workspace) (s : Start) (again : Bool) : Workspace × Point :=
  let (w, client) := w.makeClient s.settings s.token
  (w, .asking client (.ofAsk .version) (.probe s again))

/-- A task asks the editor how to load releases. -/
def askPolicy (w : Workspace) (p : Purpose) : Workspace × Point := (w.emit .askPolicy, .policy p)

def look (w : Workspace) (carrier : Carrier) (s : Settings) (token : Token) : Workspace × Point :=
  (w.emit (.runs carrier.command), .probing carrier s token)

/-- A start goes on with the version that a client told. -/
def probed (w : Workspace) (client : ClientId) (s : Start) (again : Bool) :
    Except EngineError Reply → Workspace × Point
  | .ok _ => (w, if again then .load (.bootstrap s client) else .commit s (.ok client))
  | .error e =>
    if e.isCancelled || again || !s.mayInstall then (w, .commit s (.error e))
    else w.askPolicy (.bootstrap s)

/-- An analysis publishes what an output says. -/
def publishOutput (w : Workspace) (files : Report → List (String × List Diagnostic)) :
    Except EngineError Reply → Workspace × Point
  | .ok (.text raw) =>
    match Output.convert raw w.project with
    | .ok report =>
      (w.publish (files report), .leave (.analysis (.published (files report).length)))
    | .error _ => (w, .leave (.analysis .failed))
  | _ => (w, .leave (.analysis .failed))

/-- An errand goes on with the answer of a client. -/
def answered (w : Workspace) (e : Errand) (r : Except EngineError Reply) : Workspace × Point :=
  match e, r with
  | .analyze _, r => w.publishOutput Report.files r
  | .analyzeFile document _, r =>
    w.publishOutput (fun report => report.filesFor w.project document) r
  | .catalog, .ok (.linters l) => (w, .leave (.linters l))
  | .setActive linter active, .ok _ => (w, .load (.linter linter active))
  | .linterVersion _ _, .ok (.linterVersion v) => (w, .leave (.linterVersion v))
  | .engineVersion, .ok (.text v) => (w, .leave (.engineVersion (.ok v)))
  | .engineVersion, .error e => (w, .leave (.engineVersion (.error e)))
  | .ask _ _, r => (w, .leave (.reply r))
  | e, _ => (w, .leave e.unavailable)

/-- A start is to become the session, unless it was overtaken. -/
def commit (w : Workspace) (s : Start) (result : Except EngineError ClientId) :
    Workspace × Point :=
  if w.session.generation != s.generation then (w, .leave (s.outcome w.session.phase))
  else
    match result with
    | .ok client =>
      ({ w with session := { w.session with
          phase := .ready, client := some client, settings := s.settings } },
        .leave (s.outcome .ready))
    | .error e =>
      if e.isCancelled then
        ({ w with session := { w.session with phase := .uninitialized } },
          .leave (s.outcome .uninitialized))
      else ({ w with session := { w.session with phase := .error } }, .noEngine s)

def begin (w : Workspace) : Errand → Workspace × Task
  | .start s => (w, ⟨[], .takeOver s true none⟩)
  | .install => (w.enqueue .system, ⟨[.system], .copySettings⟩)
  | .analyze t =>
    (w, ⟨[], if w.filters t then .done (.analysis .filtered) else .seek (.analyze t)⟩)
  | .analyzeFile document t =>
    (w, ⟨[], if w.filters t then .done (.analysis .filtered) else .seek (.analyzeFile document t)⟩)
  | .look document =>
    (w.lookAt document, ⟨[], .done (.visible (w.progress.concerns ⟨document⟩))⟩)
  | .shutdown => (w.close, ⟨[], .quiet⟩)
  | .ask client a => (w, ⟨[], .asking client (.ofAsk a) (.errand (.ask client a))⟩)
  | e => (w, ⟨[], .seek e⟩)

/-- A task goes on by one point. One that waits, or is done, stays as it is. -/
def advance (w : Workspace) (t : Task) : Workspace × Task :=
  let goOn (next : Workspace × Point) : Workspace × Task := (next.1, { t with point := next.2 })
  match t.point with
  | .begin e => w.begin e
  | .takeOver s mayInstall installed =>
    let next := w.takeOver s
    goOn (next, .announce ⟨next.session.generation, next.session.token, s, mayInstall, installed⟩)
  | .announce s =>
    let (w, point) := (w.enqueue .system).probe s false
    (w, ⟨.system :: t.held, point⟩)
  | .copySettings =>
    let s := w.session.settings
    goOn (w.look (if s.mode = .container then .docker else .dotnet) s w.session.token)
  | .load c =>
    let config := (ProjectConfig.load w.files w.project).toOption.getD .empty
    let (config, changed) := c.apply config
    goOn (w, if changed then .save c config else .tell c)
  | .save c config => goOn ({ w with files := (config.save w.files w.project).1 }, .tell c)
  | .tell (.bootstrap s client) =>
    goOn (w.emit (.saveSettings s.settings.engineDir s.settings.mode), .commit s (.ok client))
  | .tell (.renewal s path) =>
    goOn (w.emit (.saveSettings path s.mode), .takeOver s false (some path))
  | .tell (.linter name _) => goOn (w, .leave (.activated (some name)))
  | .commit s result => goOn (w.commit s result)
  | .noEngine s => goOn (w.emit .noEngine, .leave (s.outcome .error))
  | .seek e =>
    match w.readyClient? with
    | none => goOn (w, .done e.unavailable)
    | some client => goOn (w, .enter e client)
  | .enter e client =>
    let id := e.operation w.project
    (w.enqueue id, ⟨id :: t.held, .asking client (.ofAsk e.question) (.errand e)⟩)
  | .asking client (.done r) next =>
    match next with
    | .probe s again => goOn (w.probed client s again r)
    | .errand e => goOn (w.answered e r)
  | .asking client call next =>
    let (w, call) := w.stepCall client call
    (w, { t with point := .asking client call next })
  | .quiet => goOn (w.hush, .done .closed)
  | .leave o =>
    match t.held with
    | [] => goOn (w, .done o)
    | id :: rest => (w.dequeue id, ⟨rest, .leave o⟩)
  | _ => (w, t)

def need? (w : Workspace) (t : Task) : Option Need :=
  match t.point with
  | .probing carrier _ token => some (.command token carrier.command)
  | .policy _ => some .policy
  | .installing p r => some (.install p.token r)
  | .asking client call _ =>
    match w.clients[client]? with
    | none => none
    | some c =>
      match call with
      | .version (.waiting n) =>
        if c.version.isRunning n then some (.attempt client .version n) else none
      | .catalog (.waiting n) =>
        if c.catalog.isRunning n then some (.attempt client .catalog n) else none
      | .running a => some (.command c.token (c.command a))
      | _ => none
  | _ => none

/-- A task takes an answer it waits for. Any other answer is passed over. -/
def receive (w : Workspace) (t : Task) (a : Answer) : Workspace × Task :=
  let goOn (next : Workspace × Point) : Workspace × Task := (next.1, { t with point := next.2 })
  match t.point, a with
  | .probing .docker s token, .ran (.ok _) =>
    goOn (w.askPolicy (.renewal s token .container))
  | .probing .docker s token, .ran (.error _) => goOn (w.look .dotnet s token)
  | .probing .dotnet s token, .ran (.ok _) =>
    goOn (w.askPolicy (.renewal s token .managedRuntime))
  | .probing .dotnet s token, .ran (.error _) =>
    goOn (w.askPolicy (.renewal s token .nativeBinary))
  | .policy p, .policy policy =>
    let request := p.request w.defaults policy
    goOn (w.emit (.installs request), .installing p request)
  | .installing p _, .installed (.error e) => goOn (w, p.failed (.install e))
  | .installing (.bootstrap s) _, .installed (.ok path) =>
    goOn (w.probe { s with settings := s.settings.withInstalled s.settings.mode path } true)
  | .installing (.renewal s _ mode) _, .installed (.ok path) =>
    goOn (w, .load (.renewal (s.withInstalled mode path) path))
  | .asking client call next, .ran r => goOn (w, .asking client (call.receive r) next)
  | _, _ => (w, t)

/-- The run of the engine for an answer that a client keeps has ended. -/
def finish (w : Workspace) (client : ClientId) (kept : Kept) (n : Nat)
    (r : Except EngineError String) : Workspace :=
  match w.clients[client]? with
  | none => w
  | some c => { w with clients := w.clients.set client (c.finish kept n r) }

/-- A task is abandoned: its runs end, the last one first. -/
def abandon (w : Workspace) (t : Task) : Workspace := t.held.foldl dequeue w

end Workspace

end LintBridge

import LintBridge.Server.Basic

namespace LintBridge

namespace Server

def spawn (s : Server) (e : Errand) (job : Job) : Server :=
  { s with site? := some (s.site.move (.spawn e)), jobs := s.jobs ++ [job] }

/-- A task is begun that only refuses a request. -/
def spawnRefusal (s : Server) (id : Json) (r : Rpc.Refusal) : Server :=
  { s with
    site? := some { s.site with tasks := s.site.tasks ++ [none] }
    jobs := s.jobs ++ [.refuses id r] }

/-- A task is begun with the errand that the parameters of a request say. -/
def spawnFor (s : Server) (id params : Json) {α : Type} (read : Decoder α) (errand : α → Errand) :
    Server :=
  match params.decode read with
  | .ok a => s.spawn (errand a) (.answers id)
  | .error e => s.spawnRefusal id (.badParams e)

/-- The editor tells the project. -/
def beginSession (s : Server) (id params : Json) : Server :=
  if s.site?.isSome then s.send (Rpc.refuse id .twice)
  else
    match params.decode Rpc.InitializeParams.decoder with
    | .error e => s.send (Rpc.refuse id (.badParams e))
    | .ok p =>
      let project := p.projectRoot?.getD s.here
      { s with site? := some (.new (.new project s.defaults s.files)) }.send
        (Rpc.response id Rpc.initializeResult)

def analyzeErrand : Bool × Option String → Errand
  | (false, some path) => .analyzeFile path .force
  | _ => .analyze .force

def request (s : Server) (id : Json) (method : String) (params : Json) : Server :=
  if method = "initialize" then s.beginSession id params
  else if s.site?.isNone then s.send (Rpc.refuse id .notInitialized)
  else if s.shuttingDown then s.send (Rpc.refuse id .shuttingDown)
  else
    match method with
    | "shutdown" =>
      let site := s.site
      ({ s with shuttingDown := true }.withSite none
        { site with workspace := site.workspace.shutdown }).send (Rpc.response id .null)
    | "linterhub/catalog" => s.spawn .catalog (.answers id)
    | "linterhub/version" => s.spawn .engineVersion (.answers id)
    | "linterhub/install" => s.spawn .install (.answers id)
    | "linterhub/activate" =>
      s.spawnFor id params Rpc.activateParams fun p => .setActive p.1 p.2
    | "linterhub/analyze" => s.spawnFor id params Rpc.analyzeParams analyzeErrand
    | "linterhub/linterVersion" =>
      s.spawnFor id params Rpc.linterParam fun linter => .linterVersion linter false
    | "linterhub/linterInstall" =>
      s.spawnFor id params Rpc.linterParam fun linter => .linterVersion linter true
    | _ => s.send (Rpc.refuse id (.unknownMethod method))

/-- The editor's settings have changed. Settings that make no sense are passed over. -/
def configure (s : Server) (params : Json) : Server :=
  match (params.decode Rpc.settingsParam).bind (Settings.ofJson s.env s.defaults) with
  | .ok settings => s.spawn (.start settings) .silent
  | .error _ => s

/-- Something has happened to a document that is a reason to analyze it. -/
def analyzeDocument (s : Server) (params : Json) (t : Trigger) : Server :=
  match params.decode Rpc.documentParam with
  | .ok document => s.spawn (.analyzeFile document t) .silent
  | .error _ => s

/-- Another document has come into view. -/
def look (s : Server) (params : Json) : Server :=
  match params.decode Rpc.activeDocumentParam with
  | .ok document =>
    let site := s.site
    s.withSite none { site with workspace := site.workspace.lookAt document }
  | .error _ => s

/-- The editor leaves, or has gone. -/
def leave (s : Server) : Server := { s with ended := some (.left s.shuttingDown) }

def notified (s : Server) (method : String) (params : Json) : Server :=
  if method = "exit" then s.leave
  else if s.site?.isNone then s
  else
    match method with
    | "workspace/didChangeConfiguration" => s.configure params
    | "textDocument/didOpen" => s.analyzeDocument params .onOpen
    | "textDocument/didChange" => s.analyzeDocument params .onType
    | "textDocument/didSave" => s.analyzeDocument params .onSave
    | "linterhub/activeDocument" => s.look params
    | _ => s

/-- A frame of the editor. One that is no message is passed over. -/
def handle (s : Server) (frame : Json) : Server :=
  match Incoming.ofFrame? frame with
  | none => s
  | some (.response id body) => { s with outbound := (s.outbound.resolve id body).1 }
  | some (.request id method params) => s.request id method params
  | some (.notification method params) => s.notified method params

def feed (s : Server) (bytes : Bytes) : Server := { s with input := s.input ++ bytes }

/-- Handle the frames that have been read as a whole, at most so many. -/
def serve (s : Server) : Nat → Server
  | 0 => s
  | fuel + 1 =>
    if s.ended.isSome then s
    else
      match Frame.next Frame.defaultLimit s.closed s.input with
      | .unfinished => s
      | .ended => s.leave
      | .failed e => { s with ended := some (.failed e) }
      | .frame value rest => ({ s with input := rest }.handle value).serve fuel

/-- Handle all frames that have been read. A frame takes a byte at least. -/
def serveAll (s : Server) : Server := s.serve (s.input.length + 1)

def abandon (s : Server) (n : Nat) : Server :=
  let outbound := ((s.asked? n).map fun a => s.outbound.drop a.request).getD s.outbound
  ({ s with outbound := outbound, asked := s.asked.filter fun a => a.task != n }.withSite (some n)
    (s.site.move (.abandon n))).finish n

/-- The session is over: the tasks are abandoned in some order, and the workspace shut down. -/
def close (s : Server) (order : List Nat) : Server :=
  let s := (order.filter fun n => !s.isOver n).foldl abandon s
  match s.site? with
  | none => s
  | some site => s.withSite none { site with workspace := site.workspace.shutdown }

end Server

end LintBridge

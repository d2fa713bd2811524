import LintBridge.Diagnostic.Report
import LintBridge.Engine.Linter
import LintBridge.Engine.Mode
import LintBridge.Progress.Status
import LintBridge.Url.File

namespace LintBridge

inductive Incoming where
  /-- The answer to a request of this server. -/
  | response (id : Nat) (body : Json)
  | request (id : Json) (method : String) (params : Json)
  | notification (method : String) (params : Json)

/-- What a frame says, if it is a message at all. -/
def Incoming.ofFrame? (frame : Json) : Option Incoming :=
  let params := (frame.field? "params").getD .null
  let isReply := (frame.field? "result").isSome || (frame.field? "error").isSome
  match frame.field? "id", (frame.field? "method").bind Json.text? with
  | some id, some method => some (.request id method params)
  | none, some method => some (.notification method params)
  | some id, none => if isReply then id.natural?.map fun id => .response id frame else none
  | none, none => none

namespace Rpc

def request (id : Nat) (method : String) (params : Json) : Json :=
  Json.object [("jsonrpc", .str "2.0"), ("id", .nat id), ("method", .str method),
    ("params", params)]

def notification (method : String) (params : Json) : Json :=
  Json.object [("jsonrpc", .str "2.0"), ("method", .str method), ("params", params)]

def response (id : Json) (result : Json) : Json :=
  Json.object [("jsonrpc", .str "2.0"), ("id", id), ("result", result)]

inductive Refusal where
  | unknownMethod (method : String)
  | badParams (e : DecodeError)
  | failed (reason : String)
  | notInitialized
  | twice
  | shuttingDown

namespace Refusal

def code : Refusal → Int
  | unknownMethod _ => -32601
  | badParams _ => -32602
  | failed _ => -32603
  | notInitialized => -32002
  | twice => -32600
  | shuttingDown => -32600

def message : Refusal → String
  | unknownMethod method => "Method not found: " ++ method
  | badParams e => e.message
  | failed reason => reason
  | notInitialized => "server not initialized"
  | twice => "initialize sent twice"
  | shuttingDown => "server is shutting down"

end Refusal

def errorResponse (id : Json) (code : Int) (message : String) : Json :=
  Json.object [("jsonrpc", .str "2.0"), ("id", id),
    ("error", Json.object [("code", .int code), ("message", .str message)])]

def refuse (id : Json) (r : Refusal) : Json := errorResponse id r.code r.message

def serverVersion : String := "0.0.0"

/-- What the server says of itself. -/
def initializeResult : Json :=
  Json.object [
    ("capabilities", Json.object [
      ("textDocumentSync", Json.object [
        ("openClose", .bool true),
        ("change", .nat 1),
        ("save", Json.object [("includeText", .bool false)])])]),
    ("serverInfo", Json.object [("name", .str "linterhub"), ("version", .str serverVersion)])]

/-- Where an editor says the project is. -/
structure InitializeParams where
  rootUri : Option String
  rootPath : Option String

namespace InitializeParams

def decoder : Decoder InitializeParams :=
  Record.decoder "InitializeParams" ((Record.build InitializeParams.mk).nullable "rootUri"
    Decoder.text |>.nullable "rootPath" Decoder.text)

/-- The directory of the project; the URI wins over the path. -/
def projectRoot? (p : InitializeParams) : Option Path :=
  match p.rootUri.bind Path.ofUrlText? with
  | some root => some root
  | none => (p.rootPath.filter fun s => !s.isEmpty).map Path.ofText

end InitializeParams

def settingsParam : Decoder Json :=
  Record.decoder "DidChangeConfigurationParams" ((Record.build id).defaulted "settings"
    (Decoder.value Document.maxDepth) .null)

def documentUri : Decoder String :=
  Record.decoder "TextDocumentIdentifier" ((Record.build id).required "uri" Decoder.text)

/-- The document that a notification is about. -/
def documentParam : Decoder String :=
  Record.decoder "TextDocumentParams" ((Record.build id).required "textDocument" documentUri)

/-- The document that the editor shows. -/
def activeDocumentParam : Decoder String :=
  Record.decoder "ActiveDocumentParams" ((Record.build id).required "uri" Decoder.text)

/-- A linter and whether it is to be active. -/
def activateParams : Decoder (String × Bool) :=
  Record.decoder "ActivateParams" ((Record.build Prod.mk).required "linter" Decoder.text
    |>.required "activate" Decoder.boolean)

/-- Whether all is to be analyzed, and else which path. -/
def analyzeParams : Decoder (Bool × Option String) :=
  Record.decoder "AnalyzeParams" ((Record.build Prod.mk).defaulted "full" Decoder.boolean false
    |>.nullable "path" Decoder.text)

def linterParam : Decoder String :=
  Record.decoder "LinterParams" ((Record.build id).required "linter" Decoder.text)

/-- The editor's answer about downloads. -/
structure ConfigAnswer where
  proxy : Option String
  strictSsl : Option Bool

def ConfigAnswer.decoder : Decoder ConfigAnswer :=
  Record.decoder "ConfigResult" ((Record.build ConfigAnswer.mk).optional "proxy" Decoder.text
    |>.optional "strictSSL" Decoder.boolean)

def position (line character : Nat) : Json :=
  Json.object [("line", .nat line), ("character", .nat character)]

/-- A diagnostic as the editor takes it. -/
def diagnostic (d : Diagnostic) : Json :=
  let span := d.message.span
  Json.object ([
    ("range", Json.object [("start", position span.line span.column),
      ("end", position span.lineEnd span.columnEnd)]),
    ("severity", .nat d.message.severity.protocolNumber),
    ("source", .str ("linterhub:" ++ d.source)),
    ("message", .str d.message.text)] ++
    (d.message.rule.map fun r => ("code", Json.str r)).toList)

def publishParams (uri : String) (items : List Diagnostic) : Json :=
  Json.object [("uri", .str uri), ("diagnostics", .arr (items.map diagnostic))]

def statusParams (id : Option OperationId) (status : Status) : Json :=
  Json.object [("id", Json.optionalText (id.map OperationId.text)), ("state", .nat status.code)]

def progressParams (visible : Bool) (text : String) : Json :=
  Json.object [("visible", .bool visible), ("text", .str text)]

/-- Where the engine is now. -/
def updateConfigParams (cliPath : Path) (mode : Mode) : Json :=
  Json.object [("cliPath", .str cliPath.display), ("mode", mode.toJson)]

def catalogResult (linters : List Linter) : Json :=
  Json.object [("linters", .arr (linters.map Linter.toJson))]

end Rpc

end LintBridge

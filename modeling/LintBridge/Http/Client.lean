import LintBridge.Url.Parser
import LintBridge.Text.Blank
import LintBridge.Text.Utf8

namespace LintBridge

/-- A request as its first line shows it. -/
structure HttpRequest where
  method : String
  target : String
  deriving DecidableEq

/-- What arrives in answer to a request. -/
structure HttpReply where
  status : Nat
  headers : List (String × Bytes)
  body : Bytes
  /-- Whether the body is as long as was announced. -/
  whole : Bool
  deriving DecidableEq

/-- A server in reach. -/
structure HttpServer where
  host : String
  port : Nat
  /-- The answer to a request after others; none if the connection is closed instead. -/
  answer : List HttpRequest → HttpRequest → Option HttpReply

/-- A way to ask for a URL after other requests: what is sent for it, and the reply, if one
comes. -/
abbrev Transport := List HttpRequest → Url → List HttpRequest × Option HttpReply

/-- A client, with the proxy that takes all its requests. -/
structure HttpClient where
  proxy : Option Url

namespace HttpRequest

def text (r : HttpRequest) : String := r.method ++ " " ++ r.target

end HttpRequest

namespace HttpReply

/-- The header of a name, the first of several, without blanks around it. -/
def header? (r : HttpReply) (name : String) : Option Bytes :=
  (r.headers.find? fun h => eqIgnoringAsciiCase h.1 name).map fun h =>
    let isIdle (b : UInt8) := b == 0x20 || b == 0x09
    ((h.2.dropWhile isIdle).reverse.dropWhile isIdle).reverse

/-- Whether a byte of a header can be shown as text. -/
def isVisible (b : UInt8) : Bool := (0x20 ≤ b && b < 0x7f) || b == 0x09

/-- Where a reply redirects to, relative to the URL asked for, if that can be used. -/
def location? (r : HttpReply) (current : Url) : Option Url := do
  let bytes ← r.header? "location"
  guard (!bytes.isEmpty && bytes.all isVisible)
  (current.join (utf8Lossy bytes)).toOption

def isRedirect (status : Nat) : Bool := [301, 302, 303, 307, 308].contains status

/-- Whether a status only announces a further reply. -/
def isInterim (status : Nat) : Bool := status < 200 && status != 101

end HttpReply

namespace HttpClient

/-- The URL of a proxy. A host alone stands for a proxy spoken to in the clear. -/
def proxyUrl? (s : String) : Option Url :=
  let hosted (u : Url) : Bool := (u.authority.bind Authority.host).isSome
  match Url.parse s with
  | .ok u =>
    if hosted u then some u else (Url.parse ("http://" ++ s)).toOption.filter hosted
  | .error .relative => (Url.parse ("http://" ++ s)).toOption.filter hosted
  | .error _ => none

/-- A client with a proxy; none if the proxy's text is no URL. -/
def configure : Option String → Option HttpClient
  | none => some ⟨none⟩
  | some s => (proxyUrl? s).map fun u => ⟨some u⟩

def portOf (u : Url) : Option Nat :=
  ((u.authority.bind Authority.port)).or (Url.defaultPort? u.scheme)

def hostOf (u : Url) : Option String := (u.authority.bind Authority.host).map Host.text

/-- Whether a URL leads to a server, in the clear. -/
def reaches (u : Url) (server : HttpServer) : Bool :=
  u.scheme == "http" && hostOf u == some server.host && portOf u == some server.port

/-- The target of a request for a secured connection. -/
def tunnelTarget (u : Url) : String :=
  (hostOf u).getD "" ++ ":" ++ toString ((portOf u).getD 0)

/-- Ask for a URL after other requests. Tells the requests sent and the reply, if one came. -/
def send (client : HttpClient) (server : HttpServer) : Transport := fun earlier u =>
  let ask (r : HttpRequest) : List HttpRequest × Option HttpReply :=
    ([r], (server.answer earlier r).filter fun reply => !HttpReply.isInterim reply.status)
  match client.proxy with
  | some p =>
    if !reaches p server then ([], none)
    else if u.scheme == "http" then ask ⟨"GET", u.requestText⟩
    else if u.scheme == "https" then ([⟨"CONNECT", tunnelTarget u⟩], none)
    else ([], none)
  | none => if reaches u server then ask ⟨"GET", u.pathText ++ u.queryText⟩ else ([], none)

end HttpClient

end LintBridge

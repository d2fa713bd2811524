import LintBridge.Url.Host

namespace LintBridge

/-- Who serves a URL. `host` is none where it is left empty. -/
structure Authority where
  username : String
  password : Option String
  host : Option Host
  port : Option Nat
  deriving DecidableEq

structure Url where
  scheme : String
  authority : Option Authority
  rootless : Bool
  path : String
  query : Option String
  fragment : Option String
  deriving DecidableEq

namespace Authority

def ofHost (host : Option Host) : Authority := ⟨"", none, host, none⟩

/-- The user part of an authority and the sign behind it. -/
def userText (a : Authority) : String :=
  match a.password with
  | some p => a.username ++ ":" ++ p ++ "@"
  | none => if a.username.isEmpty then "" else a.username ++ "@"

def hostText (a : Authority) : String :=
  (match a.host with
    | some h => h.text
    | none => "") ++
  match a.port with
  | some p => ":" ++ toString p
  | none => ""

def text (a : Authority) : String := a.userText ++ a.hostText

end Authority

namespace Url

/-- Whether a scheme has an authority and a root by its nature. -/
def isSpecial (scheme : String) : Bool :=
  ["http", "https", "ws", "wss", "ftp", "file"].contains scheme

def defaultPort? (scheme : String) : Option Nat :=
  if scheme == "http" || scheme == "ws" then some 80
  else if scheme == "https" || scheme == "wss" then some 443
  else if scheme == "ftp" then some 21
  else none

/-- The path as it stands in the URL: two slashes in front would read as an authority. -/
def pathText (u : Url) : String :=
  if u.authority.isNone && !u.rootless && u.path.startsWith "//" then "/." ++ u.path else u.path

/-- The query with its mark. -/
def queryText (u : Url) : String :=
  match u.query with
  | some q => "?" ++ q
  | none => ""

/-- The text of a URL without its fragment, the user part left out. -/
def requestText (u : Url) : String :=
  u.scheme ++ ":" ++
    (match u.authority with
      | some a => "//" ++ a.hostText
      | none => "") ++
    u.pathText ++ u.queryText

def text (u : Url) : String :=
  u.scheme ++ ":" ++
    (match u.authority with
      | some a => "//" ++ a.text
      | none => "") ++
    u.pathText ++ u.queryText ++
    match u.fragment with
    | some f => "#" ++ f
    | none => ""

end Url

end LintBridge

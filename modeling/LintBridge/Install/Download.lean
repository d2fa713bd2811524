import LintBridge.Engine.Error
import LintBridge.Files.Basic
import LintBridge.Http.Client

namespace LintBridge

structure DownloadOptions where
  proxy : Option String
  /-- Whether the certificates of secured connections are checked. -/
  strictSsl : Bool

/-- A way to ask for URLs for each kind of options; none if they are of no use. -/
abbrev Network := DownloadOptions → Option Transport

/-- A network in which all requests come to one server, or to none. -/
def HttpServer.network (server : HttpServer) : Network := fun options =>
  (HttpClient.configure options.proxy).map fun client => client.send server

namespace Download

def maxRedirects : Nat := 10

/-- Ask for a URL in some way and follow redirects, `left` more of them. Tells all requests
sent. -/
def chase (send : Transport) (start : Url) :
    Nat → List HttpRequest → Url → List HttpRequest × Except InstallError (Url × HttpReply)
  | left, sent, current =>
    let (more, reply) := send sent current
    let sent := sent ++ more
    match reply with
    | none => (sent, .error (.network current.text))
    | some reply =>
      if HttpReply.isRedirect reply.status then
        match left with
        | 0 => (sent, .error (.redirectLimit start.text maxRedirects))
        | left + 1 =>
          match reply.location? current with
          | none => (sent, .error (.missingLocation current.text))
          | some next => chase send start left sent next
      else if reply.status ≠ 200 then (sent, .error (.httpStatus current.text reply.status))
      else (sent, .ok (current, reply))

/-- Keep the body of a reply as a file, and tell its length. A body that breaks off is kept as
far as it came and is an error. -/
def keep (t : FileTree) (dest : Path) (url : Url) (reply : HttpReply) :
    FileTree × Except InstallError Nat :=
  let failure (verb : String) (p : Path) (fault : Fault) : InstallError :=
    .io (verb ++ " " ++ p.display) fault.message
  let (t, fault) := match dest.parent? with
    | some parent =>
      let (t, fault) := t.createAll parent
      (t, fault.map (failure "creating" parent))
    | none => (t, none)
  match fault with
  | some error => (t, .error error)
  | none =>
    match t.write dest [] with
    | .error fault => (t, .error (failure "creating" dest fault))
    | .ok t =>
      match t.append dest reply.body with
      | .error fault => (t, .error (failure "writing" dest fault))
      | .ok t =>
        if reply.whole then (t, .ok reply.body.length)
        else (t, .error (.network url.text))

def deliver (t : FileTree) (dest : Path) :
    List HttpRequest × Except InstallError (Url × HttpReply) →
      List HttpRequest × FileTree × Except InstallError Nat
  | (sent, .error error) => (sent, t, .error error)
  | (sent, .ok (current, reply)) => (sent, keep t dest current reply)

end Download

/-- Load a URL into a file. Tells the requests sent, the tree, and the number of bytes. -/
def download (options : DownloadOptions) (network : Network) (cancelled : Bool) (t : FileTree)
    (url : Url) (dest : Path) : List HttpRequest × FileTree × Except InstallError Nat :=
  if cancelled then ([], t, .error .cancelled)
  else
    match network options with
    | none => ([], t, .error .client)
    | some send => Download.deliver t dest (Download.chase send url Download.maxRedirects [] url)

end LintBridge

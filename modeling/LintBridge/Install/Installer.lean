import LintBridge.Engine.Command
import LintBridge.Install.Download
import LintBridge.Install.Release
import LintBridge.Install.Unpack

namespace LintBridge

/-- What to install and where. -/
structure InstallRequest where
  mode : Mode
  targetDir : Path
  proxy : Option String
  strictSsl : Bool
  deriving DecidableEq

/-- What an installer knows beforehand. -/
structure Installer where
  version : String
  baseUrl : String
  image : String
  platform : Platform

/-- What an installation is given to work with. -/
structure InstallMeans where
  network : Network
  reader : ArchiveReader

/-- What it is given where one server is in reach. -/
def HttpServer.means (server : HttpServer) : InstallMeans := ⟨server.network, Archive.directory?⟩

/-- What an installation did. -/
structure Installation where
  tree : FileTree
  requests : List HttpRequest
  commands : List Command
  result : Except InstallError Path

namespace Installer

def ofDefaults (d : Defaults) (platform : Platform) : Installer :=
  ⟨d.version, d.baseUrl, d.image, platform⟩

def release (i : Installer) (mode : Mode) : Except InstallError Release :=
  Release.find mode i.platform i.version i.baseUrl

def pullCommand (i : Installer) : Command := ⟨"docker", ["pull", i.image], none⟩

/-- What an installation comes to once the command that pulls the image has ended. -/
def pulled (request : InstallRequest) : Except EngineError String → Except InstallError Path
  | .ok _ => .ok request.targetDir
  | .error e => if e.isCancelled then .error .cancelled else .error (.container e)

/-- The file that a release is loaded into. -/
def archivePath (request : InstallRequest) : Path := request.targetDir.child "temp.zip"

def fetch (request : InstallRequest) (network : Network) (cancelled : Bool) (t : FileTree)
    (r : Release) : List HttpRequest × FileTree × Except InstallError Nat :=
  download ⟨request.proxy, request.strictSsl⟩ network cancelled t r.url (archivePath request)

/-- Take the loaded file away, if it is there. -/
def tidy (request : InstallRequest) (t : FileTree) : FileTree :=
  (t.remove (archivePath request)).toOption.getD t

/-- Load a release, unpack it and tidy up. -/
def installRelease (request : InstallRequest) (means : InstallMeans) (cancelled : Bool)
    (t : FileTree) (r : Release) : Installation :=
  match fetch request means.network cancelled t r with
  | (sent, t, .error error) => ⟨tidy request t, sent, [], .error error⟩
  | (sent, t, .ok _) =>
    match unpack means.reader t (archivePath request) request.targetDir with
    | (t, .error error) => ⟨tidy request t, sent, [], .error error⟩
    | (t, .ok _) => ⟨tidy request t, sent, [], .ok (r.installPath request.targetDir)⟩

/-- Install the engine. `run` tells what a command comes to. -/
def install (i : Installer) (request : InstallRequest) (means : InstallMeans) (cancelled : Bool)
    (run : Command → Except EngineError String) (t : FileTree) : Installation :=
  match request.mode with
  | .container => ⟨t, [], [i.pullCommand], pulled request (run i.pullCommand)⟩
  | _ =>
    match i.release request.mode with
    | .error error => ⟨t, [], [], .error error⟩
    | .ok r => installRelease request means cancelled t r

end Installer

end LintBridge

import LintBridge.Engine.Error
import LintBridge.Path
import LintBridge.Url.Parser

namespace LintBridge

structure Release where
  mode : Mode
  platform : String
  version : String
  url : Url

namespace Release

/-- The address of a release below a base address. -/
def address (baseUrl version platform : String) : String :=
  let base := String.ofList (baseUrl.toList.reverse.dropWhile (· == '/')).reverse
  base ++ "/" ++ version ++ "/linterhub-cli-" ++ platform ++ "-" ++ version ++ ".zip"

def find (mode : Mode) (platform : Platform) (version baseUrl : String) :
    Except InstallError Release :=
  match Platform.artifactId mode platform with
  | .error e => .error (.unsupportedPlatform e)
  | .ok id =>
    let raw := address baseUrl version id
    match Url.parse raw with
    | .error reason => .error (.invalidUrl raw reason)
    | .ok url => .ok ⟨mode, id, version, url⟩

/-- Where the engine lies below the directory it was installed into. -/
def installPath (r : Release) (target : Path) : Path := (target.child "bin").child r.platform

end Release

end LintBridge

import LintBridge.Engine.Platform
import LintBridge.Url.Host

namespace LintBridge

mutual
inductive EngineError where
  /-- The program could not be started or read. -/
  | spawn (command source : String)
  /-- The program failed, or wrote to its error stream. A killed program has no code. -/
  | process (command : String) (code : Option Int) (stderr : String)
  | outputTooLarge (limit : Nat)
  | malformedOutput
  | install (cause : InstallError)
  | unsupportedPlatform (cause : UnsupportedPlatform)
  | unavailable (reason : String)
  | cancelled
  | notInitialized

inductive InstallError where
  | network (url : String)
  | httpStatus (url : String) (status : Nat)
  | redirectLimit (url : String) (max : Nat)
  | missingLocation (url : String)
  | invalidUrl (url : String) (reason : UrlError)
  | client
  | io (context source : String)
  | archive (path : String)
  | unsupportedPlatform (cause : UnsupportedPlatform)
  | container (cause : EngineError)
  | cancelled
end

instance : Inhabited EngineError := ⟨.cancelled⟩

instance : Inhabited InstallError := ⟨.cancelled⟩

/-- How an exit code is told. -/
def exitSuffix : Option Int → String
  | some code => " with exit code " ++ toString code
  | none => ""

mutual
def EngineError.message : EngineError → String
  | .spawn command source => "failed to start `" ++ command ++ "`: " ++ source
  | .process command code stderr =>
    "`" ++ command ++ "` failed" ++ exitSuffix code ++ ": " ++ trimBlank stderr
  | .outputTooLarge limit => "engine output exceeded " ++ toString limit ++ " bytes"
  | .malformedOutput => "malformed engine output"
  | .install cause => cause.message
  | .unsupportedPlatform cause => cause.message
  | .unavailable reason => "engine unavailable: " ++ reason
  | .cancelled => "operation cancelled"
  | .notInitialized => "engine not initialized"

def InstallError.message : InstallError → String
  | .network url => "request to " ++ url ++ " failed"
  | .httpStatus url status => url ++ " answered HTTP " ++ toString status
  | .redirectLimit url max =>
    "too many redirects (>" ++ toString max ++ ") starting at " ++ url
  | .missingLocation url => "redirect from " ++ url ++ " has no usable Location header"
  | .invalidUrl url reason => "invalid download URL " ++ url ++ ": " ++ reason.message
  | .client => "failed to configure HTTP client"
  | .io context source => context ++ ": " ++ source
  | .archive path => "corrupt archive " ++ path
  | .unsupportedPlatform cause => cause.message
  | .container cause => "container image pull failed: " ++ cause.message
  | .cancelled => "install cancelled"
end

mutual
def EngineError.isCancelled : EngineError → Bool
  | .cancelled => true
  | .install cause => cause.isCancelled
  | _ => false

def InstallError.isCancelled : InstallError → Bool
  | .cancelled => true
  | .container cause => cause.isCancelled
  | _ => false
end

mutual
/-- The texts of the causes behind an engine error, the nearest first. -/
def EngineError.causes : EngineError → List String
  | .spawn _ source => [source]
  | .install cause => cause.causes
  | _ => []

def InstallError.causes : InstallError → List String
  | .invalidUrl _ reason => [reason.message]
  | .io _ source => [source]
  | .container cause => cause.message :: cause.causes
  | _ => []
end

end LintBridge

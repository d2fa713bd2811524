import LintBridge.Config.Defaults
import LintBridge.Files.Replace

namespace LintBridge

/-- Why a configuration file could not be used. -/
inductive ConfigError where
  | read (path : Path) (fault : Fault)
  | parse (path : Path)
  | json (path : Path)
  | write (path : Path) (fault : Fault)
  deriving DecidableEq

namespace ConfigError

def path : ConfigError → Path
  | read p _ => p
  | parse p => p
  | json p => p
  | write p _ => p

def message : ConfigError → String
  | read p fault => "failed to read " ++ p.display ++ ": " ++ fault.message
  | parse p => "failed to parse " ++ p.display
  | json p => "invalid JSON in " ++ p.display
  | write p fault => "failed to write " ++ p.display ++ ": " ++ fault.message

end ConfigError

namespace ServerConfig

def loadFrom (t : FileTree) (p : Path) : Except ConfigError ServerConfig :=
  match t.readText p with
  | .error fault => .error (.read p fault)
  | .ok text =>
    match ServerConfig.read? text with
    | none => .error (.parse p)
    | some config => .ok config

/-- The user's file; none where there is no home or no such file. -/
def load (env : Environment) (t : FileTree) : Except ConfigError (Option ServerConfig) :=
  match path? env with
  | none => .ok none
  | some p => if t.existsAt p then (loadFrom t p).map some else .ok none

end ServerConfig

/-- The defaults of the user's file, or those built in where it cannot be used. -/
def Defaults.load (env : Environment) (t : FileTree) : Defaults :=
  match ServerConfig.load env t with
  | .ok (some config) => ofConfig env config
  | _ => builtIn env

end LintBridge

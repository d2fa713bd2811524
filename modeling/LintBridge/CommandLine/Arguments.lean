import LintBridge.Engine.Mode
import LintBridge.Path

namespace LintBridge

inductive Invocation where
  | serve
  | install (mode : Option Mode) (dir : Option Path)
  | version
  | usage
  deriving DecidableEq

/-- Why the arguments make no sense. -/
inductive UsageError where
  | unexpected (argument : String)
  | noValue (option : String)
  | repeated (option : String)
  | badMode (e : UnknownMode)

namespace UsageError

def message : UsageError → String
  | unexpected argument => "unexpected argument '" ++ argument ++ "' found"
  | noValue option => "a value is required for '" ++ option ++ "' but none was supplied"
  | repeated option => "the argument '" ++ option ++ "' cannot be used multiple times"
  | badMode e => "invalid value for '--mode': " ++ e.message

end UsageError

namespace Invocation

/-- Whether an argument begins another option, so that it is no value. -/
def isOption (argument : String) : Bool := "-".isPrefixOf argument && argument != "-"

def asksUsage (argument : String) : Bool := argument == "--help" || "-h".isPrefixOf argument

def asksVersion (argument : String) : Bool := argument == "--version" || "-V".isPrefixOf argument

/-- The value of an option that stands in one argument with it. -/
def valueIn? (option argument : String) : Option String :=
  if (option ++ "=").isPrefixOf argument then
    some (String.ofList (argument.toList.drop (option.length + 1)))
  else none

def withMode (mode : Option Mode) (value : String) : Except UsageError (Option Mode) :=
  if mode.isSome then .error (.repeated "--mode")
  else
    match Mode.parse value with
    | .ok m => .ok (some m)
    | .error e => .error (.badMode e)

/-- The directory of an installation is given. It cannot be empty. -/
def withDir (dir : Option Path) (value : String) : Except UsageError (Option Path) :=
  if dir.isSome then .error (.repeated "--dir")
  else if value.isEmpty then .error (.noValue "--dir")
  else .ok (some (.ofText value))

def ended (i : Invocation) : List String → Except UsageError Invocation
  | [] => .ok i
  | argument :: _ => .error (.unexpected argument)

def readInstall (mode : Option Mode) (dir : Option Path) :
    List String → Except UsageError Invocation
  | [] => .ok (.install mode dir)
  | ["--mode"] => .error (.noValue "--mode")
  | ["--dir"] => .error (.noValue "--dir")
  | "--mode" :: value :: rest =>
    if isOption value then .error (.noValue "--mode")
    else
      match withMode mode value with
      | .ok mode => readInstall mode dir rest
      | .error e => .error e
  | "--dir" :: value :: rest =>
    if isOption value then .error (.noValue "--dir")
    else
      match withDir dir value with
      | .ok dir => readInstall mode dir rest
      | .error e => .error e
  | argument :: rest =>
    if argument == "--" then ended (.install mode dir) rest
    else if asksUsage argument then .ok .usage
    else
      match valueIn? "--mode" argument, valueIn? "--dir" argument with
      | some value, _ =>
        match withMode mode value with
        | .ok mode => readInstall mode dir rest
        | .error e => .error e
      | none, some value =>
        match withDir dir value with
        | .ok dir => readInstall mode dir rest
        | .error e => .error e
      | none, none => .error (.unexpected argument)

/-- Read the arguments. `stdio` says whether it was asked for the standard streams, which are used
in any case. -/
def readFrom (stdio : Bool) : List String → Except UsageError Invocation
  | [] => .ok .serve
  | argument :: rest =>
    if argument == "--" then ended .serve rest
    else if argument == "install" then readInstall none none rest
    else if argument == "help" then ended .usage (rest.dropWhile fun a => a == "install")
    else if argument == "--stdio" then
      if stdio then .error (.repeated "--stdio") else readFrom true rest
    else if asksVersion argument then .ok .version
    else if asksUsage argument then .ok .usage
    else .error (.unexpected argument)

def read (arguments : List String) : Except UsageError Invocation := readFrom false arguments

end Invocation

end LintBridge

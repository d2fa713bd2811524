import LintBridge.Engine.Process
import LintBridge.Shell.Script
import LintBridge.Shell.Tools

namespace LintBridge

namespace Shell

structure State where
  tree : FileTree
  /-- What the script was started as, and its arguments. -/
  name : String
  args : List String
  env : Environment
  last : Nat
  out : Flow
  err : Flow
  ended : Option ExitStatus

namespace State

/-- How a script names its own process. -/
def ownId : String := "4711"

def here (s : State) : String := utf8Lossy (Path.slash :: Path.unsplit s.tree.here)

def value (s : State) (name : String) : String :=
  match name with
  | "PWD" => s.here
  | "$" => ownId
  | "?" => toString s.last
  | "#" => toString s.args.length
  | "@" => " ".intercalate s.args
  | "*" => " ".intercalate s.args
  | "0" => s.name
  | name =>
    match unsigned64? name with
    | some n => s.args.getD (n - 1) ""
    | none => String.ofList (s.env.text name)

/-- Texts between blanks; those at the ends may be empty. -/
def parts (cs : List Char) : List (List Char) :=
  cs.foldr (fun c parts =>
    if isBlank c then [] :: parts
    else
      match parts with
      | [] => [[c]]
      | p :: ps => (c :: p) :: ps) [[]]

/-- The fields of a word: `open_` holds the characters of the one being put together. -/
def fieldsFrom (s : State) : (opened : Option (List Char)) → Word → List String
  | none, [] => []
  | some cs, [] => [String.ofList cs]
  | opened, .text cs :: rest => fieldsFrom s (some (opened.getD [] ++ cs)) rest
  | opened, .named name true :: rest =>
    fieldsFrom s (some (opened.getD [] ++ (s.value name).toList)) rest
  | opened, .named name false :: rest =>
    match (parts (s.value name).toList).filter fun p => !p.isEmpty with
    | [] => fieldsFrom s opened rest
    | p :: ps =>
      match (p :: ps).reverse with
      | [] => fieldsFrom s opened rest
      | [only] => fieldsFrom s (some (opened.getD [] ++ only)) rest
      | final :: before =>
        match before.reverse with
        | [] => fieldsFrom s opened rest
        | first :: middle =>
          String.ofList (opened.getD [] ++ first) :: middle.map String.ofList ++
            fieldsFrom s (some final) rest

def fields (s : State) (words : List Word) : List String := words.flatMap (s.fieldsFrom none)

/-- Where the output of a command goes. -/
inductive Sink where
  | out
  | err
  | file (path : String) (behind : Bool)

/-- Where the two streams of a command go. -/
def sinks (s : State) : List Redirect → Sink × Sink → Sink × Sink
  | [], pair => pair
  | .stream a b :: rest, (o, e) =>
    let target := if b = 2 then e else o
    sinks s rest (if a = 2 then (o, target) else (target, e))
  | .file a behind w :: rest, (o, e) =>
    let target := Sink.file ("".intercalate (s.fieldsFrom none w)) behind
    sinks s rest (if a = 2 then (o, target) else (target, e))
  | .input _ :: rest, pair => sinks s rest pair

/-- What a command reads: a file, or what flows to it. -/
def source (s : State) (input : Flow) : List Redirect → Except String Flow
  | [] => .ok input
  | .input w :: rest =>
    let name := "".intercalate (s.fieldsFrom none w)
    match readFile s.tree name with
    | .ok flow => source s flow rest
    | .error _ => .error ("cannot open " ++ name ++ ": No such file")
  | _ :: rest => source s input rest

/-- Give what a command wrote to where it goes. `piped` holds what flows on. -/
def deliver (s : State) (piped : Flow) (flow : Flow) : Sink → State × Flow
  | .out => (s, piped.append flow)
  | .err => ({ s with err := s.err.append flow }, piped)
  | .file p behind =>
    if p == "/dev/null" then (s, piped)
    else
      let bytes := flow.take 65536
      let written := if behind then s.tree.append (.ofText p) bytes
        else s.tree.write (.ofText p) bytes
      ({ s with tree := written.toOption.getD s.tree }, piped)

/-- A complaint of the script itself, in its first line. -/
def complain (s : State) (status : Nat) (text : String) : State :=
  { s with
    err := s.err.append (.finite (utf8 (s.name ++ ": 1: " ++ text ++ "\n")))
    last := status }

/-- The largest status that a script can be told to end with. -/
def maxStatus : Nat := 2147483647

/-- Run a command that concerns the script itself; none if it is another. -/
def own? (s : State) : List String → Option State
  | ["exit"] => some { s with ended := some (.code s.last) }
  | "exit" :: n :: _ =>
    match (decimal? n.toList).filter (· ≤ maxStatus) with
    | some status => some { s with ended := some (.code ((status % 256 : Nat) : Int)) }
    | none =>
      some { s.complain 2 ("exit: Illegal number: " ++ n) with ended := some (.code 2) }
  | ["kill", "-0", _] => some { s with last := 0 }
  | "kill" :: args =>
    if args.getLast? == some ownId then some { s with ended := some .killed } else none
  | ["cd", p] =>
    match s.tree.walk (s.tree.origin (.ofText p)) (Path.ofText p).pieces with
    | .ok l => some { s with tree := { s.tree with here := l }, last := 0 }
    | .error _ => some (s.complain 2 ("cd: can't cd to " ++ p))
  | _ => none

def assign (s : State) (name : String) (value : Word) : State :=
  let text := "".intercalate (s.fieldsFrom none value)
  { s with env := ⟨(name, utf8 text) :: s.env.bindings⟩, last := 0 }

/-- Run one command on what flows in, and tell what flows on. -/
def command (s : State) (c : Simple) (input : Flow) : State × Flow :=
  match s.fields c.words with
  | [] => (s, .none)
  | name :: args =>
    let effect := match s.source input c.redirects with
      | .ok input => (tool? s.tree name args input).getD
          (.failed 127 (s.name ++ ": 1: " ++ name ++ ": not found"))
      | .error text => .failed 2 (s.name ++ ": 1: " ++ text)
    let (o, e) := s.sinks c.redirects (.out, .err)
    let (s, piped) := s.deliver .none effect.out o
    let (s, piped) := s.deliver piped (.finite effect.err) e
    ({ s with last := effect.status }, piped)

/-- Run a pipeline on what flows in. -/
def pipeline (s : State) : List Simple → Flow → State
  | [], flow => { s with out := s.out.append flow }
  | c :: cs, flow =>
    let (s, flow) := s.command c flow
    pipeline s cs flow

def run (s : State) : Script → State
  | [] => s
  | (link, commands) :: rest =>
    if s.ended.isSome then s
    else
      let wanted := match link with
        | .always => true
        | .onSuccess => s.last = 0
        | .onFailure => s.last ≠ 0
      if !wanted then run s rest
      else
        match commands with
        | [c] =>
          match c.words.mapM assignment?, s.own? (s.fields c.words) with
          | some (a :: as), _ => run ((a :: as).foldl (fun s a => s.assign a.1 a.2) s) rest
          | _, some s => run s rest
          | _, none => run (s.pipeline [c] .none) rest
        | commands => run (s.pipeline commands .none) rest

def status (s : State) : ExitStatus := s.ended.getD (.code s.last)

end State

def runScript (t : FileTree) (env : Environment) (name : String) (args : List String)
    (text : String) : State :=
  (State.mk t name args env 0 .none .none none).run (parse text)

end Shell

end LintBridge

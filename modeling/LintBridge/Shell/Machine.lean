import LintBridge.Shell.Run

namespace LintBridge

/-- A machine: its files, and the variables of the programs it starts. -/
structure Machine where
  tree : FileTree
  env : Environment

namespace Machine

structure Ran where
  tree : FileTree
  out : Shell.Flow
  err : Shell.Flow
  status : ExitStatus

def systemPrograms : List String :=
  ["sh", "true", "false", "echo", "printf", "cat", "head", "tr", "yes", "pwd", "sleep", "test",
    "["]

def systemDirectories : List Path := [.ofText "/usr/bin", .ofText "/bin"]

/-- The directories searched for programs, from a list parted by colons. -/
def directories (list : Bytes) : List Path :=
  let step (b : UInt8) (parts : List Bytes) : List Bytes :=
    if b = 0x3a then [] :: parts
    else
      match parts with
      | [] => [[b]]
      | p :: ps => (b :: p) :: ps
  (list.foldr step [[]]).map Path.mk

def systemProgram? (p : Path) : Option String :=
  systemPrograms.find? fun name =>
    systemDirectories.any fun dir => (dir.child name).segments == p.segments

/-- Whether a path leads to a file that may be run. -/
def isExecutable (m : Machine) (p : Path) : Bool :=
  match m.tree.find p with
  | .ok (.file mode _) => mode &&& 0o111 != 0
  | _ => false

/-- Whether a program is named by its path. -/
def isPath (program : String) : Bool :=
  let p := Path.ofText program
  p.isAbsolute || 1 < p.segments.length + (if p.startsHere then 1 else 0)

/-- The path of a program, or why there is none. -/
def locate (m : Machine) (program : String) : Except String Path :=
  if isPath program then .ok (.ofText program)
  else
    let candidates := (directories ((m.env.bytes? "PATH").getD [])).map fun dir =>
      dir.child program
    match candidates.find? m.isExecutable with
    | some p => .ok p
    | none => .error (program ++ " not found in PATH: cannot find binary path")

/-- Run a shell, started under a name of its own, with arguments. -/
def shell (m : Machine) (own : String) (args : List String) : Ran :=
  let ran (name : String) (args : List String) (text : String) : Ran :=
    let s := Shell.runScript m.tree m.env name args text
    ⟨s.tree, s.out, s.err, s.status⟩
  match args with
  | "-c" :: text :: name :: args => ran name args text
  | ["-c", text] => ran own [] text
  | file :: args =>
    match m.tree.readText (.ofText file) with
    | .ok text => ran file args text
    | .error _ =>
      ⟨m.tree, .none, .finite (utf8 (own ++ ": 0: cannot open " ++ file ++ ": No such file\n")),
        .code 2⟩
  | [] => ⟨m.tree, .none, .none, .code 0⟩

/-- Run a program of the system that lies at a path. -/
def system (m : Machine) (p : Path) (name : String) (args : List String) : Ran :=
  if name == "sh" then m.shell p.display args
  else if name == "echo" then
    ⟨m.tree, .finite (utf8Chars (Shell.spaced args) ++ [0x0a]), .none, .code 0⟩
  else
    match Shell.tool? m.tree name args .none with
    | some effect => ⟨m.tree, effect.out, .finite effect.err, .code effect.status⟩
    | none => ⟨m.tree, .none, .none, .code 1⟩

/-- Run the program at a path, or tell why it does not start. -/
def launch (m : Machine) (p : Path) (args : List String) : Except String Ran :=
  match m.tree.find p with
  | .error fault => .error fault.message
  | .ok .directory => .error Fault.denied.message
  | .ok (.file mode content) =>
    if mode &&& 0o111 == 0 then .error Fault.denied.message
    else
      match systemProgram? p with
      | some name => .ok (m.system p name args)
      | none =>
        if (utf8 "#!").isPrefixOf content then .ok (m.shell p.display (p.display :: args))
        else .error "Exec format error (os error 8)"

def enter (m : Machine) : Option Path → Except Fault Machine
  | none => .ok m
  | some dir => do
    FileTree.checkPath dir
    let l ← m.tree.walk (m.tree.origin dir) dir.pieces
    return { m with tree := { m.tree with here := l } }

/-- Whether a text cannot be given to a program. -/
def hasNul (s : String) : Bool := s.toList.contains '\x00'

def start (m : Machine) (c : Command) : Except String Ran := do
  let p ← m.locate c.program
  if hasNul c.program || c.args.any hasNul || c.cwd.any (fun dir => dir.bytes.contains 0) then
    throw "nul byte found in provided data"
  match m.enter c.cwd with
  | .error fault => throw fault.message
  | .ok inside =>
    let ran ← inside.launch p c.args
    return { ran with tree := { ran.tree with here := m.tree.here } }

/-- What a command comes to within a limit, and the files it leaves. A program that writes
without an end is past any limit. -/
def execute (m : Machine) (c : Command) (limit : Nat) (cancelled : Bool) :
    FileTree × Except EngineError String :=
  match m.start c with
  | .error reason => (m.tree, .error (.spawn c.display reason))
  | .ok ran =>
    if cancelled then (m.tree, .error .cancelled)
    else
      match ran.out, ran.err with
      | .finite out, .finite err =>
        let events := (Process.pieces out).map ProcessEvent.out ++
          (Process.pieces err).map ProcessEvent.err
        (ran.tree, Process.execute c limit events ran.status)
      | _, _ => (ran.tree, .error (.outputTooLarge limit))

end Machine

end LintBridge

import LintBridge.CommandLine.Live

namespace LintBridge.Console

def readEnvironment : IO Environment := do
  let home ← IO.getEnv "HOME"
  return ⟨(home.map fun h => ("HOME", utf8 h)).toList⟩

/-- A tree that holds nothing but the user's configuration file, if there is one. -/
def readFiles (env : Environment) : IO FileTree := do
  let bare : FileTree := ⟨[], []⟩
  match ServerConfig.path? env with
  | none => return bare
  | some p =>
    let text ← (IO.FS.readFile p.display).toBaseIO
    match text with
    | .error _ => return bare
    | .ok text =>
      let tree := (bare.createAll (p.parent?.getD p)).1
      return (tree.write p (utf8 text)).toOption.getD tree

def readWorld : IO World := do
  let env ← readEnvironment
  let files ← readFiles env
  return ⟨⟨files, env⟩, .ofText ".", ⟨.linux, .x64⟩, ⟨"", 0, fun _ _ => none⟩, []⟩

def write (out : IO.FS.Stream) (bytes : Bytes) : IO Unit := do
  out.write ⟨bytes.toArray⟩
  out.flush

/-- Serve the editor at the other end of the streams. -/
partial def serve (input out : IO.FS.Stream) (l : LiveSession) : IO Ending := do
  let heard ← input.read 65536
  let (l, sent) := (l.hear heard.toList).take
  write out sent
  match l.ending? with
  | some e => return e
  | none => serve input out l

end LintBridge.Console

open LintBridge LintBridge.Console

def main (arguments : List String) : IO UInt32 := do
  let world ← readWorld
  let out ← IO.getStdout
  let ending ← match Invocation.read arguments with
    | .ok .serve => serve (← IO.getStdin) out (.new world.openLog world.defaults)
    | _ => pure (CommandLine.run world arguments []).2
  write out ending.out
  (← IO.getStderr).putStr ending.err
  return UInt32.ofNat ending.code

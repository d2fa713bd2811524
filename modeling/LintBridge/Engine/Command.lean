import LintBridge.Config.Settings
import LintBridge.Url.File

namespace LintBridge

/-- A program, its arguments, and the directory it runs in. -/
structure Command where
  program : String
  args : List String
  cwd : Option Path
  deriving DecidableEq

/-- A command as text: an argument with a blank stands in quotes. -/
def Command.display (c : Command) : String :=
  c.args.foldl (fun shown arg =>
    if arg.toList.any isBlank then shown ++ " \"" ++ arg ++ "\"" else shown ++ " " ++ arg) c.program

inductive Operation where
  | version
  | catalog
  | analyze
  | analyzeFile (file : String)
  | activate (linter : String) (active : Bool)
  | linterVersion (linter : String)
  | linterInstall (linter : String)
  deriving DecidableEq

def Operation.args (project : String) : Operation → List String
  | .version => ["--mode=version"]
  | .catalog => ["--mode=catalog"]
  | .analyze => ["--mode=analyze", "--project=" ++ project]
  | .analyzeFile file => ["--mode=analyze", "--project=" ++ project, "--file=" ++ file]
  | .activate linter active =>
    ["--mode=activate", "--active=" ++ (if active then "true" else "false"), "--linter=" ++ linter]
  | .linterVersion linter => ["--mode=linterVersion", "--linter=" ++ linter]
  | .linterInstall linter => ["--mode=linterInstall", "--linter=" ++ linter]

structure Engine where
  dir : Path
  project : Path
  mode : Mode
  image : String
  deriving DecidableEq

namespace Engine

/-- Where a container finds the project. -/
def mountPoint : String := "/data"

def command (e : Engine) (op : Operation) : Command :=
  match e.mode with
  | .managedRuntime =>
    ⟨"dotnet", (e.dir.child "cli.dll").display :: op.args e.project.display, some e.dir⟩
  | .nativeBinary => ⟨(e.dir.child "cli").display, op.args e.project.display, some e.dir⟩
  | .container =>
    ⟨"docker",
      ["run", "--rm", "-v", e.project.display ++ ":" ++ mountPoint ++ ":ro", e.image] ++
        op.args mountPoint,
      some e.project⟩

/-- The path that a document has on this machine, given as a file URL or as a path. -/
def documentPath (document : String) : Path :=
  (Path.ofFileUrlText? document).getD (Path.ofText document)

/-- A document's path relative to a project, or as it is if it lies outside. -/
def relativePath (project : Path) (document : String) : String :=
  let whole := documentPath document
  ((whole.stripPrefix? project).getD whole).display

end Engine

end LintBridge

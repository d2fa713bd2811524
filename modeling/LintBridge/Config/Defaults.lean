import LintBridge.Config.Environment
import LintBridge.Engine.Mode
import LintBridge.Toml.Reader
import LintBridge.Trigger

namespace LintBridge

structure EngineSection where
  cliRoot : Option String
  mode : Option Mode
  version : Option String
  image : Option String
  maxOutputBytes : Option Nat

structure InstallSection where
  baseUrl : Option String
  dir : Option String
  proxy : Option String
  strictSsl : Option Bool

/-- The user's file. Every section may be left out. -/
structure ServerConfig where
  engine : Option EngineSection
  install : Option InstallSection
  run : Option (List String)
  intervalMs : Option (Option Nat)

/-- What the server goes by where nothing else is said. -/
structure Defaults where
  cliRoot : Path
  mode : Mode
  version : String
  image : String
  baseUrl : String
  installDir : Path
  proxy : Option String
  strictSsl : Bool
  run : List Trigger
  maxOutputBytes : Nat
  intervalMs : Nat

namespace ServerConfig

def engineSection : Decoder EngineSection :=
  Record.decoder "EngineSection" (((((Record.build EngineSection.mk).nullable "cli_root"
    Decoder.text).nullable "mode" Mode.decoder).nullable "version" Decoder.text).nullable "image"
    Decoder.text |>.nullable "max_output_bytes" Decoder.nat64)

def installSection : Decoder InstallSection :=
  Record.decoder "InstallSection" ((((Record.build InstallSection.mk).nullable "base_url"
    Decoder.text).nullable "dir" Decoder.text).nullable "proxy" Decoder.text
    |>.nullable "strict_ssl" Decoder.boolean)

def analysisSection : Decoder (List String) :=
  Record.decoder "AnalysisSection" ((Record.build id).defaulted "run"
    (Decoder.list Decoder.text) [])

def progressSection : Decoder (Option Nat) :=
  Record.decoder "ProgressSection" ((Record.build id).nullable "interval_ms" Decoder.nat64)

def decoder : Decoder ServerConfig :=
  Record.decoder "ServerConfig" ((((Record.build ServerConfig.mk).nullable "engine"
    engineSection).nullable "install" installSection).nullable "analysis" analysisSection
    |>.nullable "progress" progressSection)

def read? (s : String) : Option ServerConfig := Toml.decode decoder s

/-- Where the user's file is. -/
def path? (env : Environment) : Option Path :=
  env.home?.map fun home => (home.child ".linterhub").child "config.toml"

end ServerConfig

namespace Defaults

/-- The directory of the engine when none is configured. -/
def cliRootOf (env : Environment) : Path :=
  match env.home? with
  | some home => (home.child ".linterhub").child "cli"
  | none => (Path.ofText ".linterhub").child "cli"

def builtIn (env : Environment) : Defaults where
  cliRoot := cliRootOf env
  mode := .nativeBinary
  version := "0.3.3"
  image := "repometric/linterhub-cli"
  baseUrl := "https://github.com/Repometric/linterhub-cli/releases/download"
  installDir := cliRootOf env
  proxy := none
  strictSsl := true
  run := Trigger.defaults
  maxOutputBytes := 500 * 1024 * 1024
  intervalMs := 80

def trimSlashes (s : String) : String :=
  String.ofList (s.toList.reverse.dropWhile (· == '/')).reverse

/-- A list of names that stands for others where none of it is known. -/
def recognizedOr (fallback : List Trigger) (names : List String) : List Trigger :=
  match Trigger.recognized names with
  | [] => fallback
  | run => run

/-- Overlay the section about the engine. A root moves the install directory along. -/
def withEngine (env : Environment) (d : Defaults) (e : EngineSection) : Defaults :=
  let root := e.cliRoot.map fun r => Path.ofText (env.expand r)
  { d with
    cliRoot := root.getD d.cliRoot
    installDir := root.getD d.installDir
    mode := e.mode.getD d.mode
    version := e.version.getD d.version
    image := e.image.getD d.image
    maxOutputBytes := e.maxOutputBytes.getD d.maxOutputBytes }

/-- Overlay the section about installation. A blank proxy is none. -/
def withInstall (env : Environment) (d : Defaults) (i : InstallSection) : Defaults :=
  { d with
    baseUrl := (i.baseUrl.map trimSlashes).getD d.baseUrl
    installDir := (i.dir.map fun p => Path.ofText (env.expand p)).getD d.installDir
    proxy := (i.proxy.map env.expand).filter fun p => !isBlankText p
    strictSsl := i.strictSsl.getD d.strictSsl }

/-- The built-in values overlaid with a file. -/
def ofConfig (env : Environment) (c : ServerConfig) : Defaults :=
  let d := builtIn env
  let d := (c.engine.map (withEngine env d)).getD d
  let d := (c.install.map (withInstall env d)).getD d
  { d with
    run := recognizedOr d.run (c.run.getD [])
    intervalMs := ((c.intervalMs.bind id).map (max 1)).getD d.intervalMs }

end Defaults

end LintBridge

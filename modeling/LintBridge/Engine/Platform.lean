import LintBridge.Engine.Mode

namespace LintBridge

inductive Os where
  | linux
  | macos
  | windows
  deriving DecidableEq, Repr

inductive Arch where
  | x64
  | x86
  | arm64
  deriving DecidableEq, Repr

/-- A platform with no release, or one that is not known. -/
structure UnsupportedPlatform where
  os : String
  arch : String
  deriving DecidableEq

def UnsupportedPlatform.message (e : UnsupportedPlatform) : String :=
  "unsupported platform: " ++ e.os ++ "/" ++ e.arch

namespace Os

def all : List Os := [.linux, .macos, .windows]

def name : Os → String
  | linux => "linux"
  | macos => "macos"
  | windows => "windows"

def decoder : Decoder Os := Decoder.variant (all.map fun o => (o.name, o))

end Os

namespace Arch

def all : List Arch := [.x64, .x86, .arm64]

def name : Arch → String
  | x64 => "x64"
  | x86 => "x86"
  | arm64 => "arm64"

/-- The name of an architecture in a target triple. -/
def targetName : Arch → String
  | x64 => "x86_64"
  | x86 => "x86"
  | arm64 => "aarch64"

def decoder : Decoder Arch := Decoder.variant (all.map fun a => (a.name, a))

end Arch

structure Platform where
  os : Os
  arch : Arch
  deriving DecidableEq

namespace Platform

def text (p : Platform) : String := p.os.name ++ "-" ++ p.arch.name

/-- The platform with the names of a target triple. -/
def ofTarget (os arch : String) : Except UnsupportedPlatform Platform :=
  match Os.all.find? fun o => o.name == os, Arch.all.find? fun a => a.targetName == arch with
  | some o, some a => .ok ⟨o, a⟩
  | _, _ => .error ⟨os, arch⟩

def releases : List (Platform × String) :=
  [(⟨.macos, .x64⟩, "osx.10.11-x64"), (⟨.macos, .arm64⟩, "osx-arm64"),
    (⟨.linux, .x64⟩, "debian.8-x64"), (⟨.linux, .arm64⟩, "linux-arm64"),
    (⟨.windows, .x64⟩, "win10-x64"), (⟨.windows, .x86⟩, "win10-x86")]

def runtimeId (p : Platform) : Except UnsupportedPlatform String :=
  match releases.find? fun r => r.1 == p with
  | some r => .ok r.2
  | none => .error ⟨p.os.name, p.arch.name⟩

/-- The name of the managed release. -/
def portableId : String := "portable"

/-- The name of the release to load for a mode. -/
def artifactId (mode : Mode) (p : Platform) : Except UnsupportedPlatform String :=
  match mode with
  | .managedRuntime => .ok portableId
  | .nativeBinary => p.runtimeId
  | .container => p.runtimeId

end Platform

end LintBridge

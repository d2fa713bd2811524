import LintBridge.Files.Basic

namespace LintBridge

inductive ReplaceStep where
  | create
  | write
  | sync
  | rename
  deriving DecidableEq

/-- What may fail in a replacement although the tree allows it. -/
abbrev Trouble := ReplaceStep → Option Fault

namespace FileTree

/-- The mode of a file that only its owner may read. -/
def ownerMode : Nat := 0o600

def spareName (n : Nat) : Bytes := utf8 (".tmp" ++ toString n)

/-- A name that a directory does not hold. -/
def spare (t : FileTree) (l : Location) : Bytes :=
  let free n := (t.item? (l ++ [spareName n])).isNone
  spareName (((List.range (t.items.length + 1)).find? free).getD (t.items.length + 1))

/-- Go on with a step unless it is in trouble. -/
def attempt (trouble : Trouble) (step : ReplaceStep) : Except Fault Unit :=
  match trouble step with
  | some fault => .error fault
  | none => .ok ()

/-- A file takes the place of what lies at a path. -/
def rename (t : FileTree) (source : Location) (p : Path) : Except Fault FileTree := do
  match ← t.resolve p with
  | .directory _ => throw .isDirectory
  | .entry parent name slashed =>
    if slashed then throw .notDirectory
    match ← t.look parent name, t.item? source with
    | some .directory, _ => throw .isDirectory
    | _, some item => return (t.erase source).put (parent ++ [name]) item
    | _, none => throw .missing

/-- The content at a path becomes the given one at once, by way of a file in a directory. -/
def replace (t : FileTree) (dir p : Path) (content : Bytes) (trouble : Trouble) :
    FileTree × Option Fault :=
  match (do attempt trouble .create; t.resolve (dir.child "x") : Except Fault Destination) with
  | .error fault => (t, some fault)
  | .ok (.directory _) => (t, some .isDirectory)
  | .ok (.entry l _ _) =>
    let source := l ++ [t.spare l]
    let written := (t.put source (.file ownerMode [])).put source (.file ownerMode content)
    let placed : Except Fault FileTree := do
      attempt trouble .write
      attempt trouble .sync
      attempt trouble .rename
      written.rename source p
    match placed with
    | .ok t => (t, none)
    | .error fault => (written.erase source, some fault)

end FileTree

end LintBridge

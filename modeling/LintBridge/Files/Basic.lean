import LintBridge.Path

namespace LintBridge

inductive Fault where
  | missing
  | denied
  | occupied
  | notDirectory
  | isDirectory
  | nameTooLong
  | nulInName
  | notText
  deriving DecidableEq

def Fault.message : Fault → String
  | missing => "No such file or directory (os error 2)"
  | denied => "Permission denied (os error 13)"
  | occupied => "File exists (os error 17)"
  | notDirectory => "Not a directory (os error 20)"
  | isDirectory => "Is a directory (os error 21)"
  | nameTooLong => "File name too long (os error 36)"
  | nulInName => "file name contained an unexpected NUL byte"
  | notText => "stream did not contain valid UTF-8"

/-- A place in the tree: the names on the way from the root. -/
abbrev Location := List Bytes

inductive FileItem where
  | directory
  | file (mode : Nat) (content : Bytes)
  deriving DecidableEq

/-- A tree of files and the directory that relative paths start from. -/
structure FileTree where
  items : List (Location × FileItem)
  here : Location

/-- What a path leads to, once every directory on the way was found. -/
inductive Destination where
  /-- A directory that exists, named by `.`, `..` or the root. -/
  | directory (location : Location)
  /-- A name in a directory that exists, perhaps with slashes behind it. -/
  | entry (parent : Location) (name : Bytes) (slashed : Bool)

namespace FileTree

/-- What lies at a location. The root always exists. -/
def item? (t : FileTree) (l : Location) : Option FileItem :=
  if l = [] then some .directory
  else (t.items.find? fun entry => entry.1 == l).map Prod.snd

def put (t : FileTree) (l : Location) (item : FileItem) : FileTree :=
  if t.items.any fun entry => entry.1 == l then
    { t with items := t.items.map fun entry => if entry.1 == l then (l, item) else entry }
  else { t with items := t.items ++ [(l, item)] }

def erase (t : FileTree) (l : Location) : FileTree :=
  { t with items := t.items.filter fun entry => !(entry.1 == l) }

def maxName : Nat := 255

def maxPath : Nat := 4095

/-- What lies under a name in a directory. -/
def look (t : FileTree) (parent : Location) (name : Bytes) : Except Fault (Option FileItem) :=
  if maxName < name.length then .error .nameTooLong else .ok (t.item? (parent ++ [name]))

/-- Go through directories, one piece of a path after the other. -/
def walk (t : FileTree) (l : Location) : List Bytes → Except Fault Location
  | [] => .ok l
  | piece :: pieces =>
    if Path.isIdle piece then walk t l pieces
    else if piece = Path.dotDot then walk t l.dropLast pieces
    else
      match t.look l piece with
      | .error fault => .error fault
      | .ok none => .error .missing
      | .ok (some (.file _ _)) => .error .notDirectory
      | .ok (some .directory) => walk t (l ++ [piece]) pieces

/-- The location that a path starts from. -/
def origin (t : FileTree) (p : Path) : Location := if p.isAbsolute then [] else t.here

/-- Whether a path can be given to the system at all. -/
def checkPath (p : Path) : Except Fault Unit :=
  if p.bytes.contains 0 then .error .nulInName
  else if p.bytes.isEmpty then .error .missing
  else if maxPath < p.bytes.length then .error .nameTooLong
  else .ok ()

/-- Follow a path up to its last piece. -/
def resolve (t : FileTree) (p : Path) : Except Fault Destination := do
  checkPath p
  let backwards := p.pieces.reverse
  let named := backwards.dropWhile List.isEmpty
  match named with
  | [] => return .directory (← t.walk (t.origin p) [])
  | name :: before =>
    if Path.isIdle name || name == Path.dotDot then
      return .directory (← t.walk (t.origin p) named.reverse)
    else
      let parent ← t.walk (t.origin p) before.reverse
      return .entry parent name (decide (named.length < backwards.length))

def find (t : FileTree) (p : Path) : Except Fault FileItem := do
  match ← t.resolve p with
  | .directory _ => return .directory
  | .entry parent name slashed =>
    match ← t.look parent name with
    | none => throw .missing
    | some .directory => return .directory
    | some (.file mode content) =>
      if slashed then throw .notDirectory else return .file mode content

def existsAt (t : FileTree) (p : Path) : Bool := (t.find p).toOption.isSome

def isDirectory (t : FileTree) (p : Path) : Bool := (t.find p).toOption == some .directory

def isFile (t : FileTree) (p : Path) : Bool :=
  match t.find p with
  | .ok (.file _ _) => true
  | _ => false

def read (t : FileTree) (p : Path) : Except Fault Bytes := do
  match ← t.find p with
  | .directory => throw .isDirectory
  | .file _ content => return content

def readText (t : FileTree) (p : Path) : Except Fault String := do
  match utf8Text? (← t.read p) with
  | some text => return text
  | none => throw .notText

/-- The mode of a file made without asking for one. -/
def plainMode : Nat := 0o644

/-- The content of a file becomes the given one; a new file is plain. -/
def write (t : FileTree) (p : Path) (content : Bytes) : Except Fault FileTree := do
  match ← t.resolve p with
  | .directory _ => throw .isDirectory
  | .entry parent name slashed =>
    if slashed then throw .isDirectory
    match ← t.look parent name with
    | some .directory => throw .isDirectory
    | some (.file mode _) => return t.put (parent ++ [name]) (.file mode content)
    | none => return t.put (parent ++ [name]) (.file plainMode content)

/-- Bytes behind the content of a file; a new file is plain. -/
def append (t : FileTree) (p : Path) (content : Bytes) : Except Fault FileTree := do
  let old := (t.read p).toOption.getD []
  t.write p (old ++ content)

/-- The mode of a file becomes the given one. -/
def setMode (t : FileTree) (p : Path) (mode : Nat) : Except Fault FileTree := do
  match ← t.resolve p with
  | .directory _ => return t
  | .entry parent name slashed =>
    match ← t.look parent name with
    | none => throw .missing
    | some .directory => return t
    | some (.file _ content) =>
      if slashed then throw .notDirectory
      return t.put (parent ++ [name]) (.file mode content)

def remove (t : FileTree) (p : Path) : Except Fault FileTree := do
  match ← t.resolve p with
  | .directory _ => throw .isDirectory
  | .entry parent name slashed =>
    match ← t.look parent name with
    | none => throw .missing
    | some .directory => throw .isDirectory
    | some (.file _ _) =>
      if slashed then throw .notDirectory
      return t.erase (parent ++ [name])

/-- Make the directories that are missing on the way. `fresh` says whether one was made before:
from then on a file in the way is met by making a directory at its place. -/
def createFrom (t : FileTree) (l : Location) (fresh : Bool) : List Bytes → FileTree × Option Fault
  | [] => (t, none)
  | piece :: pieces =>
    if Path.isIdle piece then createFrom t l fresh pieces
    else if piece = Path.dotDot then createFrom t l.dropLast fresh pieces
    else
      match t.look l piece with
      | .error fault => (t, some fault)
      | .ok none => createFrom (t.put (l ++ [piece]) .directory) (l ++ [piece]) true pieces
      | .ok (some .directory) => createFrom t (l ++ [piece]) fresh pieces
      | .ok (some (.file _ _)) =>
        (t, some (if fresh || pieces.all Path.isIdle then .occupied else .notDirectory))

/-- Make a directory and those above it. One that exists is no fault. -/
def createAll (t : FileTree) (p : Path) : FileTree × Option Fault :=
  if p.bytes.isEmpty then (t, none)
  else
    match checkPath p with
    | .error fault => (t, some fault)
    | .ok () => t.createFrom (t.origin p) false p.pieces

/-- Whether some bytes come before others, compared one by one. -/
def bytesLe : Bytes → Bytes → Bool
  | [], _ => true
  | _ :: _, [] => false
  | a :: as, b :: bs => decide (a < b) || (a == b && bytesLe as bs)

/-- What lies below a location, as relative paths in the order of their bytes. -/
def below (t : FileTree) (root : Location) : List (Bytes × FileItem) :=
  let inside := t.items.filterMap fun (l, item) =>
    if root.isPrefixOf l && root.length < l.length then
      some (Path.unsplit (l.drop root.length), item)
    else none
  inside.mergeSort fun a b => bytesLe a.1 b.1

end FileTree

end LintBridge

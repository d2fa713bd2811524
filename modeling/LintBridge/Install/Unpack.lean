import LintBridge.Archive.Directory
import LintBridge.Engine.Error
import LintBridge.Files.Basic

namespace LintBridge

/-- How the directory of an archive is read: the entries as it lists them; none if the file is no
archive. -/
abbrev ArchiveReader := Bytes → Option (List ArchiveEntry)

/-- The entries of an archive, no two of one name. -/
def ArchiveReader.entries? (reader : ArchiveReader) (file : Bytes) : Option (List ArchiveEntry) :=
  (reader file).map Archive.distinct

namespace Unpack

def programNames : List String := ["cli", "cli.exe", "linterhub-cli", "dotnet"]

def programExtensions : List String := ["exe", "sh"]

def programMode : Nat := 0o755

def dataMode : Nat := 0o664

/-- How deep a path stands below its start after each segment; none once it is above. -/
def depth? : Nat → List Bytes → Option Nat
  | d, [] => some d
  | d, s :: ss =>
    if s = Path.dotDot then
      match d with
      | 0 => none
      | d + 1 => depth? d ss
    else depth? (d + 1) ss

/-- The name of an entry as a path, if it stays below its start. -/
def enclosed? (name : String) : Option Path :=
  let p := Path.ofText name
  if name.toList.contains '\x00' || p.isAbsolute then none
  else (depth? 0 p.segments).map fun _ => p

/-- What stands behind the last dot of a file name, unless the name starts with that dot. -/
def extension? (name : List Char) : Option String :=
  let behind := name.reverse.takeWhile (· != '.')
  if behind.length + 1 < name.length then some (String.ofList behind.reverse) else none

def fileName (p : Path) : String := ((p.fileName?).bind utf8Text?).getD ""

/-- Whether a file is a program: its permissions say so, or its name. -/
def isProgram (p : Path) (mode : Option Nat) : Bool :=
  let name := fileName p
  let extension := (extension? name.toList).getD ""
  mode.any (fun m => m &&& 0o111 != 0) || programNames.contains name ||
    programExtensions.any fun e => eqIgnoringAsciiCase e extension

def failure (verb : String) (p : Path) (reason : String) : InstallError :=
  .io (verb ++ " " ++ p.display) reason

inductive Outcome where
  | skipped
  | directory
  | file (path : Path)
  | failed (error : InstallError)

/-- What an archive holds that has stayed at its path. -/
def inPlace (archive : Path) (t : FileTree) : Bytes := (t.read archive).toOption.getD []

/-- Write the content of an entry to a path and set its mode. `look` tells what the archive holds
once the file is made. -/
def writeEntry (look : FileTree → Bytes) (out relative : Path) (start : Nat) (e : ArchiveEntry)
    (t : FileTree) : FileTree × Outcome :=
  match t.write out [] with
  | .error fault => (t, .failed (failure "creating" out fault.message))
  | .ok t =>
    let (bytes, fault) := e.content (look t) start
    match t.write out bytes with
    | .error fault => (t, .failed (failure "writing" out fault.message))
    | .ok t =>
      match fault with
      | some fault => (t, .failed (failure "writing" out fault.message))
      | none =>
        let mode := if isProgram relative e.mode? then programMode else dataMode
        match t.setMode out mode with
        | .error fault => (t, .failed (failure "chmod" out fault.message))
        | .ok t => (t, .file out)

/-- Unpack one entry of an archive that was opened at a path. -/
def entry (look : FileTree → Bytes) (archive target : Path) (t : FileTree) (e : ArchiveEntry) :
    FileTree × Outcome :=
  match e.contentStart? (look t) with
  | none => (t, .failed (.archive archive.display))
  | some start =>
    match enclosed? e.name with
    | none => (t, .skipped)
    | some relative =>
      let out := target.join relative
      if e.isDirectory then
        match t.createAll out with
        | (t, some fault) => (t, .failed (failure "creating" out fault.message))
        | (t, none) => (t, .directory)
      else
        match out.parent? with
        | none => writeEntry look out relative start e t
        | some parent =>
          match t.createAll parent with
          | (t, some fault) => (t, .failed (failure "creating" parent fault.message))
          | (t, none) => writeEntry look out relative start e t

/-- Unpack entries up to the first that fails, and list the files made. -/
def entries (archive target : Path) :
    FileTree → List ArchiveEntry → FileTree × Except InstallError (List Path)
  | t, [] => (t, .ok [])
  | t, e :: es =>
    match entry (inPlace archive) archive target t e with
    | (t, .failed error) => (t, .error error)
    | (t, .file p) =>
      match entries archive target t es with
      | (t, .ok ps) => (t, .ok (p :: ps))
      | (t, .error error) => (t, .error error)
    | (t, _) => entries archive target t es

end Unpack

/-- Unpack an archive below a directory, and list the files made. -/
def unpack (reader : ArchiveReader) (t : FileTree) (archive target : Path) :
    FileTree × Except InstallError (List Path) :=
  match t.read archive with
  | .error .isDirectory => (t, .error (.archive archive.display))
  | .error fault => (t, .error (Unpack.failure "opening" archive fault.message))
  | .ok file =>
    match reader.entries? file with
    | none => (t, .error (.archive archive.display))
    | some es =>
      match t.createAll target with
      | (t, some fault) => (t, .error (Unpack.failure "creating" target fault.message))
      | (t, none) => Unpack.entries archive target t es

end LintBridge

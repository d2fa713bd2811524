import LintBridge.Path
import LintBridge.Url.Parser

namespace LintBridge

namespace Path

/-- The path of the file URL for segments. -/
def encodeSegments : List Bytes → List Char
  | [] => ['/']
  | [s] => '/' :: Percent.encode Percent.inFileName s
  | s :: more => '/' :: (Percent.encode Percent.inFileName s ++ encodeSegments more)

/-- The file URL of an absolute path, as text. -/
def fileUrl? (p : Path) : Option String :=
  if p.isAbsolute then some (String.ofList ("file://".toList ++ encodeSegments p.segments))
  else none

/-- A drive letter at the end gets a slash behind it. -/
def closeDrive (bs : Bytes) : Bytes :=
  match bs.reverse with
  | m :: c :: _ :: _ =>
    if (m = 0x3a ∨ m = 0x7c) ∧ isAsciiLetter (Char.ofNat c.toNat) then bs ++ [slash] else bs
  | _ => bs

/-- The path that a URL names on this machine. -/
def ofUrl? (u : Url) : Option Path :=
  let here := match u.authority.bind Authority.host with
    | none => true
    | some host => host == .domain "localhost"
  if here && !u.rootless && u.path.startsWith "/" then
    some ⟨closeDrive (Percent.decodeChars u.path.toList)⟩
  else none

/-- The path that a text names as a URL of any scheme. -/
def ofUrlText? (s : String) : Option Path := (Url.parse s).toOption.bind ofUrl?

/-- The path that a text names as a file URL. -/
def ofFileUrlText? (s : String) : Option Path :=
  ((Url.parse s).toOption.filter fun u => u.scheme == "file").bind ofUrl?

end Path

end LintBridge

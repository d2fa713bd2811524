import LintBridge.Text.Utf8

namespace LintBridge

structure Path where
  bytes : Bytes
  deriving DecidableEq

namespace Path

def slash : UInt8 := 0x2f

def ofText (s : String) : Path := ⟨utf8 s⟩

/-- A path as text, ill-formed runs shown as U+FFFD. -/
def display (p : Path) : String := utf8Lossy p.bytes

/-- Whether a path starts at the root. -/
def isAbsolute (p : Path) : Bool := p.bytes.head? == some slash

/-- A relative path behind another; an absolute one replaces it. -/
def join (base p : Path) : Path :=
  if p.isAbsolute then p
  else if base.bytes.isEmpty || base.bytes.getLast? == some slash then ⟨base.bytes ++ p.bytes⟩
  else ⟨base.bytes ++ slash :: p.bytes⟩

/-- A text behind a path. -/
def child (base : Path) (name : String) : Path := base.join (ofText name)

/-- The pieces between slashes. -/
def split : Bytes → List Bytes
  | [] => [[]]
  | b :: rest =>
    if b = slash then [] :: split rest
    else
      match split rest with
      | [] => [[b]]
      | piece :: pieces => (b :: piece) :: pieces

def unsplit : List Bytes → Bytes
  | [] => []
  | [piece] => piece
  | piece :: pieces => piece ++ slash :: unsplit pieces

def dot : Bytes := [0x2e]

def dotDot : Bytes := [0x2e, 0x2e]

/-- Whether a piece means nothing. -/
def isIdle (piece : Bytes) : Bool := piece.isEmpty || piece == dot

/-- The pieces of a path, those before the first slash of an absolute path left out. -/
def pieces (p : Path) : List Bytes :=
  if p.isAbsolute then split p.bytes.tail else split p.bytes

/-- The segments of a path that mean something, in order. -/
def segments (p : Path) : List Bytes := p.pieces.filter fun piece => !isIdle piece

/-- Whether a relative path starts with a `.` of its own. -/
def startsHere (p : Path) : Bool := !p.isAbsolute && p.pieces.head? == some dot

/-- What stands behind some segments at the front of some pieces. -/
def stripPieces : List Bytes → List Bytes → Option (List Bytes)
  | [], pieces => some pieces
  | _ :: _, [] => none
  | s :: ss, piece :: pieces =>
    if isIdle piece then stripPieces (s :: ss) pieces
    else if piece = s then stripPieces ss pieces
    else none

/-- Pieces without the meaningless ones at their end. -/
def trimEndPieces (pieces : List Bytes) : List Bytes := (pieces.reverse.dropWhile isIdle).reverse

/-- Pieces without the meaningless ones at both ends. -/
def trimPieces (pieces : List Bytes) : List Bytes := trimEndPieces (pieces.dropWhile isIdle)

/-- What remains of a path below a directory, in its own spelling. -/
def stripPrefix? (p base : Path) : Option Path :=
  if base.isAbsolute then
    if p.isAbsolute then
      (stripPieces base.segments p.pieces).map fun rest => ⟨unsplit (trimPieces rest)⟩
    else none
  else if base.startsHere then
    if p.startsHere then
      (stripPieces base.segments p.pieces).map fun rest => ⟨unsplit (trimPieces rest)⟩
    else none
  else if base.segments.isEmpty then
    let front : Bytes := if p.isAbsolute then [slash] else if p.startsHere then dot else []
    let rest := trimEndPieces (if p.startsHere then p.pieces.tail else p.pieces)
    let rest := if p.startsHere && !rest.isEmpty then [] :: rest else rest
    some ⟨front ++ unsplit rest⟩
  else if p.isAbsolute || p.startsHere then none
  else (stripPieces base.segments p.pieces).map fun rest => ⟨unsplit (trimPieces rest)⟩

/-- The path without its last segment, if it has one. -/
def parent? (p : Path) : Option Path :=
  let whole := trimEndPieces p.pieces
  let front : Bytes := if p.isAbsolute then [slash] else []
  match whole.reverse with
  | [] => if p.startsHere then some ⟨[]⟩ else none
  | _ :: before =>
    let kept := trimEndPieces before.reverse
    if kept.isEmpty && !p.isAbsolute && before.reverse.head? == some dot then some ⟨dot⟩
    else some ⟨front ++ unsplit kept⟩

/-- The last segment of a path, unless it is `..`. -/
def fileName? (p : Path) : Option Bytes :=
  match p.segments.getLast? with
  | some name => if name = dotDot then none else some name
  | none => none

/-- Follow `..`: it drops the segment before it, and at the root it means nothing. -/
def resolveSegments (segments : List Bytes) : List Bytes :=
  (segments.foldl (fun kept s => if s = dotDot then kept.tail else s :: kept) []).reverse

/-- The segments of an absolute path once `..` is followed. -/
def resolve (p : Path) : List Bytes := resolveSegments p.segments

end Path

end LintBridge

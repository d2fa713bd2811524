import LintBridge.Archive.CodePage
import LintBridge.Archive.Checksum
import LintBridge.Archive.Inflate

namespace LintBridge

/-- The system an entry was made on, as far as it matters for the meaning of its attributes. -/
inductive ArchiveMaker where
  | dos
  | unix
  | other
  deriving DecidableEq

structure ArchiveEntry where
  name : String
  maker : ArchiveMaker
  encrypted : Bool
  method : Nat
  checksum : Nat
  packedSize : Nat
  /-- Where the entry's own record lies in the file. -/
  start : Nat
  attributes : Nat
  deriving DecidableEq

namespace Archive

/-- A number, the lowest byte first. -/
def number : Bytes → Nat
  | [] => 0
  | b :: bs => b.toNat + 256 * number bs

/-- `size` bytes from an offset on, if there are so many. -/
def slice? (bs : Bytes) (offset size : Nat) : Option Bytes :=
  let cut := (bs.drop offset).take size
  if cut.length = size then some cut else none

/-- The number of `size` bytes at an offset in a record, zero where the record is too short. -/
def field (record : Bytes) (offset size : Nat) : Nat := number ((record.drop offset).take size)

def endMark : Bytes := [0x50, 0x4b, 0x05, 0x06]

def directoryMark : Bytes := [0x50, 0x4b, 0x01, 0x02]

def entryMark : Bytes := [0x50, 0x4b, 0x03, 0x04]

/-- The sizes of the three records without their variable parts. -/
def endSize : Nat := 22
def directorySize : Nat := 46
def entrySize : Nat := 30

/-- The kind of the extra field that holds numbers of an entry in 64 bits. -/
def wideKind : Nat := 1

/-- The content of the first extra field of a kind, of at most `n` fields. -/
def extra? (kind : Nat) : Nat → Bytes → Option Bytes
  | 0, _ => none
  | n + 1, fields =>
    let size := field fields 2 2
    if fields.length < 4 then none
    else if field fields 0 2 = kind then slice? fields 4 size
    else extra? kind n (fields.drop (4 + size))

/-- A number that does not fit into a record stands in 64 bits in an extra field, behind those of
the record that stand before it and do not fit either. -/
def widen (all : Bool) (n : Nat) (extra : Bytes) : Nat × Bytes :=
  if (all || n = 0xffffffff) && 8 ≤ extra.length then (number (extra.take 8), extra.drop 8)
  else (n, extra)

/-- Where some bytes occur, in ascending order. -/
def occurrences (mark : Bytes) : Nat → Bytes → List Nat
  | _, [] => []
  | position, b :: bs =>
    if mark.isPrefixOf (b :: bs) then position :: occurrences mark (position + 1) bs
    else occurrences mark (position + 1) bs

def makerOf (n : Nat) : ArchiveMaker := if n = 0 then .dos else if n = 3 then .unix else .other

/-- The record of the directory at an offset, and the offset behind it. `shift` is where the
archive starts in the file. -/
def entryAt? (file : Bytes) (shift offset : Nat) : Option (ArchiveEntry × Nat) := do
  let record ← slice? file offset directorySize
  guard (directoryMark.isPrefixOf record)
  let flags := field record 8 2
  let nameSize := field record 28 2
  let extraSize := field record 30 2
  let commentSize := field record 32 2
  let nameBytes ← slice? file (offset + directorySize) nameSize
  let extra ← slice? file (offset + directorySize + nameSize) extraSize
  let _ ← slice? file (offset + directorySize + nameSize + extraSize) commentSize
  let wide := (extra? wideKind extraSize extra).getD []
  let all := 24 ≤ wide.length
  let (_, wide) := widen all (field record 24 4) wide
  let (packedSize, wide) := widen all (field record 20 4) wide
  let (start, _) := widen all (field record 42 4) wide
  let name := if flags.testBit 11 then utf8Lossy nameBytes else codePage437Text nameBytes
  return (
    { name
      maker := makerOf (field record 5 1)
      encrypted := flags.testBit 0
      method := field record 10 2
      checksum := field record 16 4
      packedSize
      start := start + shift
      attributes := field record 38 4 },
    offset + directorySize + nameSize + extraSize + commentSize)

/-- The records of the directory from an offset on. An entry lies before the directory. -/
def entriesFrom? (file : Bytes) (shift directory : Nat) : Nat → Nat → Option (List ArchiveEntry)
  | 0, _ => some []
  | n + 1, offset => do
    let (entry, next) ← entryAt? file shift offset
    guard (entry.start < directory)
    let entries ← entriesFrom? file shift directory n next
    return entry :: entries

def directoryAt? (file : Bytes) (offset : Nat) : Option (List ArchiveEntry) := do
  let record ← slice? file offset endSize
  let _ ← slice? file (offset + endSize) (field record 20 2)
  let here := field record 8 2
  let all := field record 10 2
  let told := field record 16 4
  let sameDisk := field record 4 2 = field record 6 2
  if all = 0 then
    guard sameDisk
    entriesFrom? file (offset - told) offset here offset
  else
    let between := (file.take offset).drop told
    let found ← (occurrences directoryMark told between).head?
    guard sameDisk
    entriesFrom? file (found - told) found here found

/-- Entries with no name twice: a later one takes the place of an earlier one. -/
def distinct (entries : List ArchiveEntry) : List ArchiveEntry :=
  entries.foldl (fun kept e =>
    if kept.any fun k => k.name == e.name then
      kept.map fun k => if k.name == e.name then e else k
    else kept ++ [e]) []

/-- The entries that the directory of an archive lists. The last end record with a readable
directory counts. -/
def directory? (file : Bytes) : Option (List ArchiveEntry) :=
  (occurrences endMark 0 file).reverse.findSome? (directoryAt? file)

end Archive

namespace ArchiveEntry

def plainMethod : Nat := 0

def deflateMethod : Nat := 8

/-- Where the packed content of an entry lies in the file; none if the entry's own record is not
there, or if the entry is encrypted or packed in another way. -/
def contentStart? (e : ArchiveEntry) (file : Bytes) : Option Nat := do
  guard !e.encrypted
  guard (e.method = plainMethod ∨ e.method = deflateMethod)
  let record ← Archive.slice? file e.start Archive.entrySize
  guard (Archive.entryMark.isPrefixOf record)
  return e.start + Archive.entrySize + Archive.field record 26 2 + Archive.field record 28 2

inductive ContentFault where
  | checksum
  | deflate
  deriving DecidableEq

def ContentFault.message : ContentFault → String
  | checksum => "Invalid checksum"
  | deflate => "corrupt deflate stream"

/-- The content of an entry that starts at an offset, as far as it could be read. -/
def content (e : ArchiveEntry) (file : Bytes) (start : Nat) : Bytes × Option ContentFault :=
  let packed := (file.drop start).take e.packedSize
  let (bytes, whole) := if e.method = deflateMethod then inflate packed else (packed, true)
  if !whole then (bytes, some .deflate)
  else if LintBridge.checksum bytes ≠ e.checksum then (bytes, some .checksum)
  else (bytes, none)

/-- Whether an entry is a directory: its name ends with a slash of either kind. -/
def isDirectory (e : ArchiveEntry) : Bool :=
  match e.name.toList.getLast? with
  | some c => c == '/' || c == '\\'
  | none => false

def mode? (e : ArchiveEntry) : Option Nat :=
  if e.attributes = 0 then none
  else
    match e.maker with
    | .unix => some (e.attributes / 0x10000)
    | .dos =>
      let mode := if e.attributes.testBit 4 then 0o775 else 0o664
      some (if e.attributes.testBit 0 then mode &&& 0o555 else mode)
    | .other => none

end ArchiveEntry

end LintBridge

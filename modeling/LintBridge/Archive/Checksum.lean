import LintBridge.Text.Utf8

namespace LintBridge

namespace Checksum

/-- The polynomial with its bits in reverse. -/
def polynomial : UInt32 := 0xedb88320

/-- Move a remainder on by one bit. -/
def shift (r : UInt32) : UInt32 :=
  if r &&& 1 = 1 then (r >>> 1) ^^^ polynomial else r >>> 1

def feed (r : UInt32) (b : UInt8) : UInt32 :=
  shift (shift (shift (shift (shift (shift (shift (shift (r ^^^ b.toUInt32))))))))

end Checksum

def checksum (bs : Bytes) : Nat := ((bs.foldl Checksum.feed 0xffffffff) ^^^ 0xffffffff).toNat

end LintBridge

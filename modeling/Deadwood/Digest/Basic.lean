import Deadwood.Text.Bytes

/-! Digests: the 32 bytes that stand for a program. -/

namespace Deadwood

structure Digest where
  bytes : Bytes
  size : bytes.length = 32
  deriving DecidableEq

namespace Digest

/-- The last 32 bytes of a text, with zeros in front when it is shorter. -/
def ofBytes (s : Bytes) : Digest where
  bytes := List.replicate (32 - s.length) 0 ++ s.drop (s.length - 32)
  size := by simp only [List.length_append, List.length_replicate, List.length_drop]; omega

def hex (d : Digest) : Bytes := Deadwood.bytes "0x" ++ d.bytes.hex

def isZero (d : Digest) : Bool := d.bytes.all (· == 0)

def brief (d : Digest) : Bytes := Bytes.hex (d.bytes.take 3) ++ Deadwood.bytes ".." ++ Bytes.hex (d.bytes.drop 29)

end Digest

end Deadwood

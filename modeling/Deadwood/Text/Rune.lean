import Deadwood.Text.Bytes

/-! Characters of byte text. A byte that belongs to no UTF-8 sequence stands for itself. -/

namespace Deadwood

inductive Rune
  | code (point : Nat) (encoding : Bytes)
  | stray (byte : UInt8)
  deriving DecidableEq, Repr

namespace Rune

def isTail (b : UInt8) : Bool := 0x80 ≤ b && b ≤ 0xBF

def tailBits (b : UInt8) : Nat := b.toNat % 64

/-- Bounds on the second byte of a sequence of three or more, by its first byte. -/
def second (a b : UInt8) : Bool :=
  if a = 0xE0 then 0xA0 ≤ b && b ≤ 0xBF
  else if a = 0xED then 0x80 ≤ b && b ≤ 0x9F
  else if a = 0xF0 then 0x90 ≤ b && b ≤ 0xBF
  else if a = 0xF4 then 0x80 ≤ b && b ≤ 0x8F
  else isTail b

def head (a : UInt8) (rest : Bytes) : Rune :=
  if a < 0x80 then .code a.toNat [a]
  else if 0xC2 ≤ a && a ≤ 0xDF then
    match rest with
    | b :: _ => if isTail b then .code (a.toNat % 32 * 64 + tailBits b) [a, b] else .stray a
    | _ => .stray a
  else if 0xE0 ≤ a && a ≤ 0xEF then
    match rest with
    | b :: c :: _ =>
      if second a b && isTail c then
        .code ((a.toNat % 16 * 64 + tailBits b) * 64 + tailBits c) [a, b, c]
      else .stray a
    | _ => .stray a
  else if 0xF0 ≤ a && a ≤ 0xF4 then
    match rest with
    | b :: c :: d :: _ =>
      if second a b && isTail c && isTail d then
        .code (((a.toNat % 8 * 64 + tailBits b) * 64 + tailBits c) * 64 + tailBits d) [a, b, c, d]
      else .stray a
    | _ => .stray a
  else .stray a

def raw : Rune → Bytes
  | .code _ encoding => encoding
  | .stray byte => [byte]

def encode (point : Nat) : Bytes :=
  if point < 0x80 then [point.toUInt8]
  else if point < 0x800 then [(0xC0 + point / 64).toUInt8, (0x80 + point % 64).toUInt8]
  else if point < 0x10000 then
    [(0xE0 + point / 4096).toUInt8, (0x80 + point / 64 % 64).toUInt8, (0x80 + point % 64).toUInt8]
  else
    [(0xF0 + point / 262144).toUInt8, (0x80 + point / 4096 % 64).toUInt8,
      (0x80 + point / 64 % 64).toUInt8, (0x80 + point % 64).toUInt8]

end Rune

namespace Bytes

/-- The characters of a text after `skip` bytes of a character already read. -/
def runesFrom (skip : Nat) : Bytes → List Rune
  | [] => []
  | a :: rest =>
    match skip with
    | n + 1 => runesFrom n rest
    | 0 => Rune.head a rest :: runesFrom ((Rune.head a rest).raw.length - 1) rest

def runes (s : Bytes) : List Rune := runesFrom 0 s

def scrubbed (s : Bytes) : Bytes := s.runes.flatMap fun
  | .code _ encoding => encoding
  | .stray _ => Rune.encode 0xFFFD

def padColumns (width : Nat) (s : Bytes) : Bytes := s ++ List.replicate (width - s.runes.length) space

def isUtf8 (s : Bytes) : Bool := s.runes.all fun
  | .code .. => true
  | .stray _ => false

end Bytes

end Deadwood

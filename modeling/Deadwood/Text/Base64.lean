import Deadwood.Text.Bytes

/-! Bytes written with 64 characters, four for every three bytes. -/

namespace Deadwood.Base64

def digit? (b : UInt8) : Option Nat :=
  if 65 ≤ b && b ≤ 90 then some (b.toNat - 65)
  else if 97 ≤ b && b ≤ 122 then some (b.toNat - 71)
  else if Bytes.isDigit b then some (b.toNat + 4)
  else if b = 43 then some 62
  else if b = 47 then some 63
  else none

def bytesOf (count n : Nat) : Bytes := [(n / 65536).toUInt8, (n / 256).toUInt8, n.toUInt8].take count

/-- Groups of four characters, of which only the last may be filled up with equals signs. -/
def groups : Bytes → Option Bytes
  | [] => some []
  | [a, b, 61, 61] => do return bytesOf 1 ((← digit? a) * 262144 + (← digit? b) * 4096)
  | [a, b, c, 61] => do return bytesOf 2 ((← digit? a) * 262144 + (← digit? b) * 4096 + (← digit? c) * 64)
  | a :: b :: c :: d :: rest => do
    let n := (← digit? a) * 262144 + (← digit? b) * 4096 + (← digit? c) * 64 + (← digit? d)
    return bytesOf 3 n ++ (← groups rest)
  | _ => none

def decode? (s : Bytes) : Option Bytes := groups (s.filter fun b => b != 10 && b != 13)

end Deadwood.Base64

import Deadwood.Text.Bytes

/-! Keccak-256: the sponge over the 1600-bit permutation, with the first padding byte 0x01. -/

namespace Deadwood.Keccak

/-- The state of the permutation: 25 lanes, lane `x + 5 * y` at column `x` of row `y`. -/
abbrev State := Vector UInt64 25

def roundConstants : List UInt64 := [
  0x0000000000000001, 0x0000000000008082, 0x800000000000808A, 0x8000000080008000,
  0x000000000000808B, 0x0000000080000001, 0x8000000080008081, 0x8000000000008009,
  0x000000000000008A, 0x0000000000000088, 0x0000000080008009, 0x000000008000000A,
  0x000000008000808B, 0x800000000000008B, 0x8000000000008089, 0x8000000000008003,
  0x8000000000008002, 0x8000000000000080, 0x000000000000800A, 0x800000008000000A,
  0x8000000080008081, 0x8000000000008080, 0x0000000080000001, 0x8000000080008008]

def offsets : Vector Nat 25 := #v[
  0, 1, 62, 28, 27,
  36, 44, 6, 55, 20,
  3, 10, 43, 25, 39,
  41, 45, 15, 21, 8,
  18, 2, 61, 56, 14]

def lane (s : State) (x y : Nat) : UInt64 := s.get ⟨x % 5 + 5 * (y % 5), by omega⟩

def rotate (w : UInt64) (n : Nat) : UInt64 :=
  if n % 64 = 0 then w else w <<< (n % 64).toUInt64 ||| w >>> (64 - n % 64).toUInt64

def theta (s : State) : State :=
  let parity : Vector UInt64 5 := .ofFn fun x =>
    lane s x 0 ^^^ lane s x 1 ^^^ lane s x 2 ^^^ lane s x 3 ^^^ lane s x 4
  let column (x : Nat) : UInt64 := parity.get ⟨x % 5, by omega⟩
  .ofFn fun i => s.get i ^^^ column (i.val + 4) ^^^ rotate (column (i.val + 1)) 1

/-- Rotates every lane and moves it: column `x` of row `y` takes the lane of column `x + 3 * y`, row `x`. -/
def rhoPi (s : State) : State :=
  .ofFn fun i =>
    let x := i.val % 5
    let y := i.val / 5
    rotate (lane s (x + 3 * y) x) (offsets.get ⟨(x + 3 * y) % 5 + 5 * (x % 5), by omega⟩)

def chi (s : State) : State :=
  .ofFn fun i =>
    let x := i.val % 5
    let y := i.val / 5
    s.get i ^^^ (~~~ lane s (x + 1) y &&& lane s (x + 2) y)

def round (s : State) (constant : UInt64) : State :=
  let t := chi (rhoPi (theta s))
  t.set 0 (t.get 0 ^^^ constant)

def permute (s : State) : State := roundConstants.foldl round s

def rate : Nat := 136

/-- The input followed by 0x01, zeros, and a last byte with its high bit set, up to a multiple of the rate. -/
def pad (s : Bytes) : Bytes :=
  let gap := rate - s.length % rate
  if gap = 1 then s ++ [0x81] else s ++ [0x01] ++ List.replicate (gap - 2) 0 ++ [0x80]

/-- Eight bytes as a lane, the first one lowest. -/
def word (s : Bytes) : UInt64 := s.foldr (fun b w => w <<< 8 ||| b.toUInt64) 0

def absorb (s : State) (block : Array UInt8) : State :=
  permute (.ofFn fun i => s.get i ^^^ word (block.extract (8 * i.val) (8 * i.val + 8)).toList)

def chunks : (fuel : Nat) → Bytes → List (Array UInt8)
  | 0, _ => []
  | fuel + 1, s => (s.take rate).toArray :: chunks fuel (s.drop rate)

def wordBytes (w : UInt64) : Bytes := (List.range 8).map fun i => (w >>> (8 * i).toUInt64).toUInt8

def sum (s : Bytes) : Bytes :=
  let padded := pad s
  let final := (chunks (padded.length / rate) padded).foldl absorb (.replicate 25 0)
  (List.range 4).flatMap fun i => wordBytes (lane final i 0)

end Deadwood.Keccak

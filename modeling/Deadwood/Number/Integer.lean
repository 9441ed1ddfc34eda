import Deadwood.Text.Bytes

/-! Integers as users write them: with a sign, and with a base given by what they begin with. -/

namespace Deadwood.Integer

def wordSize : Nat := Nat.pow 2 64

def halfSize : Nat := Nat.pow 2 63

def least : Int := -halfSize
def most : Int := halfSize - 1

def fits (n : Int) : Bool := least ≤ n && n ≤ most

/-- A number as a word holds it after conversion from a double: one that does not fit becomes the least. -/
def clamped (n : Int) : Int := if fits n then n else least

def digit? (b : UInt8) : Option Nat :=
  if Bytes.isDigit b then some (b.toNat - 48)
  else if 97 ≤ b && b ≤ 122 then some (b.toNat - 87)
  else if 65 ≤ b && b ≤ 90 then some (b.toNat - 55)
  else none

def digits? (base : Nat) (s : Bytes) : Option Nat :=
  s.foldl (fun n b => n.bind fun n => ((digit? b).filter (· < base)).map (n * base + ·)) (some 0)

/-- The base of a number and its digits: two for `0b`, eight for `0o` and for a leading zero, sixteen for `0x`. -/
def base : Bytes → Nat × Bytes
  | 48 :: letter :: d :: rest =>
    let letter := Bytes.lowerByte letter
    if letter = 98 then (2, d :: rest)
    else if letter = 111 then (8, d :: rest)
    else if letter = 120 then (16, d :: rest)
    else (8, letter :: d :: rest)
  | 48 :: rest => (8, rest)
  | s => (10, s)

def sign : Bytes → Bool × Bytes
  | 43 :: rest => (false, rest)
  | 45 :: rest => (true, rest)
  | rest => (false, rest)

def magnitude? (s : Bytes) : Option Nat := if s = [] then none else digits? (base s).1 (base s).2

def read? (s : Bytes) : Option Int :=
  (magnitude? (sign s).2).map fun n => if (sign s).1 then -(n : Int) else n

def decimal? (s : Bytes) : Option Int :=
  if (sign s).2 = [] then none
  else (digits? 10 (sign s).2).map fun n => if (sign s).1 then -(n : Int) else n

def isHexLetter (b : UInt8) : Bool := 97 ≤ Bytes.lowerByte b && Bytes.lowerByte b ≤ 102

/-- Whether every underscore stands between two digits, given the byte before the text. -/
def spaced (isDigit : UInt8 → Bool) (previous : UInt8) : Bytes → Bool
  | [] => previous != 95
  | b :: rest =>
    (b != 95 || isDigit previous) && (previous != 95 || isDigit b) && spaced isDigit b rest

def readSpaced? (s : Bytes) : Option Int :=
  let accepted := match (sign s).2 with
    | 48 :: letter :: rest =>
      let letter := Bytes.lowerByte letter
      if letter = 120 then spaced (fun b => Bytes.isDigit b || isHexLetter b) 48 rest
      else if letter = 98 || letter = 111 then spaced Bytes.isDigit 48 rest
      else spaced Bytes.isDigit 33 (48 :: letter :: rest)
    | body => spaced Bytes.isDigit 33 body
  if accepted then read? (s.filter (· != 95)) else none

end Deadwood.Integer

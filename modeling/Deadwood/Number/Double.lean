import Deadwood.Text.Bytes

/-!
Double-precision numbers as exact values. A finite number is an integer times a power of two, so that rounding and
printing are done on integers.
-/

namespace Deadwood

/-- A double: an integer of at most 53 bits times a power of two, or one of the special values. -/
inductive Double
  | nan
  | infinite (negative : Bool)
  | finite (negative : Bool) (mantissa : Nat) (exponent : Int)
  deriving DecidableEq, Repr

/-- The integer nearest to a quotient, a tie going to the even neighbour. -/
def roundDiv (numerator denominator : Nat) : Nat :=
  let quotient := numerator / denominator
  let rest := numerator % denominator
  if denominator < 2 * rest ∨ (2 * rest = denominator ∧ quotient % 2 = 1) then quotient + 1 else quotient

namespace Double

def scale (numerator denominator : Nat) (exponent : Int) : Nat × Nat :=
  if 0 ≤ exponent then (numerator, denominator * Nat.pow 2 exponent.toNat)
  else (numerator * Nat.pow 2 (-exponent).toNat, denominator)

/-- The least power of two that leaves a quotient at most 53 bits, not below that of the smallest double. -/
def exponentOf (numerator denominator : Nat) : Int :=
  let guess := (Nat.log2 numerator : Int) - Nat.log2 denominator - 53
  let (a, b) := scale numerator denominator guess
  let fit := if a < b * Nat.pow 2 53 then guess else guess + 1
  max fit (-1074)

def ofRatio (negative : Bool) (numerator denominator : Nat) : Double :=
  if numerator = 0 then .finite negative 0 0
  else
    let exponent := exponentOf numerator denominator
    let (a, b) := scale numerator denominator exponent
    let mantissa := roundDiv a b
    let (mantissa, exponent) :=
      if mantissa = Nat.pow 2 53 then (Nat.pow 2 52, exponent + 1) else (mantissa, exponent)
    if 971 < exponent then .infinite negative else .finite negative mantissa exponent

def ofInt (n : Int) : Double := ofRatio (n < 0) n.natAbs 1

def ratio (mantissa : Nat) (exponent : Int) : Nat × Nat :=
  if 0 ≤ exponent then (mantissa * Nat.pow 2 exponent.toNat, 1) else (mantissa, Nat.pow 2 (-exponent).toNat)

def divNat : Double → Nat → Double
  | .finite negative mantissa exponent, d =>
    let (a, b) := ratio mantissa exponent
    ofRatio negative a (b * d)
  | x, _ => x

def truncate : Double → Int
  | .finite negative mantissa exponent =>
    let (a, b) := ratio mantissa exponent
    if negative then -((a / b : Nat) : Int) else (a / b : Nat)
  | _ => 0

def sign (negative : Bool) : Bytes := if negative then [45] else []

def toFixed (places : Nat) : Double → Bytes
  | .nan => bytes "NaN"
  | .infinite negative => if negative then bytes "-Inf" else bytes "+Inf"
  | .finite negative mantissa exponent =>
    let (a, b) := ratio mantissa exponent
    let digits := (Bytes.ofNat (roundDiv (a * Nat.pow 10 places) b)).padStart (places + 1) 48
    let whole := digits.take (digits.length - places)
    let fraction := digits.drop (digits.length - places)
    sign negative ++ whole ++ (if places = 0 then [] else 46 :: fraction)

structure Decimal where
  digits : Nat
  point : Int
  deriving DecidableEq, Repr

/-- Twice the interval of reals that round to a double, over a common denominator: lower end, value, upper end. -/
def interval (mantissa : Nat) (exponent : Int) : Nat × Nat × Nat × Nat :=
  let low := if mantissa = Nat.pow 2 52 ∧ -1074 < exponent then 1 else 2
  let (a, b) := ratio 1 exponent
  ((4 * mantissa - low) * a, 4 * mantissa * a, (4 * mantissa + 2) * a, 4 * b)

/-- A number of a decimal grid that rounds to the given double, the nearer one when both neighbours do and the even one
when they are equally near. -/
def onGrid? (mantissa : Nat) (exponent : Int) (grid : Int) : Option Nat :=
  let (low, value, high, den) := interval mantissa exponent
  let (up, down) := if 0 ≤ grid then (Nat.pow 10 grid.toNat, 1) else (1, Nat.pow 10 (-grid).toNat)
  let unit := den * up
  let inside (k : Nat) : Bool :=
    let x := k * unit
    if mantissa % 2 = 0 then low * down ≤ x && x ≤ high * down else low * down < x && x < high * down
  let below := value * down / unit
  let nearer := roundDiv (value * down) unit
  let farther := if nearer = below then below + 1 else below
  if inside nearer then some nearer else if inside farther then some farther else none

def magnitude (numerator denominator : Nat) : Int :=
  let guess := ((Bytes.ofNat numerator).length : Int) - (Bytes.ofNat denominator).length
  let reached := if 0 ≤ guess then denominator * Nat.pow 10 guess.toNat ≤ numerator
    else denominator ≤ numerator * Nat.pow 10 (-guess).toNat
  if reached then guess + 1 else guess

/-- The shortest decimal that reads back as the given positive double, trying grids from the coarsest. -/
def shortestFrom (mantissa : Nat) (exponent : Int) (top : Int) : (more : Nat) → (length : Nat) → Decimal
  | 0, length => ⟨(onGrid? mantissa exponent (top - length)).getD mantissa, top⟩
  | more + 1, length =>
    match onGrid? mantissa exponent (top - length) with
    | some digits => ⟨digits, top - length⟩
    | none => shortestFrom mantissa exponent top more (length + 1)

def shortest (mantissa : Nat) (exponent : Int) : Bytes × Int :=
  let (a, b) := ratio mantissa exponent
  let found := shortestFrom mantissa exponent (magnitude a b) 17 1
  let digits := Bytes.ofNat found.digits
  let trimmed := digits.dropEndWhile (· == 48)
  (trimmed, found.point + digits.length)

def positional (digits : Bytes) (point : Int) : Bytes :=
  if point ≤ 0 then bytes "0." ++ List.replicate (-point).toNat 48 ++ digits
  else
    let n := point.toNat
    if digits.length ≤ n then digits.padEnd n 48
    else digits.take n ++ 46 :: digits.drop n

def scientific (width : Nat) (digits : Bytes) (point : Int) : Bytes :=
  let e := point - 1
  let fraction := digits.drop 1
  digits.take 1 ++ (if fraction = [] then [] else 46 :: fraction) ++ [101, if e < 0 then 45 else 43] ++
    (Bytes.ofNat e.natAbs).padStart width 48

structure Format where
  leastPoint : Int
  mostPoint : Int
  exponentWidth : Nat

def print (format : Format) : Double → Bytes
  | .nan => bytes "NaN"
  | .infinite negative => if negative then bytes "-Inf" else bytes "+Inf"
  | .finite negative mantissa exponent =>
    if mantissa = 0 then sign negative ++ [48]
    else
      let (digits, point) := shortest mantissa exponent
      sign negative ++
        (if format.leastPoint ≤ point ∧ point ≤ format.mostPoint then positional digits point
         else scientific format.exponentWidth digits point)

end Double

end Deadwood

import Deadwood.Number.Double
import Deadwood.Number.Integer

/-!
Doubles as users write them: decimal or, after `0x`, hexadecimal digits with at most one point and a power of ten or of
two, or one of the special names.
-/

namespace Deadwood.Literal

structure Scale where
  base : Nat
  letter : UInt8
  power : Nat

def decimal : Scale := ⟨10, 101, 10⟩

def hexadecimal : Scale := ⟨16, 112, 2⟩

structure Parts where
  whole : Bytes
  fraction : Bytes
  power : Option Int

def power? (s : Bytes) : Option Int :=
  let (negative, digits) := Integer.sign s
  if digits = [] || !digits.all Bytes.isDigit then none
  else (Integer.digits? 10 digits).map fun n => if negative then -(n : Int) else n

def parts? (scale : Scale) (s : Bytes) : Option Parts :=
  let mantissa := s.takeWhile (Bytes.lowerByte · != scale.letter)
  let whole := mantissa.takeWhile (· != 46)
  let fraction := (mantissa.drop whole.length).drop 1
  if whole = [] && fraction = [] then none
  else match s.drop mantissa.length with
    | [] => some ⟨whole, fraction, none⟩
    | _ :: digits => (power? digits).map fun e => ⟨whole, fraction, some e⟩

/-- Numbers beyond these many digits are too large for any double, or too small. -/
def farthest : Int := 2000

def value? (scale : Scale) (negative : Bool) (p : Parts) : Option Double :=
  (Integer.digits? scale.base (p.whole ++ p.fraction)).map fun n =>
    let places := if scale.power = scale.base then p.fraction.length else 4 * p.fraction.length
    let shift := p.power.getD 0 - places
    let length := ((p.whole ++ p.fraction).dropWhile (· == 48)).length
    let reach := if scale.power = scale.base then shift + length else shift + 4 * length
    if n = 0 || reach < -farthest then .finite negative 0 0
    else if farthest < reach then .infinite negative
    else if 0 ≤ shift then .ofRatio negative (n * Nat.pow scale.power shift.toNat) 1
    else .ofRatio negative n (Nat.pow scale.power (-shift).toNat)

def special? (signed negative : Bool) (s : Bytes) : Option Double :=
  let name := Bytes.lower s
  if name = bytes "inf" || name = bytes "infinity" then some (.infinite negative)
  else if name = bytes "nan" && !signed then some .nan
  else none

def wellSpaced (s : Bytes) : Bool :=
  match s with
  | 48 :: letter :: rest =>
    if Bytes.lowerByte letter = 120 then Integer.spaced (fun b => Bytes.isDigit b || Integer.isHexLetter b) 48 rest
    else Integer.spaced Bytes.isDigit 33 s
  | s => Integer.spaced Bytes.isDigit 33 s

/-- A number without sign and underscores. Hexadecimal digits need a power. -/
def number? (negative : Bool) (s : Bytes) : Option Double :=
  match s with
  | 48 :: letter :: b :: rest =>
    if Bytes.lowerByte letter = 120 then
      ((parts? hexadecimal (b :: rest)).filter (·.power.isSome)).bind (value? hexadecimal negative)
    else (parts? decimal s).bind (value? decimal negative)
  | s => (parts? decimal s).bind (value? decimal negative)

end Deadwood.Literal

namespace Deadwood.Double

open Literal

/-- Reads a number, rounded to the nearest double; one that is too large becomes infinite. -/
def read? (s : Bytes) : Option Double :=
  let (negative, body) := Integer.sign s
  match special? (body.length < s.length) negative body with
  | some x => some x
  | none => if wellSpaced body then number? negative (body.filter (· != 95)) else none

def readFinite? (s : Bytes) : Option Double := (read? s).filter fun
  | .finite .. => true
  | _ => false

end Deadwood.Double

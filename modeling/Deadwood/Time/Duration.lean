import Deadwood.Number.Integer

/-! Lengths of time in nanoseconds, and how they are written. -/

namespace Deadwood

structure Duration where
  nanoseconds : Int
  deriving DecidableEq, Repr

namespace Duration

def zero : Duration := ⟨0⟩

def second : Nat := 1000000000

/-- Lengths of time are counted in signed words of 64 bits, which wrap. -/
def wrapped (nanoseconds : Int) : Duration := ⟨nanoseconds.bmod Integer.wordSize⟩

def ofSeconds (n : Int) : Duration := wrapped (n * second)

def ofHours (n : Int) : Duration := wrapped (n * 3600 * second)

def decimal (places : Nat) (n : Nat) : Bytes :=
  let fraction := (Bytes.ofNat (n % Nat.pow 10 places)).padStart places 48
  let significant := fraction.dropEndWhile (· == 48)
  Bytes.ofNat (n / Nat.pow 10 places) ++ (if significant = [] then [] else 46 :: significant)

/-- Below a second the largest unit that fits is used alone; above it hours, minutes and seconds. -/
def magnitudeText (n : Nat) : Bytes :=
  if n = 0 then bytes "0s"
  else if n < 1000 then Bytes.ofNat n ++ bytes "ns"
  else if n < 1000000 then decimal 3 n ++ bytes "µs"
  else if n < second then decimal 6 n ++ bytes "ms"
  else
    let minutes := n / second / 60
    let seconds := decimal 9 (n % (60 * second)) ++ bytes "s"
    if minutes = 0 then seconds
    else if minutes < 60 then Bytes.ofNat minutes ++ bytes "m" ++ seconds
    else Bytes.ofNat (minutes / 60) ++ bytes "h" ++ Bytes.ofNat (minutes % 60) ++ bytes "m" ++ seconds

def text (d : Duration) : Bytes :=
  (if d.nanoseconds < 0 then bytes "-" else []) ++ magnitudeText d.nanoseconds.natAbs

end Duration

end Deadwood

import Deadwood.Text.Bytes

/-!
Dates and times in text: `2006-1-2`, `15:4:5.999`, and both with an offset from universal time. Only whether a text is
one matters here, and which part is out of range if none fits the calendar.
-/

namespace Deadwood.Stamp

inductive Fault
  | malformed
  | range (part : Bytes)
  deriving DecidableEq, Repr

def isLeap (year : Nat) : Bool := year % 4 = 0 && (year % 100 ≠ 0 || year % 400 = 0)

def daysIn (year month : Nat) : Nat :=
  if month = 2 then (if isLeap year then 29 else 28) else if [4, 6, 9, 11].contains month then 30 else 31

def digit (b : UInt8) : Nat := b.toNat - 48

def number : Bytes → Except Fault (Nat × Bytes)
  | a :: b :: rest =>
    if !Bytes.isDigit a then .error .malformed
    else if Bytes.isDigit b then .ok (digit a * 10 + digit b, rest)
    else .ok (digit a, b :: rest)
  | [a] => if Bytes.isDigit a then .ok (digit a, []) else .error .malformed
  | [] => .error .malformed

def bounded (part : String) (least most : Nat) (s : Bytes) : Except Fault (Nat × Bytes) := do
  let (n, rest) ← number s
  if least ≤ n ∧ n ≤ most then .ok (n, rest) else .error (.range (bytes part))

def skip (b : UInt8) : Bytes → Except Fault Bytes
  | c :: rest => if b = c then .ok rest else .error .malformed
  | [] => .error .malformed

def year : Bytes → Except Fault (Nat × Bytes)
  | a :: b :: c :: d :: rest =>
    if [a, b, c, d].all Bytes.isDigit then .ok (((digit a * 10 + digit b) * 10 + digit c) * 10 + digit d, rest)
    else .error .malformed
  | _ => .error .malformed

/-- Year, month and day. Whether the month has the day is not asked yet. -/
def date (s : Bytes) : Except Fault ((Nat × Nat × Nat) × Bytes) := do
  let (y, rest) ← year s
  let (m, rest) ← bounded "month" 1 12 (← skip 45 rest)
  let (d, rest) ← number (← skip 45 rest)
  .ok ((y, m, d), rest)

def decimals : Bytes → Bytes
  | mark :: d :: rest =>
    if (mark = 46 || mark = 44) && Bytes.isDigit d then rest.dropWhile Bytes.isDigit else mark :: d :: rest
  | s => s

def clock (s : Bytes) : Except Fault Bytes := do
  let (_, rest) ← bounded "hour" 0 23 s
  let (_, rest) ← bounded "minute" 0 59 (← skip 58 rest)
  let (_, rest) ← bounded "second" 0 59 (← skip 58 rest)
  .ok (decimals rest)

def zone : Bytes → Except Fault Bytes
  | 90 :: rest => .ok rest
  | sign :: a :: b :: 58 :: c :: d :: rest =>
    if !([a, b, c, d].all Bytes.isDigit && (sign = 43 || sign = 45)) then .error .malformed
    else if 60 < digit c * 10 + digit d then .error (.range (bytes "time zone offset minute"))
    else if 24 < digit a * 10 + digit b then .error (.range (bytes "time zone offset hour"))
    else .ok rest
  | _ => .error .malformed

def finish (d : Nat × Nat × Nat) (rest : Bytes) : Except Fault Unit :=
  if rest ≠ [] then .error .malformed
  else if 1 ≤ d.2.2 ∧ d.2.2 ≤ daysIn d.1 d.2.1 then .ok ()
  else .error (.range (bytes "day"))

def checkDate (s : Bytes) : Except Fault Unit := do
  let (d, rest) ← date s
  finish d rest

def checkClock (s : Bytes) : Except Fault Unit := do
  if (← clock s) = [] then .ok () else .error .malformed

def checkMoment (letter : UInt8) (s : Bytes) : Except Fault Unit := do
  let (d, rest) ← date s
  finish d (← zone (← clock (← skip letter rest)))

def checkSpaced (s : Bytes) : Except Fault Unit := do
  let (d, rest) ← date s
  let rest ← skip Bytes.space rest
  finish d (← clock (rest.dropWhile (· == Bytes.space)))

end Deadwood.Stamp

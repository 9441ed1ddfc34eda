import Deadwood.Config.Yaml.Fault
import Deadwood.Text.Rune

/-!
The characters of a file laid out by indentation, and a place among them. The end of the text reads as code point zero,
which no text holds.
-/

namespace Deadwood.Yaml

structure Mark where
  index : Nat := 0
  line : Nat := 0
  column : Nat := 0
  deriving DecidableEq, Repr

/-- The characters from a place on, how many there were at the start, the number of line breaks since the last character
that is no blank, and what is found in the text behind the characters that could be read. -/
structure Cursor where
  rest : List Nat
  total : Nat := rest.length
  mark : Mark := {}
  breaks : Nat := 0
  behind : Option Fault := none

abbrev Scan := StateT Cursor (Except Fault)

def isBlank (c : Nat) : Bool := c = 32 || c = 9

def isBreak (c : Nat) : Bool := c = 10 || c = 13 || c = 0x85 || c = 0x2028 || c = 0x2029

def isEnd (c : Nat) : Bool := c = 0

def isBreakOrEnd (c : Nat) : Bool := isBreak c || isEnd c

def isSpaceOrEnd (c : Nat) : Bool := isBlank c || isBreakOrEnd c

def isDigit (c : Nat) : Bool := 48 ≤ c && c ≤ 57

def isNameChar (c : Nat) : Bool :=
  isDigit c || (65 ≤ c && c ≤ 90) || (97 ≤ c && c ≤ 122) || c = 95 || c = 45

def hexValue? (c : Nat) : Option Nat :=
  if isDigit c then some (c - 48)
  else if 97 ≤ c && c ≤ 102 then some (c - 87)
  else if 65 ≤ c && c ≤ 70 then some (c - 55)
  else none

def isAllowed (c : Nat) : Bool :=
  c = 9 || c = 10 || c = 13 || (32 ≤ c && c ≤ 0x7E) || c = 0x85 || (0xA0 ≤ c && c ≤ 0xD7FF) ||
    (0xE000 ≤ c && c ≤ 0xFFFD) || 0x10000 ≤ c

def encode (s : List Nat) : Bytes := s.flatMap Rune.encode

namespace Cursor

def ahead (c : Cursor) (n : Nat) : Nat := c.rest.getD n 0

def skip (c : Cursor) : Cursor :=
  { c with
    rest := c.rest.drop 1
    mark := { c.mark with index := c.mark.index + 1, column := c.mark.column + 1 }
    breaks := if isBlank (c.ahead 0) then c.breaks else 0 }

def breakLength (c : Cursor) : Nat :=
  if c.ahead 0 = 13 && c.ahead 1 = 10 then 2 else if isBreak (c.ahead 0) then 1 else 0

def skipBreak (c : Cursor) : Cursor :=
  if c.breakLength = 0 then c
  else
    { c with
      rest := c.rest.drop c.breakLength
      mark := ⟨c.mark.index + c.breakLength, c.mark.line + 1, 0⟩
      breaks := c.breaks + 1 }

/-- What a line break reads as: a newline, except for those that Unicode has for nothing else. -/
def breakText (c : Cursor) : List Nat :=
  if c.ahead 0 = 0x2028 || c.ahead 0 = 0x2029 then [c.ahead 0] else if isBreak (c.ahead 0) then [10] else []

/-- Whether a line begins that consists of three dashes or three points, perhaps with something after a blank. -/
def atDocumentMark (c : Cursor) : Bool :=
  c.mark.column = 0 && isSpaceOrEnd (c.ahead 3) &&
    ((c.ahead 0 = 45 && c.ahead 1 = 45 && c.ahead 2 = 45) || (c.ahead 0 = 46 && c.ahead 1 = 46 && c.ahead 2 = 46))

def blanksBeforeComment (c : Cursor) : Option Nat :=
  let blanks := (c.rest.takeWhile isBlank).length
  if c.ahead blanks = 35 && blanks < 512 then some blanks else none

end Cursor

namespace Scan

def look (n : Nat) : Scan Nat := return (← get).ahead n

def mark : Scan Mark := return (← get).mark

def need (n : Nat) : Scan Unit := do
  let c ← get
  match c.behind with
  | some fault => if c.rest.length < n then throw fault else pure ()
  | none => pure ()

def skip : Scan Unit := modify Cursor.skip

def skipMany : Nat → Scan Unit
  | 0 => pure ()
  | n + 1 => do skip; skipMany n

def skipBreak : Scan Unit := modify Cursor.skipBreak

def readBreak : Scan (List Nat) := do
  let c ← get
  set c.skipBreak
  return c.breakText

def fail {α : Type} (context : Mark) (p : Problem) : Scan α := do
  throw (.atCharacter context.line (← get).mark.line p)

def fuel : Scan Nat := return (← get).total + 1

def takeFrom (p : Nat → Bool) : (fuel : Nat) → Scan (List Nat)
  | 0 => return []
  | fuel + 1 => do
    need 1
    let c ← look 0
    if !isEnd c && p c then
      skip
      return c :: (← takeFrom p fuel)
    else return []

def takeWhile (p : Nat → Bool) : Scan (List Nat) := do takeFrom p (← fuel)

def skipWhile (p : Nat → Bool) : Scan Unit := do let _ ← takeWhile p

def skipBlanks : Scan Unit := skipWhile isBlank

def skipLine : Scan Unit := skipWhile (!isBreak ·)

def skipComment : Scan Unit := do
  let c ← get
  if 0 < c.breaks then pure ()
  else match c.blanksBeforeComment with
    | some blanks => do skipMany blanks; skipLine
    | none => pure ()

end Scan

/-- The characters of a text up to the first that it may not hold, in pieces of 512 bytes, and what is wrong with that
one. A piece with a character that is not allowed cannot be read at all. -/
def readable (room : Nat) (piece done : List Nat) : List Rune → List Nat × Option Fault
  | [] => ((piece ++ done).reverse, none)
  | r :: rest =>
    let fits := r.raw.length ≤ room
    let done := if fits then done else piece ++ done
    let piece := if fits then piece else []
    let room := if fits then room - r.raw.length else 512 - r.raw.length
    match r with
    | .stray _ => (done.reverse, some .badEncoding)
    | .code point _ =>
      if isAllowed point then readable room (point :: piece) done rest else (done.reverse, some .controlCharacter)

def Cursor.ofText (s : Bytes) : Cursor :=
  let body := (Bytes.after? (Rune.encode 0xFEFF) s)
  let (rest, behind) := readable (if body.isSome then 509 else 512) [] [] (body.getD s).runes
  { rest, behind }

end Deadwood.Yaml

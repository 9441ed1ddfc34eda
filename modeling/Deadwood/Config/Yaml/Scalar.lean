import Deadwood.Config.Yaml.Cursor

/-!
Texts of a file laid out by indentation: in quotes, without them, and in blocks. A single line break between words
counts as a blank, further ones as themselves; blocks may keep all of them.
-/

namespace Deadwood.Yaml

structure Gap where
  broken : Bool := false
  blanks : List Nat := []
  first : List Nat := []
  others : List Nat := []

namespace Gap

def text (g : Gap) : List Nat :=
  if g.broken then
    if g.first.head? = some 10 then (if g.others = [] then [32] else g.others) else g.first ++ g.others
  else g.blanks

/-- Adds blanks and line breaks to a gap. Where a bound is given, tabs may not stand before that column on a new
line. -/
def extend (start : Mark) (bound : Option Nat) : (fuel : Nat) → Gap → Scan Gap
  | 0, g => return g
  | fuel + 1, g => do
    Scan.need 1
    let c ← Scan.look 0
    if isBlank c then
      if g.broken && c = 9 && bound.any ((← Scan.mark).column < ·) then Scan.fail start .tabInText
      Scan.skip
      extend start bound fuel (if g.broken then g else { g with blanks := g.blanks ++ [c] })
    else if isBreak c then
      let text ← Scan.readBreak
      extend start bound fuel
        (if g.broken then { g with others := g.others ++ text } else { broken := true, first := text })
    else return g

end Gap

def escapes : List (Nat × Nat) := [
  (48, 0), (97, 7), (98, 8), (116, 9), (9, 9), (110, 10), (118, 11), (102, 12), (114, 13), (101, 27), (32, 32),
  (34, 34), (39, 39), (92, 92), (78, 0x85), (95, 0xA0), (76, 0x2028), (80, 0x2029)]

def escapeDigits : List (Nat × Nat) := [(120, 2), (117, 4), (85, 8)]

def codePoint (start : Mark) (digits : Nat) : Scan Nat := do
  let c ← get
  let values := (List.range digits).map fun i => hexValue? (c.ahead i)
  match values.mapM id with
  | none => Scan.fail start .noHexNumber
  | some values =>
    let point := values.foldl (fun n d => n * 16 + d) 0
    if (0xD800 ≤ point && point ≤ 0xDFFF) || 0x10FFFF < point then Scan.fail start .badPoint
    Scan.skipMany digits
    return point

def escape (start : Mark) : Scan Nat := do
  let letter ← Scan.look 1
  match escapes.lookup letter, escapeDigits.lookup letter with
  | some c, _ => do Scan.skipMany 2; return c
  | none, some digits => do
    Scan.skipMany 2
    codePoint start digits
  | none, none => Scan.fail start .unknownEscape

def quotedWord (single : Bool) (start : Mark) : (fuel : Nat) → List Nat → Scan (List Nat × Bool)
  | 0, word => return (word, false)
  | fuel + 1, word => do
    Scan.need 2
    let c ← Scan.look 0
    let next ← Scan.look 1
    if isSpaceOrEnd c then return (word, false)
    else if single && c = 39 && next = 39 then
      Scan.skipMany 2
      quotedWord single start fuel (39 :: word)
    else if c = (if single then 39 else 34) then return (word, false)
    else if !single && c = 92 && isBreak next then
      Scan.skip
      Scan.skipBreak
      return (word, true)
    else if !single && c = 92 then
      let point ← escape start
      quotedWord single start fuel (point :: word)
    else
      Scan.skip
      quotedWord single start fuel (c :: word)

def quotedText (single : Bool) (start : Mark) : (fuel : Nat) → List Nat → Scan (List Nat)
  | 0, text => return text
  | fuel + 1, text => do
    Scan.need 4
    let c ← get
    if c.atDocumentMark then Scan.fail start .documentMark
    if isEnd (c.ahead 0) then Scan.fail start .streamEnd
    let (text, broken) ← quotedWord single start (← Scan.fuel) text
    if (← Scan.look 0) = (if single then 39 else 34) then return text
    let gap ← Gap.extend start none (← Scan.fuel) { broken }
    quotedText single start fuel (gap.text.reverse ++ text)

def quoted (single : Bool) : Scan (List Nat) := do
  let start ← Scan.mark
  Scan.skip
  let text ← quotedText single start (← Scan.fuel) []
  Scan.skip
  return text.reverse

def endsInFlow (c : Nat) : Bool := [44, 63, 91, 93, 123, 125].contains c

/-- Characters without quotes up to a blank, a line break or an end, in reverse, after a gap that belongs to the text if
a character follows. -/
def plainWord (inFlow : Bool) : (fuel : Nat) → Gap → List Nat → Scan (Gap × List Nat)
  | 0, gap, text => return (gap, text)
  | fuel + 1, gap, text => do
    Scan.need 2
    let c ← Scan.look 0
    if isSpaceOrEnd c || (c = 58 && isSpaceOrEnd (← Scan.look 1)) || (inFlow && endsInFlow c) then return (gap, text)
    Scan.skip
    plainWord inFlow fuel {} (c :: (gap.text.reverse ++ text))

def plainText (inFlow : Bool) (indent : Nat) (start : Mark) : (fuel : Nat) → Gap → List Nat → Scan (Gap × List Nat)
  | 0, gap, text => return (gap, text)
  | fuel + 1, gap, text => do
    Scan.need 4
    let c ← get
    if c.atDocumentMark || c.ahead 0 = 35 then return (gap, text)
    let (gap, text) ← plainWord inFlow (← Scan.fuel) gap text
    let next ← Scan.look 0
    if !(isBlank next || isBreak next) then return (gap, text)
    let gap ← Gap.extend start (some indent) (← Scan.fuel) gap
    if !inFlow && (← Scan.mark).column < indent then return (gap, text)
    plainText inFlow indent start fuel gap text

def plain (inFlow : Bool) (indent : Nat) : Scan (List Nat × Bool) := do
  let (gap, text) ← plainText inFlow indent (← Scan.mark) (← Scan.fuel) {} []
  return (text.reverse, gap.broken)

inductive Chomping
  | strip
  | clip
  | keep
  deriving DecidableEq, Repr

def chomping? (c : Nat) : Option Chomping := if c = 43 then some .keep else if c = 45 then some .strip else none

def blockIndent (start : Mark) : Scan Nat := do
  let c ← Scan.look 0
  if !isDigit c then return 0
  if c = 48 then Scan.fail start .zeroIndent
  Scan.skip
  return c - 48

def blockChomping : Scan (Option Chomping) := do
  match chomping? (← Scan.look 0) with
  | some chomping => do Scan.skip; return some chomping
  | none => return none

def blockHeading (start : Mark) : Scan (Chomping × Nat) := do
  match ← blockChomping with
  | some chomping => return (chomping, ← blockIndent start)
  | none =>
    let indent ← blockIndent start
    if indent = 0 then return (.clip, 0)
    return ((← blockChomping).getD .clip, indent)

/-- Indentation and empty lines: the line breaks, and the widest indentation. An indentation of zero is not known yet. -/
def emptyLines (start : Mark) (indent : Nat) : (fuel : Nat) → (widest : Nat) → List Nat → Scan (List Nat × Nat)
  | 0, widest, breaks => return (breaks, widest)
  | fuel + 1, widest, breaks => do
    Scan.need 2
    let c ← Scan.look 0
    let column := (← Scan.mark).column
    let inIndent := indent = 0 || column < indent
    if inIndent && c = 32 then
      Scan.skip
      emptyLines start indent fuel widest breaks
    else
      let widest := max widest column
      if inIndent && c = 9 then Scan.fail start .tabForIndent
      if isBreak c then
        let text ← Scan.readBreak
        emptyLines start indent fuel widest (breaks ++ text)
      else return (breaks, widest)

def blockGap (start : Mark) (outer : Int) (indent : Nat) : Scan (List Nat × Nat) := do
  let (breaks, widest) ← emptyLines start indent (← Scan.fuel) 0 []
  return (breaks, if indent = 0 then max (max widest (outer + 1).toNat) 1 else indent)

structure Pending where
  first : List Nat := []
  others : List Nat := []
  afterBlank : Bool := false

/-- The lines of a block in reverse. Unless it is literal, single line breaks between lines that do not begin with a
blank count as blanks. -/
def blockLines (literal : Bool) (start : Mark) (outer : Int) (indent : Nat) :
    (fuel : Nat) → Pending → List Nat → Scan (Pending × List Nat)
  | 0, pending, text => return (pending, text)
  | fuel + 1, pending, text => do
    let c ← Scan.look 0
    if (← Scan.mark).column ≠ indent || isEnd c then return (pending, text)
    let folds := !literal && !pending.afterBlank && !isBlank c && pending.first.head? = some 10
    let joint :=
      if folds then (if pending.others = [] then [32] else []) ++ pending.others else pending.first ++ pending.others
    let line ← Scan.takeWhile (!isBreak ·)
    let first ← Scan.readBreak
    let (others, _) ← blockGap start outer indent
    blockLines literal start outer indent fuel { first, others, afterBlank := isBlank c }
      (line.reverse ++ joint.reverse ++ text)

def block (literal : Bool) (outer : Int) : Scan (List Nat) := do
  let start ← Scan.mark
  Scan.skip
  let (chomping, increment) ← blockHeading start
  Scan.skipBlanks
  if (← Scan.look 0) = 35 then Scan.skipLine
  if !isBreakOrEnd (← Scan.look 0) then Scan.fail start .noLineEnd
  Scan.skipBreak
  let wanted := if increment = 0 then 0 else (max outer 0).toNat + increment
  let (others, indent) ← blockGap start outer wanted
  let (pending, text) ← blockLines literal start outer indent (← Scan.fuel) { others } []
  let ending := match chomping with
    | .strip => []
    | .clip => pending.first
    | .keep => pending.first ++ pending.others
  return text.reverse ++ ending

end Deadwood.Yaml

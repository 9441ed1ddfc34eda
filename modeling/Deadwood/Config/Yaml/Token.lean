import Deadwood.Config.Yaml.Scalar

/-!
Tokens of a file laid out by indentation. What a line opens is known only from the colon that may follow on it, so a
token that may be a key waits in a queue until that is decided.
-/

namespace Deadwood.Yaml

inductive Symbol
  | streamStart
  | streamEnd
  | version (major minor : Nat)
  | handle (name expansion : Bytes)
  | documentStart
  | documentEnd
  | blockSequenceStart
  | blockMappingStart
  | blockEnd
  | flowSequenceStart
  | flowSequenceEnd
  | flowMappingStart
  | flowMappingEnd
  | blockEntry
  | flowEntry
  | key
  | value
  | reference (name : Bytes)
  | anchor (name : Bytes)
  | tag (handle suffix : Bytes)
  | scalar (isPlain : Bool) (text : Bytes)
  deriving DecidableEq, Repr

structure Token where
  line : Nat
  symbol : Symbol
  deriving DecidableEq, Repr

structure KeyPlace where
  possible : Bool := false
  required : Bool := false
  number : Nat := 0
  mark : Mark := {}

/-- What is known in the middle of a text: the indentations that are open, with the innermost first, the brackets and
braces that are open, one key place for each of them and one for the outside, the tokens that wait, and how many have
been taken. `listed` tells under which token number which key place is found, counted from the outside. -/
structure Lexer where
  cursor : Cursor
  started : Bool := false
  indent : Int := -1
  outer : List Int := []
  flow : Nat := 0
  keys : List KeyPlace := []
  listed : List (Nat × Nat) := []
  keyAllowed : Bool := true
  queue : List Token := []
  taken : Nat := 0
  lastIsEntry : Bool := false

abbrev Lex := StateT Lexer (Except Fault)

namespace Lexer

def nextNumber (l : Lexer) : Nat := l.taken + l.queue.length

def inFlow (l : Lexer) : Bool := 0 < l.flow

def place (l : Lexer) : KeyPlace := l.keys.headD {}

def setPlace (l : Lexer) (p : KeyPlace) : Lexer := { l with keys := p :: l.keys.drop 1 }

def unlist (l : Lexer) (number : Nat) : Lexer := { l with listed := l.listed.filter (·.1 ≠ number) }

def push (l : Lexer) (t : Token) : Lexer :=
  { l with queue := l.queue ++ [t], lastIsEntry := t.symbol = .blockEntry }

def insert (l : Lexer) (number : Nat) (t : Token) : Lexer :=
  { l with queue := l.queue.take (number - l.taken) ++ t :: l.queue.drop (number - l.taken) }

def deepest : Nat := 10000

/-- Whether a key can still end at the cursor that began at a place: on the same line, and not too far away. -/
def reaches (l : Lexer) (p : KeyPlace) : Bool :=
  l.cursor.mark.line ≤ p.mark.line && l.cursor.mark.index ≤ p.mark.index + 1024

end Lexer

namespace Lex

def scan {α : Type} (s : Scan α) : Lex α := do
  let l ← get
  let (a, cursor) ← (s.run l.cursor : Except Fault (α × Cursor))
  set { l with cursor }
  return a

def mark : Lex Mark := return (← get).cursor.mark

def fail {α : Type} (context : Mark) (p : Problem) : Lex α := do
  throw (.atCharacter context.line (← get).cursor.mark.line p)

def failHere {α : Type} (p : Problem) : Lex α := do fail (← mark) p

def push (start : Mark) (s : Symbol) : Lex Unit := modify (·.push ⟨start.line, s⟩)

def allowKey (b : Bool) : Lex Unit := modify fun l => { l with keyAllowed := b }

def dropKey : Lex Unit := do
  let l ← get
  if l.place.possible then
    if l.place.required then fail l.place.mark .noColon
    set ((l.setPlace { l.place with possible := false }).unlist l.place.number)

/-- Notes that a key may begin at the cursor. Where the indentation asks for one, nothing else will do. -/
def noteKey : Lex Unit := do
  let l ← get
  if l.keyAllowed then
    let required := !l.inFlow && l.indent = l.cursor.mark.column
    let noted : KeyPlace := ⟨true, required, l.nextNumber, l.cursor.mark⟩
    dropKey
    modify fun l => { l.setPlace noted with listed := (noted.number, l.keys.length - 1) :: l.listed }

def checkKey (level : Nat) : Lex Bool := do
  let l ← get
  let i := l.keys.length - 1 - level
  match l.keys[i]? with
  | none => return false
  | some p =>
    if !p.possible then return false
    if l.reaches p then return true
    if p.required then fail p.mark .noColon
    set { l with keys := l.keys.set i { p with possible := false } }
    return false

/-- Opens a level of indentation, if the column is farther to the right. The token goes before the one with a number,
or to the end. -/
def openLevel (column : Nat) (number : Option Nat) (s : Symbol) (start : Mark) : Lex Unit := do
  let l ← get
  if !l.inFlow && l.indent < column then
    let opened := { l with outer := l.indent :: l.outer, indent := column }
    if Lexer.deepest < opened.outer.length then fail l.place.mark .tooDeep
    match number with
    | some n => set (opened.insert n ⟨start.line, s⟩)
    | none => set (opened.push ⟨start.line, s⟩)

def closedLevels (column : Int) (line : Nat) (l : Lexer) : List Int → Lexer
  | [] => l
  | outer :: rest =>
    if column < l.indent then
      closedLevels column line { l.push ⟨line, .blockEnd⟩ with indent := outer, outer := rest } rest
    else l

def closeLevels (column : Int) (start : Mark) : Lex Unit :=
  modify fun l => if l.inFlow then l else closedLevels column start.line l l.outer

def enterFlow : Lex Unit := do
  modify fun l =>
    { l with keys := { number := l.nextNumber, mark := l.cursor.mark } :: l.keys, flow := l.flow + 1 }
  if Lexer.deepest < (← get).flow then failHere .tooDeep

def leaveFlow : Lex Unit := modify fun l =>
  if l.inFlow then { l.unlist l.place.number with flow := l.flow - 1, keys := l.keys.drop 1 } else l

def take (length : Nat) (s : Symbol) : Lex Unit := do
  let start ← mark
  scan (Scan.skipMany length)
  push start s

def streamStart : Lex Unit := do
  modify fun l => { l with started := true, keys := [{}] }
  push (← mark) .streamStart

def streamEnd : Lex Unit := do
  modify fun l =>
    if l.cursor.mark.column = 0 then l
    else { l with cursor := { l.cursor with mark := { l.cursor.mark with column := 0, line := l.cursor.mark.line + 1 } } }
  closeLevels (-1) (← mark)
  dropKey
  allowKey false
  push (← mark) .streamEnd

def documentMark (s : Symbol) : Lex Unit := do
  closeLevels (-1) (← mark)
  dropKey
  allowKey false
  take 3 s

def flowStart (s : Symbol) : Lex Unit := do
  noteKey
  enterFlow
  allowKey true
  take 1 s

def flowEnd (s : Symbol) : Lex Unit := do
  dropKey
  leaveFlow
  allowKey false
  take 1 s

def flowEntry : Lex Unit := do
  dropKey
  allowKey true
  take 1 .flowEntry

/-- Outside brackets, a dash and the marks of keys and values open a level if a key could stand in their place. -/
def openBlock (s : Symbol) (p : Problem) : Lex Unit := do
  let l ← get
  if !l.inFlow then
    if !l.keyAllowed then failHere p
    openLevel l.cursor.mark.column none s l.cursor.mark

def blockEntry : Lex Unit := do
  openBlock .blockSequenceStart .strayEntry
  dropKey
  allowKey true
  take 1 .blockEntry

def key : Lex Unit := do
  openBlock .blockMappingStart .strayKey
  dropKey
  allowKey (!(← get).inFlow)
  take 1 .key

def value : Lex Unit := do
  if ← checkKey ((← get).keys.length - 1) then
    let p := (← get).place
    modify (·.insert p.number ⟨p.mark.line, .key⟩)
    openLevel p.mark.column (some p.number) .blockMappingStart p.mark
    modify fun l => (l.setPlace { l.place with possible := false }).unlist p.number
    allowKey false
  else
    openBlock .blockMappingStart .strayValue
    allowKey (!(← get).inFlow)
  take 1 .value

def mayBeKey (s : Scan Symbol) : Lex Unit := do
  noteKey
  allowKey false
  let start ← mark
  push start (← scan s)

def blockScalar (literal : Bool) : Lex Unit := do
  dropKey
  allowKey true
  let start ← mark
  let text ← scan (block literal (← get).indent)
  push start (.scalar false (encode text))

def quotedScalar (single : Bool) : Lex Unit := mayBeKey do return .scalar false (encode (← quoted single))

def plainScalar : Lex Unit := do
  noteKey
  allowKey false
  let l ← get
  let (text, broken) ← scan (plain l.inFlow (l.indent + 1).toNat)
  if broken then allowKey true
  push l.cursor.mark (.scalar true (encode text))

end Lex

def anchorName : Scan Bytes := do
  let start ← Scan.mark
  Scan.skip
  let name ← Scan.takeWhile isNameChar
  let next ← Scan.look 0
  if name = [] || !(isSpaceOrEnd next || [63, 58, 44, 93, 125, 37, 64, 96].contains next) then
    Scan.fail start .noAnchorName
  return encode name

def tagHandle (inDirective : Bool) (start : Mark) : Scan (List Nat) := do
  if (← Scan.look 0) ≠ 33 then Scan.fail start .noTagMark
  Scan.skip
  let name ← Scan.takeWhile isNameChar
  if (← Scan.look 0) = 33 then
    Scan.skip
    return 33 :: name ++ [33]
  if inDirective && name ≠ [] then Scan.fail start .noTagMark
  return 33 :: name

def isTagChar (c : Nat) : Bool :=
  isNameChar c ||
    [59, 47, 63, 58, 64, 38, 61, 43, 36, 44, 46, 33, 126, 42, 39, 40, 41, 91, 93, 37].contains c

def octetCount (octet : Nat) : Nat :=
  if octet < 0x80 then 1 else if octet / 32 = 6 then 2 else if octet / 16 = 14 then 3 else if octet / 8 = 30 then 4 else 0

def octet (start : Mark) : Scan Nat := do
  let c ← get
  if c.ahead 0 ≠ 37 then Scan.fail start .badTagEscape
  match hexValue? (c.ahead 1), hexValue? (c.ahead 2) with
  | some a, some b => do
    Scan.skipMany 3
    return a * 16 + b
  | _, _ => Scan.fail start .badTagEscape

def trailingOctets (start : Mark) : Nat → Scan Bytes
  | 0 => return []
  | n + 1 => do
    let o ← octet start
    if o / 64 ≠ 2 then Scan.fail start .badTrailingOctet
    return o.toUInt8 :: (← trailingOctets start n)

def escapedOctets (start : Mark) : Scan Bytes := do
  let o ← octet start
  if octetCount o = 0 then Scan.fail start .badLeadingOctet
  return o.toUInt8 :: (← trailingOctets start (octetCount o - 1))

def tagChars (start : Mark) : (fuel : Nat) → Scan Bytes
  | 0 => return []
  | fuel + 1 => do
    let c ← Scan.look 0
    if isEnd c || !isTagChar c then return []
    else if c = 37 then return (← escapedOctets start) ++ (← tagChars start fuel)
    else
      Scan.skip
      return Rune.encode c ++ (← tagChars start fuel)

def tagName (start : Mark) (beginning : List Nat) : Scan Bytes := do
  let before := (← get).mark.index
  let name ← tagChars start (← Scan.fuel)
  if beginning = [] && (← get).mark.index = before then Scan.fail start .noTagName
  return encode (beginning.drop 1) ++ name

def tag : Scan Symbol := do
  let start ← Scan.mark
  let found ← if (← Scan.look 1) = 60 then do
      Scan.skipMany 2
      let name ← tagName start []
      if (← Scan.look 0) ≠ 62 then Scan.fail start .unclosedTag
      Scan.skip
      pure (Symbol.tag [] name)
    else do
      let handle ← tagHandle false start
      if 1 < handle.length && handle.getLast? = some 33 then do
        let suffix ← tagName start []
        pure (Symbol.tag (encode handle) suffix)
      else do
        let suffix ← tagName start handle
        pure (if suffix = [] then Symbol.tag [] (encode handle) else Symbol.tag [33] suffix)
  if !isSpaceOrEnd (← Scan.look 0) then Scan.fail start .noSpaceOrBreak
  return found

def versionNumber (start : Mark) : Scan Nat := do
  let digits ← Scan.takeWhile isDigit
  if digits = [] then Scan.fail start .noVersion
  if 2 < digits.length then Scan.fail start .longVersion
  return digits.foldl (fun n d => n * 10 + (d - 48)) 0

def versionDirective (start : Mark) : Scan Symbol := do
  Scan.skipBlanks
  let major ← versionNumber start
  if (← Scan.look 0) ≠ 46 then Scan.fail start .noVersionPoint
  Scan.skip
  return .version major (← versionNumber start)

def tagDirective (start : Mark) : Scan Symbol := do
  Scan.skipBlanks
  let handle ← tagHandle true start
  if !isBlank (← Scan.look 0) then Scan.fail start .noSpace
  Scan.skipBlanks
  let expansion ← tagName start []
  if !isSpaceOrEnd (← Scan.look 0) then Scan.fail start .noSpaceOrBreak
  return .handle (encode handle) expansion

def directive : Scan Symbol := do
  let start ← Scan.mark
  Scan.skip
  let name ← Scan.takeWhile isNameChar
  if name = [] then Scan.fail start .noDirectiveName
  if !isSpaceOrEnd (← Scan.look 0) then Scan.fail start .badDirectiveName
  let found ←
    if encode name = bytes "YAML" then versionDirective start
    else if encode name = bytes "TAG" then tagDirective start
    else Scan.fail start .unknownDirective
  Scan.skipBlanks
  if (← Scan.look 0) = 35 then Scan.skipLine
  if !isBreakOrEnd (← Scan.look 0) then Scan.fail start .noLineEnd
  Scan.skipBreak
  return found

def toComment (c : Cursor) : Option Nat :=
  let distance := (c.rest.takeWhile fun x => isBlank x || x = 10 || x = 13).length
  if 0 < distance && distance < 512 && c.ahead distance = 35 then some distance else none

def skipTo (index : Nat) : (fuel : Nat) → Scan Unit
  | 0 => pure ()
  | fuel + 1 => do
    let c ← get
    if c.mark.index < index then
      if isBreak (c.ahead 0) then Scan.skipBreak else Scan.skip
      skipTo index fuel

def comments : (fuel : Nat) → Scan Unit
  | 0 => pure ()
  | fuel + 1 => do
    Scan.skipLine
    match toComment (← get) with
    | some distance => do
      skipTo ((← get).mark.index + distance) (distance + 1)
      comments fuel
    | none => pure ()

namespace Lex

/-- Leaves blanks, comments and line breaks aside. Tabs count as blanks where no key can begin. -/
def toToken : (fuel : Nat) → Lex Unit
  | 0 => pure ()
  | fuel + 1 => do
    scan (Scan.need 1)
    if (← get).cursor.mark.column = 0 && (← get).cursor.ahead 0 = 0xFEFF then scan Scan.skip
    let l ← get
    scan (Scan.skipWhile fun c => c = 32 || (c = 9 && (l.inFlow || !l.keyAllowed)))
    if (← get).cursor.ahead 0 = 35 then scan (do comments (← Scan.fuel))
    let l ← get
    if isBreak (l.cursor.ahead 0) then
      scan Scan.skipBreak
      if !l.inFlow then allowKey true
      toToken fuel

def symbol : Lex Unit := do
  let l ← get
  let c := l.cursor.ahead 0
  let next := l.cursor.ahead 1
  let closed := isSpaceOrEnd next
  if c = 91 then flowStart .flowSequenceStart
  else if c = 123 then flowStart .flowMappingStart
  else if c = 93 then flowEnd .flowSequenceEnd
  else if c = 125 then flowEnd .flowMappingEnd
  else if c = 44 then flowEntry
  else if c = 45 && closed then blockEntry
  else if c = 63 && (l.inFlow || closed) then key
  else if c = 58 && (l.inFlow || closed) then value
  else if c = 42 then mayBeKey do return .reference (← anchorName)
  else if c = 38 then mayBeKey do return .anchor (← anchorName)
  else if c = 33 then mayBeKey tag
  else if c = 124 && !l.inFlow then blockScalar true
  else if c = 62 && !l.inFlow then blockScalar false
  else if c = 39 then quotedScalar true
  else if c = 34 then quotedScalar false
  else if c = 45 || (!l.inFlow && (c = 63 || c = 58)) ||
      !(isBlank c || [63, 58, 35, 124, 62, 37, 64, 96].contains c) then plainScalar
  else failHere .strayCharacter
  if !(← get).lastIsEntry then scan Scan.skipComment

def fetch : Lex Unit := do
  scan (Scan.need 1)
  if !(← get).started then streamStart
  else
    let start ← mark
    toToken ((← get).cursor.total + 1)
    closeLevels (← mark).column start
    scan (Scan.need 4)
    let l ← get
    let c := l.cursor.ahead 0
    if isEnd c then streamEnd
    else if l.cursor.mark.column = 0 && c = 37 then
      closeLevels (-1) (← mark)
      dropKey
      allowKey false
      let start ← mark
      push start (← scan directive)
    else if l.cursor.atDocumentMark then documentMark (if c = 45 then .documentStart else .documentEnd)
    else symbol

/-- Fills the queue until its first token is known for what it is, and two more tokens have been seen. -/
def fill : (fuel : Nat) → Lex Unit
  | 0 => pure ()
  | fuel + 1 => do
    let l ← get
    if 3 ≤ l.queue.length then
      match l.listed.lookup l.taken with
      | none => pure ()
      | some level => if ← checkKey level then do fetch; fill fuel
    else do fetch; fill fuel

def peek : Lex Token := do
  fill ((← get).cursor.total + 8)
  return (← get).queue.headD ⟨0, .streamEnd⟩

def drop : Lex Unit := modify fun l => { l with queue := l.queue.drop 1, taken := l.taken + 1 }

end Lex

end Deadwood.Yaml

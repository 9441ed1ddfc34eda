import Deadwood.Text.Grammar
import Deadwood.Text.Rune

/-!
Settings files made of tables: a heading in brackets, and under it keys with their values. This is the text as it
stands, before keys and values are looked at; everything that may turn out wrong later knows how many bytes were left.
-/

namespace Deadwood.Toml

structure Quoted where
  source : Bytes
  left : Nat

inductive Key
  | bare (name : Bytes)
  | quoted (name : Quoted)

mutual

inductive Term
  | datetime (source : Bytes)
  | float (source : Bytes)
  | integer (source : Bytes)
  | boolean (b : Bool)
  | literal (text : Bytes)
  | quoted (text : Quoted)
  | array (items : List Term)
  | table (left : Nat) (entries : List Entry)

inductive Entry
  | mk (key : Key) (value : Term) (left : Nat)

end

structure Heading where
  isList : Bool
  source : Bytes
  path : List Key
  left : Nat

inductive Statement
  | heading (h : Heading)
  | entry (e : Entry)

def isBreak (b : UInt8) : Bool := b == 10 || b == 13

def isBlank (b : UInt8) : Bool := b == 32 || b == 9

/-- All characters but controls; the tab is none. -/
def isShown (b : UInt8) : Bool := b == 9 || 32 ≤ b

def isBare (b : UInt8) : Bool := Bytes.isWord b || b == 45

def isHex (b : UInt8) : Bool := Bytes.isDigit b || (65 ≤ b && b ≤ 70) || (97 ≤ b && b ≤ 102)

namespace Syntax

open Grammar (byte literal someBytes rule many atLeastOne)

def char (b : UInt8) : Grammar Unit := do let _ ← byte (· == b)

def blanks : Grammar Unit := rule do let _ ← Grammar.bytes isBlank

def newline : Grammar Unit := rule do let _ ← someBytes isBreak

def gap : Grammar Unit := rule do let _ ← Grammar.bytes fun b => isBlank b || isBreak b

def comment : Grammar Unit := rule do
  char 35
  let _ ← Grammar.bytes isShown

def hexDigit : Grammar Unit := rule do let _ ← byte isHex

def hexQuad : Grammar Unit := rule do hexDigit; hexDigit; hexDigit; hexDigit

def backslash : Grammar Unit := rule (char 92)

def escaped : Grammar Unit := rule do
  backslash
  (do let _ ← byte [98, 116, 110, 102, 114, 34, 47, 92].contains) <|> (do char 117; hexQuad) <|>
    (do char 85; hexQuad; hexQuad)

def basicChar : Grammar Unit := rule (rule (do let _ ← byte fun b => 32 ≤ b && b != 34 && b != 92) <|> escaped)

def bareKey : Grammar Key := rule do return .bare (← Grammar.text (someBytes isBare))

def quotedKey : Grammar Key := rule do
  char 34
  let source ← Grammar.text (atLeastOne basicChar)
  char 34
  return .quoted ⟨source, ← Grammar.left⟩

def key : Grammar Key := rule (bareKey <|> quotedKey)

def digit : Grammar Unit := rule do let _ ← byte Bytes.isDigit

def twoDigits : Grammar Unit := rule do digit; digit

def datePart : Grammar Unit := rule twoDigits

def year : Grammar Unit := rule (rule do twoDigits; twoDigits)

def fullDate : Grammar Unit := rule do year; char 45; datePart; char 45; datePart

def secondFraction : Grammar Unit := rule do char 46; let _ ← atLeastOne digit

def partialTime : Grammar Unit := rule do
  datePart; char 58; datePart; char 58; datePart
  let _ ← optional secondFraction

def sign : Grammar Unit := do let _ ← byte fun b => b == 45 || b == 43

def offset : Grammar Unit := rule (char 90 <|> rule do sign; datePart; char 58; datePart)

def fullTime : Grammar Unit := rule do partialTime; offset

def datetime : Grammar Unit := rule ((do fullDate; let _ ← optional do char 84; fullTime) <|> partialTime)

def spacedDigit : Grammar Unit := digit <|> do char 95; digit

def whole : Grammar Unit :=
  rule ((do let _ ← byte (fun b => 49 ≤ b && b ≤ 57); let _ ← atLeastOne spacedDigit) <|> digit)

def integer : Grammar Unit := rule do let _ ← optional sign; whole

def fraction : Grammar Unit := rule do char 46; digit; let _ ← many spacedDigit

def power : Grammar Unit := rule do
  let _ ← byte fun b => b == 101 || b == 69
  let _ ← optional sign
  digit
  let _ ← many spacedDigit

def float : Grammar Unit := rule do
  integer
  (do fraction; let _ ← optional power) <|> do let _ ← optional fraction; power

def singleQuotes : Bytes := [39, 39, 39]
def doubleQuotes : Bytes := [34, 34, 34]

def withoutFirstBreak (s : Bytes) : Bytes := s.dropWhile isBreak

def longLiteral : Grammar Term := rule do
  literal singleQuotes
  let body ← Grammar.text (rule (many do
    Grammar.notAhead singleQuotes
    rule (do let _ ← byte isShown) <|> newline))
  literal singleQuotes
  return .literal (withoutFirstBreak body)

def shortLiteral : Grammar Term := rule do
  char 39
  let body ← Grammar.text (many (rule do let _ ← byte fun b => isShown b && b != 39))
  char 39
  return .literal body

/-- A part of a text over several lines. A backslash before a line break swallows all blanks after it. -/
def longPart : Grammar Bytes := Grammar.text (basicChar <|> newline) <|> do backslash; newline; gap; return []

def longBasic : Grammar Term := rule do
  literal doubleQuotes
  let parts ← rule (many longPart)
  literal doubleQuotes
  return .quoted ⟨withoutFirstBreak parts.flatten, ← Grammar.left⟩

def shortBasic : Grammar Term := rule do
  let source ← Grammar.text (do char 34; let _ ← many basicChar; char 34)
  return .quoted ⟨(source.drop 1).dropLast, ← Grammar.left⟩

def string : Grammar Term := rule (longLiteral <|> shortLiteral <|> longBasic <|> shortBasic)

def boolean : Grammar Term :=
  rule ((do literal (bytes "true"); return .boolean true) <|> do literal (bytes "false"); return .boolean false)

def comma : Grammar Unit := rule (char 44)

def gapAndComment : Grammar Unit := do gap; let _ ← optional comment

/-- The values of a list. Each may have a comment on the lines before and after the comma that follows it. -/
def items (value : Grammar Term) : Grammar (List Term) := rule do
  let first ← value
  let others ← many do gapAndComment; gap; comma; gapAndComment; gap; value
  gap
  let _ ← optional comma
  gapAndComment
  return first :: others

def array (value : Grammar Term) : Grammar Term := rule do
  char 91
  gap
  let found ← optional (items value)
  gap
  char 93
  return .array (found.getD [])

def entry (value : Grammar Term) : Grammar Entry := rule do
  let k ← key
  blanks
  char 61
  blanks
  let v ← value
  return .mk k v (← Grammar.left)

def inlineTable (value : Grammar Term) : Grammar Term := rule do
  char 123
  let left ← Grammar.left
  blanks
  let entries ← rule (many do
    let e ← entry value
    let _ ← optional (rule do blanks; char 44; blanks)
    return e)
  blanks
  char 125
  return .table left entries

def value : (fuel : Nat) → Grammar Term
  | 0 => failure
  | fuel + 1 => rule (
    .datetime <$> Grammar.text datetime <|> .float <$> Grammar.text float <|> .integer <$> Grammar.text integer <|>
    string <|> boolean <|> array (value fuel) <|> inlineTable (value fuel))

/-- A value of the text that is left. No byte opens more than one level. -/
def anyValue : Grammar Term := do value ((← Grammar.left) + 1)

def path : Grammar (List Key) := rule do
  let first ← rule key
  let others ← many do
    rule do blanks; char 46; blanks
    rule key
  return first :: others

def heading (isList : Bool) (opening closing : Bytes) : Grammar Heading := rule do
  literal opening
  blanks
  let before ← get
  let keys ← rule path
  let source := before.rest.take (before.left - (← Grammar.left))
  blanks
  literal closing
  return ⟨isList, source, keys, ← Grammar.left⟩

def anyHeading : Grammar Heading := rule (heading false [91] [93] <|> heading true [91, 91] [93, 93])

def lineEnd : Grammar Unit := do blanks; let _ ← optional comment

/-- A heading with its entries, which need not stand on lines of their own, or a single entry, or nothing. -/
def expression : Grammar (List Statement) := rule (
  (rule do
    blanks
    let h ← anyHeading
    lineEnd
    let entries ← many do
      gap
      let e ← entry anyValue
      lineEnd
      return e
    return .heading h :: entries.map .entry) <|>
  (do
    blanks
    let e ← entry anyValue
    lineEnd
    return [.entry e]) <|>
  do lineEnd; return [])

def document : Grammar (List Statement) := rule do
  let first ← expression
  let others ← many do newline; expression
  let _ ← optional newline
  Grammar.atEnd
  return first ++ others.flatten

end Syntax

end Deadwood.Toml

import Deadwood.Config.Yaml.Fault
import Deadwood.Number.Literal
import Deadwood.Time.Stamp

/-! What texts stand for in files laid out by indentation: by their own looks, and by the tag that is put on them. -/

namespace Deadwood.Yaml

namespace Tag

def null : Bytes := bytes "!!null"
def bool : Bytes := bytes "!!bool"
def int : Bytes := bytes "!!int"
def float : Bytes := bytes "!!float"
def timestamp : Bytes := bytes "!!timestamp"
def str : Bytes := bytes "!!str"
def binary : Bytes := bytes "!!binary"
def merge : Bytes := bytes "!!merge"
def seq : Bytes := bytes "!!seq"
def map : Bytes := bytes "!!map"

def longForm : Bytes := bytes "tag:yaml.org,2002:"

def short (tag : Bytes) : Bytes :=
  match Bytes.after? longForm tag with
  | some rest => bytes "!!" ++ rest
  | none => tag

end Tag

inductive Plain
  | null
  | bool
  | int (n : Int)
  | float (x : Double)
  | timestamp
  | text
  deriving DecidableEq, Repr

namespace Plain

def tag : Plain → Bytes
  | .null => Tag.null
  | .bool => Tag.bool
  | .int _ => Tag.int
  | .float _ => Tag.float
  | .timestamp => Tag.timestamp
  | .text => Tag.str

def nulls : List Bytes := [[], bytes "~", bytes "null", bytes "Null", bytes "NULL"]

def bools : List Bytes :=
  [bytes "true", bytes "True", bytes "TRUE", bytes "false", bytes "False", bytes "FALSE"]

def specials : List (Bytes × Double) :=
  [(bytes ".nan", .nan), (bytes ".NaN", .nan), (bytes ".NAN", .nan)] ++
  [bytes ".inf", bytes ".Inf", bytes ".INF"].flatMap fun name =>
    [(name, .infinite false), (43 :: name, .infinite false), (45 :: name, .infinite true)]

/-- Four digits and a dash begin a date, and what follows must make it a complete one, with or without a time. -/
def isTimestamp (s : Bytes) : Bool :=
  (s.takeWhile Bytes.isDigit).length = 4 && (s.drop 4).head? = some 45 &&
    [Stamp.checkMoment 84 s, Stamp.checkMoment 116 s, Stamp.checkSpaced s, Stamp.checkDate s].any fun
      | .ok _ => true
      | .error _ => false

/-- A whole number that a signed word holds, or an unsigned one if there is no sign. -/
def int? (s : Bytes) : Option Int := (Integer.read? s).filter fun n =>
  Integer.fits n || ((Integer.sign s).2 = s && n < Integer.wordSize)

/-- Binary and octal digits may have their sign after the letter of the base. -/
def signedInside? (s : Bytes) : Option Int :=
  let digits (base : Nat) (rest : Bytes) : Option Int :=
    if (Integer.sign rest).2 = rest || (Integer.sign rest).2 = [] then none
    else ((Integer.digits? base (Integer.sign rest).2).map fun n =>
      if (Integer.sign rest).1 then -(n : Int) else n).filter Integer.fits
  match s with
  | 48 :: 98 :: rest => digits 2 rest
  | 48 :: 111 :: rest => digits 8 rest
  | _ => none

def float? (s : Bytes) : Option Double :=
  let (negative, body) := Integer.sign s
  ((Literal.parts? Literal.decimal body).bind (Literal.value? Literal.decimal negative)).filter fun
    | .finite .. => true
    | _ => false

/-- What a number or a date looks like, of which the first character is a digit or a sign. Underscores do not count. -/
def ofDigits (dates : Bool) (s : Bytes) : Plain :=
  let number := s.filter (· != 95)
  if dates && isTimestamp s then .timestamp
  else match int? number, float? number, signedInside? number with
    | some n, _, _ => .int n
    | none, some x, _ => .float x
    | none, none, some n => .int n
    | none, none, none => .text

def ofText (dates : Bool) (s : Bytes) : Plain :=
  if nulls.contains s then .null
  else if bools.contains s then .bool
  else match specials.lookup s, s with
    | some x, _ => .float x
    | none, b :: _ =>
      if b = 46 then (match Double.readFinite? s with
        | some x => .float x
        | none => .text)
      else if Bytes.isDigit b || b = 43 || b = 45 then ofDigits dates s
      else .text
    | none, [] => .text

def binding : List Bytes := [Tag.null, Tag.bool, Tag.int, Tag.float, Tag.timestamp]

/-- What a text with a tag stands for. Tags that say nothing about looks leave it a text; others must fit, except that a
whole number may be tagged as a fraction. -/
def ofTagged (tag value : Bytes) : Except Fault Plain :=
  if !binding.contains tag then .ok .text
  else
    let found := ofText (tag = Tag.timestamp) value
    if found.tag = tag then .ok found
    else match found with
      | .int n =>
        if tag = Tag.float && Integer.fits n then .ok (.float (.ofInt n)) else .error (.wrongTag found.tag value tag)
      | found => .error (.wrongTag found.tag value tag)

end Plain

end Deadwood.Yaml

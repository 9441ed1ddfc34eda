import Deadwood.Log.Terminal

/-! Log lines for programs to read: keys with values, and objects. -/

namespace Deadwood.Log

namespace Structured

/-- A time among the attributes of a record takes the place and the form of the record's own. -/
def own (a : Attribute) : Attribute :=
  match a.value with
  | .time t => if a.key = bytes "time" then ⟨bytes "t", .text (Terminal.timeText t)⟩ else a
  | _ => a

def isEmpty (a : Attribute) : Bool := a = ⟨[], .absent⟩

def headings (r : Record) : List Attribute := [
  ⟨bytes "t", .text (Terminal.timeText r.time)⟩,
  ⟨bytes "lvl", .text r.level.name⟩,
  ⟨bytes "msg", .text r.message⟩]

def shown (as : List Attribute) : List Attribute := (as.map own).filter (!isEmpty ·)

end Structured

namespace Logfmt

def isPlain (point : Nat) : Bool := 32 < point && point != 61 && point != 34

/-- Blanks other than the ASCII ones are not printable, so that printing decides. -/
def needsQuotes (s : Bytes) : Bool := s.isEmpty || s.runes.any fun
  | .stray _ => true
  | .code point _ => if point < 0x80 then !isPlain point else point == 0xFFFD || !isPrintable point

def text (s : Bytes) : Bytes := if needsQuotes s then s.quote else s

/-- Numbers leave positional notation at a million and below one in ten thousand. -/
def number : Double.Format := ⟨-3, 6, 2⟩

def value : Value → Bytes
  | .text s | .error s | .policy s => text s
  | .int n => Bytes.ofInt n
  | .double x => x.print number
  | .bool b => Terminal.boolText b
  | .duration d => d.text
  | .time t => t.civil.date ++ bytes "T" ++ t.civil.clockMillis ++ bytes "Z"
  | .absent => text (bytes "<nil>")
  | .digest d => text d.hex
  | .opcode op => text op.mnemonic
  | .ints ns => text (Terminal.listText (ns.map Bytes.ofInt))
  | .texts ss => text (Terminal.listText ss)

def fields (path : Bytes) (as : List Attribute) : List Bytes :=
  as.map fun a => text (path ++ a.key) ++ bytes "=" ++ value a.value

def contextFields (own : List Attribute) (path : Bytes) : List Entry → List Bytes
  | [] => fields path (Structured.shown own)
  | .group name :: rest => contextFields own (path ++ name ++ bytes ".") rest
  | .attributes as :: rest => fields path (Structured.shown as) ++ contextFields own path rest

def line (r : Record) : Bytes :=
  Bytes.join (bytes " ") (fields [] (Structured.headings r) ++ contextFields r.own [] r.context) ++ bytes "\n"

end Logfmt

namespace Objects

def unicodeEscape (point : Nat) : Bytes := bytes "\\u" ++ (Bytes.ofNatHex point).padStart 4 48

def escape : Rune → Bytes
  | .stray _ => unicodeEscape 0xFFFD
  | .code point encoding =>
    if point = 34 ∨ point = 92 then 92 :: encoding
    else if point = 10 then bytes "\\n"
    else if point = 13 then bytes "\\r"
    else if point = 9 then bytes "\\t"
    else if point < 32 ∨ point = 0x2028 ∨ point = 0x2029 then unicodeEscape point
    else encoding

def text (s : Bytes) : Bytes := bytes "\"" ++ s.runes.flatMap escape ++ bytes "\""

/-- Inside lists, and in the names of policies, backspace and form feed have escapes of their own. -/
def innerEscape (r : Rune) : Bytes :=
  match r with
  | .code 8 _ => bytes "\\b"
  | .code 12 _ => bytes "\\f"
  | r => escape r

def innerText (s : Bytes) : Bytes := bytes "\"" ++ s.runes.flatMap innerEscape ++ bytes "\""

def list (items : List Bytes) : Bytes := bytes "[" ++ Bytes.join (bytes ",") items ++ bytes "]"

/-- Positional notation from a millionth up to twenty-one digits. -/
def number : Double.Format := ⟨-5, 21, 1⟩

def refused (why : Bytes) : Bytes := text (bytes "!ERROR:" ++ why)

def double (x : Double) : Bytes :=
  match x with
  | .finite .. => x.print number
  | _ => refused (bytes "json: unsupported value: " ++ x.print number)

def time (t : Instant) : Bytes :=
  if 0 ≤ t.civil.year ∧ t.civil.year < 10000 then text (t.civil.stamp ++ t.civil.fraction ++ bytes "Z")
  else refused (bytes "time.Time year outside of range [0,9999]")

def value : Value → Bytes
  | .text s | .error s => text s
  | .policy s => innerText s
  | .int n => Bytes.ofInt n
  | .double x => double x
  | .bool b => Terminal.boolText b
  | .duration d => Bytes.ofInt d.nanoseconds
  | .time t => time t
  | .absent => bytes "null"
  | .digest d => list (d.bytes.map fun b => Bytes.ofNat b.toNat)
  | .opcode op => Bytes.ofNat op.code.toNat
  | .ints ns => list (ns.map Bytes.ofInt)
  | .texts ss => list (ss.map innerText)

/-- Members of an object as far as they are written: their text, what separates the next one from them, and the
groups that the next one stands in but which are not open yet. -/
structure Members where
  text : Bytes := []
  separator : Bytes := []
  pending : List Bytes := []

namespace Members

def add (m : Members) (a : Attribute) : Members :=
  { m with
    text := m.text ++ m.separator ++ Objects.text a.key ++ bytes ":" ++ value a.value
    separator := bytes "," }

def openGroup (m : Members) (name : Bytes) : Members :=
  { m with text := m.text ++ m.separator ++ Objects.text name ++ bytes ":\x7b", separator := [] }

def addAll (m : Members) (as : List Attribute) : Members :=
  let begun := { m with separator := if m.text = [] then [] else bytes ",", pending := [] }
  (Structured.shown as).foldl add (m.pending.foldl openGroup begun)

def addEntry (m : Members) : Entry → Members
  | .attributes as => m.addAll as
  | .group name => { m with pending := m.pending ++ [name] }

end Members

def groupCount (context : List Entry) : Nat := (context.filter fun
  | .group _ => true
  | .attributes _ => false).length

def line (r : Record) : Bytes :=
  let headings := ((Structured.headings r).foldl Members.add {}).text
  let added := r.context.foldl Members.addEntry {}
  let text := if added.text = [] then headings else headings ++ bytes "," ++ added.text
  bytes "\x7b" ++ ({ added with text }.addAll r.own).text ++
    List.replicate (groupCount r.context + 1) 125 ++ bytes "\n"

end Objects

end Deadwood.Log

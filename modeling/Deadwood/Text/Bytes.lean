/-! Byte text. Program files, names and messages are lists of bytes, which need not be valid UTF-8. -/

namespace Deadwood

abbrev Bytes := List UInt8

def bytes (s : String) : Bytes := s.toByteArray.data.toList

namespace Bytes

def newline : UInt8 := 10
def space : UInt8 := 32
def comma : UInt8 := 44

def isDigit (b : UInt8) : Bool := 48 ≤ b && b ≤ 57

def isLetter (b : UInt8) : Bool := (65 ≤ b && b ≤ 90) || (97 ≤ b && b ≤ 122) || b == 95

def isWord (b : UInt8) : Bool := isLetter b || isDigit b

def isAsciiBlank (b : UInt8) : Bool := b == 9 || b == 10 || b == 12 || b == 13 || b == 32

def ofNat (n : Nat) : Bytes :=
  if n < 10 then [48 + n.toUInt8] else ofNat (n / 10) ++ [48 + (n % 10).toUInt8]

def ofInt : Int → Bytes
  | .ofNat n => ofNat n
  | .negSucc n => 45 :: ofNat (n + 1)

def hexDigit (n : Nat) : UInt8 := if n < 10 then 48 + n.toUInt8 else 87 + n.toUInt8

def ofNatHex (n : Nat) : Bytes :=
  if n < 16 then [hexDigit n] else ofNatHex (n / 16) ++ [hexDigit (n % 16)]

def hex (s : Bytes) : Bytes := s.flatMap fun b => [hexDigit (b.toNat / 16), hexDigit (b.toNat % 16)]

def padStart (width : Nat) (fill : UInt8) (s : Bytes) : Bytes :=
  List.replicate (width - s.length) fill ++ s

def padEnd (width : Nat) (fill : UInt8) (s : Bytes) : Bytes :=
  s ++ List.replicate (width - s.length) fill

def cut (separator b : UInt8) : List Bytes → List Bytes
  | [] => [[b]]
  | piece :: pieces => if b = separator then [] :: piece :: pieces else (b :: piece) :: pieces

def split (separator : UInt8) (s : Bytes) : List Bytes := s.foldr (cut separator) [[]]

/-- A text with another one put over it from an offset on. Between its end and the offset it is filled with zeros. -/
def splice (old : Bytes) (offset : Nat) (new : Bytes) : Bytes :=
  if new = [] then old else padEnd offset 0 (old.take offset) ++ new ++ old.drop (offset + new.length)

def join (separator : Bytes) (pieces : List Bytes) : Bytes := separator.intercalate pieces

def after? : Bytes → Bytes → Option Bytes
  | [], s => some s
  | _ :: _, [] => none
  | a :: start, b :: s => if a = b then after? start s else none

def startsWith (start s : Bytes) : Bool := (after? start s).isSome

def before? (ending s : Bytes) : Option Bytes := (after? ending.reverse s.reverse).map List.reverse

def dropEndWhile (p : UInt8 → Bool) (s : Bytes) : Bytes := (s.reverse.dropWhile p).reverse

def takeEndWhile (p : UInt8 → Bool) (s : Bytes) : Bytes := (s.reverse.takeWhile p).reverse

def lowerByte (b : UInt8) : UInt8 := if 65 ≤ b && b ≤ 90 then b + 32 else b

def lower (s : Bytes) : Bytes := s.map lowerByte

/-- Byte order, the shorter text first when it begins the other. -/
def less : Bytes → Bytes → Bool
  | _, [] => false
  | [], _ :: _ => true
  | a :: s, b :: t => if a = b then less s t else a < b

def sorted (names : List Bytes) : List Bytes := names.mergeSort fun s t => !less t s

/-- The lines of a text. A final newline opens no further line. -/
def lines (s : Bytes) : List Bytes :=
  let pieces := split newline s
  if pieces.getLast? = some [] then pieces.dropLast else pieces

def withoutReturn (s : Bytes) : Bytes := if s.getLast? = some 13 then s.dropLast else s

end Bytes

end Deadwood

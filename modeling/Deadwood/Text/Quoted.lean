import Deadwood.Text.Rune
import Deadwood.Text.Printable

/-!
Quoted text. Between double quotes, printable characters stand for themselves and all others are written as
escapes, so that the bytes can be read back from the quoted form.
-/

namespace Deadwood.Quoted

def escapeLetter : Nat → Option UInt8
  | 7 => some 97
  | 8 => some 98
  | 9 => some 116
  | 10 => some 110
  | 11 => some 118
  | 12 => some 102
  | 13 => some 114
  | _ => none

def hexByte (n : Nat) : Bytes := bytes "\\x" ++ (Bytes.ofNatHex n).padStart 2 48

def escape : Rune → Bytes
  | .stray byte => hexByte byte.toNat
  | .code point encoding =>
    if point = 34 ∨ point = 92 then 92 :: encoding
    else if isPrintable point then encoding
    else match escapeLetter point with
      | some letter => [92, letter]
      | none =>
        if point < 32 ∨ point = 127 then hexByte point
        else if point < 0x10000 then bytes "\\u" ++ (Bytes.ofNatHex point).padStart 4 48
        else bytes "\\U" ++ (Bytes.ofNatHex point).padStart 8 48

end Deadwood.Quoted

namespace Deadwood.Bytes

def quote (s : Bytes) : Bytes := [34] ++ s.runes.flatMap Quoted.escape ++ [34]

end Deadwood.Bytes

import Deadwood.Text.Bytes

/-! White space of byte text: the ASCII blanks and the encoded Unicode ones. -/

namespace Deadwood.Blank

/-- The encodings of the white space characters. No encoding begins or ends another. -/
def codes : List Bytes := [
  [0x09], [0x0A], [0x0B], [0x0C], [0x0D], [0x20],
  [0xC2, 0x85], [0xC2, 0xA0], [0xE1, 0x9A, 0x80],
  [0xE2, 0x80, 0x80], [0xE2, 0x80, 0x81], [0xE2, 0x80, 0x82], [0xE2, 0x80, 0x83],
  [0xE2, 0x80, 0x84], [0xE2, 0x80, 0x85], [0xE2, 0x80, 0x86], [0xE2, 0x80, 0x87],
  [0xE2, 0x80, 0x88], [0xE2, 0x80, 0x89], [0xE2, 0x80, 0x8A],
  [0xE2, 0x80, 0xA8], [0xE2, 0x80, 0xA9], [0xE2, 0x80, 0xAF], [0xE2, 0x81, 0x9F],
  [0xE3, 0x80, 0x80]]

def width (s : Bytes) : Nat := ((codes.find? (·.isPrefixOf s)).map List.length).getD 0

def widthReversed (s : Bytes) : Nat := ((codes.find? (·.reverse.isPrefixOf s)).map List.length).getD 0

def dropBlanks (width : Bytes → Nat) (s : Bytes) : Bytes :=
  if _step : 0 < width s ∧ 0 < s.length then dropBlanks width (s.drop (width s)) else s
termination_by s.length
decreasing_by simp only [List.length_drop]; omega

def wordsFrom (word : Bytes) (s : Bytes) : List Bytes :=
  match s with
  | [] => if word = [] then [] else [word.reverse]
  | b :: rest =>
    if 0 < width (b :: rest) then
      let others := wordsFrom [] ((b :: rest).drop (width (b :: rest)))
      if word = [] then others else word.reverse :: others
    else wordsFrom (b :: word) rest
termination_by s.length
decreasing_by all_goals simp only [List.length_drop, List.length_cons]; omega

end Deadwood.Blank

namespace Deadwood.Bytes

def trim (s : Bytes) : Bytes :=
  (Blank.dropBlanks Blank.widthReversed (Blank.dropBlanks Blank.width s).reverse).reverse

def words (s : Bytes) : List Bytes := Blank.wordsFrom [] s

/-- The trimmed items of a list written with commas. Empty items do not count. -/
def items (s : Bytes) : List Bytes := ((split comma s).map trim).filter (· ≠ [])

end Deadwood.Bytes

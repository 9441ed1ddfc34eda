/-! Sets of characters, written as ranges of code points. -/

namespace Deadwood

abbrev CodeSet := List (Nat × Nat)

namespace CodeSet

def has (s : CodeSet) (point : Nat) : Bool := s.any fun (first, last) => first ≤ point && point ≤ last

end CodeSet

end Deadwood

import Deadwood.Text.Bytes

/-!
Grammars, which read what they describe. Of two rules the first that fits is taken. A grammar remembers how far any rule has
come, also one whose text was given up later, so that a text that does not fit can be blamed where reading got stuck.
-/

namespace Deadwood

structure Place where
  rest : Bytes
  left : Nat

/-- A grammar takes text from its place. What remains of the state when it fails is the least number of bytes that was
left behind a rule that read something. -/
abbrev Grammar := StateT Place (OptionT (StateM Nat))

namespace Grammar

variable {α : Type}

/-- Reads a whole text. The number is that of the bytes left behind the rule that came farthest. -/
def run (r : Grammar α) (s : Bytes) : Option α × Nat :=
  let (outcome, least) := (StateT.run r ⟨s, s.length⟩).run s.length
  (outcome.map (·.1), least)

def left : Grammar Nat := return (← get).left

def byte (p : UInt8 → Bool) : Grammar UInt8 := do
  match ← get with
  | ⟨b :: rest, left⟩ => if p b then do set (⟨rest, left - 1⟩ : Place); return b else failure
  | ⟨[], _⟩ => failure

def literal (text : Bytes) : Grammar Unit := do
  let place ← get
  match Bytes.after? text place.rest with
  | some rest => set (⟨rest, place.left - text.length⟩ : Place)
  | none => failure

def bytes (p : UInt8 → Bool) : Grammar Bytes := do
  let place ← get
  let taken := place.rest.takeWhile p
  set (⟨place.rest.drop taken.length, place.left - taken.length⟩ : Place)
  return taken

def someBytes (p : UInt8 → Bool) : Grammar Bytes := do
  match ← bytes p with
  | [] => failure
  | taken => return taken

def rule (r : Grammar α) : Grammar α := do
  let before := (← get).left
  let a ← r
  let after := (← get).left
  if after < before then modifyThe Nat (min after) else pure ()
  return a

def text (r : Grammar α) : Grammar Bytes := do
  let before ← get
  let _ ← rule r
  return before.rest.take (before.left - (← get).left)

def upTo (r : Grammar α) : (fuel : Nat) → Grammar (List α)
  | 0 => pure []
  | fuel + 1 => do
    match ← optional r with
    | some a => return a :: (← upTo r fuel)
    | none => return []

def many (r : Grammar α) : Grammar (List α) := do upTo r (← left)

def atLeastOne (r : Grammar α) : Grammar (List α) := do return (← r) :: (← many r)

def notAhead (text : Bytes) : Grammar Unit := do
  if Bytes.startsWith text (← get).rest then failure else pure ()

def atEnd : Grammar Unit := do if (← get).rest = [] then pure () else failure

end Grammar

end Deadwood

/-! Bounded stores that forget what was used least recently. -/

namespace Deadwood

/-- Values by key, the most recently used first, never more than the capacity. -/
structure Cache (κ α : Type) where
  capacity : Nat
  entries : List (κ × α) := []
  bounded : entries.length ≤ capacity := by simp

namespace Cache

variable {κ α : Type} [DecidableEq κ]

def empty (capacity : Nat) : Cache κ α := { capacity }

def size (c : Cache κ α) : Nat := c.entries.length

def others (c : Cache κ α) (key : κ) : List (κ × α) := c.entries.filter (·.1 ≠ key)

def peek? (c : Cache κ α) (key : κ) : Option α := (c.entries.find? (·.1 = key)).map (·.2)

def insert (c : Cache κ α) (key : κ) (value : α) : Cache κ α where
  capacity := c.capacity
  entries := ((key, value) :: c.others key).take c.capacity
  bounded := by simp only [List.length_take]; omega

def get? (c : Cache κ α) (key : κ) : Option (α × Cache κ α) :=
  (c.peek? key).map fun value => (value, c.insert key value)

end Cache

end Deadwood

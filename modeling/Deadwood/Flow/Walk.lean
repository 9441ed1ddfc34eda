import Deadwood.Flow.Graph

/-! Depth-first walks over a graph, and the search for what can be reached in it. -/

namespace Deadwood

/--
The vertices met from a stack, in the order they are met, each once. A vertex is met when it comes to the top and is
still unvisited; those of its successors that are unvisited then go on top of the stack, the first one uppermost.
-/
def visit (succs : Nat → List Nat) (unvisited : List Nat) : (stack : List Nat) → List Nat
  | [] => []
  | id :: stack =>
    if id ∈ unvisited then
      id :: visit succs (unvisited.erase id) ((succs id).filter (· ∈ unvisited.erase id) ++ stack)
    else visit succs unvisited stack
termination_by stack => (unvisited.length, stack.length)
decreasing_by
  · apply Prod.Lex.left
    rename_i present
    rw [List.length_erase_of_mem present]
    have := List.length_pos_of_mem present
    omega
  · apply Prod.Lex.right
    simp

/--
The vertices below a bound that have been reached, with those that a stack leads to. A vertex that is not yet reached is
added to the set when it comes to the top, and all of its successors go on the stack, the last one uppermost.
-/
def reach (succs : Nat → List Nat) (size : Nat) (reached : List Nat) : (stack : List Nat) → List Nat
  | [] => reached
  | id :: stack =>
    if id < size ∧ id ∉ reached then reach succs size (reached ++ [id]) ((succs id).reverse ++ stack)
    else reach succs size reached stack
termination_by stack => (((List.range size).filter (· ∉ reached)).length, stack.length)
decreasing_by
  · apply Prod.Lex.left
    rename_i new
    have fewer : (List.range size).filter (· ∉ reached ++ [id]) =
        ((List.range size).filter (· ∉ reached)).filter (· ≠ id) := by
      rw [List.filter_filter]
      congr 1
      funext other
      simp [and_comm]
    rw [fewer, List.length_filter_lt_length_iff_exists]
    exact ⟨id, by simpa using new, by simp⟩
  · apply Prod.Lex.right
    simp

namespace Graph

/-- Every block once: depth first from the entry, then from each block not yet met, by number. -/
def order (g : Graph) : List Nat := visit g.succs g.ids (g.entry :: g.ids)

def reachable (g : Graph) : List Nat := reach g.succs g.size [] [g.entry]

def find? (g : Graph) (i : Instruction) : Option Nat :=
  g.order.find? fun id => (g.blocks[id]?).any (·.code.contains i)

end Graph

end Deadwood

import Deadwood.Dataflow.Uses

/-! A listing of every block with its edges and the definitions that reach it. -/

namespace Deadwood

namespace Dump

def names : List Nat → Bytes
  | [] => bytes "-"
  | ids => Bytes.join (bytes ", ") (ids.map Graph.blockName)

def numbers (s : LineSet) : Bytes :=
  bytes "[" ++ Bytes.join (bytes " ") (s.lines.map Bytes.ofInt) ++ bytes "]"

def instruction (i : Instruction) : Bytes :=
  bytes "  " ++ (Bytes.ofInt i.line).padStart 4 Bytes.space ++ bytes ": " ++ i.text

def block (s : Solved) (effects : List Effect) (id : Nat) (b : Block) : List Bytes :=
  let effect := effects[id]?.getD ⟨.empty, .empty, []⟩
  let facts := s.facts[id]?.getD .none
  [ Graph.blockName id ++ bytes " (" ++ b.function ++ bytes ")",
    bytes "  preds: " ++ names (s.graph.preds id),
    bytes "  succs: " ++ names (s.graph.succs id),
    bytes "  gen:   " ++ numbers effect.gen,
    bytes "  kill:  " ++ numbers effect.kill,
    bytes "  in:    " ++ numbers facts.incoming,
    bytes "  out:   " ++ numbers facts.outgoing ] ++ b.code.map instruction

end Dump

namespace Solved

def dump (s : Solved) : Bytes :=
  let effects := s.graph.equations.effects
  (s.graph.order.flatMap fun id =>
    match s.graph.blocks[id]? with
    | some b => Dump.block s effects id b
    | none => []).flatMap (· ++ [Bytes.newline])

end Solved

end Deadwood

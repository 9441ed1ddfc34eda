import Deadwood.Dataflow.Reaching

/-! From uses back to definitions: which instructions may have written what an instruction reads. -/

namespace Deadwood

def lastWriteBefore? (line : Int) (v : Bytes) (code : List Instruction) : Option Int :=
  ((code.takeWhile (·.line ≠ line)).reverse.find? (·.dest? = some v)).map (·.line)

structure Solved where
  graph : Graph
  facts : List Facts
  deriving DecidableEq

namespace Solved

/-- The lines of a block's in set that write a variable of the block's own function. -/
def inherited (s : Solved) (id : Nat) (b : Block) (v : Bytes) : List Int :=
  let reach := (s.facts[id]?.getD .none).incoming
  let writes := s.graph.definitions.filter fun d => d.function = b.function && d.name = v
  reach.lines.filter fun line => writes.any (·.line = line)

/-- The definitions of one variable that may reach a line: the last one in its block, or those that reach the block. -/
def sources (s : Solved) (id : Nat) (b : Block) (line : Int) (v : Bytes) : List Int :=
  match lastWriteBefore? line v b.code with
  | some found => [found]
  | none => s.inherited id b v

def feeding (s : Solved) (i : Instruction) : LineSet :=
  match s.graph.blockOf? i.line with
  | none => .empty
  | some id =>
    match s.graph.blocks[id]? with
    | none => .empty
    | some b => .ofList (i.reads.flatMap (s.sources id b i.line))

end Solved

end Deadwood

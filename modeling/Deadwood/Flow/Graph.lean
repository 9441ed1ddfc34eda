import Deadwood.Flow.Block

/-! Control-flow graphs: numbered blocks and the edges between them, in the order they were found. -/

namespace Deadwood

def distinct {α : Type} [DecidableEq α] : List α → List α
  | [] => []
  | a :: rest => a :: (distinct rest).filter (· ≠ a)

/-- The blocks after a block and before it, in the order they were found, and as sets of numbers. -/
structure Neighbours where
  succs : List Nat := []
  preds : List Nat := []
  succBits : Nat := 0
  predBits : Nat := 0
  deriving DecidableEq, Repr

namespace Neighbours

def addSucc? (e : Neighbours) (id : Nat) : Option Neighbours :=
  if e.succBits.testBit id then none
  else some { e with succs := e.succs ++ [id], succBits := e.succBits ||| 1 <<< id }

def addPred? (e : Neighbours) (id : Nat) : Option Neighbours :=
  if e.predBits.testBit id then none
  else some { e with preds := e.preds ++ [id], predBits := e.predBits ||| 1 <<< id }

def link (blocks : List Neighbours) (edge : Nat × Nat) : List Neighbours :=
  match (blocks[edge.1]?).bind (·.addSucc? edge.2) with
  | none => blocks
  | some e => (blocks.set edge.1 e).modify edge.2 fun e => (e.addPred? edge.1).getD e

def ofLinks (size : Nat) (links : List (Nat × Nat)) : List Neighbours := links.foldl link (List.replicate size {})

end Neighbours

structure Graph where
  blocks : List Block
  entry : Nat
  edges : List (Nat × Nat)
  exits : List (Bytes × Nat)
  deriving DecidableEq, Repr

namespace Graph

def size (g : Graph) : Nat := g.blocks.length

def ids (g : Graph) : List Nat := List.range g.size

def succs (g : Graph) (id : Nat) : List Nat := (g.edges.filter (·.1 = id)).map (·.2)

def preds (g : Graph) (id : Nat) : List Nat := (g.edges.filter (·.2 = id)).map (·.1)

def isSymmetric (g : Graph) : Bool :=
  g.ids.all fun id => (g.succs id).all (fun next => (g.preds next).contains id) &&
    (g.preds id).all fun previous => (g.succs previous).contains id

def code (g : Graph) : List Instruction := g.blocks.flatMap (·.code)

def leaders (g : Graph) : List Int := g.blocks.map (·.leader.line)

def instruction? (g : Graph) (line : Int) : Option Instruction := g.code.find? (·.line = line)

def blockOf? (g : Graph) (line : Int) : Option Nat := g.blocks.findIdx? (·.holds line)

def functionOf? (g : Graph) (line : Int) : Option Bytes := (g.blocks.find? (·.holds line)).map (·.function)

def entryOf? (g : Graph) (name : Bytes) : Option Nat := g.blocks.findIdx? (·.function = name)

def exitsOf (g : Graph) (name : Bytes) : List Nat := (g.exits.filter (·.1 = name)).map (·.2)

def functions (g : Graph) : List Bytes := Bytes.sorted (distinct (g.blocks.map (·.function)))

def blockName (id : Nat) : Bytes := bytes "B" ++ Bytes.ofNat id

end Graph

end Deadwood

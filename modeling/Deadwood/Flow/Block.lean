import Deadwood.Program.Basic

/-!
Basic blocks. A block begins at the first instruction of a function, at a label, and after an instruction that
gives control away; `Function.blocks` cuts a body there.
-/

namespace Deadwood

structure Block where
  function : Bytes
  leader : Instruction
  others : List Instruction
  deriving DecidableEq, Repr

namespace Block

def code (b : Block) : List Instruction := b.leader :: b.others

def lines (b : Block) : List Int := b.code.map (·.line)

def last (b : Block) : Instruction := b.others.getLast?.getD b.leader

def holds (b : Block) (line : Int) : Bool := b.lines.contains line

end Block

namespace Instruction

def closes (intrinsics : List Bytes) (i : Instruction) : Bool :=
  i.op.isJump || i.op = .ret || (i.userCall? intrinsics).isSome

end Instruction

/-- Cuts a body into runs: before every label and after every instruction that gives control away. -/
def runs (intrinsics : List Bytes) : List Instruction → List (Instruction × List Instruction)
  | [] => []
  | i :: rest =>
    match runs intrinsics rest with
    | [] => [(i, [])]
    | (j, others) :: later =>
      if i.closes intrinsics || j.op = .label then (i, []) :: (j, others) :: later
      else (i, j :: others) :: later

namespace Function

def blocks (intrinsics : List Bytes) (f : Function) : List Block :=
  (runs intrinsics f.body).map fun (leader, others) => ⟨f.name, leader, others⟩

end Function

namespace Program

/-- The blocks of a program in program order. The place of a block in this list is its number. -/
def blocks (intrinsics : List Bytes) (p : Program) : List Block := p.functions.flatMap (·.blocks intrinsics)

end Program

end Deadwood

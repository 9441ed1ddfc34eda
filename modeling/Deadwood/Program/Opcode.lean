import Deadwood.Text.Bytes

/-! Operation codes of three-address programs, their numbers and mnemonics, and the roles they play. -/

namespace Deadwood

inductive Arithmetic
  | add | sub | mult | div | and | or
  deriving DecidableEq, Repr

inductive Comparison
  | eq | neq | lt | gt | geq | leq
  deriving DecidableEq, Repr

/-- What an instruction does. Numbers above the defined ones stay apart by their distance from them. -/
inductive Opcode
  | assign
  | compute (operation : Arithmetic)
  | goto
  | branch (test : Comparison)
  | ret
  | call
  | callr
  | arrayStore
  | arrayLoad
  | label
  | unassigned (offset : Fin 236)
  deriving DecidableEq, Repr

namespace Opcode

def defined : List Opcode := [
  .assign, .compute .add, .compute .sub, .compute .mult, .compute .div, .compute .and, .compute .or,
  .goto, .branch .eq, .branch .neq, .branch .lt, .branch .gt, .branch .geq, .branch .leq,
  .ret, .call, .callr, .arrayStore, .arrayLoad, .label]

def code : Opcode → UInt8
  | .assign => 0
  | .compute .add => 1
  | .compute .sub => 2
  | .compute .mult => 3
  | .compute .div => 4
  | .compute .and => 5
  | .compute .or => 6
  | .goto => 7
  | .branch .eq => 8
  | .branch .neq => 9
  | .branch .lt => 10
  | .branch .gt => 11
  | .branch .geq => 12
  | .branch .leq => 13
  | .ret => 14
  | .call => 15
  | .callr => 16
  | .arrayStore => 17
  | .arrayLoad => 18
  | .label => 19
  | .unassigned offset => 20 + offset.val.toUInt8

def ofCode (n : UInt8) : Opcode :=
  if defined : n.toNat < Opcode.defined.length then Opcode.defined[n.toNat]
  else .unassigned ⟨n.toNat - 20, by
    have bound := n.toNat_lt
    simp [Opcode.defined] at defined
    omega⟩

def mnemonic : Opcode → Bytes
  | .assign => bytes "assign"
  | .compute .add => bytes "add"
  | .compute .sub => bytes "sub"
  | .compute .mult => bytes "mult"
  | .compute .div => bytes "div"
  | .compute .and => bytes "and"
  | .compute .or => bytes "or"
  | .goto => bytes "goto"
  | .branch .eq => bytes "breq"
  | .branch .neq => bytes "brneq"
  | .branch .lt => bytes "brlt"
  | .branch .gt => bytes "brgt"
  | .branch .geq => bytes "brgeq"
  | .branch .leq => bytes "brleq"
  | .ret => bytes "return"
  | .call => bytes "call"
  | .callr => bytes "callr"
  | .arrayStore => bytes "array_store"
  | .arrayLoad => bytes "array_load"
  | .label => bytes "label"
  | .unassigned offset => bytes "opcode 0x" ++ Bytes.ofNatHex (20 + offset.val) ++ bytes " not defined"

def ofMnemonic? (word : Bytes) : Option Opcode := defined.find? (·.mnemonic = word)

def isBranch : Opcode → Bool
  | .branch _ => true
  | _ => false

def isCall : Opcode → Bool
  | .call | .callr => true
  | _ => false

def isJump : Opcode → Bool
  | .goto | .branch _ => true
  | _ => false

def defines : Opcode → Bool
  | .assign | .compute _ | .arrayLoad | .callr => true
  | _ => false

def hasEffect : Opcode → Bool
  | .call | .callr | .arrayStore | .ret | .goto | .branch _ => true
  | _ => false

def readsFirst : Opcode → Bool
  | .ret | .arrayStore => true
  | _ => false

/-- The number of operands an operation takes in program text: at least, and at most if bounded. -/
def arity : Opcode → Nat × Option Nat
  | .goto => (1, some 1)
  | .ret => (0, some 1)
  | .call => (1, none)
  | .callr => (2, none)
  | .assign => (2, some 3)
  | _ => (3, some 3)

def accepts (op : Opcode) (count : Nat) : Bool :=
  op.arity.1 ≤ count && op.arity.2.all (count ≤ ·)

end Opcode

end Deadwood

import Deadwood.Program.Opcode

/-! Programs: ordered functions of instructions, each known by its line. -/

namespace Deadwood

inductive OperandKind
  | variable | constant | label | function | array | unknown
  deriving DecidableEq, Repr

namespace OperandKind

def name : OperandKind → Bytes
  | .variable => bytes "variable"
  | .constant => bytes "constant"
  | .label => bytes "label"
  | .function => bytes "function"
  | .array => bytes "array"
  | .unknown => bytes "unknown"

def all : List OperandKind := [.variable, .constant, .label, .function, .array, .unknown]

def ofName (s : Bytes) : OperandKind := (all.find? (·.name = s)).getD .unknown

end OperandKind

structure Operand where
  kind : OperandKind
  name : Bytes
  deriving DecidableEq, Repr

namespace Operand

def isStorage (o : Operand) : Bool := o.kind = .variable || o.kind = .array

end Operand

structure Instruction where
  op : Opcode
  operands : List Operand
  line : Int
  deriving DecidableEq, Repr

namespace Instruction

def operand? (i : Instruction) (index : Int) : Option Operand :=
  if index < 0 then none else i.operands[index.toNat]?

def target? (i : Instruction) : Option Bytes :=
  if i.op.isJump || i.op = .label then
    match i.operands with
    | o :: _ => if o.kind = .label then some o.name else none
    | [] => none
  else none

/-- The label a label instruction defines, the empty name when its operand is no label. -/
def labelName (i : Instruction) : Bytes := i.target?.getD []

def callee? (i : Instruction) : Option Bytes :=
  match i.op with
  | .call => i.operands[0]?.map (·.name)
  | .callr => i.operands[1]?.map (·.name)
  | _ => none

def userCall? (intrinsics : List Bytes) (i : Instruction) : Option Bytes :=
  i.callee?.filter (!intrinsics.contains ·)

def dest? (i : Instruction) : Option Bytes :=
  if i.op.defines then
    match i.operands with
    | o :: _ => if o.isStorage then some o.name else none
    | [] => none
  else none

def reads (i : Instruction) : List Bytes :=
  ((if i.op.readsFirst then i.operands else i.operands.drop 1).filter (·.isStorage)).map (·.name)

def text (i : Instruction) : Bytes :=
  match i.op, i.target? with
  | .label, some name => name ++ bytes ":"
  | _, _ => Bytes.join (bytes ", ") (i.op.mnemonic :: i.operands.map (·.name))

end Instruction

structure Param where
  type : Bytes
  name : Bytes
  deriving DecidableEq, Repr

structure Function where
  name : Bytes := []
  returnType : Bytes := []
  params : List Param := []
  ints : List Bytes := []
  floats : List Bytes := []
  body : List Instruction := []
  deriving DecidableEq, Repr

structure Program where
  functions : List Function := []
  deriving DecidableEq, Repr

namespace Program

def function? (p : Program) (name : Bytes) : Option Function := p.functions.find? (·.name = name)

def code (p : Program) : List Instruction := p.functions.flatMap (·.body)

def size (p : Program) : Nat := p.code.length

def filter (p : Program) (keep : Instruction → Bool) : Program :=
  ⟨p.functions.map fun f => { f with body := f.body.filter keep }⟩

end Program

end Deadwood

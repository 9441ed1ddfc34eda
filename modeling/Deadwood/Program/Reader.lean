import Deadwood.Program.Printer
import Deadwood.Text.Blank
import Deadwood.Text.Quoted

/-!
Reading program text. Lines are read in order, each under the function that is open at that point, and the first
line that does not fit is blamed.
-/

namespace Deadwood

inductive LineFault
  | nestedStart
  | finishOutside
  | noHeader
  | outside (line : Bytes)
  | header (line : Bytes)
  | parameter (text : Bytes)
  | opcode (word : Bytes)
  | operandCount (op : Opcode) (count : Nat)
  | emptyOperand (index : Nat) (op : Opcode)
  | unfinished
  deriving DecidableEq, Repr

inductive ReadError
  | at (line : Nat) (fault : LineFault)
  | lineTooLong
  deriving DecidableEq, Repr

namespace LineFault

def message : LineFault → Bytes
  | .nestedStart => bytes "nested " ++ Marker.start
  | .finishOutside => Marker.finish ++ bytes " outside function"
  | .noHeader => bytes "function without header"
  | .outside line => bytes "statement outside function: " ++ line.quote
  | .header line => bytes "malformed function header " ++ line.quote
  | .parameter text => bytes "malformed parameter " ++ text.quote
  | .opcode word => bytes "unknown opcode " ++ word.quote
  | .operandCount op count => op.mnemonic ++ bytes ": unexpected operand count " ++ Bytes.ofNat count
  | .emptyOperand index op => bytes "empty operand " ++ Bytes.ofNat index ++ bytes " of " ++ op.mnemonic
  | .unfinished => bytes "missing " ++ Marker.finish

end LineFault

namespace ReadError

def message : ReadError → Bytes
  | .at line fault => bytes "line " ++ Bytes.ofNat line ++ bytes ": " ++ fault.message
  | .lineTooLong => bytes "reading program: bufio.Scanner: token too long"

end ReadError

namespace Operand

/-- Integer and decimal literals: a sign, digits, and at most one point among them. -/
def isNumber (s : Bytes) : Bool :=
  let unsigned := match s with
    | b :: rest => if b = 43 ∨ b = 45 then rest else s
    | [] => s
  let whole := unsigned.takeWhile Bytes.isDigit
  match unsigned.dropWhile Bytes.isDigit with
  | [] => whole ≠ []
  | point :: fraction => point = 46 && fraction.all Bytes.isDigit && (whole ≠ [] || fraction ≠ [])

/-- The kind of an operand by its place, its spelling and the arrays declared so far. -/
def classify (arrays : List Bytes) (op : Opcode) (index : Nat) (name : Bytes) : Operand :=
  if index = 0 ∧ op.isJump then ⟨.label, name⟩
  else if (op = .call ∧ index = 0) ∨ (op = .callr ∧ index = 1) then ⟨.function, name⟩
  else if isNumber name then ⟨.constant, name⟩
  else if arrays.contains name then ⟨.array, name⟩
  else ⟨.variable, name⟩

end Operand

namespace Reader

def lineLimit : Nat := 65535

def name? : Bytes → Option (Bytes × Bytes)
  | [] => none
  | b :: rest =>
    if Bytes.isLetter b then some (b :: rest.takeWhile Bytes.isWord, rest.dropWhile Bytes.isWord) else none

def label? (line : Bytes) : Option Bytes :=
  match name? line with
  | some (name, rest) => if rest.dropWhile Bytes.isAsciiBlank = bytes ":" then some name else none
  | none => none

def bracketed? (rest : Bytes) : Option Bytes := do
  let inner ← Bytes.after? (bytes "(") rest
  let front ← Bytes.before? (bytes ":") inner
  Bytes.before? (bytes ")") (Bytes.dropEndWhile Bytes.isAsciiBlank front)

def header? (line : Bytes) : Option (Bytes × Bytes × Bytes) :=
  let isInk (b : UInt8) : Bool := !Bytes.isAsciiBlank b
  let returnType := line.takeWhile isInk
  let gap := line.dropWhile isInk
  if returnType = [] ∨ gap = [] then none
  else match name? (gap.dropWhile Bytes.isAsciiBlank) with
    | none => none
    | some (name, rest) =>
      (bracketed? (rest.dropWhile Bytes.isAsciiBlank)).map fun params => (returnType, name, params)

def param (text : Bytes) : Except LineFault Param :=
  match text.words with
  | [type, name] => .ok ⟨type, name⟩
  | _ => .error (.parameter text)

def function (line : Bytes) : Except LineFault Function :=
  match header? line with
  | none => .error (.header line)
  | some (returnType, name, params) => do
    let params ← params.items.mapM param
    return { name, returnType, params }

def arrayParams (params : List Param) : List Bytes :=
  (params.filter (·.type.contains 91)).map (·.name)

def arrayName? (item : Bytes) : Option Bytes :=
  let name := item.takeWhile (· != 91)
  if name = [] ∨ name.length = item.length then none else some (Bytes.trim name)

def operands (arrays : List Bytes) (op : Opcode) : (index : Nat) → List Bytes → Except LineFault (List Operand)
  | _, [] => .ok []
  | index, name :: names =>
    if name = [] then .error (.emptyOperand index op)
    else (operands arrays op (index + 1) names).map (Operand.classify arrays op index name :: ·)

/-- The comma-separated parts of an instruction line. One empty part at the end is dropped. -/
def parts (line : Bytes) : List Bytes :=
  let all := (Bytes.split Bytes.comma line).map Bytes.trim
  if 1 < all.length ∧ all.getLast? = some [] then all.dropLast else all

def instruction (arrays : List Bytes) (number : Nat) (line : Bytes) : Except LineFault Instruction :=
  let word := (parts line).headD []
  let args := (parts line).tail
  match (Opcode.ofMnemonic? word).filter (· ≠ .label) with
  | none => .error (.opcode word)
  | some op =>
    if op.accepts args.length then
      (operands arrays op 0 args).map fun found => ⟨op, found, number⟩
    else .error (.operandCount op args.length)

/-- Where the reader stands: between functions, before a header, or in the body of a function. -/
inductive Place
  | outside
  | beforeHeader
  | inside (function : Function) (arrays : List Bytes)
  deriving DecidableEq, Repr

structure State where
  place : Place := .outside
  finished : List Function := []
  deriving DecidableEq, Repr

def bodyLine (f : Function) (arrays : List Bytes) (number : Nat) (line : Bytes) : Except LineFault Place :=
  match Bytes.after? Marker.ints line with
  | some rest => .ok (.inside { f with ints := rest.items } (arrays ++ rest.items.filterMap arrayName?))
  | none =>
    match Bytes.after? Marker.floats line with
    | some rest => .ok (.inside { f with floats := rest.items } (arrays ++ rest.items.filterMap arrayName?))
    | none =>
      match label? line with
      | some name =>
        .ok (.inside { f with body := f.body ++ [⟨.label, [⟨.label, name⟩], number⟩] } arrays)
      | none =>
        (instruction arrays number line).map fun i => .inside { f with body := f.body ++ [i] } arrays

def step (s : State) (number : Nat) (line : Bytes) : Except LineFault State :=
  if line = [] then .ok s
  else if line = Marker.start then
    match s.place with
    | .outside => .ok { s with place := .beforeHeader }
    | _ => .error .nestedStart
  else if line = Marker.finish then
    match s.place with
    | .outside => .error .finishOutside
    | .beforeHeader => .error .noHeader
    | .inside f _ => .ok { place := .outside, finished := s.finished ++ [f] }
  else if line.head? = some 35 then .ok s
  else
    match s.place with
    | .outside => .error (.outside line)
    | .beforeHeader => (function line).map fun f => { s with place := .inside f (arrayParams f.params) }
    | .inside f arrays => (bodyLine f arrays number line).map fun place => { s with place }

def run (s : State) (number : Nat) : List Bytes → Except ReadError Program
  | [] =>
    match s.place with
    | .outside => .ok ⟨s.finished⟩
    | _ => .error (.at number .unfinished)
  | line :: rest =>
    if lineLimit < line.length then .error .lineTooLong
    else
      match step s (number + 1) (Bytes.withoutReturn line).trim with
      | .ok s => run s (number + 1) rest
      | .error fault => .error (.at (number + 1) fault)

end Reader

namespace Program

def read (s : Bytes) : Except ReadError Program := Reader.run {} 0 s.lines

end Program

end Deadwood

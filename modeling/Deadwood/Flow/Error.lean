import Deadwood.Text.Quoted

/-! Why a program cannot be analysed. -/

namespace Deadwood

inductive Reference
  | label (name : Bytes)
  | function (name : Bytes)
  | fallThrough
  deriving DecidableEq, Repr

inductive FlowError
  | emptyProgram
  | duplicateFunction (name : Bytes)
  | duplicateLine (line : Int)
  | duplicateLabel (line : Int) (name : Bytes) (first : Int)
  | dangling (line : Int) (reference : Reference)
  | noEntry (name : Bytes)
  | unsettled (iterations bound : Nat)
  deriving DecidableEq, Repr

namespace Reference

def kind : Reference → Bytes
  | .label _ => bytes "label"
  | .function _ => bytes "function"
  | .fallThrough => bytes "fall-through"

def target : Reference → Bytes
  | .label name | .function name => name
  | .fallThrough => []

end Reference

namespace FlowError

def unsettledWhat : Bytes := bytes "reaching definitions did not converge"

def atLine (line : Int) : Bytes := bytes "line " ++ Bytes.ofInt line ++ bytes ": "

def message : FlowError → Bytes
  | .emptyProgram => bytes "empty program"
  | .duplicateFunction name => bytes "function " ++ name.quote ++ bytes " defined twice"
  | .duplicateLine line => atLine line ++ bytes "duplicate instruction line"
  | .duplicateLabel line name first =>
    atLine line ++ bytes "duplicate label " ++ name.quote ++ bytes " (first at line " ++ Bytes.ofInt first ++ bytes ")"
  | .dangling line .fallThrough =>
    atLine line ++ bytes "dangling reference: branch has no fall-through instruction"
  | .dangling line reference =>
    atLine line ++ bytes "dangling reference: undefined " ++ reference.kind ++ bytes " " ++ reference.target.quote
  | .noEntry name => bytes "no entry function: " ++ name.quote
  | .unsettled iterations bound =>
    bytes "fixpoint bound exceeded: " ++ unsettledWhat ++ bytes " after " ++ Bytes.ofNat iterations ++
      bytes " iterations (bound " ++ Bytes.ofNat bound ++ bytes ")"

end FlowError

end Deadwood

import Deadwood.Flow.Error
import Deadwood.Flow.Graph

/-!
Building control-flow graphs. A first look over the program finds names and lines used twice. Then every block says
how control leaves it, as wires: jumps, exits of its function, resumptions after calls, and calls in tail position.
Edges follow from the wires alone.
-/

namespace Deadwood

def scanBody (labels : List (Bytes × Int)) (seen : List Int) : List Instruction → Except FlowError (List Int)
  | [] => .ok seen
  | i :: rest =>
    if i.line ∈ seen then .error (.duplicateLine i.line)
    else if i.op = .label then
      match labels.lookup i.labelName with
      | some first => .error (.duplicateLabel i.line i.labelName first)
      | none => scanBody ((i.labelName, i.line) :: labels) (i.line :: seen) rest
    else scanBody labels (i.line :: seen) rest

def scan (names : List Bytes) (seen : List Int) : List Function → Except FlowError Unit
  | [] => .ok ()
  | f :: rest =>
    if f.name ∈ names then .error (.duplicateFunction f.name)
    else
      match scanBody [] seen f.body with
      | .ok seen => scan (f.name :: names) seen rest
      | .error e => .error e

/-- One way for control to leave a block. -/
inductive Wire
  | jump (source target : Nat)
  | exit (function : Bytes) (block : Nat)
  | resume (function : Bytes) (block : Nat)
  | tail (caller callee : Bytes)
  deriving DecidableEq, Repr

namespace Wiring

def follower? (blocks : List Block) (id : Nat) (b : Block) : Option Nat :=
  match blocks[id + 1]? with
  | some next => if next.function = b.function then some (id + 1) else none
  | none => none

def labelBlock? (blocks : List Block) (function name : Bytes) : Option Nat :=
  blocks.findIdx? fun b => b.function = function && b.leader.op = .label && b.leader.labelName = name

def target (blocks : List Block) (b : Block) : Except FlowError Nat :=
  match b.last.target? with
  | none => .error (.dangling b.last.line (.label []))
  | some name =>
    match labelBlock? blocks b.function name with
    | none => .error (.dangling b.last.line (.label name))
    | some id => .ok id

def returns (blocks : List Block) (function : Bytes) : Bool :=
  blocks.any fun b => b.function = function && b.last.op = .ret

def leave (intrinsics : List Bytes) (blocks : List Block) (id : Nat) (b : Block) : Except FlowError (List Wire) :=
  let next := follower? blocks id b
  match b.last.op with
  | .goto => do
    let label ← target blocks b
    if next.isNone && !returns blocks b.function then return [.jump id label, .exit b.function id]
    else return [.jump id label]
  | .branch _ => do
    let label ← target blocks b
    match next with
    | none => throw (.dangling b.last.line .fallThrough)
    | some next => return [.jump id label, .jump id next]
  | .ret => return [.exit b.function id]
  | _ =>
    match b.last.userCall? intrinsics with
    | some callee =>
      match blocks.findIdx? (·.function = callee) with
      | none => throw (.dangling b.last.line (.function callee))
      | some entry =>
        match next with
        | some next => return [.jump id entry, .resume callee next]
        | none => return [.jump id entry, .tail b.function callee]
    | none =>
      match next with
      | some next => return [.jump id next]
      | none => return [.exit b.function id]

def wiresFrom (intrinsics : List Bytes) (blocks : List Block) : (id : Nat) → List Block → Except FlowError (List Wire)
  | _, [] => .ok []
  | id, b :: rest => do
    let here ← leave intrinsics blocks id b
    let later ← wiresFrom intrinsics blocks (id + 1) rest
    return here ++ later

def exits (wires : List Wire) : List (Bytes × Nat) := wires.filterMap fun
  | .exit function block => some (function, block)
  | _ => none

def resumptions (wires : List Wire) : List (Bytes × Nat) := wires.filterMap fun
  | .resume function block => some (function, block)
  | _ => none

def tails (wires : List Wire) : List (Bytes × Bytes) := wires.filterMap fun
  | .tail caller callee => some (caller, callee)
  | _ => none

def blocksOf (function : Bytes) (pairs : List (Bytes × Nat)) : List Nat :=
  (pairs.filter (·.1 = function)).map (·.2)

/-- The edges a wire adds, given the wires before it. An exit meets the resumptions already known, and the reverse. -/
def edgesOf (before : List Wire) : Wire → List (Nat × Nat)
  | .jump source target => [(source, target)]
  | .exit function block => (blocksOf function (resumptions before)).map fun next => (block, next)
  | .resume function block => (blocksOf function (exits before)).map fun exit => (exit, block)
  | .tail _ _ => []

def edgesFrom (before : List Wire) : List Wire → List (Nat × Nat)
  | [] => []
  | wire :: rest => edgesOf before wire ++ edgesFrom (before ++ [wire]) rest

def tailChain (tails : List (Bytes × Bytes)) (unseen : List Bytes) (function : Bytes) : List Bytes :=
  if function ∈ unseen then
    match tails.lookup function with
    | some callee => function :: tailChain tails (unseen.erase function) callee
    | none => [function]
  else []
termination_by unseen.length
decreasing_by
  rename_i present
  rw [List.length_erase_of_mem present]
  have := List.length_pos_of_mem present
  omega

def exitsThrough (wires : List Wire) (names : List Bytes) (function : Bytes) : List Nat :=
  (tailChain (tails wires) names function).flatMap fun name => blocksOf name (exits wires)

/-- Edges from the exits of functions called in tail position to the resumptions of their callers. -/
def tailEdges (wires : List Wire) (names : List Bytes) : List (Nat × Nat) :=
  names.flatMap fun name =>
    if ((tails wires).lookup name).isSome then
      (exitsThrough wires names name).flatMap fun exit =>
        (blocksOf name (resumptions wires)).map fun next => (exit, next)
    else []

end Wiring

namespace Graph

def ofWires (blocks : List Block) (entry : Nat) (wires : List Wire) : Graph :=
  let names := Bytes.sorted (distinct (blocks.map (·.function)))
  { blocks, entry
    edges := distinct (Wiring.edgesFrom [] wires ++ Wiring.tailEdges wires names)
    exits := Wiring.exits wires }

def build (intrinsics : List Bytes) (entry : Bytes) (p : Program) : Except FlowError Graph := do
  if p.functions = [] then throw .emptyProgram
  scan [] [] p.functions
  let blocks := p.blocks intrinsics
  let wires ← Wiring.wiresFrom intrinsics blocks 0 blocks
  match blocks.findIdx? (·.function = entry) with
  | none => throw (.noEntry entry)
  | some start => return ofWires blocks start wires

end Graph

end Deadwood

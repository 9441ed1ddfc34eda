import Deadwood.Dataflow.LineSet
import Deadwood.Flow.Error
import Deadwood.Flow.Walk

/-!
Reaching definitions. A definition is named by its line; it is generated by its block if no later instruction of the
block writes the same variable, and killed by the other blocks of its function that write it. The solver passes over
all blocks until no out set changes.
-/

namespace Deadwood

structure Definition where
  function : Bytes
  name : Bytes
  line : Int
  deriving DecidableEq, Repr

/-- The definitions of a run that no later instruction of it overwrites. -/
def lastWrites : List Instruction → List (Bytes × Int)
  | [] => []
  | i :: rest =>
    match i.dest? with
    | some v => if rest.any (·.dest? = some v) then lastWrites rest else (v, i.line) :: lastWrites rest
    | none => lastWrites rest

namespace Block

def definitions (b : Block) : List Definition :=
  b.code.filterMap fun i => i.dest?.map fun v => ⟨b.function, v, i.line⟩

/-- The lines of the definitions that leave the block. -/
def gen (b : Block) : LineSet := .ofList ((lastWrites b.code).map (·.2))

def writes (b : Block) (d : Definition) : Bool :=
  b.function = d.function && b.code.any (·.dest? = some d.name)

/-- The lines of all definitions of the block's variables that it does not generate itself. -/
def kill (b : Block) (definitions : List Definition) : LineSet :=
  (LineSet.ofList ((definitions.filter b.writes).map (·.line))).diff b.gen

end Block

namespace Graph

def definitions (g : Graph) : List Definition := g.blocks.flatMap (·.definitions)

end Graph

/-- What a block adds to the definitions that reach it, and what it removes. -/
structure Effect where
  gen : LineSet
  kill : LineSet
  preds : List Nat
  deriving DecidableEq

structure Facts where
  incoming : LineSet
  outgoing : LineSet
  deriving DecidableEq

namespace Facts

def none : Facts := ⟨.empty, .empty⟩

instance : Inhabited Facts := ⟨none⟩

end Facts

/-- The equations of one program: the effect of every block and the order in which blocks are visited. -/
structure Equations where
  effects : List Effect
  order : List Nat
  deriving DecidableEq

namespace Graph

def equations (g : Graph) : Equations :=
  let definitions := g.definitions
  { effects := g.blocks.zipIdx.map fun (b, id) => ⟨b.gen, b.kill definitions, g.preds id⟩
    order := g.order }

end Graph

namespace Equations

def start (e : Equations) : List Facts := e.effects.map fun _ => .none

def outOf (facts : List Facts) (id : Nat) : LineSet := (facts[id]?.getD .none).outgoing

def transfer (effect : Effect) (facts : List Facts) : Facts :=
  let reach := LineSet.unions (effect.preds.map (outOf facts))
  ⟨reach, effect.gen.union (reach.diff effect.kill)⟩

def update (e : Equations) (facts : List Facts) (id : Nat) : List Facts :=
  match e.effects[id]? with
  | some effect => facts.set id (transfer effect facts)
  | none => facts

/-- One pass over all blocks, each seeing what the pass has changed so far. -/
def pass (e : Equations) (facts : List Facts) : List Facts := e.order.foldl e.update facts

def settled (before after : List Facts) : Bool := before.map (·.outgoing) == after.map (·.outgoing)

structure Solution where
  facts : List Facts
  iterations : Nat
  deriving DecidableEq

def iterate (e : Equations) : (remaining : Nat) → (done : Nat) → List Facts → Except FlowError Solution
  | 0, done, _ => .error (.unsettled done done)
  | remaining + 1, done, facts =>
    let next := e.pass facts
    if settled facts next then .ok ⟨next, done + 1⟩ else iterate e remaining (done + 1) next

end Equations

/-- The number of passes allowed: the limit, or blocks times definitions and one more when there is no limit. -/
def passBound (limit blocks definitions : Nat) : Nat :=
  if 0 < limit then limit else blocks * max definitions 1 + 1

namespace Graph

def solve (g : Graph) (limit : Nat) : Except FlowError Equations.Solution :=
  let e := g.equations
  e.iterate (passBound limit g.size g.definitions.length) 0 e.start

end Graph

end Deadwood

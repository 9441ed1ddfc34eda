import Deadwood.Config.Basic
import Deadwood.Flow.Wiring

/-!
The whole analysis of a program: its graph, the reaching definitions, the critical lines, and the program they leave.
-/

namespace Deadwood

structure Stats where
  functions : Nat
  blocks : Nat
  leaders : Nat
  definitions : Nat
  iterations : Nat
  before : Nat
  after : Nat
  deriving DecidableEq, Repr

namespace Stats

def removed (s : Stats) : Int := s.before - s.after

end Stats

structure Analysis where
  program : Program
  solved : Solved
  critical : LineSet
  stats : Stats
  deriving DecidableEq

namespace Analysis

def ofSolution (policy : LabelPolicy) (p : Program) (g : Graph) (solution : Equations.Solution) : Analysis :=
  let solved : Solved := ⟨g, solution.facts⟩
  let critical := solved.critical policy p
  { program := p, solved, critical
    stats :=
      { functions := p.functions.length
        blocks := g.size
        leaders := (LineSet.ofList g.leaders).size
        definitions := g.definitions.length
        iterations := solution.iterations
        before := p.size
        after := critical.size } }

def run (s : Settings) (p : Program) : Except FlowError Analysis := do
  let g ← Graph.build s.intrinsics s.entry p
  let solution ← g.solve s.maxIterations
  return ofSolution s.labels p g solution

def isCritical (a : Analysis) (i : Instruction) : Bool := i.line ∈ a.critical

def optimized (a : Analysis) : Program := a.program.filter a.isCritical

def kept (a : Analysis) (f : Function) : Nat := (f.body.filter a.isCritical).length

end Analysis

namespace Program

def optimize (s : Settings) (p : Program) : Except FlowError Program := (Analysis.run s p).map (·.optimized)

end Program

end Deadwood

import Deadwood.Analysis
import Deadwood.Log.Filter
import Deadwood.Log.Logger

/-! What a session has to say about its work. -/

namespace Deadwood

inductive Notice
  | adjusted (a : Adjustment)
  | built (functions blocks leaders : Nat)
  | passed (iteration bound : Nat)
  | converged (iterations definitions : Nat)
  | marked (seeds critical total : Nat)
  | kept (n : Nat) (dropped : Int)
  | served (digest : Digest)
  | optimized (digest : Digest) (stats : Stats)
  deriving DecidableEq

namespace Notice

open Log

def ofGraph (p : Program) (g : Graph) : Notice := .built p.functions.length g.size (LineSet.ofList g.leaders).size

def level : Notice → Level
  | .adjusted _ => .warn
  | .built .. | .converged .. | .kept .. | .served _ => .debug
  | .passed .. => .trace
  | .marked .. | .optimized .. => .info

def message : Notice → Bytes
  | .adjusted (.labels _) => bytes "Sanitizing invalid label policy"
  | .adjusted (.maxIterations _) => bytes "Sanitizing invalid fixpoint bound"
  | .adjusted (.cacheSize _) => bytes "Sanitizing invalid cache size"
  | .built .. => bytes "Built control-flow graph"
  | .passed .. => bytes "Reaching definitions pass"
  | .converged .. => bytes "Reaching definitions converged"
  | .marked .. => bytes "Critical set computed"
  | .kept .. => bytes "Marked critical instructions"
  | .served _ => bytes "Optimized program served from cache"
  | .optimized .. => bytes "Optimized program"

def field (key : String) (value : Value) : List Value := [.text (bytes key), value]

def count (key : String) (n : Nat) : List Value := field key (.int n)

def arguments (elapsed : Duration) : Notice → List Value
  | .adjusted (.labels provided) =>
    field "provided" (.policy provided) ++ field "updated" (.policy (LabelPolicy.name .all))
  | .adjusted (.maxIterations provided) => field "provided" (.int provided) ++ count "updated" 0
  | .adjusted (.cacheSize provided) => field "provided" (.int provided) ++ count "updated" 0
  | .built functions blocks leaders =>
    count "functions" functions ++ count "blocks" blocks ++ count "leaders" leaders ++
      field "elapsed" (.duration elapsed)
  | .passed iteration bound => count "iteration" iteration ++ count "bound" bound
  | .converged iterations definitions =>
    count "iterations" iterations ++ count "definitions" definitions ++ field "elapsed" (.duration elapsed)
  | .marked seeds critical total => count "seeds" seeds ++ count "critical" critical ++ count "total" total
  | .kept n dropped => count "kept" n ++ field "dropped" (.int dropped) ++ field "elapsed" (.duration elapsed)
  | .served digest => field "hash" (.digest digest)
  | .optimized digest stats =>
    field "hash" (.digest digest) ++ count "functions" stats.functions ++ count "blocks" stats.blocks ++
      count "before" stats.before ++ count "after" stats.after ++ field "elapsed" (.duration elapsed)

def write (logger : Logger) (now : Instant) (elapsed : Duration) (n : Notice) : Bytes :=
  logger.write now n.level n.message (n.arguments elapsed)

end Notice

namespace Analysis

/-- Of the passes that changed something, every sixteenth is worth a notice. -/
def reportedPasses (changed : Nat) : List Nat :=
  Log.EveryNth.passed ⟨16, 0⟩ ((List.range changed).map (· + 1))

/-- The analysis of a program with its notices; those on passes and on the critical set only when verbose. -/
def report (verbose : Bool) (s : Settings) (p : Program) : List Notice × Except FlowError Analysis :=
  match Graph.build s.intrinsics s.entry p with
  | .error e => ([], .error e)
  | .ok g =>
    let built := Notice.ofGraph p g
    let bound := passBound s.maxIterations g.size g.definitions.length
    let passes (changed : Nat) : List Notice :=
      if verbose then (reportedPasses changed).map (Notice.passed · bound) else []
    match g.solve s.maxIterations with
    | .error e => (built :: passes bound, .error e)
    | .ok solution =>
      let a := ofSolution s.labels p g solution
      let seeds := (p.code.filter (Critical.isSeed s.labels)).length
      (built :: passes (solution.iterations - 1) ++ [.converged solution.iterations g.definitions.length] ++
        (if verbose then [.marked seeds a.stats.after a.stats.before] else []) ++
        [.kept a.stats.after a.stats.removed], .ok a)

end Analysis

end Deadwood

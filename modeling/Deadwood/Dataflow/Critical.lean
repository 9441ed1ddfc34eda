import Deadwood.Dataflow.Uses

/-!
Critical instructions: those with an effect, and all that feed a critical one. Labels are kept all, or only those that
a kept jump of the same function names.
-/

namespace Deadwood

inductive LabelPolicy
  | all
  | referenced
  deriving DecidableEq, Repr

namespace Critical

/-- The instructions kept on their own account. -/
def isSeed (policy : LabelPolicy) (i : Instruction) : Bool :=
  i.op.hasEffect || (i.op = .label && policy = .all)

def within (lines : LineSet) (code : List Instruction) : List Instruction := code.filter (·.line ∈ lines)

def without (lines : LineSet) (code : List Instruction) : List Instruction := code.filter (·.line ∉ lines)

theorem length_without_lt {lines : LineSet} {code : List Instruction} (found : within lines code ≠ []) :
    (without lines code).length < code.length := by
  obtain ⟨d, member⟩ := List.exists_mem_of_ne_nil _ found
  have present := List.mem_filter.1 member
  refine List.length_filter_lt_length_iff_exists.2 ⟨d, present.1, ?_⟩
  simpa using present.2

/-- The instructions added by the work list, each once: those still unmarked that feed an instruction taken from it. -/
def close (feeding : Instruction → LineSet) (unmarked : List Instruction) : (work : List Instruction) → List Instruction
  | [] => []
  | i :: work =>
    if within (feeding i) unmarked = [] then close feeding unmarked work
    else
      within (feeding i) unmarked ++
        close feeding (without (feeding i) unmarked) (within (feeding i) unmarked ++ work)
termination_by work => (unmarked.length, work.length)
decreasing_by
  · apply Prod.Lex.right
    simp
  · apply Prod.Lex.left
    rename_i found
    exact length_without_lt found

def targets (marked : LineSet) (f : Function) : List Bytes :=
  (f.body.filter fun i => i.op.isJump && i.line ∈ marked).filterMap (·.target?)

/-- The lines of the named labels of a function that its marked jumps go to. -/
def referenced (marked : LineSet) (f : Function) : List Int :=
  (f.body.filter fun i =>
    i.op = .label && i.labelName ≠ [] && (targets marked f).contains i.labelName).map (·.line)

end Critical

namespace Solved

def closure (s : Solved) (policy : LabelPolicy) (p : Program) : LineSet :=
  let seeds := p.code.filter (Critical.isSeed policy)
  let unmarked := p.code.filter fun i => !Critical.isSeed policy i
  (LineSet.ofList (seeds.map (·.line))).union
    (.ofList ((Critical.close s.feeding unmarked seeds.reverse).map (·.line)))

def critical (s : Solved) (policy : LabelPolicy) (p : Program) : LineSet :=
  let marked := s.closure policy p
  match policy with
  | .all => marked
  | .referenced => marked.union (.ofList (p.functions.flatMap (Critical.referenced marked)))

end Solved

end Deadwood

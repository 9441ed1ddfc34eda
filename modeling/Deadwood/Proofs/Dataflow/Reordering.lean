import Deadwood.Proofs.Dataflow.Remnant

/-!
The order of functions. Which instruction may follow which, and so what reaches a block and what is critical, can be
told from the functions that a program has, in whatever order they stand. Only the numbers of the blocks depend on it;
a block is therefore known here by the line of its leader, and drawn with the leaders of its neighbours.
-/

namespace Deadwood

/-- What is known of a block, with the blocks next to it named by the lines of their leaders. -/
structure Portrait where
  block : Block
  gen : LineSet
  kill : LineSet
  incoming : LineSet
  outgoing : LineSet
  successors : LineSet
  predecessors : LineSet
  deriving DecidableEq

def Graph.leading (g : Graph) (ids : List Nat) : LineSet := .ofList (ids.filterMap (g.leaders[·]?))

namespace Solved

def portray (s : Solved) (k : Nat) (b : Block) : Portrait where
  block := b
  gen := b.gen
  kill := b.kill s.graph.definitions
  incoming := Equations.inOf s.facts k
  outgoing := Equations.outOf s.facts k
  successors := s.graph.leading (s.graph.succs k)
  predecessors := s.graph.leading (s.graph.preds k)

def portrait (s : Solved) (line : Int) : Option Portrait := do
  let k ← s.graph.blocks.findIdx? (·.leader.line = line)
  let b ← s.graph.blocks[k]?
  return s.portray k b

theorem portrait_eq_none {s : Solved} {line : Int} (absent : line ∉ s.graph.leaders) : s.portrait line = none := by
  have missed : s.graph.blocks.findIdx? (·.leader.line = line) = none := by
    simpa [Graph.leaders] using absent
  rw [portrait, missed]
  rfl

end Solved

namespace Program

variable {intrinsics : List Bytes} {entry : Bytes} {p q : Program}

theorem code_perm (perm : q.functions.Perm p.functions) : q.code.Perm p.code := perm.flatMap_right _

theorem blocks_perm (perm : q.functions.Perm p.functions) : (q.blocks intrinsics).Perm (p.blocks intrinsics) :=
  perm.flatMap_right _

theorem Distinct.perm (distinct : p.Distinct) (perm : q.functions.Perm p.functions) : q.Distinct where
  names := (perm.map _).nodup_iff.2 distinct.names
  lines := ((code_perm perm).map _).nodup_iff.2 distinct.lines
  labels f function := distinct.labels f (perm.mem_iff.1 function)

theorem Has.perm {name : Bytes} (has : p.Has name) (perm : q.functions.Perm p.functions) : q.Has name := by
  rcases has with ⟨f, function, named, filled⟩
  exact ⟨f, perm.mem_iff.2 function, named, filled⟩

theorem WellFormed.perm (wellFormed : p.WellFormed intrinsics entry) (perm : q.functions.Perm p.functions) :
    q.WellFormed intrinsics entry where
  inhabited empty := wellFormed.inhabited (List.perm_nil.1 (empty ▸ perm.symm))
  distinct := wellFormed.distinct.perm perm
  jumps f function := wellFormed.jumps f (perm.mem_iff.1 function)
  falls f function := wellFormed.falls f (perm.mem_iff.1 function)
  calls i code callee call := (wellFormed.calls i ((code_perm perm).mem_iff.1 code) callee call).perm perm
  start := wellFormed.start.perm perm

theorem Leads.mono {b c : Block} (leads : p.Leads intrinsics b c) (among : ∀ f ∈ p.functions, f ∈ q.functions) :
    q.Leads intrinsics b c := by
  cases leads with
  | falls function body stays member => exact .falls (among _ function) body stays member
  | jumps function body jumps present op named member =>
      exact .jumps (among _ function) body jumps present op named member
  | passes function body op member => exact .passes (among _ function) body op member
  | calls function call body member => exact .calls (among _ function) call body member
  | returns function body calls other reaches left =>
      have tails (caller callee : Bytes) (step : p.TailCalls intrinsics caller callee) :
          q.TailCalls intrinsics caller callee := by
        rcases step with ⟨f, function, named, last⟩
        exact ⟨f, among f function, named, last⟩
      exact .returns (among _ function) body calls (among _ other) (reaches.lift id tails) left

end Program

namespace Graph

theorem Flows.mono {g h : Graph} {f : Function} {v : Bytes} {d i : Instruction} (flows : g.Flows f v d i)
    (among : ∀ i j, g.Next i j → h.Next i j) : h.Flows f v d i := by
  rcases flows with ⟨between, chain, clear⟩
  exact ⟨between, chain.imp among, clear⟩

theorem mem_leading {g : Graph} {ids : List Nat} {n : Int} :
    n ∈ g.leading ids ↔ ∃ k ∈ ids, ∃ b, g.blocks[k]? = some b ∧ b.leader.line = n := by
  simp [leading, leaders]

namespace BuiltFrom

open Equations

variable {intrinsics : List Bytes} {p : Program} {wires : List Wire} {g : Graph} {limit k : Nat} {solution : Solution}
  {b : Block} {n : Int}

theorem mem_inOf_iff_flows (built : g.BuiltFrom intrinsics p wires) (solved : g.solve limit = .ok solution)
    (place : g.blocks[k]? = some b) :
    n ∈ inOf solution.facts k ↔
      ∃ f ∈ p.functions, ∃ v d, f.Overwrites v d ∧ d.line = n ∧ g.Flows f v d b.leader := by
  constructor
  · intro enters
    rcases (solve_least solved built.closed_paths k n).1 enters with ⟨f, function, v, d, writes, line, flows⟩
    exact ⟨f, function, v, d, writes, line, flows b place⟩
  · intro given
    rcases given with ⟨f, function, v, d, writes, rfl, flows⟩
    have start : b.code = [] ++ b.leader :: b.others := rfl
    rcases (built.flows_iff_holds solved function writes place start).1 flows with ⟨front, back, none, _⟩ | holds
    · simp at none
    · exact holds.1

theorem leaders_nodup (built : g.BuiltFrom intrinsics p wires) : g.leaders.Nodup := by
  have lines : g.leaders = (p.leaders intrinsics).map (·.line) := by
    rw [leaders, ← p.map_leader_blocks intrinsics, ← built.blocks, List.map_map]
    rfl
  rw [lines]
  exact built.distinct.lines.sublist ((p.leaders_sublist intrinsics).map _)

theorem portrait_leader (built : g.BuiltFrom intrinsics p wires) (facts : List Facts) (place : g.blocks[k]? = some b) :
    (Solved.mk g facts).portrait b.leader.line = some ((Solved.mk g facts).portray k b) := by
  rcases List.getElem?_eq_some_iff.1 place with ⟨bound, rfl⟩
  have found : g.blocks.findIdx? (·.leader.line = g.blocks[k].leader.line) = some k := by
    refine List.findIdx?_eq_some_iff_getElem.2 ⟨bound, by simp, ?_⟩
    intro l earlier
    rw [decide_eq_true_eq]
    intro line
    have same : g.leaders[l]? = g.leaders[k]? := by simp [leaders, line, bound, Nat.lt_trans earlier bound]
    have length : l < g.leaders.length := by
      rw [leaders, List.length_map]
      exact Nat.lt_trans earlier bound
    exact Nat.ne_of_lt earlier ((List.getElem?_inj length built.leaders_nodup).1 same)
  simp [Solved.portrait, found, place]

end BuiltFrom

structure Reorders (intrinsics : List Bytes) (p q : Program) (wires wires' : List Wire) (g h : Graph) : Prop where
  built : g.BuiltFrom intrinsics p wires
  built' : h.BuiltFrom intrinsics q wires'
  same : ∀ f, f ∈ p.functions ↔ f ∈ q.functions

namespace Reorders

open Equations

variable {intrinsics : List Bytes} {p q : Program} {wires wires' : List Wire} {g h : Graph} {limit limit' k l : Nat}
  {solution solution' : Solution} {b c : Block} {n : Int}

theorem symm (alike : g.Reorders intrinsics p q wires wires' h) : h.Reorders intrinsics q p wires' wires g :=
  ⟨alike.built', alike.built, fun f => (alike.same f).symm⟩

theorem mem_code_iff (alike : g.Reorders intrinsics p q wires wires' h) {i : Instruction} :
    i ∈ p.code ↔ i ∈ q.code := by
  simp only [Program.mem_code_iff, alike.same]

theorem mem_blocks_iff (alike : g.Reorders intrinsics p q wires wires' h) : b ∈ g.blocks ↔ b ∈ h.blocks := by
  simp only [alike.built.mem_blocks_iff, alike.built'.mem_blocks_iff, alike.same]

theorem exists_place (alike : g.Reorders intrinsics p q wires wires' h) (place : g.blocks[k]? = some b) :
    ∃ l : Nat, h.blocks[l]? = some b :=
  List.getElem?_of_mem (alike.mem_blocks_iff.1 (List.mem_of_getElem? place))

theorem mem_edges_iff (alike : g.Reorders intrinsics p q wires wires' h) {k' l' : Nat}
    (first : g.blocks[k]? = some b) (first' : h.blocks[k']? = some b) (second : g.blocks[l]? = some c)
    (second' : h.blocks[l']? = some c) : (k, l) ∈ g.edges ↔ (k', l') ∈ h.edges := by
  rw [alike.built.mem_edges_iff_leads first second, alike.built'.mem_edges_iff_leads first' second']
  exact ⟨fun leads => leads.mono fun f => (alike.same f).1, fun leads => leads.mono fun f => (alike.same f).2⟩

theorem next_of_next (alike : g.Reorders intrinsics p q wires wires' h) (i j : Instruction) (next : g.Next i j) :
    h.Next i j := by
  cases next with
  | within block code => exact .within (alike.mem_blocks_iff.1 block) code
  | across first second edge =>
      rcases alike.exists_place first with ⟨k, first'⟩
      rcases alike.exists_place second with ⟨l, second'⟩
      exact .across first' second' (mem_succs_iff.2 ((alike.mem_edges_iff first first' second second').1
        (mem_succs_iff.1 edge)))

theorem flows_iff (alike : g.Reorders intrinsics p q wires wires' h) {f : Function} {v : Bytes} {d i : Instruction} :
    g.Flows f v d i ↔ h.Flows f v d i :=
  ⟨fun flows => flows.mono alike.next_of_next, fun flows => flows.mono alike.symm.next_of_next⟩

theorem kill_eq (alike : g.Reorders intrinsics p q wires wires' h) (b : Block) :
    b.kill g.definitions = b.kill h.definitions := by
  apply LineSet.ext
  intro n
  simp only [Block.mem_kill_iff, alike.built.mem_definitions_iff, alike.built'.mem_definitions_iff, alike.same]

theorem inOf_eq (alike : g.Reorders intrinsics p q wires wires' h) (solved : g.solve limit = .ok solution)
    (solved' : h.solve limit' = .ok solution') (place : g.blocks[k]? = some b) (place' : h.blocks[l]? = some b) :
    inOf solution.facts k = inOf solution'.facts l := by
  apply LineSet.ext
  intro n
  rw [alike.built.mem_inOf_iff_flows solved place, alike.built'.mem_inOf_iff_flows solved' place']
  simp only [alike.same, alike.flows_iff]

theorem outOf_eq (alike : g.Reorders intrinsics p q wires wires' h) (solved : g.solve limit = .ok solution)
    (solved' : h.solve limit' = .ok solution') (place : g.blocks[k]? = some b) (place' : h.blocks[l]? = some b) :
    outOf solution.facts k = outOf solution'.facts l := by
  apply LineSet.ext
  intro n
  rw [mem_outOf_iff solved place, mem_outOf_iff solved' place', alike.inOf_eq solved solved' place place',
    alike.kill_eq b]

theorem mem_leading_of_mem (alike : g.Reorders intrinsics p q wires wires' h) {ids ids' : List Nat}
    (listed : ∀ k l c, g.blocks[k]? = some c → h.blocks[l]? = some c → k ∈ ids → l ∈ ids')
    (member : n ∈ g.leading ids) : n ∈ h.leading ids' := by
  rcases mem_leading.1 member with ⟨k, here, c, place, line⟩
  rcases alike.exists_place place with ⟨l, place'⟩
  exact mem_leading.2 ⟨l, listed k l c place place' here, c, place', line⟩

theorem leading_eq (alike : g.Reorders intrinsics p q wires wires' h) {ids ids' : List Nat}
    (listed : ∀ k l c, g.blocks[k]? = some c → h.blocks[l]? = some c → (k ∈ ids ↔ l ∈ ids')) :
    g.leading ids = h.leading ids' := by
  apply LineSet.ext
  intro n
  constructor
  · exact alike.mem_leading_of_mem fun k l c place place' => (listed k l c place place').1
  · exact alike.symm.mem_leading_of_mem fun l k c place' place => (listed k l c place place').2

theorem portray_eq (alike : g.Reorders intrinsics p q wires wires' h) (solved : g.solve limit = .ok solution)
    (solved' : h.solve limit' = .ok solution') (place : g.blocks[k]? = some b) (place' : h.blocks[l]? = some b) :
    (Solved.mk g solution.facts).portray k b = (Solved.mk h solution'.facts).portray l b := by
  have successors : g.leading (g.succs k) = h.leading (h.succs l) := by
    apply alike.leading_eq
    intro m n c second second'
    rw [mem_succs_iff, mem_succs_iff]
    exact alike.mem_edges_iff place place' second second'
  have predecessors : g.leading (g.preds k) = h.leading (h.preds l) := by
    apply alike.leading_eq
    intro m n c first first'
    rw [mem_preds_iff, mem_preds_iff]
    exact alike.mem_edges_iff first first' place place'
  simp only [Solved.portray, alike.kill_eq b, alike.inOf_eq solved solved' place place',
    alike.outOf_eq solved solved' place place', successors, predecessors]

theorem portrait_eq (alike : g.Reorders intrinsics p q wires wires' h) (solved : g.solve limit = .ok solution)
    (solved' : h.solve limit' = .ok solution') (line : Int) :
    (Solved.mk g solution.facts).portrait line = (Solved.mk h solution'.facts).portrait line := by
  by_cases led : line ∈ g.leaders
  · rcases List.mem_map.1 led with ⟨b, block, rfl⟩
    rcases List.getElem?_of_mem block with ⟨k, place⟩
    rcases alike.exists_place place with ⟨l, place'⟩
    rw [alike.built.portrait_leader solution.facts place, alike.built'.portrait_leader solution'.facts place',
      alike.portray_eq solved solved' place place']
  · have led' : line ∉ h.leaders := by
      simpa only [leaders, List.mem_map, alike.mem_blocks_iff] using led
    rw [Solved.portrait_eq_none led, Solved.portrait_eq_none led']

theorem feeding_eq (alike : g.Reorders intrinsics p q wires wires' h) (solved : g.solve limit = .ok solution)
    (solved' : h.solve limit' = .ok solution') {i : Instruction} (code : i ∈ p.code) :
    (Solved.mk g solution.facts).feeding i = (Solved.mk h solution'.facts).feeding i := by
  rcases Program.mem_code_iff.1 code with ⟨f, function, body⟩
  apply LineSet.ext
  intro n
  rw [alike.built.mem_feeding solved function body, alike.built'.mem_feeding solved' ((alike.same f).1 function) body]
  simp only [alike.flows_iff]

theorem closure_subset (alike : g.Reorders intrinsics p q wires wires' h) (solved : g.solve limit = .ok solution)
    (solved' : h.solve limit' = .ok solution') {policy : LabelPolicy}
    (marked : n ∈ (Solved.mk g solution.facts).closure policy p) :
    n ∈ (Solved.mk h solution'.facts).closure policy q := by
  have least := Solved.closure_isLeast policy alike.built.distinct (alike.built.fedFrom solved)
  have least' := Solved.closure_isLeast policy alike.built'.distinct (alike.built'.fedFrom solved')
  refine least.2 ⟨?_, ?_⟩ marked
  · intro i code seed
    exact least'.1.seeds i (alike.mem_code_iff.1 code) seed
  · intro i code needed m feeds
    rw [alike.feeding_eq solved solved' code] at feeds
    exact least'.1.feeds i (alike.mem_code_iff.1 code) needed m feeds

theorem critical_eq (alike : g.Reorders intrinsics p q wires wires' h) (solved : g.solve limit = .ok solution)
    (solved' : h.solve limit' = .ok solution') (policy : LabelPolicy) :
    (Solved.mk g solution.facts).critical policy p = (Solved.mk h solution'.facts).critical policy q := by
  apply LineSet.ext
  intro n
  have marked : n ∈ (Solved.mk g solution.facts).closure policy p ↔
      n ∈ (Solved.mk h solution'.facts).closure policy q :=
    ⟨alike.closure_subset solved solved', alike.symm.closure_subset solved' solved⟩
  rw [Solved.mem_critical_iff alike.built.distinct, Solved.mem_critical_iff alike.built'.distinct, marked]
  simp only [alike.same]

end Reorders

end Graph

namespace Analysis

/-- The order of its functions makes no difference to a program. It can be analysed in every order or in none, and with
the blocks known by their leaders, of which no two are on one line, the analyses have the same blocks and edges, the
same sets for every block and the same critical lines. -/
theorem function_order_immaterial {s : Settings} {p q : Program} (unlimited : s.maxIterations = 0)
    (perm : q.functions.Perm p.functions) :
    ((∃ a, run s p = .ok a) ↔ ∃ b, run s q = .ok b) ∧
      ∀ a b, run s p = .ok a → run s q = .ok b →
        a.critical = b.critical ∧ a.solved.graph.leaders.Nodup ∧
          a.solved.graph.blocks.Perm b.solved.graph.blocks ∧
          ∀ line, a.solved.portrait line = b.solved.portrait line := by
  constructor
  · rw [exists_run_iff unlimited, exists_run_iff unlimited]
    exact ⟨fun wellFormed => wellFormed.perm perm, fun wellFormed => wellFormed.perm perm.symm⟩
  · intro a b analysed analysed'
    rcases exists_solution analysed with ⟨g, wires, solution, built, solved, rfl⟩
    rcases exists_solution analysed' with ⟨h, wires', solution', built', solved', rfl⟩
    have alike : g.Reorders s.intrinsics p q wires wires' h := ⟨built, built', fun f => perm.mem_iff.symm⟩
    refine ⟨alike.critical_eq solved solved' s.labels, built.leaders_nodup, ?_, alike.portrait_eq solved solved'⟩
    show g.blocks.Perm h.blocks
    rw [built.blocks, built'.blocks]
    exact (Program.blocks_perm perm).symm

def borrowing : Program := ⟨[
  { name := [109]
    body := [
      ⟨.assign, [⟨.variable, [120]⟩, ⟨.constant, [49]⟩], 1⟩,
      ⟨.call, [⟨.function, [103]⟩], 2⟩,
      ⟨.call, [⟨.function, [112]⟩, ⟨.variable, [120]⟩], 3⟩] },
  { name := [103]
    body := [⟨.assign, [⟨.variable, [121]⟩, ⟨.constant, [50]⟩], 4⟩, ⟨.ret, [], 5⟩] }]⟩

theorem callee_first_alike :
    ∃ a b, run ⟨.all, [[112]], [109], 0, 0⟩ borrowing = .ok a ∧
      run ⟨.all, [[112]], [109], 0, 0⟩ ⟨borrowing.functions.reverse⟩ = .ok b ∧ b.critical.lines = [1, 2, 3, 5] ∧
      ∃ drawn, b.solved.portrait 3 = some drawn ∧ drawn.incoming.lines = [1, 4] ∧ drawn.predecessors.lines = [4] := by
  have evaluated : (run ⟨.all, [[112]], [109], 0, 0⟩ borrowing).map (fun a => (a.critical.lines,
      (a.solved.portrait 3).map fun drawn => (drawn.incoming.lines, drawn.predecessors.lines))) =
        .ok ([1, 2, 3, 5], some ([1, 4], [4])) := by cbv
  rcases Except.map_eq_ok.1 evaluated with ⟨a, analysed, found⟩
  have perm : borrowing.functions.reverse.Perm borrowing.functions := List.reverse_perm _
  have unlimited : (Settings.mk .all [[112]] [109] 0 0).maxIterations = 0 := rfl
  rcases function_order_immaterial (q := ⟨borrowing.functions.reverse⟩) unlimited perm with ⟨succeeds, alike⟩
  rcases succeeds.1 ⟨a, analysed⟩ with ⟨b, analysed'⟩
  rcases alike a b analysed analysed' with ⟨critical, _, _, portraits⟩
  rw [critical, portraits] at found
  rcases Prod.mk.inj found with ⟨lines, portrait⟩
  rcases Option.map_eq_some_iff.1 portrait with ⟨drawn, shown, sets⟩
  rcases Prod.mk.inj sets with ⟨incoming, predecessors⟩
  exact ⟨a, b, analysed, analysed', lines, drawn, shown, incoming, predecessors⟩

end Analysis

end Deadwood

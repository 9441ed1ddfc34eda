import Deadwood.Proofs.Dataflow.Closure
import Deadwood.Proofs.Dataflow.Convergence
import Deadwood.Proofs.Flow.Placement
import Deadwood.Proofs.Flow.Renaming

/-!
What reaches a block and what is critical, under other names of lines and variables. The sets of the one program are
those of the other with their lines renamed, pass for pass; nothing depends on which line is the greater.
-/

namespace Deadwood

namespace LineSet

def map (line : Int → Int) (s : LineSet) : LineSet := ofList (s.lines.map line)

variable {line : Int → Int} {s t : LineSet} {n : Int}

theorem mem_map : n ∈ s.map line ↔ ∃ m ∈ s, line m = n := by
  rw [map, mem_ofList, List.mem_map]
  rfl

theorem line_mem_map (injective : Function.Injective line) : line n ∈ s.map line ↔ n ∈ s := by
  rw [map, mem_ofList]
  exact List.mem_map_of_injective injective

theorem map_ofList (line : Int → Int) (lines : List Int) : (ofList lines).map line = ofList (lines.map line) := by
  apply ext
  intro n
  simp [mem_map]

theorem map_union (line : Int → Int) (s t : LineSet) : (s.union t).map line = (s.map line).union (t.map line) := by
  apply ext
  intro n
  simp only [mem_map, mem_union, or_and_right, exists_or]

theorem map_unions (line : Int → Int) (sets : List LineSet) :
    (unions sets).map line = unions (sets.map (map line)) := by
  apply ext
  intro n
  simp only [mem_map, mem_unions, List.mem_map]
  constructor
  · intro given
    rcases given with ⟨m, ⟨s, member, inside⟩, rfl⟩
    exact ⟨s.map line, ⟨s, member, rfl⟩, mem_map.2 ⟨m, inside, rfl⟩⟩
  · intro given
    rcases given with ⟨_, ⟨s, member, rfl⟩, inside⟩
    rcases mem_map.1 inside with ⟨m, here, same⟩
    exact ⟨m, ⟨s, member, here⟩, same⟩

section

variable (injective : Function.Injective line)

include injective

theorem map_diff (s t : LineSet) : (s.diff t).map line = (s.map line).diff (t.map line) := by
  apply ext
  intro n
  simp only [mem_map, mem_diff]
  constructor
  · intro given
    rcases given with ⟨m, ⟨inside, outside⟩, rfl⟩
    refine ⟨⟨m, inside, rfl⟩, ?_⟩
    intro other
    rcases other with ⟨m', present, same⟩
    exact outside (injective same ▸ present)
  · intro given
    rcases given with ⟨⟨m, inside, rfl⟩, outside⟩
    exact ⟨m, ⟨inside, fun present => outside ⟨m, present, rfl⟩⟩, rfl⟩

theorem map_injective : Function.Injective (map line) := by
  intro s t same
  apply ext
  intro n
  rw [← line_mem_map injective, same, line_mem_map injective]

theorem size_map (s : LineSet) : (s.map line).size = s.size := by
  rw [map, size_ofList (s.nodup_lines.map injective), List.length_map, size]

end

end LineSet

def Facts.renumbered (line : Int → Int) (f : Facts) : Facts := ⟨f.incoming.map line, f.outgoing.map line⟩

def Effect.renumbered (line : Int → Int) (e : Effect) : Effect := ⟨e.gen.map line, e.kill.map line, e.preds⟩

namespace Equations

def renumbered (line : Int → Int) (e : Equations) : Equations := ⟨e.effects.map (Effect.renumbered line), e.order⟩

def Solution.renumbered (line : Int → Int) (s : Solution) : Solution :=
  ⟨s.facts.map (Facts.renumbered line), s.iterations⟩

variable {line : Int → Int}

theorem iterate_error {e : Equations} {remaining done : Nat} {facts : List Facts} {defect : FlowError}
    (refused : e.iterate remaining done facts = .error defect) : defect.renumbered line = defect := by
  induction remaining generalizing done facts with
  | zero =>
      cases refused
      rfl
  | succ remaining ih =>
      rw [iterate] at refused
      split at refused
      · cases refused
      · exact ih refused

theorem getD_renumbered (line : Int → Int) (facts : List Facts) (id : Nat) :
    (facts.map (Facts.renumbered line))[id]?.getD .none = (facts[id]?.getD .none).renumbered line := by
  rw [List.getElem?_map]
  cases facts[id]? <;> rfl

theorem outOf_renumbered (line : Int → Int) (facts : List Facts) (id : Nat) :
    outOf (facts.map (Facts.renumbered line)) id = (outOf facts id).map line := by
  rw [outOf, outOf, getD_renumbered]
  rfl

section

variable (injective : Function.Injective line)

include injective

theorem transfer_renumbered (effect : Effect) (facts : List Facts) :
    transfer (effect.renumbered line) (facts.map (Facts.renumbered line)) =
      (transfer effect facts).renumbered line := by
  have sets : effect.preds.map (outOf (facts.map (Facts.renumbered line))) =
      (effect.preds.map (outOf facts)).map (LineSet.map line) := by
    rw [List.map_map]
    refine List.map_congr_left fun id _ => ?_
    exact outOf_renumbered line facts id
  simp only [transfer, Effect.renumbered, Facts.renumbered, sets, LineSet.map_union, LineSet.map_diff injective,
    LineSet.map_unions]

theorem update_renumbered (e : Equations) (facts : List Facts) (id : Nat) :
    (e.renumbered line).update (facts.map (Facts.renumbered line)) id =
      (e.update facts id).map (Facts.renumbered line) := by
  have effect : (e.renumbered line).effects[id]? = e.effects[id]?.map (Effect.renumbered line) := List.getElem?_map
  rw [update, update, effect]
  cases e.effects[id]? with
  | none => rfl
  | some effect => simp only [Option.map_some, transfer_renumbered injective, List.map_set]

theorem pass_renumbered (e : Equations) (facts : List Facts) :
    (e.renumbered line).pass (facts.map (Facts.renumbered line)) = (e.pass facts).map (Facts.renumbered line) := by
  have folded (order : List Nat) (facts : List Facts) :
      order.foldl (e.renumbered line).update (facts.map (Facts.renumbered line)) =
        (order.foldl e.update facts).map (Facts.renumbered line) := by
    induction order generalizing facts with
    | nil => rfl
    | cons id order ih => rw [List.foldl_cons, List.foldl_cons, update_renumbered injective, ih]
  exact folded e.order facts

theorem settled_renumbered (before after : List Facts) :
    settled (before.map (Facts.renumbered line)) (after.map (Facts.renumbered line)) = settled before after := by
  have sets (facts : List Facts) : (facts.map (Facts.renumbered line)).map (·.outgoing) =
      (facts.map (·.outgoing)).map (LineSet.map line) := by
    rw [List.map_map, List.map_map]
    rfl
  rw [Bool.eq_iff_iff, settled, settled, beq_iff_eq, beq_iff_eq, sets, sets]
  exact (List.map_injective_iff.2 (LineSet.map_injective injective)).eq_iff

theorem iterate_renumbered (e : Equations) (remaining done : Nat) (facts : List Facts) :
    (e.renumbered line).iterate remaining done (facts.map (Facts.renumbered line)) =
      (e.iterate remaining done facts).map (Solution.renumbered line) := by
  induction remaining generalizing done facts with
  | zero => rfl
  | succ remaining ih =>
      simp only [iterate, pass_renumbered injective, settled_renumbered injective, ih]
      split <;> rfl

end

end Equations

namespace Renaming

variable {r : Renaming} {b c : Block}

def definition (r : Renaming) (d : Definition) : Definition :=
  ⟨d.function, r.name d.function d.name, r.line d.line⟩

theorem Takes.writes_iff {function : Bytes} {i j : Instruction} (takes : r.Takes function i j) (v : Bytes) :
    j.dest? = some (r.name function v) ↔ i.dest? = some v := by
  rw [takes.dest, ← Option.map_some, (Option.map_injective (r.names function)).eq_iff]

theorem lastWrites_takes {function : Bytes} {code code' : List Instruction}
    (takes : List.Forall₂ (r.Takes function) code code') :
    lastWrites code' = (lastWrites code).map (Prod.map (r.name function) r.line) := by
  induction takes with
  | nil => rfl
  | @cons i j code code' first rest ih =>
      have later (v : Bytes) : code'.any (·.dest? = some (r.name function v)) = code.any (·.dest? = some v) := by
        symm
        apply any_eq_of_forall₂ rest
        intro a a' same
        rw [decide_eq_decide]
        exact (same.writes_iff v).symm
      rw [lastWrites, lastWrites, first.dest]
      cases i.dest? with
      | none => exact ih
      | some v =>
          simp only [Option.map_some, later]
          split
          · exact ih
          · rw [List.map_cons, ih, first.line]
            rfl

namespace TakesBlock

theorem gen (takes : r.TakesBlock b c) : c.gen = b.gen.map r.line := by
  rw [Block.gen, Block.gen, lastWrites_takes takes.code, LineSet.map_ofList, List.map_map, List.map_map]
  rfl

theorem lines (takes : r.TakesBlock b c) : c.lines = b.lines.map r.line := by
  rw [Block.lines, Block.lines, List.map_map]
  exact (map_eq_of_forall₂ takes.code fun _ _ same => same.line.symm).symm

theorem definitions (takes : r.TakesBlock b c) : c.definitions = b.definitions.map r.definition := by
  have each {code code' : List Instruction} (takes : List.Forall₂ (r.Takes b.function) code code') :
      (code'.filterMap fun i => i.dest?.map fun v => (⟨b.function, v, i.line⟩ : Definition)) =
        (code.filterMap fun i => i.dest?.map fun v => ⟨b.function, v, i.line⟩).map r.definition := by
    induction takes with
    | nil => rfl
    | @cons i j _ _ first _ ih =>
        rw [List.filterMap_cons, List.filterMap_cons, first.dest, first.line, ih]
        cases i.dest? <;> rfl
  rw [Block.definitions, Block.definitions, takes.function]
  exact each takes.code

theorem writes (takes : r.TakesBlock b c) (d : Definition) : c.writes (r.definition d) = b.writes d := by
  show (decide (c.function = d.function) && c.code.any (·.dest? = some (r.name d.function d.name))) = b.writes d
  rw [Block.writes, takes.function]
  by_cases same : b.function = d.function
  · have any : c.code.any (·.dest? = some (r.name d.function d.name)) = b.code.any (·.dest? = some d.name) := by
      symm
      apply any_eq_of_forall₂ takes.code
      intro a a' alike
      rw [decide_eq_decide, ← same]
      exact (alike.writes_iff d.name).symm
    rw [any]
  · simp [same]

theorem kill (takes : r.TakesBlock b c) (definitions : List Definition) :
    c.kill (definitions.map r.definition) = (b.kill definitions).map r.line := by
  have kept : (definitions.map r.definition).filter c.writes = (definitions.filter b.writes).map r.definition := by
    rw [List.filter_map]
    congr 2
    funext d
    exact takes.writes d
  rw [Block.kill, Block.kill, kept, takes.gen, LineSet.map_diff r.lines, LineSet.map_ofList, List.map_map,
    List.map_map]
  rfl

theorem holds (takes : r.TakesBlock b c) (n : Int) : c.holds (r.line n) = b.holds n := by
  rw [Bool.eq_iff_iff, Block.holds, Block.holds, List.contains_iff_mem, List.contains_iff_mem, takes.lines]
  exact List.mem_map_of_injective r.lines

end TakesBlock

namespace TakesGraph

variable {g h : Graph}

theorem definitions (takes : r.TakesGraph g h) : h.definitions = g.definitions.map r.definition := by
  rw [Graph.definitions, Graph.definitions, List.map_flatMap]
  have blocks := takes.blocks
  generalize g.blocks = before at blocks
  generalize h.blocks = after at blocks
  induction blocks with
  | nil => rfl
  | cons first _ ih => rw [List.flatMap_cons, List.flatMap_cons, first.definitions, ih]

theorem equations (takes : r.TakesGraph g h) : h.equations = g.equations.renumbered r.line := by
  have effects : h.equations.effects = g.equations.effects.map (Effect.renumbered r.line) := by
    apply List.ext_getElem?
    intro k
    have place := getElem?_of_forall₂ takes.blocks k
    simp only [Graph.equations, List.map_map, List.getElem?_map, List.getElem?_zipIdx, Option.map_map, takes.preds,
      takes.definitions]
    revert place
    cases g.blocks[k]? <;> cases h.blocks[k]? <;> intro place <;> cases place
    · rfl
    · rename_i same
      simp only [Option.map_some, Function.comp_apply, Effect.renumbered, same.gen, same.kill]
  have order : h.equations.order = g.equations.order := takes.order
  rw [Equations.renumbered, ← effects, ← order]

theorem solve (takes : r.TakesGraph g h) (limit : Nat) :
    h.solve limit = (g.solve limit).map (Equations.Solution.renumbered r.line) := by
  have start : (g.equations.renumbered r.line).start = g.equations.start.map (Facts.renumbered r.line) := by
    rw [Equations.start, Equations.start, Equations.renumbered, List.map_map, List.map_map]
    rfl
  simp only [Graph.solve, takes.equations, start, takes.size, takes.definitions, List.length_map]
  exact Equations.iterate_renumbered r.lines _ _ _ _

theorem blockOf? (takes : r.TakesGraph g h) (n : Int) : h.blockOf? (r.line n) = g.blockOf? n := by
  symm
  apply findIdx?_eq_of_forall₂ takes.blocks
  intro b c same
  exact (same.holds n).symm

end TakesGraph

section

variable {g h : Graph} {function : Bytes} {i j : Instruction} {facts : List Facts} {k : Nat} {v : Bytes} {n : Int}

theorem lastWriteBefore?_takes (takes : r.TakesBlock b c) (n : Int) (v : Bytes) :
    lastWriteBefore? (r.line n) (r.name b.function v) c.code = (lastWriteBefore? n v b.code).map r.line := by
  have before : List.Forall₂ (r.Takes b.function) (b.code.takeWhile (·.line ≠ n))
      (c.code.takeWhile (·.line ≠ r.line n)) := by
    apply takeWhile_of_forall₂ takes.code
    intro a a' same
    rw [decide_eq_decide, same.line, r.lines.ne_iff]
  have found : Option.Rel (r.Takes b.function) ((b.code.takeWhile (·.line ≠ n)).reverse.find? (·.dest? = some v))
      ((c.code.takeWhile (·.line ≠ r.line n)).reverse.find? (·.dest? = some (r.name b.function v))) := by
    apply find?_of_forall₂ (List.forall₂_reverse_iff.2 before)
    intro a a' same
    rw [decide_eq_decide]
    exact (same.writes_iff v).symm
  rw [lastWriteBefore?, lastWriteBefore?]
  revert found
  generalize List.find? _ _ = here
  generalize List.find? _ _ = there
  intro found
  cases found with
  | none => rfl
  | some same => exact congrArg some same.line

theorem mem_inherited_takes (takes : r.TakesGraph g h) (block : r.TakesBlock b c) :
    n ∈ (Solved.mk h (facts.map (Facts.renumbered r.line))).inherited k c (r.name b.function v) ↔
      ∃ m ∈ (Solved.mk g facts).inherited k b v, r.line m = n := by
  have written (m : Int) :
      (∃ d ∈ h.definitions, (d.function = c.function ∧ d.name = r.name b.function v) ∧ d.line = r.line m) ↔
        ∃ d ∈ g.definitions, (d.function = b.function ∧ d.name = v) ∧ d.line = m := by
    rw [takes.definitions, block.function]
    constructor
    · intro given
      rcases given with ⟨_, member, ⟨owner, name⟩, line⟩
      rcases List.mem_map.1 member with ⟨d, present, rfl⟩
      have owner : d.function = b.function := owner
      have name : r.name d.function d.name = r.name b.function v := name
      rw [owner] at name
      exact ⟨d, present, ⟨owner, r.names _ name⟩, r.lines line⟩
    · intro given
      rcases given with ⟨d, present, ⟨owner, rfl⟩, rfl⟩
      refine ⟨r.definition d, List.mem_map_of_mem present, ⟨owner, ?_⟩, rfl⟩
      rw [definition, owner]
  simp only [Solved.inherited, List.mem_filter, List.any_eq_true, Bool.and_eq_true, decide_eq_true_eq,
    LineSet.mem_lines, Equations.getD_renumbered]
  simp only [Facts.renumbered, LineSet.mem_map]
  constructor
  · intro given
    rcases given with ⟨⟨m, enters, rfl⟩, d, ⟨member, name⟩, line⟩
    rcases (written m).1 ⟨d, member, name, line⟩ with ⟨d', member', name', line'⟩
    exact ⟨m, ⟨enters, d', ⟨member', name'⟩, line'⟩, rfl⟩
  · intro given
    rcases given with ⟨m, ⟨enters, d, ⟨member, name⟩, line⟩, rfl⟩
    rcases (written m).2 ⟨d, member, name, line⟩ with ⟨d', member', name', line'⟩
    exact ⟨⟨m, enters, rfl⟩, d', ⟨member', name'⟩, line'⟩

theorem mem_sources_takes (takes : r.TakesGraph g h) (block : r.TakesBlock b c) (m : Int) :
    n ∈ (Solved.mk h (facts.map (Facts.renumbered r.line))).sources k c (r.line m) (r.name b.function v) ↔
      ∃ m' ∈ (Solved.mk g facts).sources k b m v, r.line m' = n := by
  rw [Solved.sources, Solved.sources, lastWriteBefore?_takes block]
  cases lastWriteBefore? m v b.code with
  | none => exact mem_inherited_takes takes block
  | some found => simp [eq_comm]

theorem feeding_takes (takes : r.TakesGraph g h) (same : r.Takes function i j)
    (owner : ∀ k b, g.blockOf? i.line = some k → g.blocks[k]? = some b → b.function = function) (facts : List Facts) :
    (Solved.mk h (facts.map (Facts.renumbered r.line))).feeding j = ((Solved.mk g facts).feeding i).map r.line := by
  rw [Solved.feeding, Solved.feeding, same.line, takes.blockOf?]
  cases found : g.blockOf? i.line with
  | none => rfl
  | some k =>
      have place := getElem?_of_forall₂ takes.blocks k
      dsimp only
      revert place
      cases found' : g.blocks[k]? <;> cases h.blocks[k]? <;> intro place <;> cases place
      · rfl
      · rename_i b c block
        have owner := owner k b found found'
        subst owner
        apply LineSet.ext
        intro n
        simp only [LineSet.mem_ofList, LineSet.mem_map, List.mem_flatMap, same.reads, List.mem_map]
        constructor
        · intro given
          rcases given with ⟨_, ⟨v, read, rfl⟩, member⟩
          rcases (mem_sources_takes takes block i.line).1 member with ⟨m, member', line⟩
          exact ⟨m, ⟨v, read, member'⟩, line⟩
        · intro given
          rcases given with ⟨m, ⟨v, read, member⟩, line⟩
          exact ⟨r.name b.function v, ⟨v, read, rfl⟩, (mem_sources_takes takes block i.line).2 ⟨m, member, line⟩⟩

end

section

variable {p q : Program} {g h : Graph} {wires wires' : List Wire} {intrinsics : List Bytes} {limit : Nat}
  {solution : Equations.Solution}

theorem TakesProgram.exists_right (takes : r.TakesProgram p q) {f : Function} (function : f ∈ p.functions)
    {i : Instruction} (body : i ∈ f.body) :
    ∃ f' ∈ q.functions, r.TakesFunction f f' ∧ ∃ j ∈ f'.body, r.Takes f.name i j := by
  rcases exists_of_mem_left takes function with ⟨f', function', same⟩
  rcases exists_of_mem_left same.body body with ⟨j, body', taken⟩
  exact ⟨f', function', same, j, body', taken⟩

theorem TakesProgram.exists_left (takes : r.TakesProgram p q) {f' : Function} (function : f' ∈ q.functions)
    {j : Instruction} (body : j ∈ f'.body) :
    ∃ f ∈ p.functions, r.TakesFunction f f' ∧ ∃ i ∈ f.body, r.Takes f.name i j := by
  rcases exists_of_mem_right takes function with ⟨f, function', same⟩
  rcases exists_of_mem_right same.body body with ⟨i, body', taken⟩
  exact ⟨f, function', same, i, body', taken⟩

theorem Takes.seed_iff {function : Bytes} {i j : Instruction} (same : r.Takes function i j) (policy : LabelPolicy) :
    Critical.Seed policy j ↔ Critical.Seed policy i := by
  simp only [Critical.Seed, Critical.Acts, same.op]

theorem feeding_of_built (built : g.BuiltFrom intrinsics p wires) (takes : r.TakesGraph g h) {f : Function}
    (function : f ∈ p.functions) {i j : Instruction} (body : i ∈ f.body) (same : r.Takes f.name i j)
    (facts : List Facts) :
    (Solved.mk h (facts.map (Facts.renumbered r.line))).feeding j = ((Solved.mk g facts).feeding i).map r.line := by
  apply feeding_takes takes same
  intro k b found place
  rcases (Function.mem_body_iff intrinsics).1 body with ⟨c, here, member⟩
  rcases List.getElem?_of_mem (built.mem_blocks_iff.2 ⟨f, function, here⟩) with ⟨l, there⟩
  rw [built.blockOf?_eq there member] at found
  cases found
  rw [place] at there
  cases there
  exact built.function_eq_of_block function body (List.mem_of_getElem? place) member

/-- The marked lines are those of the other program, renamed: each of the two sets gives one that is closed for the
other program, and both are least. -/
theorem closure_takes (programs : r.TakesProgram p q) (built : g.BuiltFrom intrinsics p wires)
    (built' : h.BuiltFrom intrinsics q wires') (takes : r.TakesGraph g h) (solved : g.solve limit = .ok solution)
    (policy : LabelPolicy) :
    (Solved.mk h (solution.facts.map (Facts.renumbered r.line))).closure policy q =
      ((Solved.mk g solution.facts).closure policy p).map r.line := by
  have solved' : h.solve limit = .ok (solution.renumbered r.line) := by
    rw [takes.solve, solved]
    rfl
  have least := Solved.closure_isLeast policy built.distinct (built.fedFrom solved)
  have least' := Solved.closure_isLeast policy built'.distinct (built'.fedFrom solved')
  have renamed : Critical.Closed (Solved.mk h (solution.renumbered r.line).facts).feeding (Critical.Seed policy) q
      {n | n ∈ ((Solved.mk g solution.facts).closure policy p).map r.line} := by
    constructor
    · intro j code seed
      rcases Program.mem_code_iff.1 code with ⟨f', function', body'⟩
      rcases programs.exists_left function' body' with ⟨f, function, _, i, body, same⟩
      have marked := least.1.seeds i (Program.mem_code_iff.2 ⟨f, function, body⟩) ((same.seed_iff policy).1 seed)
      exact LineSet.mem_map.2 ⟨i.line, marked, same.line.symm⟩
    · intro j code marked n feeds
      rcases Program.mem_code_iff.1 code with ⟨f', function', body'⟩
      rcases programs.exists_left function' body' with ⟨f, function, _, i, body, same⟩
      have fed : n ∈ ((Solved.mk g solution.facts).feeding i).map r.line :=
        feeding_of_built built takes function body same solution.facts ▸ feeds
      rcases LineSet.mem_map.1 fed with ⟨m, member, line⟩
      rw [Set.mem_ofPred_eq, same.line, LineSet.line_mem_map r.lines] at marked
      exact LineSet.mem_map.2 ⟨m, least.1.feeds i (Program.mem_code_iff.2 ⟨f, function, body⟩) marked m member, line⟩
  have original : Critical.Closed (Solved.mk g solution.facts).feeding (Critical.Seed policy) p
      {m | r.line m ∈ (Solved.mk h (solution.renumbered r.line).facts).closure policy q} := by
    constructor
    · intro i code seed
      rcases Program.mem_code_iff.1 code with ⟨f, function, body⟩
      rcases programs.exists_right function body with ⟨f', function', _, j, body', same⟩
      have marked := least'.1.seeds j (Program.mem_code_iff.2 ⟨f', function', body'⟩) ((same.seed_iff policy).2 seed)
      rwa [same.line] at marked
    · intro i code marked m feeds
      rcases Program.mem_code_iff.1 code with ⟨f, function, body⟩
      rcases programs.exists_right function body with ⟨f', function', _, j, body', same⟩
      have fed : r.line m ∈ (Solved.mk h (solution.renumbered r.line).facts).feeding j := by
        rw [Equations.Solution.renumbered, feeding_of_built built takes function body same solution.facts]
        exact (LineSet.line_mem_map r.lines).2 feeds
      refine least'.1.feeds j (Program.mem_code_iff.2 ⟨f', function', body'⟩) ?_ _ fed
      rw [same.line]
      exact marked
  apply LineSet.ext
  intro n
  constructor
  · intro member
    exact least'.2 renamed member
  · intro member
    rcases LineSet.mem_map.1 member with ⟨m, marked, rfl⟩
    exact least.2 original marked

theorem TakesFunction.targets_iff {f f' : Function} (same : r.TakesFunction f f') {label label' : Instruction}
    (body : label ∈ f.body) (body' : label' ∈ f'.body) (taken : r.Takes f.name label label') :
    f'.Targets label' ↔ f.Targets label := by
  constructor
  · intro targets
    rcases targets.jump with ⟨j, inside', jumps, target⟩
    rcases exists_of_mem_right same.body inside' with ⟨i, inside, moved⟩
    rw [moved.op] at jumps
    rw [moved.target, taken.labelName] at target
    exact ⟨body, taken.op ▸ targets.op, taken.labelName ▸ targets.named, i, inside, jumps, target⟩
  · intro targets
    rcases targets.jump with ⟨i, inside, jumps, target⟩
    rcases exists_of_mem_left same.body inside with ⟨j, inside', moved⟩
    rw [← moved.op] at jumps
    rw [← moved.target, ← taken.labelName] at target
    exact ⟨body', taken.op.trans targets.op, taken.labelName.symm ▸ targets.named, j, inside', jumps, target⟩

theorem critical_takes (programs : r.TakesProgram p q) (built : g.BuiltFrom intrinsics p wires)
    (built' : h.BuiltFrom intrinsics q wires') (takes : r.TakesGraph g h) (solved : g.solve limit = .ok solution)
    (policy : LabelPolicy) :
    (Solved.mk h (solution.facts.map (Facts.renumbered r.line))).critical policy q =
      ((Solved.mk g solution.facts).critical policy p).map r.line := by
  have labels (n : Int) : (∃ f' ∈ q.functions, ∃ label', f'.Targets label' ∧ label'.line = n) ↔
      ∃ m, (∃ f ∈ p.functions, ∃ label, f.Targets label ∧ label.line = m) ∧ r.line m = n := by
    constructor
    · intro given
      rcases given with ⟨f', function', label', targets, rfl⟩
      rcases programs.exists_left function' targets.body with ⟨f, function, same, label, body, taken⟩
      have targets := (same.targets_iff body targets.body taken).1 targets
      exact ⟨label.line, ⟨f, function, label, targets, rfl⟩, taken.line.symm⟩
    · intro given
      rcases given with ⟨_, ⟨f, function, label, targets, rfl⟩, rfl⟩
      rcases programs.exists_right function targets.body with ⟨f', function', same, label', body', taken⟩
      exact ⟨f', function', label', (same.targets_iff targets.body body' taken).2 targets, taken.line⟩
  apply LineSet.ext
  intro n
  rw [Solved.mem_critical_iff built'.distinct, closure_takes programs built built' takes solved, labels,
    LineSet.mem_map, LineSet.mem_map]
  simp only [Solved.mem_critical_iff built.distinct, or_and_right, exists_or, and_assoc, exists_and_left]

end

structure TakesAnalysis (r : Renaming) (a b : Analysis) : Prop where
  program : r.TakesProgram a.program b.program
  graph : r.TakesGraph a.solved.graph b.solved.graph
  facts : b.solved.facts = a.solved.facts.map (Facts.renumbered r.line)
  critical : b.critical = a.critical.map r.line
  stats : b.stats = a.stats

section

variable {p q : Program} {s : Settings}

theorem TakesProgram.code {p q : Program} (takes : r.TakesProgram p q) :
    List.Forall₂ (fun i j => ∃ function, r.Takes function i j) p.code q.code := by
  apply List.rel_flatMap takes
  intro f f' same
  exact same.body.imp fun i j taken => ⟨f.name, taken⟩

theorem run_takes (takes : r.TakesProgram p q) (s : Settings) :
    (∀ e, Analysis.run s p = .error e → Analysis.run s q = .error (e.renumbered r.line)) ∧
      ∀ a, Analysis.run s p = .ok a → ∃ b, Analysis.run s q = .ok b ∧ r.TakesAnalysis a b := by
  rcases build_takes takes s.intrinsics s.entry with ⟨refused, accepted⟩
  cases first : Graph.build s.intrinsics s.entry p with
  | error e =>
      have second := refused e first
      rw [Analysis.run, Analysis.run, first, second]
      exact ⟨fun e' same => by cases same; rfl, fun a same => by cases same⟩
  | ok g =>
      rcases accepted g first with ⟨h, second, graphs⟩
      have solve := graphs.solve s.maxIterations
      have run (p : Program) (g : Graph) (built : Graph.build s.intrinsics s.entry p = .ok g) :
          Analysis.run s p = (g.solve s.maxIterations).map (Analysis.ofSolution s.labels p g) := by
        rw [Analysis.run, built]
        rfl
      rw [run p g first, run q h second, solve]
      cases solved : g.solve s.maxIterations with
      | error e =>
          refine ⟨?_, fun a same => (by cases same)⟩
          intro e' same
          cases same
          exact congrArg Except.error (Equations.iterate_error solved).symm
      | ok solution =>
          refine ⟨fun e same => (by cases same), ?_⟩
          intro a same
          cases same
          rcases Graph.exists_wires first with ⟨wires, built⟩
          rcases Graph.exists_wires second with ⟨wires', built'⟩
          have critical := critical_takes takes built built' graphs solved s.labels
          have leaders : h.leaders = g.leaders.map r.line := by
            rw [Graph.leaders, Graph.leaders, List.map_map]
            exact (map_eq_of_forall₂ graphs.blocks fun _ _ same => same.leader.line.symm).symm
          refine ⟨_, rfl, takes, graphs, rfl, critical, ?_⟩
          simp only [Analysis.ofSolution, Equations.Solution.renumbered, critical, leaders, graphs.size,
            graphs.definitions, List.length_map, ← LineSet.map_ofList, LineSet.size_map r.lines, Program.size,
            List.Forall₂.length_eq takes, takes.code.length_eq]

end

end Renaming

end Deadwood

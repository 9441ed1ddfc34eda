import Deadwood.Proofs.Dataflow.Convergence
import Deadwood.Proofs.Dataflow.Paths

/-!
What a block generates and kills divides the definitions of its variables. Two sweeps over the blocks compute both: the
first notes the latest write of each variable in a block and collects all definitions of the program, the second picks
out those that overwrite one another. The order in which blocks are visited makes no difference.
-/

namespace Deadwood

def noteWrite (latest : List (Bytes × Int)) (i : Instruction) : List (Bytes × Int) :=
  match i.dest? with
  | some v => (v, i.line) :: latest.filter (·.1 ≠ v)
  | none => latest

def Block.latest (b : Block) : List (Bytes × Int) := b.code.foldl noteWrite []

namespace Graph

def collected (g : Graph) (order : List Nat) : List Definition :=
  (order.filterMap (g.blocks[·]?)).flatMap (·.definitions)

/-- What two sweeps find for a block: the lines of its latest writes, and those of all other definitions of the
variables that it writes. -/
def sweep (g : Graph) (order : List Nat) (b : Block) : LineSet × LineSet :=
  let gen := LineSet.ofList (b.latest.map (·.2))
  let lines := b.latest.flatMap fun (v, _) =>
    ((g.collected order).filter fun d => d.function = b.function && d.name = v).map (·.line)
  (gen, .ofList (lines.filter (· ∉ gen)))

end Graph

theorem mem_foldl_noteWrite {latest : List (Bytes × Int)} {code : List Instruction} {v : Bytes} {n : Int} :
    (v, n) ∈ code.foldl noteWrite latest ↔
      (v, n) ∈ lastWrites code ∨ (v, n) ∈ latest ∧ ∀ j ∈ code, j.dest? ≠ some v := by
  induction code generalizing latest with
  | nil => simp [lastWrites]
  | cons i rest ih =>
      rw [List.foldl_cons, ih, noteWrite, lastWrites]
      cases written : i.dest? with
      | none => simp [written]
      | some w =>
          by_cases same : v = w
          · -- The instruction is the latest write, unless the rest writes the variable again.
            subst same
            by_cases again : rest.any (·.dest? = some v)
            · have overwritten : ¬∀ j ∈ rest, j.dest? ≠ some v := by simpa using again
              simp [again, overwritten]
            · have kept : ∀ j ∈ rest, j.dest? ≠ some v := by simpa using again
              have absent : (v, n) ∉ lastWrites rest := by
                intro member
                obtain ⟨front, d, back, rfl, _, writes, _⟩ := mem_lastWrites.1 member
                exact kept d (by simp) writes
              simpa [again, written, absent] using fun _ => kept
          · have other : (v, n) ∈ (if rest.any (·.dest? = some w) then lastWrites rest
                else (w, i.line) :: lastWrites rest) ↔ (v, n) ∈ lastWrites rest := by
              split <;> simp [same]
            have differs : i.dest? ≠ some v := by simpa [written] using Ne.symm same
            rw [other]
            simp [same, Ne.symm same, written]

theorem exists_foldl_noteWrite {latest : List (Bytes × Int)} {code : List Instruction} {v : Bytes} :
    (∃ n, (v, n) ∈ code.foldl noteWrite latest) ↔ (∃ n, (v, n) ∈ latest) ∨ ∃ j ∈ code, j.dest? = some v := by
  induction code generalizing latest with
  | nil => simp
  | cons i rest ih =>
      rw [List.foldl_cons, ih, noteWrite]
      cases written : i.dest? with
      | none => simp [written]
      | some w =>
          by_cases same : v = w
          · simp [written, same]
          · simp [written, same, Ne.symm same]

namespace Block

variable {b : Block}

theorem mem_latest_iff {v : Bytes} {n : Int} : (v, n) ∈ b.latest ↔ (v, n) ∈ lastWrites b.code := by
  simp [latest, mem_foldl_noteWrite]

theorem exists_latest_iff {v : Bytes} : (∃ n, (v, n) ∈ b.latest) ↔ ∃ j ∈ b.code, j.dest? = some v := by
  simp [latest, exists_foldl_noteWrite]

theorem writes_iff {d : Definition} :
    b.writes d = true ↔ b.function = d.function ∧ ∃ j ∈ b.code, j.dest? = some d.name := by
  simp [writes]

end Block

namespace Graph

variable {intrinsics : List Bytes} {entry : Bytes} {p : Program} {wires : List Wire} {g : Graph} {b : Block}

theorem mem_collected_iff {order : List Nat} (visits : ∀ id < g.size, id ∈ order) {d : Definition} :
    d ∈ g.collected order ↔ d ∈ g.definitions := by
  simp only [collected, definitions, List.mem_flatMap, List.mem_filterMap]
  refine exists_congr fun c => and_congr_left fun _ => ?_
  constructor
  · intro given
    obtain ⟨id, _, place⟩ := given
    exact List.mem_of_getElem? place
  · intro block
    obtain ⟨id, place⟩ := List.getElem?_of_mem block
    exact ⟨id, visits id (List.getElem?_eq_some_iff.1 place).1, place⟩

theorem sweep_eq {order : List Nat} (visits : ∀ id < g.size, id ∈ order) (b : Block) :
    g.sweep order b = (b.gen, b.kill g.definitions) := by
  have gen : LineSet.ofList (b.latest.map (·.2)) = b.gen := by
    apply LineSet.ext
    intro n
    simp [Block.gen, Block.mem_latest_iff]
  rw [sweep, gen, Prod.mk.injEq]
  refine ⟨rfl, LineSet.ext fun n => ?_⟩
  rw [LineSet.mem_ofList, List.mem_filter, Block.mem_kill_iff, decide_eq_true_eq]
  refine and_congr_left fun _ => ?_
  simp only [List.mem_flatMap, Prod.exists, List.mem_map, List.mem_filter, mem_collected_iff visits, Bool.and_eq_true,
    decide_eq_true_eq, Block.writes_iff, ← Block.exists_latest_iff]
  constructor
  · intro given
    rcases given with ⟨v, m, latest, d, ⟨member, owner, rfl⟩, line⟩
    exact ⟨d, member, ⟨owner.symm, m, latest⟩, line⟩
  · intro given
    rcases given with ⟨d, member, ⟨owner, m, latest⟩, line⟩
    exact ⟨d.name, m, latest, d, ⟨member, owner.symm, rfl⟩, line⟩

theorem BuiltFrom.mem_gen_or_kill_iff (built : g.BuiltFrom intrinsics p wires) (block : b ∈ g.blocks) {f : Function}
    (function : f ∈ p.functions) (owner : b.function = f.name) {n : Int} :
    n ∈ b.gen ∨ n ∈ b.kill g.definitions ↔
      ∃ v, (∃ j ∈ b.code, j.dest? = some v) ∧ ∃ d, f.Overwrites v d ∧ d.line = n := by
  rw [Block.mem_kill_iff]
  constructor
  · intro given
    rcases given with generated | ⟨⟨d, member, writes, line⟩, _⟩
    · obtain ⟨v, front, d, back, code, line, writes, _⟩ := Block.mem_gen_iff.1 generated
      have inside : d ∈ b.code := by simp [code]
      exact ⟨v, ⟨d, inside, writes⟩, d, ⟨built.mem_body_of_block function block owner inside, writes⟩, line⟩
    · obtain ⟨h, other, i, overwrites, named, same⟩ := built.mem_definitions_iff.1 member
      obtain ⟨alike, written⟩ := Block.writes_iff.1 writes
      obtain rfl := built.distinct.function_eq other function (by rw [← named, ← alike, owner])
      exact ⟨d.name, written, i, overwrites, same.symm.trans line⟩
  · intro given
    rcases given with ⟨v, written, d, overwrites, rfl⟩
    refine or_iff_not_imp_left.2 fun other => ⟨⟨⟨f.name, v, d.line⟩, ?_, ?_, rfl⟩, other⟩
    · exact built.mem_definitions_iff.2 ⟨f, function, d, overwrites, rfl, rfl⟩
    · exact Block.writes_iff.2 ⟨owner, written⟩

/-- What a block generates are its writes that no later instruction of it overwrites. It kills none of these, and both
together are all definitions in its function, reachable or not, of the variables that the block writes. So two sweeps
over the blocks find it, in the order of a walk or in any other. -/
theorem gen_kill_split_definitions (built : build intrinsics entry p = .ok g) {k : Nat}
    (place : g.blocks[k]? = some b) :
    ∃ f ∈ p.functions, f.name = b.function ∧ ∃ effect, g.equations.effects[k]? = some effect ∧
      (∀ n, n ∈ effect.gen ↔ ∃ v front d back, b.code = front ++ d :: back ∧ d.line = n ∧ d.dest? = some v ∧
        ∀ j ∈ back, j.dest? ≠ some v) ∧
      (∀ n, ¬(n ∈ effect.gen ∧ n ∈ effect.kill)) ∧
      (∀ n, n ∈ effect.gen ∨ n ∈ effect.kill ↔
        ∃ v, (∃ j ∈ b.code, j.dest? = some v) ∧ ∃ d ∈ f.body, d.dest? = some v ∧ d.line = n) ∧
      g.sweep g.order b = (effect.gen, effect.kill) ∧
      ∀ order, (∀ id < g.size, id ∈ order) → g.sweep order b = (effect.gen, effect.kill) := by
  obtain ⟨wires, built⟩ := exists_wires built
  have block := List.mem_of_getElem? place
  obtain ⟨f, function, named, _⟩ := built.function_of_block block
  refine ⟨f, function, named, _, effects_eq_some_iff.2 ⟨b, place, rfl⟩, ?_, ?_, ?_, ?_, ?_⟩
  · exact fun n => Block.mem_gen_iff
  · intro n both
    exact (Block.mem_kill_iff.1 both.2).2 both.1
  · intro n
    rw [built.mem_gen_or_kill_iff block function named.symm]
    simp only [Function.Overwrites, and_assoc]
  · exact sweep_eq (fun id bound => mem_order_iff.2 bound) b
  · exact fun order visits => sweep_eq visits b

def rewriting : Program := ⟨[
  { name := [109]
    body := [
      ⟨.assign, [⟨.variable, [120]⟩, ⟨.constant, [49]⟩], 1⟩,
      ⟨.assign, [⟨.variable, [120]⟩, ⟨.constant, [50]⟩], 2⟩,
      ⟨.ret, [], 3⟩,
      ⟨.assign, [⟨.variable, [120]⟩, ⟨.constant, [51]⟩], 4⟩] },
  { name := [103]
    body := [⟨.assign, [⟨.variable, [120]⟩, ⟨.constant, [52]⟩], 5⟩] }]⟩

def rewritten : Graph where
  blocks := [
    ⟨[109], ⟨.assign, [⟨.variable, [120]⟩, ⟨.constant, [49]⟩], 1⟩,
      [⟨.assign, [⟨.variable, [120]⟩, ⟨.constant, [50]⟩], 2⟩, ⟨.ret, [], 3⟩]⟩,
    ⟨[109], ⟨.assign, [⟨.variable, [120]⟩, ⟨.constant, [51]⟩], 4⟩, []⟩,
    ⟨[103], ⟨.assign, [⟨.variable, [120]⟩, ⟨.constant, [52]⟩], 5⟩, []⟩]
  entry := 0
  edges := []
  exits := [([109], 0), ([109], 1), ([103], 2)]

theorem first_write_killed_by_own_block :
    build [] [109] rewriting = .ok rewritten ∧
      ∃ effect, rewritten.equations.effects[0]? = some effect ∧ 2 ∈ effect.gen ∧ 2 ∉ effect.kill ∧
        (1 ∈ effect.gen ∨ 1 ∈ effect.kill) ∧ (4 ∈ effect.gen ∨ 4 ∈ effect.kill) ∧
        ¬(5 ∈ effect.gen ∨ 5 ∈ effect.kill) := by
  have built : build [] [109] rewriting = .ok rewritten := by cbv
  obtain ⟨f, function, named, effect, found, generated, disjoint, split, _⟩ :=
    gen_kill_split_definitions built (k := 0) rfl
  have main : f = rewriting.functions[0] := by
    rcases List.mem_pair.1 function with rfl | rfl
    · rfl
    · cases named
  subst main
  have latest : 2 ∈ effect.gen := (generated 2).2 ⟨[120], [_], _, [_], rfl, rfl, rfl, by decide⟩
  have writes : ∃ j ∈ rewritten.blocks[0].code, j.dest? = some [120] := ⟨_, List.mem_cons_self, rfl⟩
  refine ⟨built, effect, found, latest, fun killed => disjoint 2 ⟨latest, killed⟩, ?_, ?_, ?_⟩
  · exact (split 1).2 ⟨[120], writes, _, List.mem_cons_self, rfl, rfl⟩
  · exact (split 4).2 ⟨[120], writes, rewriting.functions[0].body[3], List.getElem_mem _, rfl, rfl⟩
  · intro either
    obtain ⟨v, _, d, body, _, line⟩ := (split 5).1 either
    have others : ∀ d ∈ rewriting.functions[0].body, d.line ≠ 5 := by decide
    exact others d body line

end Graph

end Deadwood

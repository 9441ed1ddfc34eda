import Deadwood.Dataflow.LineSet
import Deadwood.Proofs.Flow.Control
import Deadwood.Proofs.Flow.Leaders
import Deadwood.Proofs.Flow.Order
import Mathlib.Computability.Primrec.List
import Mathlib.Computability.TuringMachine.StackTuringMachine
import Mathlib.Data.List.Permutation

/-!
Where instructions stand. The blocks of a graph partition the program it was built from, one block for each leader, and
every way to look for an instruction finds the block that holds it, whether or not control can get there.
-/

namespace Deadwood

theorem LineSet.size_ofList {lines : List Int} (distinct : lines.Nodup) :
    (LineSet.ofList lines).size = lines.length := by
  apply List.Perm.length_eq
  apply (List.perm_ext_iff_of_nodup _ distinct).2
  · intro n
    exact LineSet.mem_ofList
  · exact (LineSet.ofList lines).nodup_lines

namespace Function

variable {intrinsics : List Bytes} {f : Function}

theorem map_leader_blocks (intrinsics : List Bytes) (f : Function) :
    (f.blocks intrinsics).map (·.leader) = f.leaders intrinsics := by
  rw [leaders, ← map_runs, blocks, List.map_map]
  rfl

theorem leaders_sublist (intrinsics : List Bytes) (f : Function) : (f.leaders intrinsics).Sublist f.body :=
  leadersFrom_sublist intrinsics true f.body

end Function

namespace Program

variable {intrinsics : List Bytes} {p : Program}

theorem map_leader_blocks (intrinsics : List Bytes) (p : Program) :
    (p.blocks intrinsics).map (·.leader) = p.leaders intrinsics := by
  rw [blocks, leaders, List.map_flatMap]
  simp only [Function.map_leader_blocks]

theorem leaders_sublist (intrinsics : List Bytes) (p : Program) : (p.leaders intrinsics).Sublist p.code :=
  List.Sublist.flatMap_right _ fun f _ => f.leaders_sublist intrinsics

theorem Distinct.mem_leaders_iff (distinct : p.Distinct) {f : Function} (function : f ∈ p.functions) {i : Instruction}
    (body : i ∈ f.body) : i ∈ p.leaders intrinsics ↔ f.Begins intrinsics i := by
  rw [← Function.mem_leaders_iff, leaders, List.mem_flatMap]
  constructor
  · intro given
    rcases given with ⟨h, other, member⟩
    rwa [distinct.owner_eq function other body ((h.leaders_sublist intrinsics).subset member)]
  · exact fun member => ⟨f, function, member⟩

theorem Distinct.filter_blocks (distinct : p.Distinct) {f : Function} (function : f ∈ p.functions) :
    (p.blocks intrinsics).filter (·.function = f.name) = f.blocks intrinsics := by
  rcases List.append_of_mem function with ⟨before, after, functions⟩
  have foreign {others : List Function} (apart : ∀ h ∈ others, h.name ≠ f.name) :
      (others.flatMap (·.blocks intrinsics)).filter (·.function = f.name) = [] := by
    rw [List.filter_eq_nil_iff]
    intro b member
    rcases List.mem_flatMap.1 member with ⟨h, other, here⟩
    rw [decide_eq_true_eq, Function.function_of_mem_blocks here]
    exact apart h other
  have own : (f.blocks intrinsics).filter (·.function = f.name) = f.blocks intrinsics := by
    rw [List.filter_eq_self]
    intro b member
    rw [decide_eq_true_eq]
    exact Function.function_of_mem_blocks member
  rw [Program.blocks_split functions, List.filter_append, List.filter_append, own,
    foreign fun h other => distinct.name_ne functions (List.mem_append_left _ other),
    foreign fun h other => distinct.name_ne functions (List.mem_append_right _ other)]
  simp

end Program

namespace Graph.BuiltFrom

variable {intrinsics : List Bytes} {p : Program} {wires : List Wire} {g : Graph}

theorem code_eq (built : g.BuiltFrom intrinsics p wires) : g.code = p.code := by
  rw [code, built.blocks, p.code_blocks intrinsics]

theorem mem_code (built : g.BuiltFrom intrinsics p wires) {b : Block} {i : Instruction} (block : b ∈ g.blocks)
    (member : i ∈ b.code) : i ∈ p.code := by
  obtain ⟨f, function, _, code⟩ := built.function_of_block block
  exact Program.mem_code_iff.2 ⟨f, function, code i member⟩

theorem blockOf?_eq (built : g.BuiltFrom intrinsics p wires) {k : Nat} {b : Block} {i : Instruction}
    (place : g.blocks[k]? = some b) (member : i ∈ b.code) : g.blockOf? i.line = some k := by
  obtain ⟨bound, rfl⟩ := List.getElem?_eq_some_iff.1 place
  refine List.findIdx?_eq_some_iff_getElem.2 ⟨bound, Block.holds_iff.2 ⟨i, member, rfl⟩, fun l less held => ?_⟩
  obtain ⟨j, inside, same⟩ := Block.holds_iff.1 held
  have place' := List.getElem?_eq_getElem (Nat.lt_trans less bound)
  have unique : j = i := built.distinct.instruction_eq (built.mem_code (List.mem_of_getElem? place') inside)
    (built.mem_code (List.mem_of_getElem? place) member) same
  have spot := built.block_eq place' place (unique ▸ inside) member
  omega

theorem functionOf?_eq (built : g.BuiltFrom intrinsics p wires) {k : Nat} {b : Block} {i : Instruction}
    (place : g.blocks[k]? = some b) (member : i ∈ b.code) : g.functionOf? i.line = some b.function := by
  rw [functionOf?]
  cases found : g.blocks.find? (·.holds i.line) with
  | none =>
      have absent := List.find?_eq_none.1 found b (List.mem_of_getElem? place)
      exact (absent (Block.holds_iff.2 ⟨i, member, rfl⟩)).elim
  | some c =>
      have held := List.find?_some found
      rcases Block.holds_iff.1 held with ⟨j, inside, same⟩
      rcases List.getElem?_of_mem (List.mem_of_find?_eq_some found) with ⟨l, place'⟩
      have spot := built.blockOf?_eq place' inside
      rw [same, built.blockOf?_eq place member] at spot
      cases spot
      rw [place] at place'
      cases place'
      rfl

theorem find?_eq (built : g.BuiltFrom intrinsics p wires) {k : Nat} {b : Block} {i : Instruction}
    (place : g.blocks[k]? = some b) (member : i ∈ b.code) : g.find? i = some k := by
  have bound : k < g.size := (List.getElem?_eq_some_iff.1 place).1
  cases found : g.find? i with
  | none =>
      have absent := List.find?_eq_none.1 found k (mem_order_iff.2 bound)
      simp [place, member] at absent
  | some l =>
      have held := List.find?_some found
      rw [Option.any_eq_true] at held
      rcases held with ⟨c, place', inside⟩
      rw [built.block_eq place' place (by simpa using inside) member]

theorem size_leaders (built : g.BuiltFrom intrinsics p wires) : (LineSet.ofList g.leaders).size = g.size := by
  rw [LineSet.size_ofList, leaders, List.length_map, size]
  have lines : g.leaders = (p.leaders intrinsics).map (·.line) := by
    rw [leaders, ← p.map_leader_blocks intrinsics, ← built.blocks, List.map_map]
    rfl
  rw [lines]
  exact built.distinct.lines.sublist ((p.leaders_sublist intrinsics).map _)

theorem not_leader_of_mem_others (built : g.BuiltFrom intrinsics p wires) {b : Block} (block : b ∈ g.blocks)
    {i : Instruction} (member : i ∈ b.others) : i ∉ p.leaders intrinsics := by
  intro leads
  rw [← p.map_leader_blocks intrinsics, ← built.blocks] at leads
  rcases List.mem_map.1 leads with ⟨c, other, rfl⟩
  rcases List.getElem?_of_mem block with ⟨k, place⟩
  rcases List.getElem?_of_mem other with ⟨l, place'⟩
  obtain rfl := built.block_eq place place' (List.mem_cons_of_mem _ member) c.leader_mem
  rw [place] at place'
  cases place'
  have nodup := built.distinct.code_nodup_of_block (built.blocks ▸ block)
  exact (List.nodup_cons.1 nodup).1 member

theorem exists_block (built : g.BuiltFrom intrinsics p wires) {f : Function} (function : f ∈ p.functions)
    {i : Instruction} (body : i ∈ f.body) :
    ∃ (k : Nat) (b : Block), g.blocks[k]? = some b ∧ b.function = f.name ∧ i ∈ b.code := by
  rcases (Function.mem_body_iff intrinsics).1 body with ⟨b, here, member⟩
  rcases List.getElem?_of_mem (built.mem_blocks_iff.2 ⟨f, function, here⟩) with ⟨k, place⟩
  exact ⟨k, b, place, Function.function_of_mem_blocks here, member⟩

end Graph.BuiltFrom

theorem Block.ends_of_joined {intrinsics : List Bytes} {b : Block}
    (joined : b.code.IsChain (Instruction.Joins intrinsics)) {front back : List Instruction} {i : Instruction}
    (code : b.code = front ++ i :: back) :
    (i.closes intrinsics = true → back = []) ∧ (i.op = .label → front = []) := by
  rw [code] at joined
  constructor
  · intro closes
    cases back with
    | nil => rfl
    | cons j back =>
        have joins := (List.isChain_append_cons_cons.1 joined).2.1
        rw [joins.1] at closes
        cases closes
  · intro label
    rcases List.eq_nil_or_concat' front with none | ⟨earlier, j, rfl⟩
    · exact none
    · rw [List.append_assoc] at joined
      exact ((List.isChain_append_cons_cons.1 joined).2.1.2 label).elim

namespace Graph

variable {intrinsics : List Bytes} {entry : Bytes} {p : Program} {g : Graph}

/-- The blocks of a graph partition its program, in program order. There is one for each leader, which stands first in
it; an instruction that diverts control stands only last in a block and a label only first. A line, a walk and the list
of functions all lead to the block and the function that hold an instruction. -/
theorem blocks_partition_program (built : build intrinsics entry p = .ok g) :
    (∀ f ∈ p.functions, (g.blocks.filter (·.function = f.name)).flatMap (·.code) = f.body) ∧
      g.code = p.code ∧ g.blocks.map (·.leader) = p.leaders intrinsics ∧
      g.ids = List.range (p.leaders intrinsics).length ∧ (LineSet.ofList g.leaders).size = g.size ∧
      (∀ f ∈ p.functions, ∀ i ∈ f.body, i ∈ p.leaders intrinsics ↔ f.Begins intrinsics i) ∧
      (∀ b ∈ g.blocks, b.leader ∈ p.leaders intrinsics ∧ (∀ i ∈ b.others, i ∉ p.leaders intrinsics) ∧
        ∀ front i back, b.code = front ++ i :: back →
          (i.Diverts intrinsics → back = []) ∧ (i.op = .label → front = [])) ∧
      ∀ f ∈ p.functions, ∀ i ∈ f.body, ∃ k b, g.blocks[k]? = some b ∧ i ∈ b.code ∧ b.function = f.name ∧
        g.blockOf? i.line = some k ∧ g.find? i = some k ∧ g.functionOf? i.line = some f.name := by
  rcases exists_wires built with ⟨wires, built⟩
  have distinct := built.distinct
  refine ⟨?_, ?_, ?_, ?_, ?_, ?_, ?_, ?_⟩
  · intro f function
    rw [built.blocks, distinct.filter_blocks function]
    exact f.code_blocks intrinsics
  · exact built.code_eq
  · rw [built.blocks, p.map_leader_blocks intrinsics]
  · rw [ids, size, built.blocks, ← p.map_leader_blocks intrinsics, List.length_map]
  · exact built.size_leaders
  · intro f function i body
    exact distinct.mem_leaders_iff function body
  · intro b block
    rcases built.mem_blocks_iff.1 block with ⟨f, function, here⟩
    refine ⟨?_, fun i member => built.not_leader_of_mem_others block member, ?_⟩
    · rw [← p.map_leader_blocks intrinsics, ← built.blocks]
      exact List.mem_map_of_mem block
    · intro front i back code
      rw [← Instruction.closes_iff]
      exact Block.ends_of_joined (Function.joined_of_mem_blocks here) code
  · intro f function i body
    rcases built.exists_block function body with ⟨k, b, place, owner, member⟩
    refine ⟨k, b, place, member, owner, built.blockOf?_eq place member, built.find?_eq place member, ?_⟩
    rw [built.functionOf?_eq place member, owner]

def strandedWrite : Instruction := ⟨.assign, [⟨.variable, [120]⟩, ⟨.constant, [49]⟩], 5⟩

def stranding : Program := ⟨[
  { name := [109]
    body := [
      ⟨.call, [⟨.function, [103]⟩], 1⟩,
      ⟨.call, [⟨.function, [112]⟩, ⟨.variable, [120]⟩], 2⟩,
      ⟨.ret, [], 3⟩,
      ⟨.label, [⟨.label, [76]⟩], 4⟩,
      strandedWrite] },
  { name := [103]
    body := [⟨.ret, [], 7⟩] }]⟩

def stranded : Graph where
  blocks := [
    ⟨[109], ⟨.call, [⟨.function, [103]⟩], 1⟩, []⟩,
    ⟨[109], ⟨.call, [⟨.function, [112]⟩, ⟨.variable, [120]⟩], 2⟩, [⟨.ret, [], 3⟩]⟩,
    ⟨[109], ⟨.label, [⟨.label, [76]⟩], 4⟩, [strandedWrite]⟩,
    ⟨[103], ⟨.ret, [], 7⟩, []⟩]
  entry := 0
  edges := [(0, 3), (3, 1)]
  exits := [([109], 1), ([109], 2), ([103], 3)]

theorem stranded_write_found :
    build [[112]] [109] stranding = .ok stranded ∧ stranded.code = stranding.code ∧
      stranded.blocks.map (·.leader) = stranding.leaders [[112]] ∧
      ∃ k b, stranded.blocks[k]? = some b ∧ strandedWrite ∈ b.code ∧ b.function = [109] ∧
        stranded.blockOf? 5 = some k ∧ stranded.find? strandedWrite = some k ∧ stranded.functionOf? 5 = some [109] := by
  -- The Computability files have the equations of `lookup` and `isNone` that this evaluation takes.
  have built : build [[112]] [109] stranding = .ok stranded := by cbv
  rcases blocks_partition_program built with ⟨_, code, leaders, _, _, _, _, found⟩
  exact ⟨built, code, leaders, found _ List.mem_cons_self strandedWrite (by simp)⟩

end Graph

end Deadwood

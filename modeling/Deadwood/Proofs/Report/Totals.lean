import Deadwood.Proofs.Dataflow.Remnant
import Deadwood.Report.Summary
import Mathlib.Algebra.Ring.Int.Defs

/-!
What is counted of an analysis is what there is. The counts come from different stages, the critical set, the graph and
the definitions, and agree with the program that is left and with the rows of its functions.
-/

namespace Deadwood

namespace Program

theorem size_eq_sum (p : Program) : p.size = (p.functions.map (·.body.length)).sum := List.length_flatMap

end Program

namespace Block

theorem length_definitions (b : Block) : b.definitions.length = b.code.countP (·.dest?.isSome) := by
  rw [definitions, List.length_filterMap_eq_countP]
  simp only [Option.isSome_map]

end Block

namespace Extent

theorem sum_removed (extents : List Extent) :
    (extents.map (·.removed)).sum = (extents.map (·.before)).sum - (extents.map (·.after)).sum := by
  induction extents with
  | nil => rfl
  | cons e rest ih =>
      have own : e.removed = e.before - e.after := rfl
      simp only [List.map_cons, List.sum_cons, ih, own]
      omega

end Extent

namespace Graph.BuiltFrom

variable {intrinsics : List Bytes} {p : Program} {wires : List Wire} {g : Graph}

theorem size_eq_sum (built : g.BuiltFrom intrinsics p wires) :
    g.size = (p.functions.map fun f => (g.blocks.filter (·.function = f.name)).length).sum := by
  have own : p.functions.map (fun f => (g.blocks.filter (·.function = f.name)).length) =
      p.functions.map fun f => (f.blocks intrinsics).length := by
    refine List.map_congr_left fun f function => ?_
    rw [built.blocks, built.distinct.filter_blocks function]
  rw [own, size, built.blocks]
  exact List.length_flatMap

theorem length_definitions (built : g.BuiltFrom intrinsics p wires) :
    g.definitions.length = p.code.countP (·.dest?.isSome) := by
  rw [← built.code_eq, code, List.countP_flatMap, definitions, List.length_flatMap]
  simp only [Block.length_definitions]
  rfl

theorem size_gen_le (built : g.BuiltFrom intrinsics p wires) :
    (LineSet.unions (g.blocks.map (·.gen))).size ≤ p.code.countP (·.dest?.isSome) := by
  have writing : (LineSet.unions (g.blocks.map (·.gen))).lines ⊆
      (p.code.filter (·.dest?.isSome)).map (·.line) := by
    intro n member
    rcases LineSet.mem_unions.1 member with ⟨gen, listed, member⟩
    rcases List.mem_map.1 listed with ⟨b, block, rfl⟩
    rcases Block.mem_gen_iff.1 member with ⟨v, front, d, back, code, rfl, written, _⟩
    have code : d ∈ p.code := built.mem_code block (by simp [code])
    exact List.mem_map_of_mem (List.mem_filter.2 ⟨code, by simp [written]⟩)
  have fewer := (List.subperm_of_subset (LineSet.nodup_lines _) writing).length_le
  rwa [List.length_map, ← List.countP_eq_length_filter] at fewer

end Graph.BuiltFrom

namespace Analysis

variable {s : Settings} {p : Program} {a : Analysis}

theorem critical_perm (analysed : Analysis.run s p = .ok a) :
    a.critical.lines.Perm (a.optimized.code.map (·.line)) := by
  rcases exists_solution analysed with ⟨g, wires, solution, built, _, _⟩
  have left : a.optimized.code = p.code.filter a.isCritical := by rw [optimized_eq analysed, Program.code_filter]
  rw [left]
  apply (List.perm_ext_iff_of_nodup _ _).2
  · intro n
    rw [List.mem_map]
    constructor
    · intro critical
      rcases exists_of_mem_critical analysed critical with ⟨i, code, rfl⟩
      exact ⟨i, List.mem_filter.2 ⟨code, isCritical_iff.2 critical⟩, rfl⟩
    · rintro ⟨i, member, rfl⟩
      exact isCritical_iff.1 (List.mem_filter.1 member).2
  · exact a.critical.nodup_lines
  · exact built.distinct.lines.sublist (List.filter_sublist.map _)

theorem program_eq (analysed : Analysis.run s p = .ok a) : a.program = p := by
  rcases exists_solution analysed with ⟨g, wires, solution, _, _, rfl⟩
  rfl

theorem before_eq (analysed : Analysis.run s p = .ok a) : a.stats.before = p.size := by
  rcases exists_solution analysed with ⟨g, wires, solution, _, _, rfl⟩
  rfl

theorem blocks_eq_sum (analysed : Analysis.run s p = .ok a) :
    a.stats.blocks = (p.functions.map fun f => (a.solved.graph.blocks.filter (·.function = f.name)).length).sum := by
  rcases exists_solution analysed with ⟨g, wires, solution, built, _, rfl⟩
  exact built.size_eq_sum

theorem after_eq (analysed : Analysis.run s p = .ok a) : a.stats.after = a.optimized.size := by
  have counted := (critical_perm analysed).length_eq
  rw [List.length_map] at counted
  rcases exists_solution analysed with ⟨g, wires, solution, _, _, rfl⟩
  exact counted

theorem size_optimized (analysed : Analysis.run s p = .ok a) :
    a.optimized.size = (p.functions.map a.kept).sum := by
  rw [optimized_eq analysed, Program.size_eq_sum, Program.functions_filter, List.map_map]
  rfl

theorem size_optimized_le (analysed : Analysis.run s p = .ok a) : a.optimized.size ≤ p.size := by
  rw [optimized_eq analysed, Program.size, Program.size, Program.code_filter]
  exact List.length_filter_le _ _

theorem total_eq_sum (analysed : Analysis.run s p = .ok a) :
    a.total.blocks = (a.extents.map (·.blocks)).sum ∧ a.total.before = (a.extents.map (·.before)).sum ∧
      a.total.after = (a.extents.map (·.after)).sum ∧ a.total.removed = (a.extents.map (·.removed)).sum := by
  have program : a.program = p := program_eq analysed
  have blocks : a.total.blocks = (a.extents.map (·.blocks)).sum := by
    rw [extents, List.map_map, program]
    exact blocks_eq_sum analysed
  have before : a.total.before = (a.extents.map (·.before)).sum := by
    rw [extents, List.map_map, program]
    exact (before_eq analysed).trans p.size_eq_sum
  have after : a.total.after = (a.extents.map (·.after)).sum := by
    rw [extents, List.map_map, program]
    exact (after_eq analysed).trans (size_optimized analysed)
  refine ⟨blocks, before, after, ?_⟩
  rw [Extent.sum_removed, ← before, ← after]
  rfl

/-- The counts of an analysis are those of the program that it leaves, and the row for a file in the table of sizes has
in every column the sum over the functions of the file. -/
theorem stats_agree (analysed : Analysis.run s p = .ok a) :
    a.optimized.functions = p.functions.map (fun f => { f with body := f.body.filter (·.line ∈ a.critical) }) ∧
      a.stats.after = a.optimized.size ∧ a.stats.after = (p.functions.map a.kept).sum ∧ a.stats.before = p.size ∧
      0 ≤ a.stats.removed ∧ a.stats.removed = a.stats.before - a.stats.after ∧
      a.stats.blocks = a.stats.leaders ∧
      a.stats.blocks = (p.functions.map fun f => (a.solved.graph.blocks.filter (·.function = f.name)).length).sum ∧
      a.stats.definitions = p.code.countP (·.dest?.isSome) ∧
      (LineSet.unions (a.solved.graph.blocks.map (·.gen))).size ≤ a.stats.definitions ∧
      a.extents.map (·.name) = p.functions.map (·.name) ∧
      ∀ file, a.total.cells file = [file, bytes "(total)",
        Bytes.ofNat (a.extents.map (·.blocks)).sum, Bytes.ofNat (a.extents.map (·.before)).sum,
        Bytes.ofNat (a.extents.map (·.after)).sum, Bytes.ofInt (a.extents.map (·.removed)).sum] := by
  have left := optimized_eq analysed
  have after := after_eq analysed
  have kept := size_optimized analysed
  have before := before_eq analysed
  have fewer := size_optimized_le analysed
  have blocks := blocks_eq_sum analysed
  have total := total_eq_sum analysed
  rcases exists_solution analysed with ⟨g, wires, solution, built, _, rfl⟩
  have defined := built.length_definitions
  refine ⟨?_, after, after.trans kept, before, ?_, rfl, built.size_leaders.symm, blocks, defined, ?_, ?_, ?_⟩
  · rw [left, Program.functions_filter]
    rfl
  · rw [Stats.removed, after, before]
    omega
  · calc (LineSet.unions (g.blocks.map (·.gen))).size
      _ ≤ p.code.countP (·.dest?.isSome) := built.size_gen_le
      _ = g.definitions.length := defined.symm
  · rw [extents, List.map_map]
    rfl
  · intro file
    rcases total with ⟨blocks, before, after, removed⟩
    rw [Extent.cells, blocks, before, after, removed]
    rfl

def hollow : Program := ⟨[
  { name := [109]
    body := [
      ⟨.assign, [⟨.variable, [120]⟩, ⟨.constant, [49]⟩], 1⟩,
      ⟨.call, [⟨.function, [112]⟩, ⟨.variable, [120]⟩], 2⟩,
      ⟨.ret, [], 3⟩,
      ⟨.assign, [⟨.variable, [120]⟩, ⟨.constant, [50]⟩], 4⟩] },
  { name := [104]
    body := [] },
  { name := [103]
    body := [⟨.label, [⟨.label, [76]⟩], 7⟩, ⟨.ret, [], 8⟩] }]⟩

theorem hollow_stats_agree :
    ∃ a, Analysis.run ⟨.referenced, [[112]], [109], 0, 0⟩ hollow = .ok a ∧ a.stats = ⟨3, 3, 3, 2, 2, 6, 4⟩ ∧
      a.extents = [⟨[109], 2, 4, 3⟩, ⟨[104], 0, 0, 0⟩, ⟨[103], 1, 2, 1⟩] ∧ a.optimized.size = 4 ∧
      a.total.cells [] = [[], bytes "(total)", bytes "3", bytes "6", bytes "4", bytes "2"] := by
  have evaluated : (Analysis.run ⟨.referenced, [[112]], [109], 0, 0⟩ hollow).map (fun a => (a.stats, a.extents)) =
      .ok (⟨3, 3, 3, 2, 2, 6, 4⟩, [⟨[109], 2, 4, 3⟩, ⟨[104], 0, 0, 0⟩, ⟨[103], 1, 2, 1⟩]) := by cbv
  rcases Except.map_eq_ok.1 evaluated with ⟨a, analysed, counts⟩
  rcases Prod.mk.inj counts with ⟨stats, extents⟩
  rcases stats_agree analysed with ⟨_, after, _, _, _, _, _, _, _, _, _, row⟩
  refine ⟨a, analysed, stats, extents, ?_, ?_⟩
  · rw [← after, stats]
  · rw [row, extents]
    decide +kernel

end Analysis

end Deadwood

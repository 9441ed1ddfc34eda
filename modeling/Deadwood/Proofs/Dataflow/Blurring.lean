import Deadwood.Proofs.Dataflow.Remnant
import Deadwood.Proofs.Dataflow.Renaming
import Deadwood.Proofs.Program.Numbering

/-!
Neither what a line is called nor whether an operand is an array makes a difference to the analysis. Programs that
differ in nothing else have the same counts, and what is left of them is written alike.
-/

namespace Deadwood

namespace Operand

@[simp] theorem isStorage_blurred (o : Operand) : o.blurred.isStorage = o.isStorage := by
  rcases o with ⟨kind, name⟩
  cases kind <;> rfl

end Operand

namespace Instruction

@[simp] theorem callee?_blurred (i : Instruction) : i.blurred.callee? = i.callee? := by
  rcases i with ⟨op, operands, line⟩
  cases op <;> simp [callee?, blurred, Function.comp_def]

@[simp] theorem dest?_blurred (i : Instruction) : i.blurred.dest? = i.dest? := by
  rcases i with ⟨op, operands, line⟩
  cases operands <;> simp [dest?, blurred]

@[simp] theorem reads_blurred (i : Instruction) : i.blurred.reads = i.reads := by
  have taken : (if i.op.readsFirst then i.blurred.operands else i.blurred.operands.drop 1) =
      (if i.op.readsFirst then i.operands else i.operands.drop 1).map Operand.blurred := by
    split
    · rfl
    · exact (List.map_drop ..).symm
  have storage : (Operand.isStorage ∘ Operand.blurred) = Operand.isStorage := funext Operand.isStorage_blurred
  rw [reads, reads, op_blurred, taken, List.filter_map, List.map_map, storage]
  rfl

end Instruction

namespace Renaming

def ofLine (line : Int → Int) (injective : Function.Injective line) : Renaming :=
  ⟨line, fun _ => id, injective, fun _ _ _ same => same⟩

variable {line : Int → Int} (injective : Function.Injective line)

theorem takes_of_blurred {i j : Instruction} (function : Bytes) (same : j.blurred = (i.renumbered line).blurred) :
    (ofLine line injective).Takes function i j where
  op := (congrArg Instruction.op same :)
  line := congrArg Instruction.line same
  target := by
    rw [← j.target?_blurred, same, Instruction.target?_blurred]
    rfl
  callee := by
    rw [← j.callee?_blurred, same, Instruction.callee?_blurred]
    rfl
  dest := by
    rw [← j.dest?_blurred, same, Instruction.dest?_blurred]
    exact Option.map_id_apply.symm
  reads := by
    intro v
    rw [← j.reads_blurred, same, Instruction.reads_blurred]
    exact iff_of_eq (congrArg (v ∈ ·) (List.map_id _).symm)

theorem takesProgram_of_alike {p q : Program} (alike : Program.AlikeUnder line p q) :
    (ofLine line injective).TakesProgram p q := by
  have functions : List.Forall₂ (fun f g => Function.blurred g = (Function.renumbered line f).blurred)
      p.functions q.functions := by
    have lists := congrArg Program.functions alike.symm
    simp only [Program.blurred, Program.renumbered, List.map_map] at lists
    rw [← List.forall₂_eq_eq_eq, List.forall₂_map_left_iff, List.forall₂_map_right_iff] at lists
    exact lists.imp fun f g same => same.symm
  refine functions.imp ?_
  intro f g same
  have bodies := (congrArg Function.body same).symm
  simp only [Function.blurred, Function.renumbered, List.map_map] at bodies
  rw [← List.forall₂_eq_eq_eq, List.forall₂_map_left_iff, List.forall₂_map_right_iff] at bodies
  have name := congrArg Function.name same
  exact ⟨name, bodies.imp fun i j same => takes_of_blurred injective f.name same.symm⟩

end Renaming

namespace Analysis

variable {line : Int → Int} {p q : Program} {s : Settings} {a b : Analysis}

/-- The analysis of a program with other names of lines: the same lines under these names, the same counts, and the
same program left. -/
structure AlikeUnder (line : Int → Int) (a b : Analysis) : Prop where
  critical : b.critical = a.critical.map line
  stats : b.stats = a.stats
  optimized : Program.AlikeUnder line a.optimized b.optimized

theorem optimized_alike (injective : Function.Injective line) (programs : Program.AlikeUnder line p q)
    (analysed : run s p = .ok a) (analysed' : run s q = .ok b) (critical : b.critical = a.critical.map line) :
    Program.AlikeUnder line a.optimized b.optimized := by
  have kept (i : Instruction) : b.isCritical (i.renumbered line) = a.isCritical i := by
    simp only [isCritical, critical, Instruction.renumbered, LineSet.line_mem_map injective]
  rw [Program.AlikeUnder, optimized_eq analysed, optimized_eq analysed', Program.renumbered_filter line p kept,
    Program.blurred_filter, Program.blurred_filter, programs]
  · exact fun i => rfl
  · exact fun i => rfl

theorem run_alike (injective : Function.Injective line) (programs : Program.AlikeUnder line p q) (s : Settings) :
    (∀ e, run s p = .error e → run s q = .error (e.renumbered line)) ∧
      ∀ a, run s p = .ok a → ∃ b, run s q = .ok b ∧ AlikeUnder line a b := by
  rcases Renaming.run_takes (Renaming.takesProgram_of_alike injective programs) s with ⟨refused, accepted⟩
  refine ⟨refused, ?_⟩
  intro a analysed
  rcases accepted a analysed with ⟨b, analysed', takes⟩
  exact ⟨b, analysed', takes.critical, takes.stats,
    optimized_alike injective programs analysed analysed' takes.critical⟩

theorem run_eq_of_blurred {p q : Program} (same : p.blurred = q.blurred) (s : Settings) :
    (run s p).map (fun a => (a.optimized.text, a.stats)) = (run s q).map fun a => (a.optimized.text, a.stats) := by
  have alike : Program.AlikeUnder id p q := by
    rw [Program.AlikeUnder, Program.renumbered_id, same]
  rcases run_alike Function.injective_id alike s with ⟨refused, accepted⟩
  cases first : run s p with
  | error e =>
      have unchanged : e.renumbered id = e := by cases e <;> rfl
      rw [refused e first, unchanged]
  | ok a =>
      rcases accepted a first with ⟨b, second, alike⟩
      rw [second]
      exact congrArg Except.ok (Prod.ext alike.optimized.text_eq.symm alike.stats.symm)

end Analysis

end Deadwood

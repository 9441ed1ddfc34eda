import Deadwood.Proofs.Session.Caching

/-!
What the key of the cache leaves open. The canonical text shows how each instruction is written, but not what kinds its
operands are nor where one ends and the next begins. Programs with one canonical text have the same answer as long as
instructions that are written alike look alike to the analysis, as they do in programs that were read.
-/

namespace Deadwood

open Bytes

namespace Instruction

def seen (i : Instruction) : Opcode × Option Bytes × Option Bytes × Option Bytes × List Bytes :=
  (i.op, i.target?, i.callee?, i.dest?, i.reads)

def LooksLike (i j : Instruction) : Prop := i.line = j.line → i.text = j.text → i.seen = j.seen

instance (i j : Instruction) : Decidable (i.LooksLike j) := inferInstanceAs (Decidable (_ → _ → _))

end Instruction

namespace Function

structure Plain (f : Function) : Prop where
  returnType : space ∉ f.returnType
  name : 40 ∉ f.name

instance (f : Function) : Decidable f.Plain :=
  decidable_of_iff (space ∉ f.returnType ∧ 40 ∉ f.name)
    ⟨fun plain => ⟨plain.1, plain.2⟩, fun plain => ⟨plain.returnType, plain.name⟩⟩

theorem Plain.name_eq {f g : Function} (plain : f.Plain) (plain' : g.Plain) (same : f.header = g.header) :
    f.name = g.name := by
  rw [header_eq, header_eq] at same
  have named := (append_cons_inj plain.returnType plain'.returnType same).2
  exact (append_cons_inj plain.name plain'.name named).1

end Function

namespace Program

structure Plain (p : Program) : Prop where
  functions : ∀ f ∈ p.functions, f.Plain
  unbroken : p.Unbroken

instance (p : Program) : Decidable p.Plain :=
  decidable_of_iff ((∀ f ∈ p.functions, f.Plain) ∧ p.Unbroken)
    ⟨fun plain => ⟨plain.1, plain.2⟩, fun plain => ⟨plain.functions, plain.unbroken⟩⟩

theorem plain_of_read {source : Bytes} {p : Program} (read : Program.read source = .ok p) : p.Plain := by
  refine ⟨?_, unbroken_of_read read⟩
  intro f function
  have legible := legible_of_read read f function
  refine ⟨?_, legible.name.not_mem rfl⟩
  intro member
  have ink := legible.ink space member
  cases ink

def LooksAlike (p q : Program) : Prop := ∀ i ∈ p.code, ∀ j ∈ q.code, i.LooksLike j

instance (p q : Program) : Decidable (LooksAlike p q) := inferInstanceAs (Decidable (∀ i ∈ p.code, _))

theorem looksAlike_of_read {source source' : Bytes} {p q : Program} (read : Program.read source = .ok p)
    (read' : Program.read source' = .ok q) : LooksAlike p q := by
  have seen_blurred (i : Instruction) : i.blurred.seen = i.seen := by
    simp only [Instruction.seen, Instruction.op_blurred, Instruction.target?_blurred, Instruction.callee?_blurred,
      Instruction.dest?_blurred, Instruction.reads_blurred]
  intro i code j code' line text
  rcases mem_code_iff.1 code with ⟨f, function, body⟩
  rcases mem_code_iff.1 code' with ⟨g, function', body'⟩
  have legible := (legible_of_read read f function).body i body
  have legible' := (legible_of_read read' g function').body j body'
  rw [← seen_blurred i, ← seen_blurred j, legible.blurred_eq_of_text legible' line text]

theorem takes_of_canonical {p q : Program} (plain : p.Plain) (plain' : q.Plain) (same : p.canonical = q.canonical)
    (looks : LooksAlike p q) : Renaming.refl.TakesProgram p q := by
  have written := forall₂_mem (writtenAlike_of_canonical plain.unbroken plain'.unbroken same)
  refine written.imp ?_
  rintro f g ⟨function, function', alike⟩
  refine ⟨((plain.functions f function).name_eq (plain'.functions g function') alike.header).symm, ?_⟩
  refine (forall₂_mem alike.body).imp ?_
  rintro i j ⟨body, body', line, text⟩
  have seen := looks i (mem_code_iff.2 ⟨f, function, body⟩) j (mem_code_iff.2 ⟨g, function', body'⟩) line text
  simp only [Instruction.seen, Prod.mk.injEq] at seen
  rcases seen with ⟨op, target, callee, dest, reads⟩
  refine ⟨op.symm, line.symm, target.symm, callee.symm, ?_, ?_⟩
  · rw [← dest]
    exact Option.map_id_apply.symm
  · intro v
    rw [← reads]
    exact iff_of_eq (congrArg (v ∈ ·) (List.map_id _).symm)

end Program

namespace Analysis

variable {s : Settings} {p q : Program} {a b : Analysis}

def keptLines (a : Analysis) : List Int := a.optimized.code.map (·.line)

theorem keptLines_eq (analysed : run s p = .ok a) :
    a.keptLines = (p.code.map (·.line)).filter (· ∈ a.critical) := by
  rw [keptLines, optimized_eq analysed, Program.code_filter, List.filter_map]
  rfl

theorem kept_eq_of_takes (takes : Renaming.refl.TakesProgram p q) (s : Settings) :
    (run s p).map (fun a => (a.keptLines, a.stats)) = (run s q).map fun a => (a.keptLines, a.stats) := by
  rcases Renaming.run_takes takes s with ⟨refused, accepted⟩
  cases first : run s p with
  | error e =>
      have unchanged : e.renumbered id = e := by cases e <;> rfl
      have second := refused e first
      rw [second]
      exact congrArg Except.error unchanged.symm
  | ok a =>
      rcases accepted a first with ⟨b, second, related⟩
      have lines : p.code.map (·.line) = q.code.map (·.line) :=
        map_eq_of_forall₂ takes.code fun i j same => same.choose_spec.line.symm
      have critical : b.critical = a.critical := by
        apply LineSet.ext
        intro n
        rw [related.critical]
        exact LineSet.line_mem_map Renaming.refl.lines
      have kept : a.keptLines = b.keptLines := by
        rw [keptLines_eq first, keptLines_eq second, lines, critical]
      rw [second]
      exact congrArg Except.ok (Prod.ext kept related.stats.symm)

end Analysis

namespace Session

/-- What a session without a cache says to a program: the lines it keeps and the counts, or what is wrong. -/
def uncached (c : Config) (p : Program) : Except FlowError (List Int × Stats) :=
  ((start { c with cacheSize := 0 }).1.optimize p).1.answer.map fun result =>
    (result.program.code.map (·.line), result.stats)

theorem answer_compute (s : Session) (p : Program) :
    (s.compute p).1.answer =
      (Analysis.run s.settings p).map fun a => ⟨a.optimized, a.stats, s.tally.optimized⟩ := by
  rw [compute, analyze, ← Analysis.answer_report s.verbose]
  cases Analysis.report s.verbose s.settings p with
  | mk notices answer => cases answer <;> rfl

theorem uncached_eq (c : Config) (p : Program) :
    uncached c p = (Analysis.run { c with cacheSize := 0 }.settings p).map fun a => (a.keptLines, a.stats) := by
  rw [uncached, optimize_eq]
  split
  · rename_i empty
    rw [Analysis.run, Graph.build_of_empty empty]
    rfl
  · have missing : (start { c with cacheSize := 0 }).1.cache.get? p.digest = none := rfl
    rw [missing]
    dsimp only
    rw [answer_compute]
    show Except.map _ (Except.map _ (Analysis.run { c with cacheSize := 0 }.settings p)) = _
    cases Analysis.run { c with cacheSize := 0 }.settings p <;> rfl

/-- Of two programs with one canonical text the key keeps one answer, which is the answer of both if they were read, and
in general if instructions that are written alike look alike. -/
theorem key_determines_outcome (c : Config) :
    (∀ p q, (∃ source, Program.read source = .ok p) → (∃ source, Program.read source = .ok q) →
      p.canonical = q.canonical → uncached c p = uncached c q) ∧
    ∀ p q : Program, p.Plain → q.Plain → p.LooksAlike q → p.canonical = q.canonical →
      uncached c p = uncached c q := by
  have general (p q : Program) (plain : p.Plain) (plain' : q.Plain) (looks : p.LooksAlike q)
      (same : p.canonical = q.canonical) : uncached c p = uncached c q := by
    rw [uncached_eq, uncached_eq]
    exact Analysis.kept_eq_of_takes (Program.takes_of_canonical plain plain' same looks) _
  refine ⟨?_, general⟩
  intro p q given given' same
  rcases given with ⟨source, read⟩
  rcases given' with ⟨source', read'⟩
  have looks := Program.looksAlike_of_read read read'
  exact general p q (Program.plain_of_read read) (Program.plain_of_read read') looks same

def printing (operands : List Operand) : Program := ⟨[
  { name := [109]
    returnType := [118]
    body := [⟨.assign, [⟨.variable, [120]⟩, ⟨.constant, [49]⟩], 1⟩, ⟨.call, ⟨.function, [112]⟩ :: operands, 2⟩] }]⟩

/-- Where one constant ends and the next begins makes no difference. Whether `x` is a variable or a constant does, and
is not in the key. -/
theorem operand_kind_not_in_key :
    (printing [⟨.variable, [120]⟩, ⟨.constant, [49]⟩, ⟨.constant, [50]⟩]).canonical =
        (printing [⟨.variable, [120]⟩, ⟨.constant, [49, 44, 32, 50]⟩]).canonical ∧
      uncached ⟨[], some [[112]], [109], 0, 64⟩ (printing [⟨.variable, [120]⟩, ⟨.constant, [49]⟩, ⟨.constant, [50]⟩]) =
        uncached ⟨[], some [[112]], [109], 0, 64⟩ (printing [⟨.variable, [120]⟩, ⟨.constant, [49, 44, 32, 50]⟩]) ∧
      (printing [⟨.variable, [120]⟩]).canonical = (printing [⟨.constant, [120]⟩]).canonical ∧
      (uncached ⟨[], some [[112]], [109], 0, 64⟩ (printing [⟨.variable, [120]⟩])).map (·.1) = .ok [1, 2] ∧
      (uncached ⟨[], some [[112]], [109], 0, 64⟩ (printing [⟨.constant, [120]⟩])).map (·.1) = .ok [2] := by
  have same : (printing [⟨.variable, [120]⟩, ⟨.constant, [49]⟩, ⟨.constant, [50]⟩]).canonical =
      (printing [⟨.variable, [120]⟩, ⟨.constant, [49, 44, 32, 50]⟩]).canonical := by decide +kernel
  have settings : Config.settings ⟨[], some [[112]], [109], 0, 0⟩ = ⟨.all, [[112]], [109], 0, 0⟩ := by decide +kernel
  refine ⟨same, (key_determines_outcome _).2 _ _ ?_ ?_ ?_ same, by decide +kernel, ?_, ?_⟩
  · decide +kernel
  · decide +kernel
  · decide +kernel
  · rw [uncached_eq, settings]
    cbv
  · rw [uncached_eq, settings]
    cbv

end Session

end Deadwood

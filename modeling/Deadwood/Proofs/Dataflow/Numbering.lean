import Deadwood.Proofs.Dataflow.Blurring
import Mathlib.SetTheory.Cardinal.Arithmetic

/-!
A line number names an instruction and means nothing else. Whether a program can be analysed, what is critical and what
is left of it do not depend on the numbers, not even on their order, nor do empty lines, comments and another writing of
a text change what it is optimized to.
-/

namespace Deadwood

theorem exists_injective_of_injOn {α : Type} [Infinite α] {name : α → α} {old : List α}
    (injOn : Set.InjOn name {n | n ∈ old}) :
    ∃ name', Function.Injective name' ∧ ∀ n ∈ old, name' n = name n := by
  have finite : Cardinal.mk {n | n ∈ old} < Cardinal.mk α :=
    old.finite_toSet.lt_aleph0.trans_le (Cardinal.aleph0_le_mk α)
  rcases Cardinal.extend_function_of_lt ⟨_, injOn.injective⟩ finite ⟨.refl α⟩ with ⟨name', agree⟩
  exact ⟨name', name'.injective, fun n member => agree ⟨n, member⟩⟩

theorem Program.renumbered_congr {line line' : Int → Int} {p : Program}
    (same : ∀ i ∈ p.code, line i.line = line' i.line) : p.renumbered line = p.renumbered line' := by
  refine congrArg Program.mk (List.map_congr_left fun f function => ?_)
  refine congrArg (fun body => { f with body }) (List.map_congr_left fun i inside => ?_)
  exact congrArg (Instruction.mk i.op i.operands) (same i (Program.mem_code_iff.2 ⟨f, function, inside⟩))

def Program.optimizedText? (s : Settings) (p : Program) : Option Bytes := (p.optimize s).toOption.map (·.text)

namespace Analysis

variable {line : Int → Int} {p q : Program} {s : Settings} {a b : Analysis}

theorem critical_map_congr {line' : Int → Int} (analysed : run s p = .ok a)
    (same : ∀ i ∈ p.code, line i.line = line' i.line) : a.critical.map line = a.critical.map line' := by
  have agree : ∀ n ∈ a.critical, line n = line' n := by
    intro n critical
    rcases exists_of_mem_critical analysed critical with ⟨i, code, rfl⟩
    exact same i code
  exact congrArg LineSet.ofList (List.map_congr_left agree)

section

variable (injOn : Set.InjOn line {n | ∃ i ∈ p.code, i.line = n}) (alike : Program.AlikeUnder line p q) (s : Settings)

include injOn alike

theorem run_alike_of_injOn :
    (∀ e, run s p = .error e → ∃ e', run s q = .error e') ∧
      ∀ a, run s p = .ok a → ∃ b, run s q = .ok b ∧ b.stats = a.stats ∧ b.critical = a.critical.map line ∧
        b.optimized.text = a.optimized.text := by
  have finite : Set.InjOn line {n | n ∈ p.code.map (·.line)} := by
    intro n inside m inside'
    exact injOn (List.mem_map.1 inside) (List.mem_map.1 inside')
  rcases exists_injective_of_injOn finite with ⟨line', injective, agree⟩
  have same : ∀ i ∈ p.code, line' i.line = line i.line := fun i code => agree i.line (List.mem_map_of_mem code)
  have alike' : Program.AlikeUnder line' p q := by
    rw [Program.AlikeUnder, Program.renumbered_congr same]
    exact alike
  rcases run_alike injective alike' s with ⟨refused, accepted⟩
  refine ⟨fun e failed => ⟨_, refused e failed⟩, ?_⟩
  intro a analysed
  rcases accepted a analysed with ⟨b, analysed', related⟩
  exact ⟨b, analysed', related.stats, related.critical.trans (critical_map_congr analysed same),
    related.optimized.text_eq⟩

theorem optimizedText?_eq : p.optimizedText? s = q.optimizedText? s := by
  rcases run_alike_of_injOn injOn alike s with ⟨refused, accepted⟩
  rw [Program.optimizedText?, Program.optimizedText?, Program.optimize, Program.optimize]
  cases first : run s p with
  | error e =>
      rcases refused e first with ⟨e', second⟩
      rw [second]
      rfl
  | ok a =>
      rcases accepted a first with ⟨b, second, _, _, text⟩
      rw [second]
      exact congrArg some text.symm

end

theorem reading_immaterial {source : Bytes}
    (read : (∀ line ∈ source.lines, line.length < 65536) → ∃ q, Program.read source = .ok q ∧
      ∃ line, Set.InjOn line {n | ∃ i ∈ p.code, i.line = n} ∧ Program.AlikeUnder line p q) :
    ((∃ q, Program.read source = .ok q) ↔ ∀ line ∈ source.lines, line.length < 65536) ∧
      ∀ q, Program.read source = .ok q → ∀ s, q.optimizedText? s = p.optimizedText? s := by
  refine ⟨⟨fun given => ((Reader.exists_run_iff {} 0 _).1 given).short, ?_⟩, ?_⟩
  · intro short
    rcases read short with ⟨q, taken, _⟩
    exact ⟨q, taken⟩
  · intro q taken s
    rcases read ((Reader.exists_run_iff {} 0 _).1 ⟨q, taken⟩).short with ⟨other, taken', line, injOn, alike⟩
    rw [taken] at taken'
    cases taken'
    exact (optimizedText?_eq injOn alike s).symm

/-- Programs that differ in the names of their lines, and in which operands are arrays, are analysed or refused
together, with the same counts, the same critical lines under the new names, and the same text left. Hence neither empty
lines and comments nor writing and reading a program again changes what it is optimized to, unless they make a line that
is too long to read. -/
theorem numbering_immaterial :
    (∀ line p q, Set.InjOn line {n | ∃ i ∈ p.code, i.line = n} → Program.AlikeUnder line p q → ∀ s,
      ((∃ a, run s p = .ok a) ↔ ∃ b, run s q = .ok b) ∧
        ∀ a b, run s p = .ok a → run s q = .ok b →
          b.stats = a.stats ∧ b.critical = a.critical.map line ∧ b.optimized.text = a.optimized.text) ∧
    (∀ source source' p, Program.read source = .ok p →
      ProgramText.counting source.lines = ProgramText.counting source'.lines →
      ((∃ q, Program.read source' = .ok q) ↔ ∀ line ∈ source'.lines, line.length < 65536) ∧
        ∀ q, Program.read source' = .ok q → ∀ s, q.optimizedText? s = p.optimizedText? s) ∧
    ∀ source p, Program.read source = .ok p →
      ((∃ q, Program.read p.text = .ok q) ↔ ∀ line ∈ p.text.lines, line.length < 65536) ∧
        ∀ q, Program.read p.text = .ok q → ∀ s, q.optimizedText? s = p.optimizedText? s := by
  refine ⟨?_, ?_, ?_⟩
  · intro line p q injOn alike s
    rcases run_alike_of_injOn injOn alike s with ⟨refused, accepted⟩
    refine ⟨⟨?_, ?_⟩, ?_⟩
    · intro given
      rcases given with ⟨a, analysed⟩
      rcases accepted a analysed with ⟨b, analysed', _⟩
      exact ⟨b, analysed'⟩
    · intro given
      rcases given with ⟨b, analysed'⟩
      cases analysed : run s p with
      | ok a => exact ⟨a, rfl⟩
      | error e =>
          rcases refused e analysed with ⟨e', failed⟩
          rw [analysed'] at failed
          cases failed
    · intro a b analysed analysed'
      rcases accepted a analysed with ⟨c, other, related⟩
      rw [analysed'] at other
      cases other
      exact related
  · intro source source' p read same
    exact reading_immaterial fun short => Program.exists_alike_of_counting read same short
  · intro source p read
    exact reading_immaterial fun short => Program.exists_alike_of_text read short

def commented : Bytes :=
  bytes "# sums\n#start_function\n\nint main():\n\nint-list: a[2]\nassign,x,1\n# dead\n assign, y , 2\n" ++
    bytes "array_load, z, a, x\nreturn,z,\n#end_function\n"

def uncommented : Bytes :=
  bytes "#start_function\nint main():\nint-list: a[2]\nassign,x,1\nassign, y , 2\narray_load, z, a, x\n" ++
    bytes "return,z,\n#end_function"

def loaded (kind : OperandKind) (first second third fourth : Int) : Program := ⟨[
  { name := bytes "main"
    returnType := bytes "int"
    ints := [bytes "a[2]"]
    body := [
      ⟨.assign, [⟨.variable, bytes "x"⟩, ⟨.constant, bytes "1"⟩], first⟩,
      ⟨.assign, [⟨.variable, bytes "y"⟩, ⟨.constant, bytes "2"⟩], second⟩,
      ⟨.arrayLoad, [⟨.variable, bytes "z"⟩, ⟨kind, bytes "a"⟩, ⟨.variable, bytes "x"⟩], third⟩,
      ⟨.ret, [⟨.variable, bytes "z"⟩], fourth⟩] }]⟩

theorem commented_loaded_alike :
    Program.read commented = .ok (loaded .array 7 9 10 11) ∧
      Program.read uncommented = .ok (loaded .array 4 5 6 7) ∧
      (∀ s, (loaded .array 4 5 6 7).optimizedText? s = (loaded .array 7 9 10 11).optimizedText? s) ∧
      ∀ s, ((∃ a, run s (loaded .array 7 9 10 11) = .ok a) ↔ ∃ b, run s (loaded .variable 3 1 0 (-1)) = .ok b) ∧
        ∀ a b, run s (loaded .array 7 9 10 11) = .ok a → run s (loaded .variable 3 1 0 (-1)) = .ok b →
          b.stats = a.stats ∧ b.critical = a.critical.map (10 - ·) ∧ b.optimized.text = a.optimized.text := by
  have read : Program.read commented = .ok (loaded .array 7 9 10 11) := by decide +kernel
  have read' : Program.read uncommented = .ok (loaded .array 4 5 6 7) := by decide +kernel
  have counting : ProgramText.counting commented.lines = ProgramText.counting uncommented.lines := by decide +kernel
  have alike : Program.AlikeUnder (10 - ·) (loaded .array 7 9 10 11) (loaded .variable 3 1 0 (-1)) := by decide +kernel
  rcases numbering_immaterial with ⟨renumbering, skipping, _⟩
  exact ⟨read, read', (skipping _ _ _ read counting).2 _ read',
    renumbering (10 - ·) _ _ (fun n _ m _ same => by simpa using same) alike⟩

end Analysis

end Deadwood

import Deadwood.Proofs.Flow.Acceptance
import Deadwood.Proofs.Program.Numbering

/-!
The shape of programs that were read from text. Later stages look at operands by their place and their kind and say
nothing of an instruction that is made otherwise; what was read has every operand where they look for it.
-/

namespace Deadwood

namespace Opcode

def Allows : Opcode → Nat → Prop
  | .goto, count => count = 1
  | .ret, count => count ≤ 1
  | .call, count => 1 ≤ count
  | .callr, count => 2 ≤ count
  | .assign, count => count = 2 ∨ count = 3
  | .label, count => count = 1
  | .unassigned _, _ => False
  | _, count => count = 3

theorem allows_of_accepts {op : Opcode} {count : Nat} (defined : op ∈ Opcode.defined) (operates : op ≠ .label)
    (accepted : op.accepts count = true) : op.Allows count := by
  have bounds : op.arity.1 ≤ count ∧ ∀ most, op.arity.2 = some most → count ≤ most := by
    simpa [accepts, Option.all_eq_true] using accepted
  rcases bounds with ⟨least, most⟩
  cases op with
  | unassigned offset => simp [Opcode.defined] at defined
  | label => exact (operates rfl).elim
  | _ =>
      simp only [arity, Option.some.injEq, reduceCtorEq, false_implies, implies_true, forall_eq'] at least most
      simp only [Allows]
      omega

end Opcode

namespace Operand

variable {arrays : List Bytes} {op : Opcode} {index : Nat} {name : Bytes}

theorem kind_classify_eq_label : (classify arrays op index name).kind = .label ↔ index = 0 ∧ op.isJump = true := by
  rw [classify]
  split
  · rename_i jumps
    simp [jumps]
  · rename_i stays
    rw [iff_false_right stays]
    split
    · simp
    · split
      · simp
      · split <;> simp

theorem kind_classify_eq_function :
    (classify arrays op index name).kind = .function ↔ op = .call ∧ index = 0 ∨ op = .callr ∧ index = 1 := by
  rw [classify]
  split
  · rename_i jumps
    rcases Opcode.isJump_iff.1 jumps.2 with rfl | ⟨test, rfl⟩ <;> simp
  · split
    · rename_i calls
      simp [calls]
    · rename_i other
      rw [iff_false_right other]
      split
      · simp
      · split <;> simp

end Operand

structure Instruction.Shaped (i : Instruction) : Prop where
  items : ∀ o ∈ i.operands, o.name.Item
  named : i.op = .label → ∃ name, i.operands = [⟨.label, name⟩] ∧ name.IsName
  labels : ∀ k o, i.operands[k]? = some o →
    (o.kind = .label ↔ k = 0 ∧ (i.op = .goto ∨ (∃ test, i.op = .branch test) ∨ i.op = .label))
  functions : ∀ k o, i.operands[k]? = some o → (o.kind = .function ↔ i.op = .call ∧ k = 0 ∨ i.op = .callr ∧ k = 1)
  count : i.op.Allows i.operands.length

theorem Instruction.Legible.shaped {i : Instruction} (legible : i.Legible) : i.Shaped := by
  cases legible with
  | @label name line named =>
      have only {k : Nat} {o : Operand} (place : [Operand.mk .label name][k]? = some o) : k = 0 ∧ o = ⟨.label, name⟩ := by
        rcases List.getElem?_eq_some_iff.1 place with ⟨inside, rfl⟩
        exact ⟨by simpa using inside, List.getElem_singleton inside⟩
      refine ⟨?_, fun _ => ⟨name, rfl, named⟩, ?_, ?_, rfl⟩
      · intro o member
        rw [List.mem_singleton.1 member]
        exact named.item
      · intro k o place
        rcases only place with ⟨rfl, rfl⟩
        simp
      · intro k o place
        rcases only place with ⟨rfl, rfl⟩
        simp
  | @operation op names arrays line defined operates accepted items =>
      have classified {k : Nat} {o : Operand} (place : (names.mapIdx (Operand.classify arrays op))[k]? = some o) :
          ∃ name ∈ names, Operand.classify arrays op k name = o := by
        rw [List.getElem?_mapIdx] at place
        rcases Option.map_eq_some_iff.1 place with ⟨name, found, same⟩
        exact ⟨name, List.mem_of_getElem? found, same⟩
      refine ⟨?_, fun label => (operates label).elim, ?_, ?_, ?_⟩
      · intro o member
        rcases List.mem_iff_getElem?.1 member with ⟨k, place⟩
        rcases classified place with ⟨name, given, rfl⟩
        rw [Reader.name_classify]
        exact items name given
      · intro k o place
        rcases classified place with ⟨name, _, rfl⟩
        rw [Operand.kind_classify_eq_label, Opcode.isJump_iff]
        simp only [operates, or_false]
      · intro k o place
        rcases classified place with ⟨name, _, rfl⟩
        exact Operand.kind_classify_eq_function
      · rw [List.length_mapIdx]
        exact Opcode.allows_of_accepts defined operates accepted

theorem Graph.build_ne_duplicateLine {p : Program} (nodup : (p.code.map (·.line)).Nodup) (intrinsics : List Bytes)
    (entry : Bytes) (line : Int) : build intrinsics entry p ≠ .error (.duplicateLine line) := by
  intro refused
  cases build_eq_error_iff.1 refused with
  | repetition repeats => exact repeats.lines_repeat nodup

namespace Program

/-- The lines of a program that was read are positive and ascend, so that none comes twice, and each of its instructions
has the operands that its operation asks for, each of the kind that its place asks for. -/
theorem shaped_of_read {source : Bytes} {p : Program} (read : Program.read source = .ok p) :
    (p.code.map (·.line)).Pairwise (· < ·) ∧ (∀ i ∈ p.code, 0 < i.line) ∧ (∀ i ∈ p.code, i.Shaped) ∧
      ∀ intrinsics entry line, Graph.build intrinsics entry p ≠ .error (.duplicateLine line) := by
  rcases ascending_of_read read with ⟨ascending, positive⟩
  refine ⟨ascending, positive, ?_, Graph.build_ne_duplicateLine (nodup_of_read read)⟩
  intro i code
  rcases mem_code_iff.1 code with ⟨f, function, body⟩
  exact ((legible_of_read read f function).body i body).shaped

def loose : Bytes :=
  bytes "#start_function\nvoid main():\nint-list: a[2]\n\nL :\n# read\n callr ,x,  geti,\nbrlt, L,x,a\n\treturn\n" ++
    bytes "#end_function"

def tight : Program := ⟨[
  { name := bytes "main"
    returnType := bytes "void"
    ints := [bytes "a[2]"]
    body := [
      ⟨.label, [⟨.label, bytes "L"⟩], 5⟩,
      ⟨.callr, [⟨.variable, bytes "x"⟩, ⟨.function, bytes "geti"⟩], 7⟩,
      ⟨.branch .lt, [⟨.label, bytes "L"⟩, ⟨.variable, bytes "x"⟩, ⟨.array, bytes "a"⟩], 8⟩,
      ⟨.ret, [], 9⟩] }]⟩

theorem loose_text_shaped :
    Program.read loose = .ok tight ∧ tight.code.map (·.line) = [5, 7, 8, 9] ∧ (∀ i ∈ tight.code, i.Shaped) ∧
      ∀ line, Graph.build [] (bytes "main") tight ≠ .error (.duplicateLine line) := by
  have read : Program.read loose = .ok tight := by decide +kernel
  rcases shaped_of_read read with ⟨_, _, shaped, distinct⟩
  exact ⟨read, rfl, shaped, distinct [] (bytes "main")⟩

end Program

end Deadwood

import Deadwood.Config.Basic
import Deadwood.Proofs.Flow.Placement
import Deadwood.Proofs.Flow.Repeats

/-!
Which programs have a graph. `Program.WellFormed` says what a program must have, `Program.Defect` which error the others
get: the first repetition, else the first reference to something the program lacks, else the missing entry.
-/

namespace Deadwood

def Function.Finds (f : Function) (i : Instruction) : Prop :=
  ∃ label ∈ f.body, label.op = .label ∧ i.operands.head? = some ⟨.label, label.labelName⟩

inductive Function.Misses (f : Function) (i : Instruction) : Reference → Prop
  | unnamed : (∀ name, i.operands.head? ≠ some ⟨.label, name⟩) → Misses f i (.label [])
  | absent {name : Bytes} : i.operands.head? = some ⟨.label, name⟩ →
      (∀ label ∈ f.body, label.op = .label → label.labelName ≠ name) → Misses f i (.label name)

namespace Program

def Has (p : Program) (name : Bytes) : Prop := ∃ f ∈ p.functions, f.name = name ∧ f.body ≠ []

/-- What an instruction refers to and the program lacks. Of a branch the label counts before what would follow it. -/
inductive Lacks (intrinsics : List Bytes) (p : Program) (i : Instruction) : Reference → Prop
  | label {f : Function} {reference : Reference} :
      f ∈ p.functions → i ∈ f.body → i.op.isJump = true → f.Misses i reference → Lacks intrinsics p i reference
  | fallThrough {f : Function} {test : Comparison} :
      f ∈ p.functions → f.body.getLast? = some i → i.op = .branch test → f.Finds i →
        Lacks intrinsics p i .fallThrough
  | function {callee : Bytes} :
      i.userCall? intrinsics = some callee → ¬p.Has callee → Lacks intrinsics p i (.function callee)

structure WellFormed (intrinsics : List Bytes) (entry : Bytes) (p : Program) : Prop where
  inhabited : p.functions ≠ []
  distinct : p.Distinct
  jumps : ∀ f ∈ p.functions, ∀ i ∈ f.body, i.op.isJump = true → f.Finds i
  falls : ∀ f ∈ p.functions, ∀ i, f.body.getLast? = some i → ∀ test, i.op ≠ .branch test
  calls : ∀ i ∈ p.code, ∀ callee, i.userCall? intrinsics = some callee → p.Has callee
  start : p.Has entry

/-- The errors of programs, in the order of their stages. -/
inductive Defect (intrinsics : List Bytes) (entry : Bytes) (p : Program) : FlowError → Prop
  | empty : p.functions = [] → Defect intrinsics entry p .emptyProgram
  | repetition {e : FlowError} : p.FirstRepeat e → Defect intrinsics entry p e
  | dangling {front back : List Instruction} {i : Instruction} {reference : Reference} :
      p.Distinct → p.code = front ++ i :: back → p.Lacks intrinsics i reference →
        (∀ j ∈ front, ∀ other, ¬p.Lacks intrinsics j other) →
          Defect intrinsics entry p (.dangling i.line reference)
  | noEntry : p.functions ≠ [] → p.Distinct → (∀ i ∈ p.code, ∀ reference, ¬p.Lacks intrinsics i reference) →
      ¬p.Has entry → Defect intrinsics entry p (.noEntry entry)

end Program

theorem Instruction.target?_eq_some_iff {i : Instruction} (jumps : i.op.isJump = true) {name : Bytes} :
    i.target? = some name ↔ i.operands.head? = some ⟨.label, name⟩ := by
  rw [target?, jumps, Bool.true_or, if_pos rfl]
  rcases i.operands with _ | ⟨⟨kind, given⟩, rest⟩
  · simp
  · by_cases label : kind = .label <;> simp [label]

theorem Instruction.target?_eq_none_iff {i : Instruction} (jumps : i.op.isJump = true) :
    i.target? = none ↔ ∀ name, i.operands.head? ≠ some ⟨.label, name⟩ := by
  simp only [Option.eq_none_iff_forall_ne_some, ne_eq, target?_eq_some_iff jumps]

section

variable {intrinsics : List Bytes} {entry : Bytes} {p : Program} {f : Function} {i : Instruction}
  {reference other : Reference} {k : Nat} {b : Block} {e : FlowError}

theorem Function.Finds.not_misses (finds : f.Finds i) : ¬f.Misses i reference := by
  intro misses
  rcases finds with ⟨label, member, op, named⟩
  cases misses with
  | unnamed none => exact none _ named
  | absent named' absent =>
      rw [named, Option.some.injEq, Operand.mk.injEq] at named'
      exact absent label member op named'.2

theorem Function.Misses.unique (first : f.Misses i reference) (second : f.Misses i other) : reference = other := by
  cases first with
  | unnamed none =>
      cases second with
      | unnamed _ => rfl
      | absent named _ => exact (none _ named).elim
  | absent named _ =>
      cases second with
      | unnamed none => exact (none _ named).elim
      | absent named' _ =>
          rw [named, Option.some.injEq, Operand.mk.injEq] at named'
          rw [named'.2]

theorem Function.finds_or_misses (f : Function) (i : Instruction) : f.Finds i ∨ ∃ reference, f.Misses i reference := by
  by_cases named : ∃ name, i.operands.head? = some ⟨.label, name⟩
  · rcases named with ⟨name, named⟩
    by_cases present : ∃ label ∈ f.body, label.op = .label ∧ label.labelName = name
    · rcases present with ⟨label, member, op, rfl⟩
      exact .inl ⟨label, member, op, named⟩
    · refine .inr ⟨_, .absent named ?_⟩
      intro label member op same
      exact present ⟨label, member, op, same⟩
  · exact .inr ⟨_, .unnamed (not_exists.1 named)⟩

namespace Program

theorem Lacks.closes (lacks : p.Lacks intrinsics i reference) : i.closes intrinsics = true := by
  rw [Instruction.closes]
  cases lacks with
  | label _ _ jumps _ => simp [jumps]
  | fallThrough _ _ op _ => simp [op, Opcode.isJump]
  | function call _ => simp [call]

theorem Distinct.lacks_unique (distinct : p.Distinct) (first : p.Lacks intrinsics i reference)
    (second : p.Lacks intrinsics i other) : reference = other := by
  cases first with
  | label function body jumps misses =>
      cases second with
      | label function' body' _ misses' =>
          obtain rfl := distinct.owner_eq function function' body body'
          exact misses.unique misses'
      | fallThrough function' final _ finds =>
          obtain rfl := distinct.owner_eq function function' body (List.mem_of_getLast? final)
          exact (finds.not_misses misses).elim
      | function call _ =>
          rw [(Wiring.not_jump_of_userCall call).1] at jumps
          cases jumps
  | fallThrough function final op finds =>
      cases second with
      | label function' body _ misses =>
          obtain rfl := distinct.owner_eq function function' (List.mem_of_getLast? final) body
          exact (finds.not_misses misses).elim
      | fallThrough _ _ _ _ => rfl
      | function call _ =>
          have jumps := (Wiring.not_jump_of_userCall call).1
          simp [op, Opcode.isJump] at jumps
  | function call _ =>
      have stays := (Wiring.not_jump_of_userCall call).1
      cases second with
      | label _ _ jumps _ =>
          rw [stays] at jumps
          cases jumps
      | fallThrough _ _ op _ => simp [op, Opcode.isJump] at stays
      | function call' _ =>
          rw [call] at call'
          cases call'
          rfl

theorem WellFormed.not_lacks (wellFormed : p.WellFormed intrinsics entry) (member : i ∈ p.code) :
    ¬p.Lacks intrinsics i reference := by
  intro lacks
  cases lacks with
  | label function body jumps misses => exact (wellFormed.jumps _ function i body jumps).not_misses misses
  | fallThrough function final op _ => exact wellFormed.falls _ function i final _ op
  | function call absent => exact absent (wellFormed.calls i member _ call)

theorem wellFormed_of_not_lacks (inhabited : p.functions ≠ []) (distinct : p.Distinct)
    (sound : ∀ i ∈ p.code, ∀ reference, ¬p.Lacks intrinsics i reference) (start : p.Has entry) :
    p.WellFormed intrinsics entry := by
  have jumps : ∀ f ∈ p.functions, ∀ i ∈ f.body, i.op.isJump = true → f.Finds i := by
    intro f function i body jumps
    rcases f.finds_or_misses i with finds | ⟨reference, misses⟩
    · exact finds
    · exact (sound i (mem_code_iff.2 ⟨f, function, body⟩) _ (.label function body jumps misses)).elim
  refine ⟨inhabited, distinct, jumps, ?_, ?_, start⟩
  · intro f function i final test op
    have body := List.mem_of_getLast? final
    have finds := jumps f function i body (by simp [op, Opcode.isJump])
    exact sound i (mem_code_iff.2 ⟨f, function, body⟩) _ (.fallThrough function final op finds)
  · intro i member callee call
    by_contra absent
    exact sound i member _ (.function call absent)

theorem exists_labelBlock (intrinsics : List Bytes) (function : f ∈ p.functions) (body : i ∈ f.body)
    (op : i.op = .label) : ∃ b ∈ p.blocks intrinsics, b.function = f.name ∧ b.leader = i := by
  rcases (Function.mem_body_iff intrinsics).1 body with ⟨b, here, member⟩
  rcases List.append_of_mem member with ⟨front, back, code⟩
  obtain rfl := (Block.ends_of_joined (Function.joined_of_mem_blocks here) code).2 op
  exact ⟨b, mem_blocks_iff.2 ⟨f, function, here⟩, Function.function_of_mem_blocks here, (List.cons.inj code).1⟩

namespace Distinct

theorem owner_of_block (distinct : p.Distinct) (function : f ∈ p.functions) (block : b ∈ p.blocks intrinsics)
    (named : b.function = f.name) (member : i ∈ b.code) : i ∈ f.body := by
  rcases mem_blocks_iff.1 block with ⟨h, other, here⟩
  obtain rfl := distinct.function_eq function other (named.symm.trans (Function.function_of_mem_blocks here))
  exact (Function.mem_body_iff intrinsics).2 ⟨b, here, member⟩

theorem labelBlock?_eq_none_iff (distinct : p.Distinct) (function : f ∈ p.functions) {name : Bytes} :
    Wiring.labelBlock? (p.blocks intrinsics) f.name name = none ↔
      ∀ label ∈ f.body, label.op = .label → label.labelName ≠ name := by
  simp only [Wiring.labelBlock?, List.findIdx?_eq_none_iff, Bool.and_eq_false_iff, decide_eq_false_iff_not]
  constructor
  · intro absent label body op same
    rcases exists_labelBlock intrinsics function body op with ⟨b, block, named, rfl⟩
    rcases absent b block with (differs | differs) | differs
    · exact differs named
    · exact differs op
    · exact differs same
  · intro absent b block
    by_cases named : b.function = f.name
    · by_cases op : b.leader.op = .label
      · exact .inr (absent _ (distinct.owner_of_block function block named b.leader_mem) op)
      · exact .inl (.inr op)
    · exact .inl (.inl named)

end Distinct

theorem findIdx?_eq_none_iff {name : Bytes} :
    (p.blocks intrinsics).findIdx? (·.function = name) = none ↔ ¬p.Has name := by
  simp only [List.findIdx?_eq_none_iff, decide_eq_false_iff_not]
  constructor
  · intro absent has
    rcases has with ⟨f, function, rfl, inhabited⟩
    rcases List.exists_mem_of_ne_nil f.body inhabited with ⟨i, body⟩
    rcases (Function.mem_body_iff intrinsics).1 body with ⟨b, here, _⟩
    exact absent b (mem_blocks_iff.2 ⟨f, function, here⟩) (Function.function_of_mem_blocks here)
  · intro absent b block named
    rcases mem_blocks_iff.1 block with ⟨f, function, here⟩
    have body : b.leader ∈ f.body := (Function.mem_body_iff intrinsics).2 ⟨b, here, b.leader_mem⟩
    exact absent ⟨f, function, (Function.function_of_mem_blocks here).symm.trans named, List.ne_nil_of_mem body⟩

theorem has_of_findIdx? {name : Bytes} {start : Nat}
    (found : (p.blocks intrinsics).findIdx? (·.function = name) = some start) : p.Has name := by
  by_contra absent
  rw [findIdx?_eq_none_iff.2 absent] at found
  cases found

namespace Distinct

theorem target_cases (distinct : p.Distinct) (function : f ∈ p.functions) (named : b.function = f.name)
    (jumps : b.last.op.isJump = true) :
    (f.Finds b.last ∧ ∃ label, Wiring.target (p.blocks intrinsics) b = .ok label) ∨
      ∃ reference, f.Misses b.last reference ∧
        Wiring.target (p.blocks intrinsics) b = .error (.dangling b.last.line reference) := by
  rw [Wiring.target, named]
  cases target : b.last.target? with
  | none => exact .inr ⟨_, .unnamed ((Instruction.target?_eq_none_iff jumps).1 target), rfl⟩
  | some name =>
      have operand := (Instruction.target?_eq_some_iff jumps).1 target
      cases found : Wiring.labelBlock? (p.blocks intrinsics) f.name name with
      | none => exact .inr ⟨_, .absent operand ((distinct.labelBlock?_eq_none_iff function).1 found), by simp [found]⟩
      | some label =>
          refine .inl ⟨?_, label, by simp [found]⟩
          by_contra lost
          have absent : Wiring.labelBlock? (p.blocks intrinsics) f.name name = none := by
            rw [distinct.labelBlock?_eq_none_iff function]
            intro instruction member op same
            exact lost ⟨instruction, member, op, same ▸ operand⟩
          rw [found] at absent
          cases absent

theorem not_lacks_of_finds (distinct : p.Distinct) (function : f ∈ p.functions) (body : i ∈ f.body)
    (jumps : i.op.isJump = true) (finds : f.Finds i) (goesOn : ∀ test, i.op = .branch test → f.body.getLast? ≠ some i) :
    ¬p.Lacks intrinsics i reference := by
  intro lacks
  cases lacks with
  | label other here _ misses =>
      obtain rfl := distinct.owner_eq function other body here
      exact finds.not_misses misses
  | fallThrough other final op _ =>
      obtain rfl := distinct.owner_eq function other body (List.mem_of_getLast? final)
      exact goesOn _ op final
  | function call _ => simp [(Wiring.not_jump_of_userCall call).1] at jumps

theorem not_lacks_of_stays (stays : i.op.isJump = false)
    (calls : ∀ callee, i.userCall? intrinsics = some callee → p.Has callee) : ¬p.Lacks intrinsics i reference := by
  intro lacks
  cases lacks with
  | label _ _ jumps _ => simp [stays] at jumps
  | fallThrough _ _ op _ => simp [op, Opcode.isJump] at stays
  | function call absent => exact absent (calls _ call)

theorem leave_cases (distinct : p.Distinct) (place : (p.blocks intrinsics)[k]? = some b) :
    ((∀ reference, ¬p.Lacks intrinsics b.last reference) ∧
        ∃ here, Wiring.leave intrinsics (p.blocks intrinsics) k b = .ok here) ∨
      ∃ reference, p.Lacks intrinsics b.last reference ∧
        Wiring.leave intrinsics (p.blocks intrinsics) k b = .error (.dangling b.last.line reference) := by
  rcases distinct.block_cases place with ⟨f, function, named, code, position⟩
  have body := code _ b.last_mem
  rcases Wiring.ending_cases intrinsics b.last with op | ⟨test, op⟩ | op | ⟨callee, call⟩ | plain
  · have jumps : b.last.op.isJump = true := by simp [op, Opcode.isJump]
    rw [Wiring.leave_of_goto op]
    rcases distinct.target_cases function named jumps with ⟨finds, label, target⟩ | ⟨reference, misses, target⟩ <;>
      rw [target]
    · exact .inl ⟨fun _ => distinct.not_lacks_of_finds function body jumps finds (by simp [op]), _, rfl⟩
    · exact .inr ⟨reference, .label function body jumps misses, rfl⟩
  · have jumps : b.last.op.isJump = true := by simp [op, Opcode.isJump]
    rw [Wiring.leave_of_branch op]
    rcases distinct.target_cases function named jumps with ⟨finds, label, target⟩ | ⟨reference, misses, target⟩ <;>
      rw [target]
    · rcases position with ⟨following, final⟩ | ⟨c, front, back, following, _, split⟩ <;> rw [following]
      · exact .inr ⟨.fallThrough, .fallThrough function final op finds, rfl⟩
      · have nodup := distinct.body_nodup function
        rw [split] at nodup
        have goesOn := split ▸ getLast?_ne_of_nodup nodup
        exact .inl ⟨fun _ => distinct.not_lacks_of_finds function body jumps finds fun _ _ => goesOn, _, rfl⟩
    · exact .inr ⟨reference, .label function body jumps misses, rfl⟩
  · left
    refine ⟨fun _ => not_lacks_of_stays (by simp [op, Opcode.isJump]) ?_, _, by rw [Wiring.leave, op]; rfl⟩
    intro callee call
    exact ((Wiring.not_jump_of_userCall call).2 op).elim
  · rcases Wiring.not_jump_of_userCall call with ⟨stays, returns⟩
    rw [Wiring.leave_other stays returns, call]
    dsimp only
    cases found : (p.blocks intrinsics).findIdx? (·.function = callee) with
    | none => exact .inr ⟨_, .function call (findIdx?_eq_none_iff.1 found), rfl⟩
    | some start =>
        left
        refine ⟨fun _ => not_lacks_of_stays stays ?_, ?_⟩
        · intro callee' call'
          rw [call, Option.some.injEq] at call'
          subst call'
          exact has_of_findIdx? found
        · dsimp only
          split <;> exact ⟨_, rfl⟩
  · left
    constructor
    · intro reference lacks
      simp [lacks.closes] at plain
    · simp only [Instruction.closes, Bool.or_eq_false_iff, decide_eq_false_iff_not, Option.isSome_eq_false_iff,
        Option.isNone_iff_eq_none] at plain
      rw [Wiring.leave_other plain.1.1 plain.1.2, plain.2]
      dsimp only
      split <;> exact ⟨_, rfl⟩

theorem not_lacks_of_front (block : b ∈ p.blocks intrinsics) {front : List Instruction}
    (code : b.code = front ++ [b.last]) (member : i ∈ front) : ¬p.Lacks intrinsics i reference := by
  intro lacks
  rcases mem_blocks_iff.1 block with ⟨f, _, here⟩
  rcases List.append_of_mem member with ⟨earlier, later, rfl⟩
  rw [List.append_assoc] at code
  have none := (Block.ends_of_joined (Function.joined_of_mem_blocks here) code).1 lacks.closes
  simp at none

theorem wiresFrom_cases (distinct : p.Distinct) {earlier rest : List Block}
    (split : p.blocks intrinsics = earlier ++ rest) :
    ((∀ i ∈ rest.flatMap Block.code, ∀ reference, ¬p.Lacks intrinsics i reference) ∧
        ∃ wires, Wiring.wiresFrom intrinsics (p.blocks intrinsics) earlier.length rest = .ok wires) ∨
      ∃ front i back reference, rest.flatMap Block.code = front ++ i :: back ∧ p.Lacks intrinsics i reference ∧
        (∀ j ∈ front, ∀ other, ¬p.Lacks intrinsics j other) ∧
        Wiring.wiresFrom intrinsics (p.blocks intrinsics) earlier.length rest =
          .error (.dangling i.line reference) := by
  -- On the blocks still to come; how many are done is the number of the next.
  induction rest generalizing earlier with
  | nil => exact .inl ⟨by simp, [], rfl⟩
  | cons b rest ih =>
      have place : (p.blocks intrinsics)[earlier.length]? = some b := by simp [split]
      rcases b.code_eq_append_last with ⟨front, code⟩
      have quiet : ∀ i ∈ front, ∀ reference, ¬p.Lacks intrinsics i reference :=
        fun i member reference => not_lacks_of_front (List.mem_of_getElem? place) code member
      rw [List.flatMap_cons, Wiring.wiresFrom]
      rcases distinct.leave_cases place with ⟨sound, here, leaves⟩ | ⟨reference, lacks, leaves⟩
      · have whole : ∀ i ∈ b.code, ∀ reference, ¬p.Lacks intrinsics i reference := by
          intro i member
          rw [code, List.mem_append, List.mem_singleton] at member
          rcases member with member | rfl
          · exact quiet i member
          · exact sound
        rw [leaves]
        rcases @ih (earlier ++ [b]) (by simp [split]) with ⟨later, wires, done⟩ |
          ⟨front', i, back, reference, flat, lacks, clear, failed⟩
        · rw [List.length_append, List.length_singleton] at done
          refine .inl ⟨?_, here ++ wires, ?_⟩
          · intro i member
            rcases List.mem_append.1 member with member | member
            · exact whole i member
            · exact later i member
          · simp [done, bind, Except.bind, pure, Except.pure]
        · rw [List.length_append, List.length_singleton] at failed
          refine .inr ⟨b.code ++ front', i, back, reference, by simp [flat], lacks, ?_, ?_⟩
          · intro j member
            rcases List.mem_append.1 member with member | member
            · exact whole j member
            · exact clear j member
          · simp [failed, bind, Except.bind]
      · rw [leaves]
        exact .inr ⟨front, b.last, rest.flatMap Block.code, reference, by simp [code], lacks, quiet, rfl⟩

theorem wires_cases (distinct : p.Distinct) :
    ((∀ i ∈ p.code, ∀ reference, ¬p.Lacks intrinsics i reference) ∧
        ∃ wires, Wiring.wiresFrom intrinsics (p.blocks intrinsics) 0 (p.blocks intrinsics) = .ok wires) ∨
      ∃ front i back reference, p.code = front ++ i :: back ∧ p.Lacks intrinsics i reference ∧
        (∀ j ∈ front, ∀ other, ¬p.Lacks intrinsics j other) ∧
        Wiring.wiresFrom intrinsics (p.blocks intrinsics) 0 (p.blocks intrinsics) =
          .error (.dangling i.line reference) := by
  have found := distinct.wiresFrom_cases (List.nil_append (p.blocks intrinsics)).symm
  rwa [p.code_blocks intrinsics] at found

end Distinct

end Program

theorem first_bad_eq {α : Type} {Bad : α → Prop} {front front' back back' : List α} {a a' : α}
    (same : front ++ a :: back = front' ++ a' :: back') (bad : Bad a) (bad' : Bad a') (good : ∀ x ∈ front, ¬Bad x)
    (good' : ∀ x ∈ front', ¬Bad x) : a = a' := by
  rcases List.append_eq_append_iff.1 same with ⟨_ | ⟨first, middle⟩, rfl, rest⟩ | ⟨_ | ⟨first, middle⟩, rfl, rest⟩
  · exact (List.cons.inj rest).1
  · rw [(List.cons.inj rest).1] at bad
    exact (good' first (by simp) bad).elim
  · exact (List.cons.inj rest).1.symm
  · rw [(List.cons.inj rest).1] at bad'
    exact (good first (by simp) bad').elim

namespace Graph

theorem build_of_empty (empty : p.functions = []) : build intrinsics entry p = .error .emptyProgram := by
  rw [build, if_pos empty]
  rfl

theorem build_of_scan_error (inhabited : p.functions ≠ []) (refused : scan [] [] p.functions = .error e) :
    build intrinsics entry p = .error e := by
  rw [build, if_neg inhabited, refused]
  rfl

theorem build_of_distinct (inhabited : p.functions ≠ []) (distinct : p.Distinct) :
    build intrinsics entry p =
      Wiring.wiresFrom intrinsics (p.blocks intrinsics) 0 (p.blocks intrinsics) >>= fun wires =>
        match (p.blocks intrinsics).findIdx? (·.function = entry) with
        | none => .error (.noEntry entry)
        | some start => .ok (ofWires (p.blocks intrinsics) start wires) := by
  rw [build, if_neg inhabited, distinct.scan_eq]
  rfl

theorem build_cases (intrinsics : List Bytes) (entry : Bytes) (p : Program) :
    (p.WellFormed intrinsics entry ∧ ∃ g, build intrinsics entry p = .ok g) ∨
      ∃ e, p.Defect intrinsics entry e ∧ build intrinsics entry p = .error e := by
  by_cases empty : p.functions = []
  · exact .inr ⟨_, .empty empty, build_of_empty empty⟩
  cases looked : scan [] [] p.functions with
  | error e => exact .inr ⟨e, .repetition (Program.scan_eq_error_iff.1 looked), build_of_scan_error empty looked⟩
  | ok _ =>
      have distinct := p.distinct_of_scan looked
      rw [build_of_distinct empty distinct]
      rcases @distinct.wires_cases intrinsics with ⟨sound, wires, done⟩ |
        ⟨front, i, back, reference, code, lacks, clear, failed⟩
      · rw [done]
        cases found : (p.blocks intrinsics).findIdx? (·.function = entry) with
        | none =>
            have absent := Program.findIdx?_eq_none_iff.1 found
            exact .inr ⟨_, .noEntry empty distinct sound absent, rfl⟩
        | some start =>
            have has := Program.has_of_findIdx? found
            exact .inl ⟨Program.wellFormed_of_not_lacks empty distinct sound has,
              ofWires (p.blocks intrinsics) start wires, rfl⟩
      · rw [failed]
        exact .inr ⟨_, .dangling distinct code lacks clear, rfl⟩

theorem build_of_defect (defect : p.Defect intrinsics entry e) : build intrinsics entry p = .error e := by
  cases defect with
  | empty none => exact build_of_empty none
  | repetition repeats => exact build_of_scan_error repeats.inhabited (Program.scan_eq_error_iff.2 repeats)
  | @dangling front back i reference distinct code lacks clear =>
      have inhabited : p.functions ≠ [] := by
        intro none
        simp [Program.code, none] at code
      rw [build_of_distinct inhabited distinct]
      rcases @distinct.wires_cases intrinsics with ⟨sound, _⟩ |
        ⟨front', i', back', reference', code', lacks', clear', failed⟩
      · exact (sound i (by simp [code]) reference lacks).elim
      · -- Both are the first instruction of the code that lacks anything.
        have bad {j : Instruction} {other : Reference} (lacks : p.Lacks intrinsics j other) :
            ∃ reference, p.Lacks intrinsics j reference := ⟨other, lacks⟩
        have same : i = i' := first_bad_eq (code.symm.trans code') (bad lacks) (bad lacks')
          (fun j member => not_exists.2 (clear j member)) (fun j member => not_exists.2 (clear' j member))
        subst same
        rw [failed, distinct.lacks_unique lacks lacks']
        rfl
  | noEntry inhabited distinct sound absent =>
      rw [build_of_distinct inhabited distinct, Program.findIdx?_eq_none_iff.2 absent]
      rcases @distinct.wires_cases intrinsics with ⟨_, wires, done⟩ | ⟨front, i, back, reference, code, lacks, _⟩
      · rw [done]
        rfl
      · exact (sound i (by simp [code]) reference lacks).elim

theorem build_eq_error_iff : build intrinsics entry p = .error e ↔ p.Defect intrinsics entry e := by
  refine ⟨?_, build_of_defect⟩
  intro failed
  rcases build_cases intrinsics entry p with ⟨_, g, done⟩ | ⟨e', defect, failed'⟩
  · rw [failed] at done
    cases done
  · rw [failed] at failed'
    cases failed'
    exact defect

theorem exists_build_iff : (∃ g, build intrinsics entry p = .ok g) ↔ p.WellFormed intrinsics entry := by
  rcases build_cases intrinsics entry p with ⟨wellFormed, done⟩ | ⟨e, defect, failed⟩
  · exact ⟨fun _ => wellFormed, fun _ => done⟩
  · simp only [failed, reduceCtorEq, exists_false, false_iff]
    intro wellFormed
    cases defect with
    | empty none => exact wellFormed.inhabited none
    | repetition repeats => exact repeats.not_distinct wellFormed.distinct
    | dangling _ code lacks _ => exact wellFormed.not_lacks (by simp [code]) lacks
    | noEntry _ _ _ absent => exact absent wellFormed.start

theorem entry_lt_size {g : Graph} (built : build intrinsics entry p = .ok g) : g.entry < g.size := by
  have wellFormed := exists_build_iff.1 ⟨g, built⟩
  rw [build_of_distinct wellFormed.inhabited wellFormed.distinct] at built
  rcases Except.bind_eq_ok.1 built with ⟨wires, _, found⟩
  split at found
  · cases found
  · rename_i start located
    cases found
    exact (List.findIdx?_eq_some_iff_getElem.1 located).1

end Graph

end

/-- A graph is built of exactly the well-formed programs, and any other program is reported by its first defect; to give
no program is to give an empty one. Once names, lines and labels are distinct, no instruction is met outside a block
and no number of a block is out of range, whether or not the graph gets finished. -/
theorem Graph.build_accepts_or_reports_first_defect (c : Config) (p : Option Program) :
    ((∃ g, build c.settings.intrinsics c.settings.entry (p.getD {}) = .ok g) ↔
        ∃ q, p = some q ∧ q.WellFormed c.settings.intrinsics c.settings.entry) ∧
      (∀ e, build c.settings.intrinsics c.settings.entry (p.getD {}) = .error e ↔
        (p.getD {}).Defect c.settings.intrinsics c.settings.entry e) ∧
      (∀ q, p = some q → q.Distinct →
        (∃ last, q.assemble c.settings.intrinsics = .ok ⟨q.blocks c.settings.intrinsics, last⟩) ∧
        ∀ k b here, (q.blocks c.settings.intrinsics)[k]? = some b →
          Wiring.leave c.settings.intrinsics (q.blocks c.settings.intrinsics) k b = .ok here →
            ∀ wire ∈ here, ∀ id ∈ wire.ids, id < (q.blocks c.settings.intrinsics).length) ∧
      ∀ g, build c.settings.intrinsics c.settings.entry (p.getD {}) = .ok g →
        g.entry < g.size ∧ (∀ edge ∈ g.edges, edge.1 < g.size ∧ edge.2 < g.size) ∧
          ∀ exit ∈ g.exits, exit.2 < g.size := by
  generalize c.settings.intrinsics = intrinsics
  generalize c.settings.entry = entry
  refine ⟨?_, ?_, ?_, ?_⟩
  · rw [exists_build_iff]
    cases p with
    | none =>
        constructor
        · intro wellFormed
          exact (wellFormed.inhabited rfl).elim
        · intro given
          rcases given with ⟨q, same, _⟩
          cases same
    | some q => simp
  · intro e
    exact build_eq_error_iff
  · intro q _ distinct
    refine ⟨distinct.assemble_eq intrinsics, ?_⟩
    intro k b here place leaves
    exact Wiring.leave_ids place leaves
  · intro g built
    rcases exists_wires built with ⟨wires, origin⟩
    refine ⟨entry_lt_size built, fun edge member => origin.edge_bounds member, ?_⟩
    rintro ⟨name, k⟩ member
    rw [origin.exits, Wiring.mem_exits] at member
    exact origin.wire_ids member (by simp [Wire.ids])

def Program.looping (after : List Instruction) : Program := ⟨[
  { name := [109]
    body := [
      ⟨.label, [⟨.label, [76]⟩], 1⟩,
      ⟨.branch .eq, [⟨.label, [76]⟩, ⟨.variable, [120]⟩, ⟨.constant, [49]⟩], 2⟩] ++ after }]⟩

def Config.bare : Config := { intrinsics := some [], entry := [109] }

theorem Graph.unfinished_branch_reported :
    build [] [109] (.looping []) = .error (.dangling 2 .fallThrough) ∧
      (Program.looping []).Defect [] [109] (.dangling 2 .fallThrough) ∧
      (∃ last, (Program.looping []).assemble [] = .ok ⟨(Program.looping []).blocks [], last⟩) ∧
      (Program.looping [⟨.ret, [], 3⟩]).WellFormed [] [109] := by
  have failed : build [] [109] (.looping []) = .error (.dangling 2 .fallThrough) := by cbv
  rcases build_accepts_or_reports_first_defect Config.bare (some (.looping [])) with ⟨_, reports, inside, _⟩
  rcases build_accepts_or_reports_first_defect Config.bare (some (.looping [⟨.ret, [], 3⟩])) with ⟨accepts, _⟩
  have distinct : (Program.looping []).Distinct := Program.distinct_of_scan rfl
  rcases accepts.1 ⟨_, rfl⟩ with ⟨q, same, wellFormed⟩
  cases same
  exact ⟨failed, (reports _).1 failed, (inside _ rfl distinct).1, wellFormed⟩

end Deadwood

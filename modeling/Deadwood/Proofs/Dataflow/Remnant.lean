import Deadwood.Proofs.Dataflow.Convergence
import Deadwood.Proofs.Execution.Elimination
import Deadwood.Proofs.Flow.Acceptance
import Deadwood.Proofs.Flow.Handover

/-!
What is left of a program without its dead code. It has a graph exactly if no function that is needed became empty, no
branch lost what it falls through to, and no jump lost its label. If it has one, every path of the graph before is still
there, dropped instructions left out, so that nothing more is found to be dead.
-/

namespace Deadwood

theorem getLast?_filter_eq_some {α : Type} {keep : α → Bool} {list : List α} {a : α} :
    (list.filter keep).getLast? = some a ↔
      ∃ front back, list = front ++ a :: back ∧ keep a = true ∧ ∀ b ∈ back, keep b = false := by
  constructor
  · intro final
    rcases List.getLast?_eq_some_iff.1 final with ⟨before, split⟩
    rcases List.filter_eq_append_iff.1 split with ⟨front, back, rfl, _, last⟩
    rcases List.filter_eq_cons_iff.1 last with ⟨earlier, later, rfl, dropped, kept, rest⟩
    refine ⟨front ++ earlier, later, by simp, kept, ?_⟩
    intro b member
    simpa using List.filter_eq_nil_iff.1 rest b member
  · rintro ⟨front, back, rfl, kept, dropped⟩
    have rest : back.filter keep = [] := by
      rw [List.filter_eq_nil_iff]
      intro b member
      simp [dropped b member]
    simp [kept, rest]

theorem Function.mem_keeping {f : Function} {keep : Instruction → Bool} {i : Instruction} :
    i ∈ (f.keeping keep).body ↔ i ∈ f.body ∧ keep i = true := List.mem_filter

namespace Program

def KeepsFunctions (intrinsics : List Bytes) (entry : Bytes) (p : Program) (keep : Instruction → Bool) : Prop :=
  ∀ f ∈ p.functions, f.name = entry ∨ (∃ call ∈ p.code, call.userCall? intrinsics = some f.name) →
    ∃ i ∈ f.body, keep i = true

def KeepsFalls (p : Program) (keep : Instruction → Bool) : Prop :=
  ∀ f ∈ p.functions, ∀ front i back, f.body = front ++ i :: back → (∃ test, i.op = .branch test) →
    ∃ j ∈ back, keep j = true

def KeepsLabels (p : Program) (keep : Instruction → Bool) : Prop :=
  ∀ f ∈ p.functions, ∀ jump ∈ f.body, jump.op.isJump = true → ∀ label ∈ f.body, label.op = .label →
    jump.target? = some label.labelName → keep label = true

def KeepsActs (p : Program) (keep : Instruction → Bool) : Prop := ∀ i ∈ p.code, Critical.Acts i → keep i = true

variable {intrinsics : List Bytes} {entry : Bytes} {p : Program} {keep : Instruction → Bool}

theorem functions_filter (p : Program) (keep : Instruction → Bool) :
    (p.filter keep).functions = p.functions.map (·.keeping keep) := rfl

theorem mem_functions_filter {f : Function} :
    f ∈ (p.filter keep).functions ↔ ∃ h ∈ p.functions, h.keeping keep = f := List.mem_map

theorem keeping_mem_filter {f : Function} (function : f ∈ p.functions) :
    f.keeping keep ∈ (p.filter keep).functions := List.mem_map_of_mem function

theorem code_filter (p : Program) (keep : Instruction → Bool) : (p.filter keep).code = p.code.filter keep := by
  simp only [code, functions_filter, List.flatMap_map, List.filter_flatMap]
  rfl

theorem mem_code_filter {i : Instruction} : i ∈ (p.filter keep).code ↔ i ∈ p.code ∧ keep i = true := by
  rw [code_filter, List.mem_filter]

theorem Distinct.filter (distinct : p.Distinct) (keep : Instruction → Bool) : (p.filter keep).Distinct := by
  refine ⟨?_, ?_, ?_⟩
  · rw [functions_filter, List.map_map]
    exact distinct.names
  · rw [code_filter]
    exact distinct.lines.sublist (List.filter_sublist.map _)
  · intro f function
    rcases mem_functions_filter.1 function with ⟨h, other, rfl⟩
    exact (distinct.labels h other).sublist ((List.filter_sublist.filter _).map _)

theorem has_filter_iff (distinct : p.Distinct) {f : Function} (function : f ∈ p.functions) :
    (p.filter keep).Has f.name ↔ ∃ i ∈ f.body, keep i = true := by
  have left : (f.keeping keep).body ≠ [] ↔ ∃ i ∈ f.body, keep i = true := by
    simp [Function.keeping]
  rw [← left]
  constructor
  · rintro ⟨h, other, named, inhabited⟩
    have same := (distinct.filter keep).function_eq other (keeping_mem_filter function) named
    rwa [same] at inhabited
  · intro inhabited
    exact ⟨_, keeping_mem_filter function, rfl, inhabited⟩

theorem acts_of_isJump {i : Instruction} (jumps : i.op.isJump = true) : Critical.Acts i := by
  rcases Opcode.isJump_iff.1 jumps with op | ⟨test, op⟩ <;> simp [Critical.Acts, op]

theorem finds_keeping_iff (distinct : p.Distinct) {f : Function} (function : f ∈ p.functions) {jump : Instruction}
    (jumps : jump.op.isJump = true) (finds : f.Finds jump) :
    (f.keeping keep).Finds jump ↔
      ∀ label ∈ f.body, label.op = .label → jump.target? = some label.labelName → keep label = true := by
  constructor
  · rintro ⟨label, member, op, named⟩ other present op' named'
    rw [Instruction.target?_eq_some_iff jumps, named, Option.some.injEq, Operand.mk.injEq] at named'
    have kept := List.mem_filter.1 member
    have same := distinct.label_eq function kept.1 present op op' named'.2
    exact same ▸ kept.2
  · intro kept
    rcases finds with ⟨label, present, op, named⟩
    have target := (Instruction.target?_eq_some_iff jumps).2 named
    exact ⟨label, List.mem_filter.2 ⟨present, kept label present op target⟩, op, named⟩

theorem finds_keeping_iff_keep (distinct : p.Distinct) {f : Function} (function : f ∈ p.functions)
    {jump label : Instruction} (jumps : jump.op.isJump = true) (present : label ∈ f.body) (op : label.op = .label)
    (target : jump.target? = some label.labelName) :
    (f.keeping keep).Finds jump ↔ keep label = true := by
  have finds : f.Finds jump := ⟨label, present, op, (Instruction.target?_eq_some_iff jumps).1 target⟩
  rw [finds_keeping_iff distinct function jumps finds]
  constructor
  · intro kept
    exact kept label present op target
  · intro kept other present' op' target'
    have names : label.labelName = other.labelName := Option.some.inj (target.symm.trans target')
    exact distinct.label_eq function present present' op op' names ▸ kept

theorem WellFormed.filter_iff (sound : p.WellFormed intrinsics entry) (acts : p.KeepsActs keep) :
    (p.filter keep).WellFormed intrinsics entry ↔
      p.KeepsFunctions intrinsics entry keep ∧ p.KeepsFalls keep ∧ p.KeepsLabels keep := by
  have distinct := sound.distinct
  constructor
  · intro left
    refine ⟨?_, ?_, ?_⟩
    · rintro f function (rfl | ⟨call, member, calls⟩)
      · exact (has_filter_iff distinct function).1 left.start
      · have kept := mem_code_filter.2 ⟨member, acts call member (Critical.acts_of_userCall calls)⟩
        exact (has_filter_iff distinct function).1 (left.calls call kept _ calls)
    · rintro f function front i back body ⟨test, op⟩
      by_contra lost
      simp only [not_exists, not_and, Bool.not_eq_true] at lost
      have member : i ∈ p.code := mem_code_iff.2 ⟨f, function, by simp [body]⟩
      have kept := acts i member (acts_of_isJump (by simp [op, Opcode.isJump]))
      have final : (f.keeping keep).body.getLast? = some i := getLast?_filter_eq_some.2 ⟨front, back, body, kept, lost⟩
      exact left.falls _ (keeping_mem_filter function) i final test op
    · intro f function jump member jumps
      have kept := acts jump (mem_code_iff.2 ⟨f, function, member⟩) (acts_of_isJump jumps)
      have finds := left.jumps _ (keeping_mem_filter function) jump (List.mem_filter.2 ⟨member, kept⟩) jumps
      exact (finds_keeping_iff distinct function jumps (sound.jumps f function jump member jumps)).1 finds
  · rintro ⟨functions, falls, labels⟩
    refine ⟨?_, distinct.filter keep, ?_, ?_, ?_, ?_⟩
    · rw [functions_filter, ne_eq, List.map_eq_nil_iff]
      exact sound.inhabited
    · intro h function jump member jumps
      rcases mem_functions_filter.1 function with ⟨f, other, rfl⟩
      have present := (List.mem_filter.1 member).1
      exact (finds_keeping_iff distinct other jumps (sound.jumps f other jump present jumps)).2
        (labels f other jump present jumps)
    · intro h function i final test op
      rcases mem_functions_filter.1 function with ⟨f, other, rfl⟩
      rcases getLast?_filter_eq_some.1 final with ⟨front, back, body, _, dropped⟩
      rcases falls f other front i back body ⟨test, op⟩ with ⟨j, behind, kept⟩
      simp [dropped j behind] at kept
    · intro call member callee calls
      have present := (mem_code_filter.1 member).1
      rcases sound.calls call present callee calls with ⟨f, function, rfl, _⟩
      exact (has_filter_iff distinct function).2 (functions f function (.inr ⟨call, present, calls⟩))
    · rcases sound.start with ⟨f, function, named, _⟩
      rw [← named]
      exact (has_filter_iff distinct function).2 (functions f function (.inl named))

section

variable {i m : Instruction} {f h : Function} {rest after : List Instruction}

theorem body_keeping_of_split {front : List Instruction} (body : f.body = front ++ i :: rest) (kept : keep i = true) :
    (f.keeping keep).body = front.filter keep ++ i :: rest.filter keep := by
  simp [Function.keeping, body, kept]

theorem Hands.keeping (acts : p.KeepsActs keep) (labels : p.KeepsLabels keep) (kept : keep i = true)
    (hands : p.Hands intrinsics i f rest) :
    (p.filter keep).Hands intrinsics i (f.keeping keep) (rest.filter keep) := by
  induction hands with
  | falls function body falls => exact .falls (keeping_mem_filter function) (body_keeping_of_split body kept) falls
  | @jumps f front rest label function member jumps body op named =>
      have present := labels f function i member jumps label (by simp [body]) op named
      rw [List.filter_cons_of_pos present]
      exact .jumps (keeping_mem_filter function) (List.mem_filter.2 ⟨member, kept⟩) jumps
        (body_keeping_of_split body present) op named
  | calls function member other call =>
      exact .calls (keeping_mem_filter function) (List.mem_filter.2 ⟨member, kept⟩) (keeping_mem_filter other) call
  | leaves function member op =>
      exact .leaves (keeping_mem_filter function) (List.mem_filter.2 ⟨member, kept⟩) op
  | stops function body op endless =>
      refine .stops (keeping_mem_filter function) (body_keeping_of_split body kept) op ?_
      intro j member
      exact endless j (List.mem_filter.1 member).1
  | @returns f h front rest call _ function body calls ih =>
      have present : call ∈ p.code := mem_code_iff.2 ⟨f, function, by simp [body]⟩
      have kept := acts call present (Critical.acts_of_userCall calls)
      exact .returns ih (keeping_mem_filter function) (body_keeping_of_split body kept) calls

theorem Hands.skip (distinct : p.Distinct) (acts : p.KeepsActs keep) (dropped : keep m = false)
    {front : List Instruction} (function : h ∈ p.functions) (body : h.body = front ++ m :: rest)
    (before : (p.filter keep).Hands intrinsics i (h.keeping keep) (rest.filter keep))
    (hands : p.Hands intrinsics m f after) :
    (p.filter keep).Hands intrinsics i (f.keeping keep) (after.filter keep) := by
  have idle : ¬Critical.Acts m := by
    intro given
    have kept := acts m (mem_code_iff.2 ⟨h, function, by simp [body]⟩) given
    rw [dropped] at kept
    cases kept
  induction hands with
  | @falls f front' after function' body' _ =>
      have here : m ∈ h.body := by simp [body]
      have there : m ∈ f.body := by simp [body']
      obtain rfl := distinct.owner_eq function function' here there
      rcases place_eq_of_nodup (body ▸ distinct.body_nodup function) (body.symm.trans body') with ⟨_, rfl⟩
      exact before
  | jumps _ _ jumps _ _ _ => exact (idle (acts_of_isJump jumps)).elim
  | calls _ _ _ call => exact (idle (Critical.acts_of_userCall call)).elim
  | leaves _ _ op => exact (idle (by simp [Critical.Acts, op])).elim
  | stops _ _ op _ => exact (idle (by simp [Critical.Acts, op])).elim
  | @returns f h front rest call _ function body calls ih =>
      have present : call ∈ p.code := mem_code_iff.2 ⟨f, function, by simp [body]⟩
      have kept := acts call present (Critical.acts_of_userCall calls)
      exact .returns ih (keeping_mem_filter function) (body_keeping_of_split body kept) calls

end

end Program

namespace Graph.BuiltFrom

variable {intrinsics : List Bytes} {p : Program} {keep : Instruction → Bool} {wires wires' : List Wire} {g g' : Graph}
  {f : Function} {v : Bytes} {d i l : Instruction}

/-- A path up to any instruction is one without the dropped ones up to some that is kept, which now hands over what
was handed over at the end of the path. -/
theorem exists_carries_keeping (built : g.BuiltFrom intrinsics p wires)
    (built' : g'.BuiltFrom intrinsics (p.filter keep) wires') (acts : p.KeepsActs keep) (labels : p.KeepsLabels keep)
    (kept : keep d = true) (carries : g.Carries f v d l) :
    ∃ k, g'.Carries (f.keeping keep) v d k ∧ ∀ h rest, p.Hands intrinsics l h rest →
      (p.filter keep).Hands intrinsics k (h.keeping keep) (rest.filter keep) := by
  induction carries with
  | refl => exact ⟨d, .refl, fun h rest hands => hands.keeping acts labels kept⟩
  | @tail l m _ step ih =>
      rcases ih with ⟨k, carries, passes⟩
      rcases built.next_iff_hands.1 step.1 with ⟨h, rest, hands⟩
      have arrives := passes h (m :: rest) hands
      cases kept' : keep m with
      | true =>
          rw [List.filter_cons_of_pos kept'] at arrives
          refine ⟨m, carries.tail ⟨built'.next_iff_hands.2 ⟨_, _, arrives⟩, ?_⟩, ?_⟩
          · intro writes
            exact step.2 ⟨(List.mem_filter.1 writes.1).1, writes.2⟩
          · exact fun h rest hands => hands.keeping acts labels kept'
      | false =>
          rw [List.filter_cons_of_neg (by simp [kept'])] at arrives
          rcases hands.point with ⟨function, front, body⟩
          exact ⟨k, carries, fun _ _ hands => .skip built.distinct acts kept' function body arrives hands⟩

theorem flows_keeping (built : g.BuiltFrom intrinsics p wires) (built' : g'.BuiltFrom intrinsics (p.filter keep) wires')
    (acts : p.KeepsActs keep) (labels : p.KeepsLabels keep) (source : keep d = true) (target : keep i = true)
    (flows : g.Flows f v d i) : g'.Flows (f.keeping keep) v d i := by
  rcases flows_iff.1 flows with ⟨l, carries, next⟩
  rcases built.exists_carries_keeping built' acts labels source carries with ⟨k, carries, passes⟩
  rcases built.next_iff_hands.1 next with ⟨h, rest, hands⟩
  have arrives := passes h (i :: rest) hands
  rw [List.filter_cons_of_pos target] at arrives
  exact carries.flows (built'.next_iff_hands.2 ⟨_, _, arrives⟩)

end Graph.BuiltFrom

theorem Graph.BuiltFrom.op_ne_label_of_closure {intrinsics : List Bytes} {p : Program} {wires : List Wire} {g : Graph}
    (built : g.BuiltFrom intrinsics p wires) {limit : Nat} {solution : Equations.Solution}
    (solved : g.solve limit = .ok solution) {i : Instruction} (code : i ∈ p.code)
    (marked : i.line ∈ (Solved.mk g solution.facts).closure .referenced p) : i.op ≠ .label := by
  have least := Solved.closure_isLeast .referenced built.distinct (built.fedFrom solved)
  -- The marked lines that are not those of labels are closed, and hence are all marked lines.
  have closed : Critical.Closed (Solved.mk g solution.facts).feeding (Critical.Seed .referenced) p
      {n | ∀ j ∈ p.code, j.line = n → j.op ≠ .label} := by
    constructor
    · intro j present seed k other line
      rw [built.distinct.instruction_eq other present line]
      rintro op
      simp [Critical.Seed, Critical.Acts, op] at seed
    · intro j present _ n feeds k other line op
      rcases Program.mem_code_iff.1 present with ⟨f, function, body⟩
      rcases (built.mem_feeding solved function body).1 feeds with ⟨d, inside, line', v, _, written, _⟩
      have present' := Program.mem_code_iff.2 ⟨f, function, inside⟩
      rw [built.distinct.instruction_eq other present' (line.trans line'.symm)] at op
      simp [Instruction.dest?, op, Opcode.defines] at written
  exact least.2 closed marked i code rfl

namespace Analysis

variable {s : Settings} {p : Program} {a b : Analysis} {f : Function} {jump label : Instruction}

theorem isCritical_iff {i : Instruction} : a.isCritical i = true ↔ i.line ∈ a.critical := decide_eq_true_iff

theorem optimized_eq (analysed : Analysis.run s p = .ok a) : a.optimized = p.filter a.isCritical := by
  rcases exists_solution analysed with ⟨g, wires, solution, _, _, rfl⟩
  rfl

theorem keepsActs (analysed : Analysis.run s p = .ok a) : p.KeepsActs a.isCritical := by
  rcases exists_solution analysed with ⟨g, wires, solution, built, _, rfl⟩
  intro i code acts
  refine isCritical_iff.2 ((Solved.mem_critical_iff built.distinct).2 (.inl ?_))
  exact (Solved.line_mem_closure_iff built.distinct code).2 (.inl (.inl acts))

theorem exists_of_mem_critical (analysed : Analysis.run s p = .ok a) {n : Int} (critical : n ∈ a.critical) :
    ∃ i ∈ p.code, i.line = n := by
  rcases exists_solution analysed with ⟨g, wires, solution, built, solved, rfl⟩
  have fed := built.fedFrom solved
  have least := Solved.closure_isLeast s.labels built.distinct fed
  rcases (Solved.mem_critical_iff built.distinct).1 critical with marked | ⟨_, f, function, label, targets, line⟩
  · have whole : Critical.Closed (Solved.mk g solution.facts).feeding (Critical.Seed s.labels) p
        {n | ∃ i ∈ p.code, i.line = n} :=
      ⟨fun i code _ => ⟨i, code, rfl⟩, fun i code _ n feeds => fed i code n feeds⟩
    exact least.2 whole marked
  · exact ⟨label, Program.mem_code_iff.2 ⟨f, function, targets.body⟩, line⟩

theorem isCritical_label_iff (analysed : Analysis.run s p = .ok a) (function : f ∈ p.functions)
    (present : label ∈ f.body) (op : label.op = .label) :
    a.isCritical label = true ↔ s.labels = .all ∨ f.Targets label := by
  rcases exists_solution analysed with ⟨g, wires, solution, built, solved, rfl⟩
  have distinct := built.distinct
  have code := Program.mem_code_iff.2 ⟨f, function, present⟩
  rw [isCritical_iff, ofSolution, Solved.mem_critical_iff distinct]
  cases policy : s.labels with
  | all =>
      have marked := (Solved.line_mem_closure_iff (s := ⟨g, solution.facts⟩) distinct code).2 (.inl (.inr ⟨op, rfl⟩))
      exact iff_of_true (.inl marked) (.inl rfl)
  | referenced =>
      constructor
      · rintro (marked | ⟨_, h, other, label', targets, line⟩)
        · exact (built.op_ne_label_of_closure solved code marked op).elim
        · have code' := Program.mem_code_iff.2 ⟨h, other, targets.body⟩
          obtain rfl := distinct.instruction_eq code' code line
          obtain rfl := distinct.owner_eq other function targets.body present
          exact .inr targets
      · rintro (every | targets)
        · cases every
        · exact .inr ⟨rfl, f, function, label, targets, rfl⟩

theorem isCritical_of_isJump (analysed : Analysis.run s p = .ok a) (function : f ∈ p.functions)
    (member : jump ∈ f.body) (jumps : jump.op.isJump = true) : a.isCritical jump = true :=
  keepsActs analysed jump (Program.mem_code_iff.2 ⟨f, function, member⟩) (Program.acts_of_isJump jumps)

theorem finds_left_iff (analysed : Analysis.run s p = .ok a) (function : f ∈ p.functions) (member : jump ∈ f.body)
    (jumps : jump.op.isJump = true) :
    (f.keeping a.isCritical).Finds jump ↔ s.labels = .all ∨ jump.target? ≠ some [] := by
  rcases exists_solution analysed with ⟨g, wires, solution, built, _, _⟩
  rcases built.exists_target function member jumps with ⟨label, present, op, target, _⟩
  have targets : f.Targets label ↔ jump.target? ≠ some [] := by
    rw [target, ne_eq, Option.some.injEq]
    constructor
    · intro targets
      exact targets.named
    · intro named
      exact ⟨present, op, named, jump, member, Opcode.isJump_iff.1 jumps, target⟩
  calc (f.keeping a.isCritical).Finds jump
      ↔ a.isCritical label = true := Program.finds_keeping_iff_keep built.distinct function jumps present op target
    _ ↔ s.labels = .all ∨ f.Targets label := isCritical_label_iff analysed function present op
    _ ↔ s.labels = .all ∨ jump.target? ≠ some [] := or_congr_right targets

theorem keepsLabels_iff (analysed : Analysis.run s p = .ok a) :
    p.KeepsLabels a.isCritical ↔ s.labels = .all ∨ ∀ f ∈ p.functions, f.JumpsNamed := by
  rcases exists_solution analysed with ⟨g, wires, solution, built, _, _⟩
  have left {f : Function} (function : f ∈ p.functions) {jump : Instruction} (member : jump ∈ f.body)
      (jumps : jump.op.isJump = true) :
      (∀ label ∈ f.body, label.op = .label → jump.target? = some label.labelName → a.isCritical label = true) ↔
        s.labels = .all ∨ jump.target? ≠ some [] := by
    rcases built.exists_target function member jumps with ⟨label, present, op, target, _⟩
    have finds : f.Finds jump := ⟨label, present, op, (Instruction.target?_eq_some_iff jumps).1 target⟩
    rw [← Program.finds_keeping_iff built.distinct function jumps finds]
    exact finds_left_iff analysed function member jumps
  constructor
  · intro kept
    apply or_iff_not_imp_left.2
    intro policy f function jump member jumps
    exact ((left function member jumps).1 (kept f function jump member jumps)).resolve_left policy
  · intro given f function jump member jumps
    apply (left function member jumps).2
    exact given.imp_right fun named => named f function jump member jumps

theorem exists_run_iff (unlimited : s.maxIterations = 0) :
    (∃ a, Analysis.run s p = .ok a) ↔ p.WellFormed s.intrinsics s.entry := by
  rw [← Graph.exists_build_iff]
  constructor
  · rintro ⟨a, analysed⟩
    rcases Except.bind_eq_ok.1 analysed with ⟨g, built, _⟩
    exact ⟨g, built⟩
  · rintro ⟨g, built⟩
    rcases g.exists_iterate g.order with ⟨solution, solved, _⟩
    have solves : g.solve s.maxIterations = .ok solution := by
      rw [unlimited]
      exact solved
    refine ⟨ofSolution s.labels p g solution, ?_⟩
    rw [run, built]
    show (g.solve s.maxIterations >>= _) = _
    rw [solves]
    rfl

/-- A program without its dead code can be analysed again exactly if no function that is called or started became
empty, no branch lost what it falls through to, and no jump lost its label, which happens to the empty name alone and
only if no other label is kept than those jumped to. -/
theorem optimized_analysed_iff (unlimited : s.maxIterations = 0) (analysed : Analysis.run s p = .ok a) :
    ((∃ b, Analysis.run s a.optimized = .ok b) ↔
        p.KeepsFunctions s.intrinsics s.entry a.isCritical ∧ p.KeepsFalls a.isCritical ∧
          p.KeepsLabels a.isCritical) ∧
      (p.KeepsLabels a.isCritical ↔ s.labels = .all ∨ ∀ f ∈ p.functions, f.JumpsNamed) := by
  refine ⟨?_, keepsLabels_iff analysed⟩
  have sound := (exists_run_iff unlimited).1 ⟨a, analysed⟩
  rw [optimized_eq analysed, exists_run_iff unlimited, sound.filter_iff (keepsActs analysed)]

/-- A function that is called and does nothing but write a variable that nothing reads. -/
def idling : Program := ⟨[
  { name := [109]
    body := [⟨.call, [⟨.function, [102]⟩], 5⟩] },
  { name := [102]
    body := [⟨.assign, [⟨.variable, [120]⟩, ⟨.constant, [49]⟩], 12⟩] }]⟩

theorem emptied_function_refused :
    ∃ a, Analysis.run ⟨.all, [[112]], [109], 0, 0⟩ idling = .ok a ∧ a.critical.lines = [5] ∧
      ¬∃ b, Analysis.run ⟨.all, [[112]], [109], 0, 0⟩ a.optimized = .ok b := by
  have evaluated : (Analysis.run ⟨.all, [[112]], [109], 0, 0⟩ idling).map (·.critical.lines) = .ok [5] := by cbv
  rcases Except.map_eq_ok.1 evaluated with ⟨a, analysed, lines⟩
  refine ⟨a, analysed, lines, ?_⟩
  intro again
  have kept := ((optimized_analysed_iff rfl analysed).1.1 again).1
  have called : ∃ call ∈ idling.code, call.userCall? [[112]] = some [102] := by decide
  rcases kept _ (List.mem_cons_of_mem _ List.mem_cons_self) (.inr called) with ⟨i, member, critical⟩
  rw [isCritical_iff, ← LineSet.mem_lines, lines, List.mem_singleton.1 member] at critical
  simp at critical

structure LabelsLeft (policy : LabelPolicy) (f : Function) : Prop where
  finds : ∀ jump ∈ f.body, jump.op.isJump = true → (f.Finds jump ↔ policy = .all ∨ jump.target? ≠ some [])
  needed : policy = .referenced → ∀ label ∈ f.body, label.op = .label →
    ∃ jump ∈ f.body, jump.op.isJump = true ∧ jump.target? = some label.labelName

/-- In every function without its dead code the jumps find their labels and, if asked for, the labels their jumps. The
empty name is the one exception, and no program that was read has it. -/
theorem jumps_left_find_labels (analysed : Analysis.run s p = .ok a) :
    (∀ f ∈ a.optimized.functions, LabelsLeft s.labels f) ∧
      ∀ source, Program.read source = .ok p →
        ∀ f ∈ a.optimized.functions, ∀ jump ∈ f.body, jump.op.isJump = true → f.Finds jump := by
  rw [optimized_eq analysed]
  constructor
  · intro h given
    rcases Program.mem_functions_filter.1 given with ⟨f, function, rfl⟩
    constructor
    · intro jump left jumps
      exact finds_left_iff analysed function (Function.mem_keeping.1 left).1 jumps
    · intro policy label left op
      have kept := Function.mem_keeping.1 left
      have targets := ((isCritical_label_iff analysed function kept.1 op).1 kept.2).resolve_left (by simp [policy])
      rcases targets.jump with ⟨jump, member, jumps, target⟩
      have jumps := Opcode.isJump_iff.2 jumps
      have critical := isCritical_of_isJump analysed function member jumps
      exact ⟨jump, Function.mem_keeping.2 ⟨member, critical⟩, jumps, target⟩
  · intro source read h given jump left jumps
    rcases Program.mem_functions_filter.1 given with ⟨f, function, rfl⟩
    have member := (Function.mem_keeping.1 left).1
    have named := Program.jumpsNamed_of_read read f function jump member jumps
    exact (finds_left_iff analysed function member jumps).2 (.inr named)

def unnamed : Program := ⟨[
  { name := [109]
    body := [
      ⟨.goto, [⟨.label, []⟩], 1⟩,
      ⟨.label, [⟨.label, []⟩], 2⟩,
      ⟨.ret, [], 3⟩] }]⟩

theorem unnamed_label_lost :
    ∃ a, Analysis.run ⟨.referenced, [[112]], [109], 0, 0⟩ unnamed = .ok a ∧ a.critical.lines = [1, 3] ∧
      ∃ f ∈ a.optimized.functions, ∃ jump ∈ f.body, jump.op.isJump = true ∧ ¬f.Finds jump := by
  have evaluated : (Analysis.run ⟨.referenced, [[112]], [109], 0, 0⟩ unnamed).map (·.critical.lines) = .ok [1, 3] := by
    cbv
  rcases Except.map_eq_ok.1 evaluated with ⟨a, analysed, lines⟩
  refine ⟨a, analysed, lines, ?_⟩
  have left := (jumps_left_find_labels analysed).1
  have function : unnamed.functions[0] ∈ unnamed.functions := List.mem_cons_self
  have present : unnamed.functions[0].body[0] ∈ unnamed.functions[0].body := List.mem_cons_self
  have member := Function.mem_keeping.2 ⟨present, isCritical_of_isJump analysed function present rfl⟩
  have given : unnamed.functions[0].keeping a.isCritical ∈ a.optimized.functions := by
    rw [optimized_eq analysed]
    exact Program.keeping_mem_filter function
  refine ⟨_, given, _, member, rfl, ?_⟩
  rw [(left _ given).finds _ member rfl]
  decide

theorem closure_subset_again {g g' : Graph} {wires wires' : List Wire} {solution solution' : Equations.Solution}
    {keep : Instruction → Bool} (built : g.BuiltFrom s.intrinsics p wires)
    (built' : g'.BuiltFrom s.intrinsics (p.filter keep) wires') (solved : g.solve s.maxIterations = .ok solution)
    (solved' : g'.solve s.maxIterations = .ok solution') (labels : p.KeepsLabels keep) (acts : p.KeepsActs keep)
    (kept : ∀ i ∈ p.code, i.line ∈ (Solved.mk g solution.facts).closure s.labels p → keep i = true) {n : Int}
    (marked : n ∈ (Solved.mk g solution.facts).closure s.labels p) :
    n ∈ (Solved.mk g' solution'.facts).closure s.labels (p.filter keep) := by
  have least := Solved.closure_isLeast s.labels built.distinct (built.fedFrom solved)
  have again := Solved.closure_isLeast s.labels built'.distinct (built'.fedFrom solved')
  -- By leastness it is enough that the lines marked both times are closed in the graph before. That they were marked
  -- the first time is needed for both ends of a flow to be there still.
  have closed : Critical.Closed (Solved.mk g solution.facts).feeding (Critical.Seed s.labels) p
      {n | n ∈ (Solved.mk g solution.facts).closure s.labels p ∧
        n ∈ (Solved.mk g' solution'.facts).closure s.labels (p.filter keep)} := by
    constructor
    · intro i code seed
      have first := least.1.seeds i code seed
      exact ⟨first, again.1.seeds i (Program.mem_code_filter.2 ⟨code, kept i code first⟩) seed⟩
    · rintro i code ⟨first, second⟩ n feeds
      have marked := least.1.feeds i code first n feeds
      refine ⟨marked, ?_⟩
      rcases Program.mem_code_iff.1 code with ⟨f, function, body⟩
      rcases (built.mem_feeding solved function body).1 feeds with ⟨d, inside, rfl, v, read, written, flows⟩
      have source := kept d (Program.mem_code_iff.2 ⟨f, function, inside⟩) marked
      have target := kept i code first
      have flows' := built.flows_keeping built' acts labels source target flows
      refine again.1.feeds i (Program.mem_code_filter.2 ⟨code, target⟩) second d.line ?_
      exact (built'.mem_feeding solved' (Program.keeping_mem_filter function) (List.mem_filter.2 ⟨body, target⟩)).2
        ⟨d, List.mem_filter.2 ⟨inside, source⟩, rfl, v, read, written, flows'⟩
  exact (least.2 closed marked).2

/-- What survives without dead code survives a second time, so that no program gets smaller by being optimized twice. -/
theorem optimized_again_unchanged (first : Analysis.run s p = .ok a) (second : Analysis.run s a.optimized = .ok b) :
    b.critical = a.critical ∧ b.optimized = a.optimized := by
  have acts := keepsActs first
  have second' := second
  rw [optimized_eq first] at second
  have labels : p.KeepsLabels a.isCritical := by
    rcases Except.bind_eq_ok.1 first with ⟨_, whole, _⟩
    rcases Except.bind_eq_ok.1 second with ⟨_, left, _⟩
    have sound := Graph.exists_build_iff.1 ⟨_, whole⟩
    exact ((sound.filter_iff acts).1 (Graph.exists_build_iff.1 ⟨_, left⟩)).2.2
  have same : b.critical = a.critical := by
    apply LineSet.ext
    intro n
    constructor
    · intro critical
      rcases exists_of_mem_critical second critical with ⟨i, code, rfl⟩
      exact isCritical_iff.1 (Program.mem_code_filter.1 code).2
    · intro critical
      rcases exists_solution first with ⟨g, wires, solution, built, solved, rfl⟩
      rcases exists_solution second with ⟨g', wires', solution', built', solved', rfl⟩
      refine (Solved.mem_critical_iff built'.distinct).2 ?_
      rcases (Solved.mem_critical_iff built.distinct).1 critical with
        marked | ⟨policy, f, function, label, targets, rfl⟩
      · refine .inl (closure_subset_again built built' solved solved' labels acts ?_ marked)
        intro i code marked
        exact isCritical_iff.2 ((Solved.mem_critical_iff built.distinct).2 (.inl marked))
      · rcases targets.jump with ⟨jump, member, jumps, named⟩
        have kept := acts jump (Program.mem_code_iff.2 ⟨f, function, member⟩)
          (Program.acts_of_isJump (Opcode.isJump_iff.2 jumps))
        refine .inr ⟨policy, _, Program.keeping_mem_filter function, label, ?_, rfl⟩
        exact ⟨List.mem_filter.2 ⟨targets.body, isCritical_iff.2 critical⟩, targets.op, targets.named, jump,
          List.mem_filter.2 ⟨member, kept⟩, jumps, named⟩
  refine ⟨same, ?_⟩
  have tests : b.isCritical = a.isCritical := by
    funext i
    rw [isCritical, isCritical, same]
  rw [optimized_eq second', optimized_eq first, tests]
  simp [Program.filter]

/-- The write after the inner call is dead. Once it is dropped, that call is in tail position, and what is printed at
the end has come through it all the same. -/
def nested : Program := ⟨[
  { name := [109]
    body := [
      ⟨.assign, [⟨.variable, [120]⟩, ⟨.constant, [49]⟩], 1⟩,
      ⟨.call, [⟨.function, [103]⟩], 2⟩,
      ⟨.call, [⟨.function, [112]⟩, ⟨.variable, [120]⟩], 3⟩] },
  { name := [103]
    body := [
      ⟨.call, [⟨.function, [104]⟩], 4⟩,
      ⟨.assign, [⟨.variable, [121]⟩, ⟨.constant, [50]⟩], 5⟩] },
  { name := [104]
    body := [⟨.ret, [], 6⟩] }]⟩

theorem nested_call_becomes_last :
    ∃ a b, Analysis.run ⟨.referenced, [[112]], [109], 0, 0⟩ nested = .ok a ∧
      Analysis.run ⟨.referenced, [[112]], [109], 0, 0⟩ a.optimized = .ok b ∧ a.critical.lines = [1, 2, 3, 4, 6] ∧
      b.critical = a.critical ∧ b.optimized = a.optimized := by
  have evaluated : (Analysis.run ⟨.referenced, [[112]], [109], 0, 0⟩ nested >>= fun a =>
      (Analysis.run ⟨.referenced, [[112]], [109], 0, 0⟩ a.optimized).map fun _ => a.critical.lines) =
      .ok [1, 2, 3, 4, 6] := by cbv
  rcases Except.bind_eq_ok.1 evaluated with ⟨a, first, later⟩
  rcases Except.map_eq_ok.1 later with ⟨b, second, lines⟩
  exact ⟨a, b, first, second, lines, optimized_again_unchanged first second⟩

end Analysis

end Deadwood

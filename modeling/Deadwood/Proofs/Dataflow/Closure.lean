import Deadwood.Analysis
import Deadwood.Proofs.Dataflow.Paths
import Mathlib.Order.Bounds.Basic

/-!
The critical lines are the least set of lines that holds every seed and, with an instruction, all that feeds it. The
work list finds that set in whatever order it takes up instructions and whatever feeds them is listed.
-/

namespace Deadwood

namespace Critical

/-- Instructions that act on control, on an array or beyond the program. -/
def Acts (i : Instruction) : Prop :=
  i.op = .call ∨ i.op = .callr ∨ i.op = .arrayStore ∨ i.op = .ret ∨ i.op = .goto ∨ ∃ test, i.op = .branch test

/-- Instructions that a policy keeps on their own account. -/
def Seed (policy : LabelPolicy) (i : Instruction) : Prop := Acts i ∨ i.op = .label ∧ policy = .all

/-- A set of lines with every seed of a program and, with an instruction, whatever feeds it. -/
structure Closed (feeding : Instruction → LineSet) (seed : Instruction → Prop) (p : Program) (lines : Set Int) :
    Prop where
  seeds : ∀ i ∈ p.code, seed i → i.line ∈ lines
  feeds : ∀ i ∈ p.code, i.line ∈ lines → ∀ n ∈ feeding i, n ∈ lines

theorem hasEffect_iff {i : Instruction} : i.op.hasEffect = true ↔ Acts i := by
  cases op : i.op <;> simp [Acts, Opcode.hasEffect, op]

theorem acts_of_userCall {intrinsics : List Bytes} {i : Instruction} {callee : Bytes}
    (calls : i.userCall? intrinsics = some callee) : Acts i := by
  rcases Instruction.call_of_userCall calls with op | op <;> simp [Acts, op]

theorem isSeed_iff {policy : LabelPolicy} {i : Instruction} : isSeed policy i = true ↔ Seed policy i := by
  simp [isSeed, Seed, hasEffect_iff]

@[simp] theorem mem_within {lines : LineSet} {code : List Instruction} {i : Instruction} :
    i ∈ within lines code ↔ i ∈ code ∧ i.line ∈ lines := by
  simp [within]

@[simp] theorem mem_without {lines : LineSet} {code : List Instruction} {i : Instruction} :
    i ∈ without lines code ↔ i ∈ code ∧ i.line ∉ lines := by
  simp [without]

section

variable {feeding : Instruction → LineSet} {unmarked work : List Instruction} {i d : Instruction}

theorem close_subset (member : d ∈ close feeding unmarked work) : d ∈ unmarked := by
  fun_induction close feeding unmarked work with
  | case1 unmarked => cases member
  | case2 unmarked i work none ih => exact ih member
  | case3 unmarked i work some ih =>
      rcases List.mem_append.1 member with found | later
      · exact (mem_within.1 found).1
      · exact (mem_without.1 (ih later)).1

theorem line_mem_of_close {seed : Instruction → Prop} {p : Program} {lines : Set Int}
    (closed : Closed feeding seed p lines) (code : ∀ d ∈ unmarked, d ∈ p.code)
    (marked : ∀ i ∈ work, i ∈ p.code ∧ i.line ∈ lines) (member : d ∈ close feeding unmarked work) :
    d.line ∈ lines := by
  fun_induction close feeding unmarked work with
  | case1 unmarked => cases member
  | case2 unmarked i work none ih =>
      exact ih code (fun j waiting => marked j (List.mem_cons_of_mem _ waiting)) member
  | case3 unmarked i work some ih =>
      obtain ⟨present, here⟩ := marked i List.mem_cons_self
      have fed (j : Instruction) (found : j ∈ within (feeding i) unmarked) : j.line ∈ lines :=
        closed.feeds i present here j.line (mem_within.1 found).2
      rcases List.mem_append.1 member with found | later
      · exact fed d found
      · refine ih (fun j left => code j (mem_without.1 left).1) (fun j waiting => ?_) later
        rcases List.mem_append.1 waiting with found | waiting
        · exact ⟨code j (mem_within.1 found).1, fed j found⟩
        · exact marked j (List.mem_cons_of_mem _ waiting)

theorem mem_close_of_feeds (source : i ∈ work ++ close feeding unmarked work) (left : d ∈ unmarked)
    (feeds : d.line ∈ feeding i) : d ∈ close feeding unmarked work := by
  fun_induction close feeding unmarked work with
  | case1 unmarked => cases source
  | case2 unmarked next work none ih =>
      rw [List.cons_append] at source
      rcases List.mem_cons.1 source with rfl | source
      · have found : d ∈ within (feeding i) unmarked := mem_within.2 ⟨left, feeds⟩
        rw [none] at found
        cases found
      · exact ih source left
  | case3 unmarked next work some ih =>
      by_cases now : d.line ∈ feeding next
      · exact List.mem_append_left _ (mem_within.2 ⟨left, now⟩)
      · refine List.mem_append_right _ (ih ?_ (mem_without.2 ⟨left, now⟩))
        have other : i ≠ next := fun same => now (same ▸ feeds)
        simp only [List.cons_append, List.mem_cons, List.mem_append] at source ⊢
        rcases source with same | waiting | found | later
        · exact (other same).elim
        · exact .inl (.inr waiting)
        · exact .inl (.inl found)
        · exact .inr later

end

end Critical

def Solved.FedFrom (s : Solved) (p : Program) : Prop := ∀ i ∈ p.code, ∀ n ∈ s.feeding i, ∃ d ∈ p.code, d.line = n

theorem Graph.BuiltFrom.fedFrom {intrinsics : List Bytes} {p : Program} {wires : List Wire} {g : Graph}
    (built : g.BuiltFrom intrinsics p wires) {limit : Nat} {solution : Equations.Solution}
    (solved : g.solve limit = .ok solution) : (Solved.mk g solution.facts).FedFrom p := by
  intro i code n member
  obtain ⟨f, function, body⟩ := Program.mem_code_iff.1 code
  obtain ⟨d, present, line, _⟩ := (built.mem_feeding solved function body).1 member
  exact ⟨d, Program.mem_code_iff.2 ⟨f, function, present⟩, line⟩

namespace Solved

open Critical

variable {s : Solved} {policy : LabelPolicy} {p : Program}

theorem line_mem_closure_iff (distinct : p.Distinct) {i : Instruction} (code : i ∈ p.code) :
    i.line ∈ s.closure policy p ↔
      Seed policy i ∨ i ∈ close s.feeding (p.code.filter fun i => !isSeed policy i)
        (p.code.filter (isSeed policy)).reverse := by
  simp only [closure, LineSet.mem_union, LineSet.mem_ofList, List.mem_map, List.mem_filter, isSeed_iff]
  constructor
  · intro given
    rcases given with ⟨j, ⟨present, seed⟩, line⟩ | ⟨j, found, line⟩
    · exact .inl (distinct.instruction_eq present code line ▸ seed)
    · have present := (List.mem_filter.1 (close_subset found)).1
      exact .inr (distinct.instruction_eq present code line ▸ found)
  · intro given
    rcases given with seed | found
    · exact .inl ⟨i, ⟨code, seed⟩, rfl⟩
    · exact .inr ⟨i, found, rfl⟩

theorem closure_isLeast (policy : LabelPolicy) (distinct : p.Distinct) (fed : s.FedFrom p) :
    IsLeast {lines | Closed s.feeding (Seed policy) p lines} {n | n ∈ s.closure policy p} := by
  constructor
  · constructor
    · intro i code seed
      exact (line_mem_closure_iff distinct code).2 (.inl seed)
    · intro i code marked n feeds
      obtain ⟨d, present, rfl⟩ := fed i code n feeds
      refine (line_mem_closure_iff distinct present).2 ?_
      by_cases seed : isSeed policy d = true
      · exact .inl (isSeed_iff.1 seed)
      · refine .inr (mem_close_of_feeds ?_ (List.mem_filter.2 ⟨present, by simp [seed]⟩) feeds)
        rcases (line_mem_closure_iff distinct code).1 marked with own | found
        · refine List.mem_append_left _ (List.mem_reverse.2 ?_)
          exact List.mem_filter.2 ⟨code, isSeed_iff.2 own⟩
        · exact List.mem_append_right _ found
  · intro lines closed n member
    simp only [Set.mem_ofPred_eq, closure, LineSet.mem_union, LineSet.mem_ofList, List.mem_map] at member
    rcases member with ⟨i, seed, rfl⟩ | ⟨i, found, rfl⟩
    · obtain ⟨code, seed⟩ := List.mem_filter.1 seed
      exact closed.seeds i code (isSeed_iff.1 seed)
    · refine line_mem_of_close closed (fun d left => (List.mem_filter.1 left).1) (fun j waiting => ?_) found
      obtain ⟨code, seed⟩ := List.mem_filter.1 (List.mem_reverse.1 waiting)
      exact ⟨code, closed.seeds j code (isSeed_iff.1 seed)⟩

end Solved

/-- A work list under way: the lines marked so far and the instructions still to take up. -/
structure Worklist where
  marked : List Int
  pending : List Instruction

namespace Worklist

def start (seeds : List Instruction) : Worklist := ⟨seeds.map (·.line), seeds⟩

def push (w : Worklist) (d : Instruction) : Worklist :=
  if d.line ∈ w.marked then w else ⟨d.line :: w.marked, w.pending ++ [d]⟩

/-- Any pending instruction is taken up, and what feeds it is pushed in the order it is listed in. -/
inductive Step (listing : Instruction → List Instruction) : Worklist → Worklist → Prop
  | take {marked : List Int} {front back : List Instruction} {i : Instruction} :
      Step listing ⟨marked, front ++ i :: back⟩ ((listing i).foldl push ⟨marked, front ++ back⟩)

def Lists (s : Solved) (p : Program) (listing : Instruction → List Instruction) : Prop :=
  ∀ i ∈ p.code, ∀ d, d ∈ listing i ↔ d ∈ p.code ∧ d.line ∈ s.feeding i

def Run (listing : Instruction → List Instruction) (policy : LabelPolicy) (p : Program) : Worklist → Prop :=
  Relation.ReflTransGen (Step listing) (start (p.code.filter (Critical.isSeed policy)))

variable {w : Worklist} {ds : List Instruction} {d : Instruction} {n : Int}

theorem push_of_mem (old : d.line ∈ w.marked) : w.push d = w := if_pos old

theorem push_of_not_mem (fresh : d.line ∉ w.marked) : w.push d = ⟨d.line :: w.marked, w.pending ++ [d]⟩ := if_neg fresh

theorem mem_marked_foldl : n ∈ (ds.foldl push w).marked ↔ n ∈ w.marked ∨ ∃ d ∈ ds, d.line = n := by
  induction ds generalizing w with
  | nil => simp
  | cons d ds ih =>
      rw [List.foldl_cons, ih, push]
      split
      · rename_i old
        simp only [List.mem_cons, exists_eq_or_imp]
        grind
      · simp only [List.mem_cons, exists_eq_or_imp]
        grind

theorem pending_subset_foldl (waiting : d ∈ w.pending) : d ∈ (ds.foldl push w).pending := by
  induction ds generalizing w with
  | nil => exact waiting
  | cons e ds ih =>
      refine ih ?_
      rw [push]
      split
      · exact waiting
      · exact List.mem_append_left _ waiting

theorem mem_pending_foldl (waiting : d ∈ (ds.foldl push w).pending) : d ∈ w.pending ∨ d ∈ ds := by
  induction ds generalizing w with
  | nil => exact .inl waiting
  | cons e ds ih =>
      rcases ih waiting with before | later
      · rw [push] at before
        split at before
        · exact .inl before
        · rcases List.mem_append.1 before with before | here
          · exact .inl before
          · exact .inr (List.mem_singleton.1 here ▸ List.mem_cons_self)
      · exact .inr (List.mem_cons_of_mem _ later)

theorem pushed_of_marked (marked : n ∈ (ds.foldl push w).marked) :
    n ∈ w.marked ∨ ∃ d ∈ (ds.foldl push w).pending, d.line = n := by
  induction ds generalizing w with
  | nil => exact .inl marked
  | cons e ds ih =>
      rcases ih marked with before | later
      · rw [push] at before
        split at before
        · exact .inl before
        · rename_i fresh
          rcases List.mem_cons.1 before with rfl | before
          · have waiting : e ∈ (w.push e).pending := by
              rw [push_of_not_mem fresh]
              exact List.mem_append_right _ (List.mem_singleton.2 rfl)
            exact .inr ⟨e, @pending_subset_foldl (w.push e) ds e waiting, rfl⟩
          · exact .inl before
      · exact .inr later

def unmarked (p : Program) (w : Worklist) : List Instruction := p.code.filter (·.line ∉ w.marked)

theorem foldl_push_eq_or_lt {p : Program} (code : ∀ d ∈ ds, d ∈ p.code) :
    ds.foldl push w = w ∨ ((ds.foldl push w).unmarked p).length < (w.unmarked p).length := by
  induction ds generalizing w with
  | nil => exact .inl rfl
  | cons d ds ih =>
      have later := @ih (w.push d) fun e member => code e (List.mem_cons_of_mem _ member)
      rw [List.foldl_cons]
      by_cases old : d.line ∈ w.marked
      · rwa [push_of_mem old] at later ⊢
      · have fewer : ((w.push d).unmarked p).length < (w.unmarked p).length := by
          rw [push_of_not_mem old]
          have shape : unmarked p ⟨d.line :: w.marked, w.pending ++ [d]⟩ =
              (w.unmarked p).filter (fun i => i.line ≠ d.line) := by
            simp only [unmarked, List.filter_filter]
            refine List.filter_congr fun i _ => ?_
            simp
          rw [shape]
          refine List.length_filter_lt_length_iff_exists.2 ⟨d, ?_, by simp⟩
          exact List.mem_filter.2 ⟨code d List.mem_cons_self, by simpa using old⟩
        refine .inr ?_
        rcases later with same | less
        · rwa [same]
        · exact Nat.lt_trans less fewer

structure Invariant (s : Solved) (seed : Instruction → Prop) (p : Program) (w : Worklist) : Prop where
  code : ∀ i ∈ w.pending, i ∈ p.code
  seeds : ∀ i ∈ p.code, seed i → i.line ∈ w.marked
  needed : ∀ lines, Critical.Closed s.feeding seed p lines → ∀ n ∈ w.marked, n ∈ lines
  pending : ∀ i ∈ w.pending, i.line ∈ w.marked
  done : ∀ i ∈ p.code, i.line ∈ w.marked → i ∈ w.pending ∨ ∀ n ∈ s.feeding i, n ∈ w.marked

variable {s : Solved} {seed : Instruction → Prop} {p : Program} {listing : Instruction → List Instruction}

theorem invariant_start {policy : LabelPolicy} (distinct : p.Distinct) :
    Invariant s (Critical.Seed policy) p (start (p.code.filter (Critical.isSeed policy))) := by
  have member {i : Instruction} : i ∈ p.code.filter (Critical.isSeed policy) ↔ i ∈ p.code ∧ Critical.Seed policy i := by
    rw [List.mem_filter, Critical.isSeed_iff]
  refine ⟨fun i waiting => (member.1 waiting).1, fun i code own => ?_, fun lines closed n marked => ?_,
    fun i waiting => List.mem_map.2 ⟨i, waiting, rfl⟩, fun i code marked => ?_⟩
  · exact List.mem_map.2 ⟨i, member.2 ⟨code, own⟩, rfl⟩
  · obtain ⟨i, own, rfl⟩ := List.mem_map.1 marked
    exact closed.seeds i (member.1 own).1 (member.1 own).2
  · obtain ⟨j, own, same⟩ := List.mem_map.1 marked
    exact .inl (distinct.instruction_eq (member.1 own).1 code same ▸ own)

theorem invariant_step (distinct : p.Distinct) (fed : s.FedFrom p) (lists : Lists s p listing) {w v : Worklist}
    (step : Step listing w v) (held : Invariant s seed p w) : Invariant s seed p v := by
  cases step with
  | @take marked front back i =>
      have present : i ∈ p.code := held.code i (by simp)
      have here : i.line ∈ marked := held.pending i (by simp)
      have kept (j : Instruction) (waiting : j ∈ front ++ back) : j ∈ front ++ i :: back := by
        simp only [List.mem_append, List.mem_cons] at waiting ⊢
        grind
      have feeds (n : Int) : (∃ d ∈ listing i, d.line = n) ↔ n ∈ s.feeding i := by
        constructor
        · intro given
          rcases given with ⟨d, listed, rfl⟩
          exact ((lists i present d).1 listed).2
        · intro member
          obtain ⟨d, code, rfl⟩ := fed i present n member
          exact ⟨d, (lists i present d).2 ⟨code, member⟩, rfl⟩
      refine ⟨fun j waiting => ?_, fun j code own => ?_, fun lines closed n member => ?_, fun j waiting => ?_,
        fun j code member => ?_⟩
      · rcases mem_pending_foldl waiting with before | listed
        · exact held.code j (kept j before)
        · exact ((lists i present j).1 listed).1
      · exact mem_marked_foldl.2 (.inl (held.seeds j code own))
      · rcases mem_marked_foldl.1 member with before | added
        · exact held.needed lines closed n before
        · exact closed.feeds i present (held.needed lines closed _ here) n ((feeds n).1 added)
      · rcases mem_pending_foldl waiting with before | listed
        · exact mem_marked_foldl.2 (.inl (held.pending j (kept j before)))
        · exact mem_marked_foldl.2 (.inr ⟨j, listed, rfl⟩)
      · rcases pushed_of_marked member with before | ⟨d, waiting, same⟩
        · rcases held.done j code before with waiting | finished
          · by_cases taken : j = i
            · subst taken
              exact .inr fun n member => mem_marked_foldl.2 (.inr ((feeds n).2 member))
            · refine .inl (pending_subset_foldl ?_)
              simp only [List.mem_append, List.mem_cons, taken, false_or] at waiting ⊢
              exact waiting
          · exact .inr fun n member => mem_marked_foldl.2 (.inl (finished n member))
        · have known : d ∈ p.code := by
            rcases mem_pending_foldl waiting with before | listed
            · exact held.code d (kept d before)
            · exact ((lists i present d).1 listed).1
          exact .inl (distinct.instruction_eq known code same ▸ waiting)

theorem invariant_run {policy : LabelPolicy} (distinct : p.Distinct) (fed : s.FedFrom p) (lists : Lists s p listing)
    (run : Run listing policy p w) : Invariant s (Critical.Seed policy) p w := by
  induction run with
  | refl => exact invariant_start distinct
  | tail _ step held => exact invariant_step distinct fed lists step held

theorem pending_eq_nil_or_step (listing : Instruction → List Instruction) (w : Worklist) :
    w.pending = [] ∨ ∃ v, Step listing w v := by
  obtain ⟨marked, pending⟩ := w
  cases pending with
  | nil => exact .inl rfl
  | cons i pending => exact .inr ⟨_, @Step.take listing marked [] pending i⟩

theorem isLeast_of_invariant (held : Invariant s seed p w) (empty : w.pending = []) :
    IsLeast {lines | Critical.Closed s.feeding seed p lines} {n | n ∈ w.marked} := by
  refine ⟨⟨held.seeds, fun i code marked => ?_⟩, fun lines closed n marked => held.needed lines closed n marked⟩
  rcases held.done i code marked with waiting | finished
  · rw [empty] at waiting
    cases waiting
  · exact finished

theorem acc_step (distinct : p.Distinct) (fed : s.FedFrom p) (lists : Lists s p listing)
    (held : Invariant s seed p w) : Acc (fun v w => Step listing w v) w := by
  -- The measure is the number of unmarked instructions, then the length of the list.
  have measured (size : Nat × Nat) : ∀ w, ((w.unmarked p).length, w.pending.length) = size → Invariant s seed p w →
      Acc (fun v w => Step listing w v) w := by
    induction size using (WellFounded.prod_lex Nat.lt_wfRel.wf Nat.lt_wfRel.wf).induction with
    | _ size ih =>
        intro w same held
        subst same
        refine ⟨w, fun v step => ih _ ?_ v rfl (invariant_step distinct fed lists step held)⟩
        cases step with
        | @take marked front back i =>
            have present : i ∈ p.code := held.code i (by simp)
            rcases foldl_push_eq_or_lt (w := ⟨marked, front ++ back⟩)
              fun d listed => ((lists i present d).1 listed).1 with same | less
            · rw [same]
              refine Prod.Lex.right _ ?_
              show (front ++ back).length < (front ++ i :: back).length
              simp
            · exact Prod.Lex.left _ _ less
  exact measured _ w rfl held

end Worklist

structure Function.Targets (f : Function) (label : Instruction) : Prop where
  body : label ∈ f.body
  op : label.op = .label
  named : label.labelName ≠ []
  jump : ∃ i ∈ f.body, (i.op = .goto ∨ ∃ test, i.op = .branch test) ∧ i.target? = some label.labelName

theorem Critical.mem_referenced {marked : LineSet} {f : Function} {n : Int}
    (jumps : ∀ i ∈ f.body, i.op.isJump = true → i.line ∈ marked) :
    n ∈ referenced marked f ↔ ∃ label, f.Targets label ∧ label.line = n := by
  simp only [referenced, List.mem_map, List.mem_filter, Bool.and_eq_true, decide_eq_true_eq, List.contains_iff_mem,
    targets, List.mem_filterMap]
  constructor
  · intro given
    rcases given with ⟨label, ⟨body, ⟨op, named⟩, i, ⟨inside, jump, _⟩, target⟩, line⟩
    exact ⟨label, ⟨body, op, named, i, inside, Opcode.isJump_iff.1 jump, target⟩, line⟩
  · intro given
    rcases given with ⟨label, ⟨body, op, named, i, inside, jump, target⟩, line⟩
    have jump := Opcode.isJump_iff.2 jump
    exact ⟨label, ⟨body, ⟨op, named⟩, i, ⟨inside, jump, jumps i inside jump⟩, target⟩, line⟩

theorem Solved.mem_critical_iff {s : Solved} {policy : LabelPolicy} {p : Program} (distinct : p.Distinct)
    {n : Int} :
    n ∈ s.critical policy p ↔ n ∈ s.closure policy p ∨
      policy = .referenced ∧ ∃ f ∈ p.functions, ∃ label, f.Targets label ∧ label.line = n := by
  cases policy with
  | all => simp [critical]
  | referenced =>
      have jumps (f : Function) (function : f ∈ p.functions) (i : Instruction) (body : i ∈ f.body)
          (jump : i.op.isJump = true) : i.line ∈ s.closure .referenced p := by
        have acts : Critical.Acts i := by
          rcases Opcode.isJump_iff.1 jump with op | ⟨test, op⟩ <;> simp [Critical.Acts, op]
        exact (line_mem_closure_iff distinct (Program.mem_code_iff.2 ⟨f, function, body⟩)).2 (.inl (.inl acts))
      simp only [critical, LineSet.mem_union, LineSet.mem_ofList, List.mem_flatMap, true_and]
      refine or_congr_right (exists_congr fun f => and_congr_right fun function => ?_)
      exact Critical.mem_referenced (jumps f function)

theorem Solved.line_mem_critical_iff {s : Solved} {policy : LabelPolicy} {p : Program} (distinct : p.Distinct)
    {i : Instruction} (code : i ∈ p.code) (op : i.op ≠ .label) :
    i.line ∈ s.critical policy p ↔ i.line ∈ s.closure policy p := by
  rw [mem_critical_iff distinct]
  refine ⟨fun found => found.resolve_right ?_, .inl⟩
  intro given
  rcases given with ⟨_, f, function, label, targets, line⟩
  have present := Program.mem_code_iff.2 ⟨f, function, targets.body⟩
  exact op (distinct.instruction_eq present code line ▸ targets.op)

theorem Graph.BuiltFrom.definition_mem_closure_iff {intrinsics : List Bytes} {p : Program} {wires : List Wire}
    {g : Graph} (built : g.BuiltFrom intrinsics p wires) {limit : Nat} {solution : Equations.Solution}
    (solved : g.solve limit = .ok solution) (policy : LabelPolicy) {f : Function} (function : f ∈ p.functions)
    {v : Bytes} {d : Instruction} (writes : f.Overwrites v d) :
    d.line ∈ (Solved.mk g solution.facts).closure policy p ↔
      Critical.Seed policy d ∨ ∃ i ∈ f.body, i.line ∈ (Solved.mk g solution.facts).closure policy p ∧
        v ∈ i.reads ∧ g.Flows f v d i := by
  have code : d ∈ p.code := Program.mem_code_iff.2 ⟨f, function, writes.1⟩
  have least := Solved.closure_isLeast policy built.distinct (built.fedFrom solved)
  constructor
  · intro marked
    by_contra alone
    -- Otherwise the marked lines without that one would be closed.
    have smaller : Critical.Closed (Solved.mk g solution.facts).feeding (Critical.Seed policy) p
        {n | n ∈ (Solved.mk g solution.facts).closure policy p ∧ n ≠ d.line} := by
      refine ⟨fun i present seed => ⟨least.1.seeds i present seed, fun line => ?_⟩,
        fun i present needed n feeds => ⟨least.1.feeds i present needed.1 n feeds, fun line => ?_⟩⟩
      · exact alone (.inl (built.distinct.instruction_eq present code line ▸ seed))
      · obtain ⟨h, owner, body⟩ := Program.mem_code_iff.1 present
        obtain ⟨e, inside, same, u, read, written, flows⟩ := (built.mem_feeding solved owner body).1 feeds
        obtain rfl := built.distinct.instruction_eq (Program.mem_code_iff.2 ⟨h, owner, inside⟩) code (same.trans line)
        obtain rfl := built.distinct.owner_eq owner function inside writes.1
        obtain rfl := Option.some.inj (written.symm.trans writes.2)
        exact alone (.inr ⟨i, body, needed.1, read, flows⟩)
    exact (least.2 smaller marked).2 rfl
  · intro given
    rcases given with seed | ⟨i, body, marked, read, flows⟩
    · exact least.1.seeds d code seed
    · have feeds := (built.mem_feeding solved function body).2 ⟨d, writes.1, rfl, v, read, writes.2, flows⟩
      exact least.1.feeds i (Program.mem_code_iff.2 ⟨f, function, body⟩) marked d.line feeds

namespace Analysis

theorem exists_solution {s : Settings} {p : Program} {a : Analysis} (analysed : Analysis.run s p = .ok a) :
    ∃ g wires solution, g.BuiltFrom s.intrinsics p wires ∧ g.solve s.maxIterations = .ok solution ∧
      a = ofSolution s.labels p g solution := by
  obtain ⟨g, built, analysed⟩ := Except.bind_eq_ok.1 analysed
  obtain ⟨solution, solved, analysed⟩ := Except.bind_eq_ok.1 analysed
  obtain ⟨wires, built⟩ := Graph.exists_wires built
  cases analysed
  exact ⟨g, wires, solution, built, solved, rfl⟩

/-- The critical lines are the least closed set, with the labels that jumps go to if only those are kept. Every run of
the work list comes to an end, and whichever instruction it takes up and however their feeds are listed, it ends with
that set. -/
theorem critical_least_in_any_order {s : Settings} {p : Program} {a : Analysis} (analysed : Analysis.run s p = .ok a) :
    ∃ lines, IsLeast {lines | Critical.Closed a.solved.feeding (Critical.Seed s.labels) p lines} lines ∧
      (∀ n, n ∈ a.critical ↔ n ∈ lines ∨
        s.labels = .referenced ∧ ∃ f ∈ p.functions, ∃ label, f.Targets label ∧ label.line = n) ∧
      ∀ listing, Worklist.Lists a.solved p listing → ∀ w, Worklist.Run listing s.labels p w →
        Acc (fun v w => Worklist.Step listing w v) w ∧ (w.pending = [] ∨ ∃ v, Worklist.Step listing w v) ∧
          (w.pending = [] → {n | n ∈ w.marked} = lines) := by
  obtain ⟨g, wires, solution, built, solved, rfl⟩ := exists_solution analysed
  have fed := built.fedFrom solved
  have least := Solved.closure_isLeast s.labels built.distinct fed
  refine ⟨_, least, fun n => Solved.mem_critical_iff built.distinct, fun listing lists w run => ?_⟩
  have held := Worklist.invariant_run built.distinct fed lists run
  refine ⟨Worklist.acc_step built.distinct fed lists held, Worklist.pending_eq_nil_or_step listing w, fun empty => ?_⟩
  exact (Worklist.isLeast_of_invariant held empty).unique least

/-- A counter that nothing but itself reads is fed by itself and yet not critical, while the label it loops to is. -/
theorem counting_keeps_loop_only :
    ∃ a, Analysis.run ⟨.referenced, [], [109], 0, 0⟩ ⟨[Solved.counting]⟩ = .ok a ∧ 2 ∈ a.solved.feeding Solved.counter ∧
      1 ∈ a.critical ∧ 2 ∉ a.critical := by
  have built : Graph.build [] [109] ⟨[Solved.counting]⟩ = .ok Solved.counted := by cbv
  have solved : Solved.counted.solve 0 = .ok ⟨Solved.countedFacts, 2⟩ := by cbv
  have analysed : Analysis.run ⟨.referenced, [], [109], 0, 0⟩ ⟨[Solved.counting]⟩ =
      .ok (ofSolution .referenced ⟨[Solved.counting]⟩ Solved.counted ⟨Solved.countedFacts, 2⟩) := by
    rw [run, built]
    show (Solved.counted.solve 0 >>= _) = _
    rw [solved]
    rfl
  have fed : ((Solved.mk Solved.counted Solved.countedFacts).feeding Solved.counter).lines = [2] := by cbv
  have free : ((Solved.mk Solved.counted Solved.countedFacts).feeding ⟨.goto, [⟨.label, [76]⟩], 3⟩).lines = [] := by cbv
  have code {i : Instruction} (member : i ∈ Solved.counting.body) :
      i = ⟨.label, [⟨.label, [76]⟩], 1⟩ ∨ i = Solved.counter ∨ i = ⟨.goto, [⟨.label, [76]⟩], 3⟩ := by
    simpa [Solved.counting] using member
  obtain ⟨lines, least, critical, _⟩ := critical_least_in_any_order analysed
  have targets : Solved.counting.Targets ⟨.label, [⟨.label, [76]⟩], 1⟩ := ⟨by simp [Solved.counting], rfl, by decide,
    ⟨.goto, [⟨.label, [76]⟩], 3⟩, by simp [Solved.counting], .inl rfl, rfl⟩
  refine ⟨_, analysed, ?_, (critical 1).2 (.inr ⟨rfl, Solved.counting, by simp, _, targets, rfl⟩), fun marked => ?_⟩
  · show 2 ∈ ((Solved.mk Solved.counted Solved.countedFacts).feeding Solved.counter).lines
    rw [fed]
    exact List.mem_singleton.2 rfl
  · -- The line of the jump alone is a closed set.
    have closed : Critical.Closed (Solved.mk Solved.counted Solved.countedFacts).feeding
        (Critical.Seed .referenced) ⟨[Solved.counting]⟩ {3} := by
      refine ⟨fun i member seed => ?_, fun i member line n feeds => ?_⟩
      all_goals rcases code (by simpa [Program.code] using member) with rfl | rfl | rfl
      · simp [Critical.Seed, Critical.Acts] at seed
      · simp [Critical.Seed, Critical.Acts, Solved.counter] at seed
      · rfl
      · simp at line
      · simp [Solved.counter] at line
      · rw [← LineSet.mem_lines, free] at feeds
        cases feeds
    rcases (critical 2).1 marked with needed | ⟨_, f, function, label, targets, line⟩
    · have wrong : (2 : Int) ∈ ({3} : Set Int) := least.2 closed needed
      simp at wrong
    · rw [List.mem_singleton.1 function] at targets
      rcases code targets.body with rfl | rfl | rfl
      · simp at line
      · exact absurd targets.op (by simp [Solved.counter])
      · simp at line

end Analysis

end Deadwood

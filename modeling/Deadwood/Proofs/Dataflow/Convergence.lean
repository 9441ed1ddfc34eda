import Deadwood.Proofs.Dataflow.Solution
import Deadwood.Proofs.Flow.Control
import Mathlib.Data.Bool.Basic
import Mathlib.Data.Finset.Card

/-!
How fast the solver settles. Passes only add lines. What a pass does with one line depends on that line alone, so a
pass that leaves a line where it was is followed by none that moves it; hence a line still on its way after `k` passes
has reached a new block in each of them, and there are only so many blocks. What the solver settles on is the least
solution of the equations, in whatever order it visits the blocks.
-/

namespace Deadwood

theorem LineSet.ext {s t : LineSet} (same : ∀ n, n ∈ s ↔ n ∈ t) : s = t := by
  have lines : s.lines = t.lines := by
    apply List.Perm.eq_of_pairwise _ s.ascending t.ascending
    · apply (List.perm_ext_iff_of_nodup _ _).2 same
      · exact s.nodup_lines
      · exact t.nodup_lines
    · intro a b _ _ less more
      omega
  cases s
  cases t
  simpa using lines

namespace Equations

variable {e : Equations} {facts other : List Facts} {id : Nat} {n : Int}

def after (e : Equations) (passes : Nat) : List Facts := e.pass^[passes] e.start

/-- A line leaves every block that it leaves by the first facts by the second as well. -/
def Carried (n : Int) (facts other : List Facts) : Prop := ∀ id, n ∈ outOf facts id → n ∈ outOf other id

/-- No set of the first facts has a line that the second lack. -/
def Rises (facts other : List Facts) : Prop :=
  ∀ id n, (n ∈ inOf facts id → n ∈ inOf other id) ∧ (n ∈ outOf facts id → n ∈ outOf other id)

theorem lt_of_mem_outOf (member : n ∈ outOf facts id) : id < facts.length := by
  by_contra beyond
  rw [outOf, List.getElem?_eq_none (by omega)] at member
  exact LineSet.not_mem_empty n member

theorem update_cases (sized : facts.length = e.effects.length) (sized' : other.length = e.effects.length)
    (id k : Nat) :
    ((e.update facts id)[k]? = facts[k]? ∧ (e.update other id)[k]? = other[k]?) ∨
      ∃ effect, (e.update facts id)[k]? = some (transfer effect facts) ∧
        (e.update other id)[k]? = some (transfer effect other) := by
  by_cases same : k = id
  · subst same
    cases found : e.effects[k]? with
    | none => exact .inl ⟨by simp [update, found], by simp [update, found]⟩
    | some effect =>
        have bound : k < e.effects.length := (List.getElem?_eq_some_iff.1 found).1
        exact .inr ⟨effect, update_self found (by omega), update_self found (by omega)⟩
  · exact .inl ⟨update_ne same, update_ne same⟩

theorem transfer_carried {effect : Effect} (carried : Carried n facts other) :
    (n ∈ (transfer effect facts).incoming → n ∈ (transfer effect other).incoming) ∧
      (n ∈ (transfer effect facts).outgoing → n ∈ (transfer effect other).outgoing) := by
  have enters : n ∈ (transfer effect facts).incoming → n ∈ (transfer effect other).incoming := by
    rw [mem_transfer_incoming, mem_transfer_incoming]
    intro given
    rcases given with ⟨k, pred, member⟩
    exact ⟨k, pred, carried k member⟩
  refine ⟨enters, ?_⟩
  rw [mem_transfer_outgoing, mem_transfer_outgoing]
  intro given
  rcases given with here | ⟨member, kept⟩
  · exact .inl here
  · exact .inr ⟨enters member, kept⟩

theorem update_carried (sized : facts.length = e.effects.length) (sized' : other.length = e.effects.length)
    (carried : Carried n facts other) : Carried n (e.update facts id) (e.update other id) := by
  intro k
  rcases update_cases sized sized' id k with ⟨kept, kept'⟩ | ⟨effect, value, value'⟩
  · rw [outOf_congr kept, outOf_congr kept']
    exact carried k
  · simp only [outOf, value, value', Option.getD_some]
    exact (transfer_carried carried).2

theorem update_rises (sized : facts.length = e.effects.length) (sized' : other.length = e.effects.length)
    (rises : Rises facts other) : Rises (e.update facts id) (e.update other id) := by
  intro k n
  have carried : Carried n facts other := fun l => (rises l n).2
  refine ⟨?_, update_carried sized sized' carried k⟩
  rcases update_cases sized sized' id k with ⟨kept, kept'⟩ | ⟨effect, value, value'⟩
  · simp only [inOf, kept, kept']
    exact (rises k n).1
  · simp only [inOf, value, value', Option.getD_some]
    exact (transfer_carried carried).1

theorem length_pass : (e.pass facts).length = facts.length := by
  rw [pass]
  generalize e.order = order
  induction order generalizing facts with
  | nil => rfl
  | cons id order ih => rw [List.foldl_cons, ih, length_update]

theorem pass_keeps {related : List Facts → List Facts → Prop}
    (step : ∀ facts other id, facts.length = e.effects.length → other.length = e.effects.length →
      related facts other → related (e.update facts id) (e.update other id))
    (sized : facts.length = e.effects.length) (sized' : other.length = e.effects.length)
    (held : related facts other) : related (e.pass facts) (e.pass other) := by
  simp only [pass]
  generalize e.order = order
  induction order generalizing facts other with
  | nil => exact held
  | cons id order ih =>
      simp only [List.foldl_cons]
      apply ih
      · rw [length_update, sized]
      · rw [length_update, sized']
      · exact step facts other id sized sized' held

theorem after_succ (e : Equations) (passes : Nat) : e.after (passes + 1) = e.pass (e.after passes) :=
  Function.iterate_succ_apply' e.pass passes e.start

theorem length_after (e : Equations) (passes : Nat) : (e.after passes).length = e.effects.length := by
  induction passes with
  | zero => simp [after, start]
  | succ passes ih => rw [after_succ, length_pass, ih]

theorem start_rises (e : Equations) (facts : List Facts) : Rises e.start facts := by
  intro id n
  simp only [inOf, outOf, getD_start]
  exact ⟨fun member => (LineSet.not_mem_empty n member).elim, fun member => (LineSet.not_mem_empty n member).elim⟩

theorem after_rises (e : Equations) (passes : Nat) : Rises (e.after passes) (e.after (passes + 1)) := by
  induction passes with
  | zero => exact start_rises e _
  | succ passes ih =>
      rw [after_succ e passes, after_succ e (passes + 1)]
      exact pass_keeps (fun _ _ _ => update_rises) (e.length_after passes) (e.length_after (passes + 1)) ih

theorem carried_succ {passes : Nat} (still : Carried n (e.after (passes + 1)) (e.after passes)) :
    Carried n (e.after (passes + 2)) (e.after (passes + 1)) := by
  rw [after_succ e passes, after_succ e (passes + 1)]
  exact pass_keeps (fun _ _ _ => update_carried) (e.length_after (passes + 1)) (e.length_after passes) still

def holders (e : Equations) (n : Int) (facts : List Facts) : Finset Nat :=
  (Finset.range e.effects.length).filter fun id => n ∈ outOf facts id

theorem holders_grow {passes : Nat} (moves : ¬ Carried n (e.after (passes + 1)) (e.after passes)) :
    (e.holders n (e.after passes)).card < (e.holders n (e.after (passes + 1))).card := by
  apply Finset.card_lt_card
  rw [Finset.ssubset_iff_of_subset]
  · simp only [Carried, not_forall] at moves
    rcases moves with ⟨id, now, before⟩
    have bound : id < e.effects.length := by
      rw [← e.length_after (passes + 1)]
      exact lt_of_mem_outOf now
    exact ⟨id, by simp [holders, bound, now], by simp [holders, before]⟩
  · intro id member
    simp only [holders, Finset.mem_filter] at member ⊢
    exact ⟨member.1, (e.after_rises passes id n).2 member.2⟩

theorem lt_card_holders {passes : Nat} (moves : ¬ Carried n (e.after (passes + 1)) (e.after passes)) :
    passes < (e.holders n (e.after (passes + 1))).card := by
  induction passes with
  | zero => exact Nat.zero_lt_of_lt (holders_grow moves)
  | succ passes ih =>
      have earlier : ¬ Carried n (e.after (passes + 1)) (e.after passes) := fun still => moves (carried_succ still)
      have less := ih earlier
      have more := holders_grow moves
      omega

theorem outOf_eq_of_carried (rises : Rises facts other) (still : ∀ n, Carried n other facts) (id : Nat) :
    outOf facts id = outOf other id :=
  LineSet.ext fun n => ⟨(rises id n).2, still n id⟩

theorem settled_of_outOf_eq (lengths : facts.length = other.length) (same : ∀ id, outOf facts id = outOf other id) :
    settled facts other = true := by
  rw [settled, beq_iff_eq]
  apply List.ext_getElem (by simpa using lengths)
  intro id bound bound'
  simp only [List.length_map] at bound bound'
  have equal := same id
  rw [outOf, outOf, List.getElem?_eq_getElem bound, List.getElem?_eq_getElem bound'] at equal
  simpa using equal

theorem lt_of_not_settled {passes : Nat} (changed : settled (e.after passes) (e.after (passes + 1)) = false) :
    passes < e.effects.length := by
  by_contra many
  have still (n : Int) : Carried n (e.after (passes + 1)) (e.after passes) := by
    by_contra moves
    have less := lt_card_holders moves
    have most : (e.holders n (e.after (passes + 1))).card ≤ e.effects.length := by
      simpa [holders] using Finset.card_filter_le (Finset.range e.effects.length) _
    omega
  have quiet := settled_of_outOf_eq (by rw [length_after, length_after])
    (outOf_eq_of_carried (e.after_rises passes) still)
  rw [changed] at quiet
  cases quiet

theorem iterate_of_settled {remaining done passes : Nat}
    (quiet : settled (e.pass^[passes] facts) (e.pass^[passes + 1] facts) = true) (enough : passes < remaining) :
    ∃ solution, e.iterate remaining done facts = .ok solution ∧ solution.iterations ≤ done + passes + 1 := by
  induction remaining generalizing done passes facts with
  | zero => omega
  | succ remaining ih =>
      rw [iterate]
      by_cases now : settled facts (e.pass facts) = true
      · rw [if_pos now]
        exact ⟨_, rfl, by dsimp only; omega⟩
      · rw [if_neg now]
        cases passes with
        | zero => exact (now quiet).elim
        | succ passes =>
            have later : settled (e.pass^[passes] (e.pass facts)) (e.pass^[passes + 1] (e.pass facts)) = true := quiet
            have further : ∃ solution, e.iterate remaining (done + 1) (e.pass facts) = .ok solution ∧
                solution.iterations ≤ done + 1 + passes + 1 := ih later (by omega)
            rcases further with ⟨solution, found, bound⟩
            exact ⟨solution, found, by omega⟩

theorem facts_of_iterate {remaining done : Nat} {solution : Solution}
    (solved : e.iterate remaining done (e.after done) = .ok solution) :
    solution.facts = e.after solution.iterations := by
  induction remaining generalizing done with
  | zero => cases solved
  | succ remaining ih =>
      rw [iterate, ← after_succ] at solved
      split at solved
      · cases solved
        rfl
      · exact ih solved

theorem eq_of_rises (lengths : facts.length = other.length) (rises : Rises facts other) (falls : Rises other facts) :
    facts = other := by
  apply List.ext_getElem lengths
  intro id bound bound'
  have enters : inOf facts id = inOf other id := LineSet.ext fun n => ⟨(rises id n).1, (falls id n).1⟩
  have leaves : outOf facts id = outOf other id := LineSet.ext fun n => ⟨(rises id n).2, (falls id n).2⟩
  simp only [inOf, outOf, List.getElem?_eq_getElem bound, List.getElem?_eq_getElem bound',
    Option.getD_some] at enters leaves
  cases first : facts[id]
  cases second : other[id]
  simp_all

end Equations

namespace Graph

open Equations

variable {g : Graph}

/-- Lines at the entry and the end of every block that solve the equations: what enters a block left one of its
predecessors, and what leaves it is generated there or entered and is not killed. -/
structure Satisfies (g : Graph) (incoming outgoing : Nat → Int → Prop) : Prop where
  enters : ∀ k b n, g.blocks[k]? = some b → (incoming k n ↔ ∃ l ∈ g.preds k, outgoing l n)
  leaves : ∀ k b n, g.blocks[k]? = some b → (outgoing k n ↔ n ∈ b.gen ∨ incoming k n ∧ n ∉ b.kill g.definitions)

theorem BuiltFrom.closed_of_satisfies {intrinsics : List Bytes} {p : Program} {wires : List Wire}
    (built : g.BuiltFrom intrinsics p wires) {incoming outgoing : Nat → Int → Prop}
    (satisfied : g.Satisfies incoming outgoing) : g.Closed incoming outgoing := by
  refine ⟨?_, ?_, ?_⟩
  · intro k l n edge leaves
    have place := List.getElem?_eq_getElem (built.edge_bounds edge).2
    exact (satisfied.enters l _ n place).2 ⟨k, mem_preds_iff.2 edge, leaves⟩
  · intro k b n place here
    exact (satisfied.leaves k b n place).2 (.inl here)
  · intro k b n place enters kept
    exact (satisfied.leaves k b n place).2 (.inr ⟨enters, kept⟩)

section

variable {order : List Nat} {remaining : Nat} {solution : Solution}

theorem iterate_satisfies (visits : order.Perm g.ids)
    (solved : (g.visiting order).iterate remaining 0 g.equations.start = .ok solution) :
    g.Satisfies (fun k n => n ∈ inOf solution.facts k) (fun k n => n ∈ outOf solution.facts k) := by
  constructor
  · intro k b n place
    rw [inOf, iterate_solves visits solved place, Option.getD_some, mem_transfer_incoming]
  · intro k b n place
    rw [outOf, inOf, iterate_solves visits solved place, Option.getD_some, mem_transfer_outgoing]

theorem length_of_iterate (solved : (g.visiting order).iterate remaining 0 g.equations.start = .ok solution) :
    solution.facts.length = g.size := by
  have facts : solution.facts = (g.visiting order).after solution.iterations := facts_of_iterate solved
  rw [facts, length_after]
  exact g.length_effects

theorem exists_iterate (g : Graph) (order : List Nat) :
    ∃ solution, (g.visiting order).iterate (passBound 0 g.size g.definitions.length) 0 g.equations.start =
      .ok solution ∧ solution.iterations ≤ g.size + 1 := by
  have quiet : settled ((g.visiting order).after g.size) ((g.visiting order).after (g.size + 1)) = true := by
    by_contra changed
    have less := lt_of_not_settled (Bool.eq_false_of_not_eq_true changed)
    have same : (g.visiting order).effects.length = g.size := g.length_effects
    omega
  have enough : g.size < passBound 0 g.size g.definitions.length := by
    have one : 1 ≤ max g.definitions.length 1 := Nat.le_max_right _ _
    have most := Nat.mul_le_mul_left g.size one
    simp only [passBound, Nat.lt_irrefl, if_false]
    omega
  have found : ∃ solution, (g.visiting order).iterate (passBound 0 g.size g.definitions.length) 0 g.equations.start =
      .ok solution ∧ solution.iterations ≤ 0 + g.size + 1 := iterate_of_settled quiet enough
  rcases found with ⟨solution, solved, bound⟩
  exact ⟨solution, solved, by omega⟩

theorem BuiltFrom.facts_eq {intrinsics : List Bytes} {p : Program} {wires : List Wire}
    (built : g.BuiltFrom intrinsics p wires) {other : Solution} {order' : List Nat} {remaining' : Nat}
    (visits : order.Perm g.ids) (visits' : order'.Perm g.ids)
    (solved : (g.visiting order).iterate remaining 0 g.equations.start = .ok solution)
    (solved' : (g.visiting order').iterate remaining' 0 g.equations.start = .ok other) :
    solution.facts = other.facts := by
  apply eq_of_rises
  · rw [length_of_iterate solved, length_of_iterate solved']
  · exact iterate_least solved (built.closed_of_satisfies (iterate_satisfies visits' solved'))
  · exact iterate_least solved' (built.closed_of_satisfies (iterate_satisfies visits solved))

end

/-- Passes over the blocks only add lines, and only the first passes, at most one for each block, change an out set.
The solver therefore settles, and what it settles on is the least solution of the equations, which it also finds if it
visits the blocks in another order. -/
theorem solve_settles_on_least {intrinsics : List Bytes} {entry : Bytes} {p : Program}
    (built : build intrinsics entry p = .ok g) :
    (∀ passes, Rises (g.equations.after passes) (g.equations.after (passes + 1))) ∧
      (∀ passes, settled (g.equations.after passes) (g.equations.after (passes + 1)) = false → passes < g.size) ∧
      (∃ solution, g.solve 0 = .ok solution ∧ solution.iterations ≤ g.size + 1) ∧
      ∀ limit solution, g.solve limit = .ok solution →
        solution.facts = g.equations.after solution.iterations ∧
        g.Satisfies (fun k n => n ∈ inOf solution.facts k) (fun k n => n ∈ outOf solution.facts k) ∧
        (∀ incoming outgoing, g.Satisfies incoming outgoing → Within incoming outgoing solution.facts) ∧
        ∀ order, order.Perm g.ids → ∃ passes ≤ g.size + 1,
          (g.visiting order).iterate (passBound 0 g.size g.definitions.length) 0 g.equations.start =
            .ok ⟨solution.facts, passes⟩ := by
  rcases exists_wires built with ⟨wires, built⟩
  refine ⟨g.equations.after_rises, ?_, g.exists_iterate g.order, ?_⟩
  · intro passes changed
    rw [← g.length_effects]
    exact lt_of_not_settled changed
  · intro limit solution solved
    refine ⟨facts_of_iterate solved, iterate_satisfies g.order_perm solved, ?_, ?_⟩
    · intro incoming outgoing satisfied
      exact solve_least solved (built.closed_of_satisfies satisfied)
    · intro order visits
      rcases g.exists_iterate order with ⟨other, solved', bound⟩
      refine ⟨other.iterations, bound, ?_⟩
      rw [solved', built.facts_eq g.order_perm visits solved solved']

def detouring : Function where
  name := [109]
  body := [
    ⟨.goto, [⟨.label, [65]⟩], 1⟩,
    ⟨.label, [⟨.label, [66]⟩], 2⟩,
    ⟨.ret, [⟨.variable, [120]⟩], 3⟩,
    ⟨.label, [⟨.label, [65]⟩], 4⟩,
    ⟨.assign, [⟨.variable, [120]⟩, ⟨.constant, [49]⟩], 5⟩,
    ⟨.goto, [⟨.label, [66]⟩], 6⟩]

def detour : Graph where
  blocks := [
    ⟨[109], ⟨.goto, [⟨.label, [65]⟩], 1⟩, []⟩,
    ⟨[109], ⟨.label, [⟨.label, [66]⟩], 2⟩, [⟨.ret, [⟨.variable, [120]⟩], 3⟩]⟩,
    ⟨[109], ⟨.label, [⟨.label, [65]⟩], 4⟩, [
      ⟨.assign, [⟨.variable, [120]⟩, ⟨.constant, [49]⟩], 5⟩, ⟨.goto, [⟨.label, [66]⟩], 6⟩]⟩]
  entry := 0
  edges := [(0, 2), (2, 1)]
  exits := [([109], 1)]

theorem detour_settles_in_program_order :
    build [] [109] ⟨[detouring]⟩ = .ok detour ∧ ∃ solution, detour.solve 0 = .ok solution ∧ solution.iterations ≤ 4 ∧
      ∃ passes ≤ 4, (detour.visiting [0, 1, 2]).iterate 4 0 detour.equations.start = .ok ⟨solution.facts, passes⟩ := by
  have built : build [] [109] ⟨[detouring]⟩ = .ok detour := by decide +kernel
  rcases solve_settles_on_least built with ⟨_, _, ⟨solution, solved, bound⟩, found⟩
  exact ⟨built, solution, solved, bound, (found 0 solution solved).2.2.2 [0, 1, 2] (List.Perm.refl _)⟩

end Graph

end Deadwood

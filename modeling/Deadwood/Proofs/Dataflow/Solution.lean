import Deadwood.Dataflow.Uses
import Deadwood.Proofs.Flow.Order

/-!
What the solver finds. The facts it returns satisfy the equations of every block, and they are the least that do:
whatever is closed under the equations contains them.
-/

namespace Deadwood

theorem LineSet.mem_unions {n : Int} {sets : List LineSet} : n ∈ LineSet.unions sets ↔ ∃ s ∈ sets, n ∈ s := by
  have fold (start : LineSet) : n ∈ sets.foldl LineSet.union start ↔ n ∈ start ∨ ∃ s ∈ sets, n ∈ s := by
    induction sets generalizing start with
    | nil => simp
    | cons s sets ih => simp [ih, or_assoc]
  simp [LineSet.unions, fold]

namespace Equations

def inOf (facts : List Facts) (id : Nat) : LineSet := (facts[id]?.getD .none).incoming

variable {e : Equations} {facts : List Facts} {effect : Effect} {id : Nat} {n : Int}

theorem mem_transfer_incoming : n ∈ (transfer effect facts).incoming ↔ ∃ k ∈ effect.preds, n ∈ outOf facts k := by
  simp [transfer, LineSet.mem_unions]

theorem mem_transfer_outgoing :
    n ∈ (transfer effect facts).outgoing ↔
      n ∈ effect.gen ∨ n ∈ (transfer effect facts).incoming ∧ n ∉ effect.kill := by
  simp [transfer]

theorem transfer_congr {other : List Facts} (same : ∀ id, outOf facts id = outOf other id) :
    transfer effect facts = transfer effect other := by
  have outs : outOf facts = outOf other := funext same
  simp only [transfer, outs]

theorem length_update : (e.update facts id).length = facts.length := by
  rw [update]
  split <;> simp

theorem update_self (found : e.effects[id]? = some effect) (bound : id < facts.length) :
    (e.update facts id)[id]? = some (transfer effect facts) := by
  simp [update, found, bound]

theorem update_ne {other : Nat} (differs : other ≠ id) : (e.update facts id)[other]? = facts[other]? := by
  rw [update]
  split
  · exact List.getElem?_set_ne (Ne.symm differs)
  · rfl

theorem foldl_update_of_not_mem {order : List Nat} (absent : id ∉ order) :
    (order.foldl e.update facts)[id]? = facts[id]? := by
  induction order generalizing facts with
  | nil => rfl
  | cons next order ih =>
      rw [List.mem_cons, not_or] at absent
      rw [List.foldl_cons, ih absent.2, update_ne absent.1]

theorem outOf_congr {other : List Facts} (same : facts[id]? = other[id]?) : outOf facts id = outOf other id := by
  rw [outOf, outOf, same]

theorem foldl_update_of_stable {order : List Nat} (distinct : order.Nodup)
    (stable : ∀ id, outOf (order.foldl e.update facts) id = outOf facts id) (member : id ∈ order)
    (found : e.effects[id]? = some effect) (bound : id < facts.length) :
    (order.foldl e.update facts)[id]? = some (transfer effect facts) := by
  induction order generalizing facts with
  | nil => cases member
  | cons next order ih =>
      rw [List.nodup_cons] at distinct
      rw [List.foldl_cons] at stable ⊢
      have final : (order.foldl e.update (e.update facts next))[next]? = (e.update facts next)[next]? :=
        foldl_update_of_not_mem distinct.1
      -- The block just updated is not visited again, so its out set is already the final one.
      have kept (k : Nat) : outOf (e.update facts next) k = outOf facts k := by
        by_cases same : k = next
        · subst same
          rw [← stable k, outOf_congr final]
        · exact outOf_congr (update_ne same)
      by_cases same : id = next
      · subst same
        rw [final, update_self found bound]
      · have later : id ∈ order := (List.mem_cons.1 member).resolve_left same
        rw [ih distinct.2 (fun k => by rw [stable k, kept k]) later (by rwa [length_update]), transfer_congr kept]

theorem outOf_eq_of_settled {after : List Facts} (unchanged : settled facts after = true) (id : Nat) :
    outOf after id = outOf facts id := by
  have read (facts : List Facts) : outOf facts id = ((facts.map (·.outgoing))[id]?).getD .empty := by
    rw [outOf, List.getElem?_map]
    cases facts[id]? <;> rfl
  rw [settled, beq_iff_eq] at unchanged
  rw [read, read, unchanged]

theorem getD_start (id : Nat) : e.start[id]?.getD .none = .none := by
  rw [start, List.getElem?_map]
  cases e.effects[id]? <;> rfl

theorem exists_last_pass {motive : List Facts → Prop} (step : ∀ facts id, motive facts → motive (e.update facts id))
    {remaining done : Nat} {solution : Solution} (start : motive facts)
    (solved : e.iterate remaining done facts = .ok solution) :
    ∃ before, motive before ∧ settled before (e.pass before) = true ∧ solution.facts = e.pass before := by
  induction remaining generalizing done facts with
  | zero => cases solved
  | succ remaining ih =>
      rw [iterate] at solved
      split at solved
      · rename_i unchanged
        cases solved
        exact ⟨facts, start, unchanged, rfl⟩
      · refine ih ?_ solved
        exact List.foldlRecOn e.order e.update start fun facts held id _ => step facts id held

end Equations

namespace Graph

open Equations

variable {g : Graph} {k : Nat} {b : Block} {n : Int} {limit : Nat} {solution : Solution}

theorem effects_eq_some_iff {effect : Effect} :
    g.equations.effects[k]? = some effect ↔
      ∃ b, g.blocks[k]? = some b ∧ effect = ⟨b.gen, b.kill g.definitions, g.preds k⟩ := by
  simp only [equations, List.getElem?_map, Option.map_map, Option.map_eq_some_iff, List.getElem?_zipIdx]
  simp [eq_comm]

theorem length_effects (g : Graph) : g.equations.effects.length = g.size := by
  simp [equations, size]

/-- Lines at the entry and the end of every block that contain what the equations put there. -/
structure Closed (g : Graph) (incoming outgoing : Nat → Int → Prop) : Prop where
  enters : ∀ k l n, (k, l) ∈ g.edges → outgoing k n → incoming l n
  generated : ∀ k b n, g.blocks[k]? = some b → n ∈ b.gen → outgoing k n
  passes : ∀ k b n, g.blocks[k]? = some b → incoming k n → n ∉ b.kill g.definitions → outgoing k n

def Within (incoming outgoing : Nat → Int → Prop) (facts : List Facts) : Prop :=
  ∀ k n, (n ∈ inOf facts k → incoming k n) ∧ (n ∈ outOf facts k → outgoing k n)

theorem update_within {incoming outgoing : Nat → Int → Prop} (closed : g.Closed incoming outgoing)
    (facts : List Facts) (id : Nat) (within : Within incoming outgoing facts) :
    Within incoming outgoing (g.equations.update facts id) := by
  intro k n
  by_cases same : k = id
  · subst same
    cases found : g.equations.effects[k]? with
    | none =>
        rw [update, found]
        exact within k n
    | some effect =>
        by_cases bound : k < facts.length
        · have value := update_self found bound
          obtain ⟨b, place, rfl⟩ := effects_eq_some_iff.1 found
          have enters : n ∈ (transfer ⟨b.gen, b.kill g.definitions, g.preds k⟩ facts).incoming → incoming k n := by
            rw [mem_transfer_incoming]
            intro given
            rcases given with ⟨l, pred, member⟩
            exact closed.enters l k n (by simpa [preds] using pred) ((within l n).2 member)
          simp only [inOf, outOf, value, Option.getD_some]
          refine ⟨enters, fun member => ?_⟩
          rcases mem_transfer_outgoing.1 member with here | ⟨member, kept⟩
          · exact closed.generated k b n place here
          · exact closed.passes k b n place (enters member) kept
        · have none : (g.equations.update facts k)[k]? = facts[k]? := by
            rw [List.getElem?_eq_none (by rw [length_update]; omega), List.getElem?_eq_none (by omega)]
          simpa only [inOf, outOf, none] using within k n
  · simpa only [inOf, outOf, update_ne same] using within k n

theorem start_within (incoming outgoing : Nat → Int → Prop) : Within incoming outgoing g.equations.start := by
  intro k n
  simp only [inOf, outOf, getD_start]
  exact ⟨fun member => (LineSet.not_mem_empty n member).elim, fun member => (LineSet.not_mem_empty n member).elim⟩

def visiting (g : Graph) (order : List Nat) : Equations := { g.equations with order }

section

variable {order : List Nat} {remaining done : Nat}

theorem iterate_least {incoming outgoing : Nat → Int → Prop}
    (solved : (g.visiting order).iterate remaining done g.equations.start = .ok solution)
    (closed : g.Closed incoming outgoing) : Within incoming outgoing solution.facts := by
  obtain ⟨before, within, _, last⟩ := exists_last_pass (e := g.visiting order) (update_within closed)
    (start_within _ _) solved
  rw [last]
  exact List.foldlRecOn _ _ within fun facts held id _ => update_within closed facts id held

theorem iterate_solves (visits : order.Perm g.ids)
    (solved : (g.visiting order).iterate remaining done g.equations.start = .ok solution)
    (place : g.blocks[k]? = some b) :
    solution.facts[k]? = some (transfer ⟨b.gen, b.kill g.definitions, g.preds k⟩ solution.facts) := by
  obtain ⟨before, length, unchanged, last⟩ := exists_last_pass (e := g.visiting order)
    (motive := fun facts => facts.length = g.size) (fun facts id same => by rw [length_update, same])
    (by simp [start, length_effects]) solved
  obtain ⟨bound, -⟩ := List.getElem?_eq_some_iff.1 place
  have stable (id : Nat) : outOf ((g.visiting order).pass before) id = outOf before id :=
    outOf_eq_of_settled unchanged id
  have found := effects_eq_some_iff.2 ⟨b, place, rfl⟩
  have distinct : order.Nodup := visits.nodup_iff.2 List.nodup_range
  have visited : k ∈ order := visits.mem_iff.2 (List.mem_range.2 bound)
  have value := foldl_update_of_stable (e := g.visiting order) distinct stable visited found (length ▸ bound)
  rw [← transfer_congr stable] at value
  rw [last]
  exact value

end

theorem solve_least {incoming outgoing : Nat → Int → Prop} (solved : g.solve limit = .ok solution)
    (closed : g.Closed incoming outgoing) : Within incoming outgoing solution.facts :=
  iterate_least solved closed

theorem solve_solves (solved : g.solve limit = .ok solution) (place : g.blocks[k]? = some b) :
    solution.facts[k]? = some (transfer ⟨b.gen, b.kill g.definitions, g.preds k⟩ solution.facts) :=
  iterate_solves g.order_perm solved place

theorem mem_inOf_iff (solved : g.solve limit = .ok solution) (place : g.blocks[k]? = some b) :
    n ∈ inOf solution.facts k ↔ ∃ l ∈ g.preds k, n ∈ outOf solution.facts l := by
  rw [inOf, solve_solves solved place, Option.getD_some, mem_transfer_incoming]

theorem mem_outOf_iff (solved : g.solve limit = .ok solution) (place : g.blocks[k]? = some b) :
    n ∈ outOf solution.facts k ↔ n ∈ b.gen ∨ n ∈ inOf solution.facts k ∧ n ∉ b.kill g.definitions := by
  rw [outOf, inOf, solve_solves solved place, Option.getD_some, mem_transfer_outgoing]

end Graph

end Deadwood

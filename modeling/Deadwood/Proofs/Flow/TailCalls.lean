import Deadwood.Proofs.Flow.Succession
import Mathlib.Data.Finset.Card

/-!
The search for the blocks that control leaves a function from. It goes on from a function to those it calls last, and
passes over a function that it has met before, on whatever branch that was. So it ends also where tail calls lead round
in a circle, and what one branch leaves out another has found.
-/

namespace Deadwood

/-- A search through some functions, one after the other, when some have been met. A function that was met before adds
nothing. Any other adds its own blocks, and then what is found through the functions that it calls last, all of which
counts as met from then on. -/
inductive Gathers (own : Bytes → List Nat) (callees : Bytes → List Bytes) :
    (seen names : List Bytes) → (found : List Nat) → (met : List Bytes) → Prop
  | done {seen : List Bytes} : Gathers own callees seen [] [] seen
  | again {seen names met : List Bytes} {found : List Nat} {name : Bytes} :
      name ∈ seen → Gathers own callees seen names found met → Gathers own callees seen (name :: names) found met
  | enters {seen names between met : List Bytes} {through later : List Nat} {name : Bytes} :
      name ∉ seen → Gathers own callees (name :: seen) (callees name) through between →
        Gathers own callees between names later met →
          Gathers own callees seen (name :: names) (own name ++ through ++ later) met

namespace Gathers

variable {own : Bytes → List Nat} {callees : Bytes → List Bytes} {seen names met : List Bytes} {found : List Nat}

theorem unique {found' : List Nat} {met' : List Bytes} (first : Gathers own callees seen names found met)
    (second : Gathers own callees seen names found' met') : found' = found ∧ met' = met := by
  induction first generalizing found' met' with
  | done =>
      cases second
      exact ⟨rfl, rfl⟩
  | again present _ ih =>
      cases second with
      | again _ rest => exact ih rest
      | enters absent => exact absurd present absent
  | enters absent _ _ inner outer =>
      cases second with
      | again present => exact absurd present absent
      | enters _ through later =>
          obtain ⟨rfl, rfl⟩ := inner through
          obtain ⟨rfl, rfl⟩ := outer later
          exact ⟨rfl, rfl⟩

theorem seen_subset (gathers : Gathers own callees seen names found met) : seen ⊆ met := by
  induction gathers with
  | done => exact List.Subset.refl _
  | again _ _ ih => exact ih
  | enters _ _ _ inner outer => exact fun name member => outer (inner (List.mem_cons_of_mem _ member))

theorem names_subset (gathers : Gathers own callees seen names found met) : names ⊆ met := by
  induction gathers with
  | done => exact List.nil_subset _
  | again present rest ih => exact List.cons_subset.2 ⟨rest.seen_subset present, ih⟩
  | enters _ inner outer _ ih =>
      exact List.cons_subset.2 ⟨outer.seen_subset (inner.seen_subset List.mem_cons_self), ih⟩

theorem nodup (gathers : Gathers own callees seen names found met) (distinct : seen.Nodup) : met.Nodup := by
  induction gathers with
  | done => exact distinct
  | again _ _ ih => exact ih distinct
  | enters absent _ _ inner outer => exact outer (inner (List.nodup_cons.2 ⟨absent, distinct⟩))

theorem callees_subset (gathers : Gathers own callees seen names found met) {name : Bytes} (member : name ∈ met)
    (fresh : name ∉ seen) : callees name ⊆ met := by
  induction gathers with
  | done => exact absurd member fresh
  | again _ _ ih => exact ih member fresh
  | @enters seen names between met through later first absent inside rest inner outer =>
      by_cases known : name ∈ between
      · refine fun callee calls => rest.seen_subset ?_
        by_cases same : name = first
        · exact inside.names_subset (same ▸ calls)
        · exact inner known (by simp [same, fresh]) calls
      · exact outer member known

theorem reaches (gathers : Gathers own callees seen names found met) {name : Bytes} (member : name ∈ met) :
    name ∈ seen ∨ ∃ start ∈ names, Relation.ReflTransGen (fun caller callee => callee ∈ callees caller) start name := by
  induction gathers with
  | done => exact .inl member
  | again _ _ ih =>
      refine (ih member).imp_right fun given => ?_
      obtain ⟨start, listed, path⟩ := given
      exact ⟨start, List.mem_cons_of_mem _ listed, path⟩
  | enters _ _ _ inner outer =>
      rcases outer member with known | ⟨start, listed, path⟩
      · rcases inner known with old | ⟨start, listed, path⟩
        · rcases List.mem_cons.1 old with rfl | old
          · exact .inr ⟨name, List.mem_cons_self, .refl⟩
          · exact .inl old
        · exact .inr ⟨_, List.mem_cons_self, .head listed path⟩
      · exact .inr ⟨start, List.mem_cons_of_mem _ listed, path⟩

theorem mem_found_iff (gathers : Gathers own callees seen names found met) {id : Nat} :
    id ∈ found ↔ ∃ name ∈ met, name ∉ seen ∧ id ∈ own name := by
  induction gathers with
  | done => simp +contextual
  | again _ _ ih => exact ih
  | @enters seen names between met through later name absent inside rest inner outer =>
      rw [List.mem_append, List.mem_append, inner, outer]
      constructor
      · intro given
        rcases given with (here | ⟨other, known, fresh, holds⟩) | ⟨other, known, fresh, holds⟩
        · exact ⟨name, rest.seen_subset (inside.seen_subset List.mem_cons_self), absent, here⟩
        · rw [List.mem_cons, not_or] at fresh
          exact ⟨other, rest.seen_subset known, fresh.2, holds⟩
        · exact ⟨other, known, fun old => fresh (inside.seen_subset (List.mem_cons_of_mem _ old)), holds⟩
      · intro given
        rcases given with ⟨other, known, fresh, holds⟩
        by_cases same : other = name
        · exact .inl (.inl (same ▸ holds))
        · by_cases earlier : other ∈ between
          · exact .inl (.inr ⟨other, earlier, by simp [same, fresh], holds⟩)
          · exact .inr ⟨other, known, earlier, holds⟩

theorem mem_met_iff {start name : Bytes} (gathers : Gathers own callees [] [start] found met) :
    name ∈ met ↔ Relation.ReflTransGen (fun caller callee => callee ∈ callees caller) start name := by
  constructor
  · intro member
    rcases gathers.reaches member with none | ⟨other, listed, path⟩
    · cases none
    · rwa [List.mem_singleton.1 listed] at path
  · intro path
    induction path with
    | refl => exact gathers.names_subset List.mem_cons_self
    | tail _ calls ih => exact gathers.callees_subset ih List.not_mem_nil calls

theorem append {names' between : List Bytes} {found' : List Nat}
    (first : Gathers own callees seen names found between)
    (second : Gathers own callees between names' found' met) :
    Gathers own callees seen (names ++ names') (found ++ found') met := by
  induction first with
  | done => exact second
  | again present _ ih => exact .again present (ih second)
  | enters absent inside _ _ ih =>
      rw [List.append_assoc]
      exact .enters absent inside (ih second)

theorem of_seen (known : names ⊆ seen) : Gathers own callees seen names [] seen := by
  induction names with
  | nil => exact .done
  | cons name names ih =>
      rw [List.cons_subset] at known
      exact .again known.1 (ih known.2)

theorem repeated {name : Bytes} (gathers : Gathers own callees seen [name] found met) (named : names ≠ [])
    (same : ∀ other ∈ names, other = name) : Gathers own callees seen names found met := by
  cases names with
  | nil => exact absurd rfl named
  | cons first rest =>
      obtain ⟨rfl, others⟩ := List.forall_mem_cons.1 same
      have here : first ∈ met := gathers.names_subset List.mem_cons_self
      have known : rest ⊆ met := fun other member => others other member ▸ here
      have twice := gathers.append (of_seen known)
      rwa [List.append_nil] at twice

end Gathers

theorem exists_gathers (own : Bytes → List Nat) {callees : Bytes → List Bytes} {all : List Bytes}
    (closed : ∀ name ∈ all, callees name ⊆ all) {seen names : List Bytes} (listed : names ⊆ all) :
    ∃ found met, Gathers own callees seen names found met := by
  induction left : all.toFinset \ seen.toFinset using Finset.strongInduction generalizing seen names with
  | H rest fewer =>
      subst left
      induction names with
      | nil => exact ⟨[], seen, .done⟩
      | cons name names ih =>
          obtain ⟨here, others⟩ := List.cons_subset.1 listed
          by_cases known : name ∈ seen
          · obtain ⟨found, met, gathers⟩ := ih others
            exact ⟨found, met, .again known gathers⟩
          · have shrinks {more : List Bytes} (entered : name :: seen ⊆ more) :
                all.toFinset \ more.toFinset ⊂ all.toFinset \ seen.toFinset := by
              obtain ⟨now, kept⟩ := List.cons_subset.1 entered
              refine Finset.ssubset_iff_of_subset ?_ |>.2 ⟨name, by simp [here, known], by simp [now]⟩
              refine Finset.sdiff_subset_sdiff (Finset.Subset.refl _) fun other member => ?_
              exact List.mem_toFinset.2 (kept (List.mem_toFinset.1 member))
            obtain ⟨through, between, inside⟩ :=
              fewer _ (shrinks (List.Subset.refl _)) (closed name here) rfl
            obtain ⟨later, met, outside⟩ := fewer _ (shrinks inside.seen_subset) others rfl
            exact ⟨_, met, .enters known inside outside⟩

namespace Wiring

def calleesOf (wires : List Wire) (caller : Bytes) : List Bytes := ((tails wires).filter (·.1 = caller)).map (·.2)

def ownExits (wires : List Wire) (name : Bytes) : List Nat := blocksOf name (exits wires)

variable {wires : List Wire} {caller callee : Bytes}

@[simp] theorem mem_calleesOf : callee ∈ calleesOf wires caller ↔ .tail caller callee ∈ wires := by
  rw [calleesOf, List.mem_map, ← mem_tails]
  constructor
  · intro given
    rcases given with ⟨⟨name, found⟩, member, rfl⟩
    obtain ⟨member, same⟩ := List.mem_filter.1 member
    rw [decide_eq_true_eq] at same
    exact same ▸ member
  · exact fun member => ⟨_, List.mem_filter.2 ⟨member, by simp⟩, rfl⟩

theorem exists_gathers_exits (wires : List Wire) (name : Bytes) :
    ∃ found met, Gathers (ownExits wires) (calleesOf wires) [] [name] found met := by
  have closed : ∀ caller ∈ name :: (tails wires).map (·.2),
      calleesOf wires caller ⊆ name :: (tails wires).map (·.2) := by
    intro caller _ callee calls
    have wire := mem_tails.2 (mem_calleesOf.1 calls)
    exact List.mem_cons_of_mem _ (List.mem_map_of_mem wire)
  exact exists_gathers (ownExits wires) closed (by simp)

/-- Where all tail calls of a function have one callee, following the first of them finds what the search does. -/
theorem gathers_tailChain {names unseen seen : List Bytes} {name : Bytes}
    (single : ∀ caller callee, .tail caller callee ∈ wires → TailStep wires caller callee)
    (closed : ∀ caller callee, TailStep wires caller callee → callee ∈ names) (distinct : unseen.Nodup)
    (rest : ∀ other ∈ names, other ∈ unseen ↔ other ∉ seen) (listed : name ∈ names) :
    ∃ met, Gathers (ownExits wires) (calleesOf wires) seen [name]
      ((tailChain (tails wires) unseen name).flatMap (ownExits wires)) met := by
  generalize recorded : tails wires = pairs
  fun_induction tailChain pairs unseen name generalizing seen with
  | case1 unseen name present callee found ih =>
      have step : TailStep wires name callee := by rw [TailStep, recorded, found]
      have fresh : name ∉ seen := (rest name listed).1 present
      have rest' : ∀ other ∈ names, other ∈ unseen.erase name ↔ other ∉ name :: seen := by
        intro other known
        rw [distinct.mem_erase_iff, rest other known, List.mem_cons, not_or]
      obtain ⟨met, gathers⟩ := ih (distinct.erase name) rest' (closed name callee step)
      have calls : callee ∈ calleesOf wires name := mem_calleesOf.2 step.mem
      have onward := gathers.repeated (List.ne_nil_of_mem calls) fun other member =>
        Option.some.inj ((single name other (mem_calleesOf.1 member)).symm.trans step)
      have whole := Gathers.enters fresh onward .done
      rw [List.append_nil] at whole
      exact ⟨met, whole⟩
  | case2 unseen name present none =>
      have stays : calleesOf wires name = [] := by
        rw [List.eq_nil_iff_forall_not_mem]
        intro callee calls
        have step := single name callee (mem_calleesOf.1 calls)
        rw [TailStep, recorded, none] at step
        cases step
      have onward : Gathers (ownExits wires) (calleesOf wires) (name :: seen) (calleesOf wires name) []
          (name :: seen) := by
        rw [stays]
        exact .done
      have whole := Gathers.enters ((rest name listed).1 present) onward .done
      rw [List.append_nil] at whole
      exact ⟨name :: seen, whole⟩
  | case3 unseen name absent =>
      have known : name ∈ seen := Decidable.not_not.1 fun fresh => absent ((rest name listed).2 fresh)
      exact ⟨seen, .again known .done⟩

end Wiring

theorem Graph.functions_nodup (g : Graph) : g.functions.Nodup :=
  (List.mergeSort_perm _ _).nodup_iff.2 (distinct_nodup _)

namespace Graph.BuiltFrom

variable {intrinsics : List Bytes} {p : Program} {wires : List Wire} {g : Graph} {caller callee : Bytes}

theorem tail_iff (built : g.BuiltFrom intrinsics p wires) :
    .tail caller callee ∈ wires ↔ p.TailCalls intrinsics caller callee := by
  constructor
  · intro wire
    rcases built.mem_wires_iff.1 wire with ⟨k, b, here, place, leaves, present⟩
    rcases Wiring.tail_of_leave leaves present with ⟨rfl, call, none, _⟩
    rcases built.function_of_block (List.mem_of_getElem? place) with ⟨f, function, named, _⟩
    exact ⟨f, function, named, b.last, built.final_of_follower? function place named.symm none, call⟩
  · exact fun calls => (built.tailStep_iff.2 calls).mem

theorem exit_mem_functions (built : g.BuiltFrom intrinsics p wires) {name : Bytes} {id : Nat}
    (wire : .exit name id ∈ wires) : name ∈ g.functions := by
  rcases built.mem_wires_iff.1 wire with ⟨k, b, here, place, leaves, present⟩
  refine mem_functions_iff.2 ⟨b, List.mem_of_getElem? place, ?_⟩
  rcases Wiring.wire_cases leaves present with ⟨_, same⟩ | same | ⟨_, _, _, _, ⟨_, _, same⟩ | ⟨_, same⟩⟩ <;> cases same
  rfl

theorem caller_mem_functions (built : g.BuiltFrom intrinsics p wires) (wire : .tail caller callee ∈ wires) :
    caller ∈ g.functions := by
  rcases built.mem_wires_iff.1 wire with ⟨k, b, here, place, leaves, present⟩
  exact mem_functions_iff.2 ⟨b, List.mem_of_getElem? place, (Wiring.tail_of_leave leaves present).1.symm⟩

theorem gathers_exitsThrough (built : g.BuiltFrom intrinsics p wires) (name : Bytes) :
    ∃ met, Gathers (Wiring.ownExits wires) (Wiring.calleesOf wires) [] [name]
      (Wiring.exitsThrough wires g.functions name) met := by
  by_cases listed : name ∈ g.functions
  · refine Wiring.gathers_tailChain ?_ built.tail_mem_functions g.functions_nodup (by simp) listed
    exact fun caller callee wire => built.tailStep_iff.2 (built.tail_iff.1 wire)
  · -- A function without blocks has no exits, and calls nothing.
    have none : Wiring.exitsThrough wires g.functions name = [] := by
      rw [Wiring.exitsThrough, Wiring.tailChain, if_neg listed, List.flatMap_nil]
    have exits : Wiring.ownExits wires name = [] := by
      rw [List.eq_nil_iff_forall_not_mem]
      intro id member
      exact listed (built.exit_mem_functions (Wiring.mem_exits.1 (Wiring.mem_blocksOf.1 member)))
    have calls : Wiring.calleesOf wires name = [] := by
      rw [List.eq_nil_iff_forall_not_mem]
      intro callee member
      exact listed (built.caller_mem_functions (Wiring.mem_calleesOf.1 member))
    have whole : Gathers (Wiring.ownExits wires) (Wiring.calleesOf wires) [] [name]
        (Wiring.ownExits wires name ++ [] ++ []) [name] := .enters List.not_mem_nil (calls.symm ▸ .done) .done
    rw [exits] at whole
    exact ⟨[name], none.symm ▸ whole⟩

end Graph.BuiltFrom

namespace Wiring

variable {intrinsics : List Bytes} {p : Program} {wires : List Wire}

/-- The search for the exits of a function always ends, whatever tail calls were recorded. In a program it enters
exactly the functions that tail calls lead to, each once, also where they lead back; what it finds are exactly the
blocks that control leaves one of these functions from. -/
theorem tail_call_exits_complete (accepted : scan [] [] p.functions = .ok ())
    (wired : wiresFrom intrinsics (p.blocks intrinsics) 0 (p.blocks intrinsics) = .ok wires) (name : Bytes) :
    (∀ recorded caller, ∃ found met, Gathers (ownExits recorded) (calleesOf recorded) [] [caller] found met) ∧
      ∃ found met, Gathers (ownExits wires) (calleesOf wires) [] [name] found met ∧
        (∀ found' met', Gathers (ownExits wires) (calleesOf wires) [] [name] found' met' →
          found' = found ∧ met' = met) ∧
        exitsThrough wires (Bytes.sorted (distinct ((p.blocks intrinsics).map (·.function)))) name = found ∧
        met.Nodup ∧ (∀ other, other ∈ met ↔ Relation.ReflTransGen (p.TailCalls intrinsics) name other) ∧
        (∀ id, id ∈ found ↔
          ∃ other, Relation.ReflTransGen (p.TailCalls intrinsics) name other ∧ id ∈ ownExits wires other) ∧
        ∀ id b, (p.blocks intrinsics)[id]? = some b → (id ∈ found ↔
          ∃ f ∈ p.functions, Relation.ReflTransGen (p.TailCalls intrinsics) name f.name ∧ f.LeftBy intrinsics b) := by
  have built : (Graph.ofWires (p.blocks intrinsics) 0 wires).BuiltFrom intrinsics p wires :=
    ⟨p.distinct_of_scan accepted, rfl, wired, rfl, rfl⟩
  have steps : (fun caller callee => callee ∈ calleesOf wires caller) = p.TailCalls intrinsics := by
    funext caller callee
    exact propext (mem_calleesOf.trans built.tail_iff)
  obtain ⟨met, gathers⟩ := built.gathers_exitsThrough name
  have enters (other : Bytes) : other ∈ met ↔ Relation.ReflTransGen (p.TailCalls intrinsics) name other := by
    rw [gathers.mem_met_iff, steps]
  have finds (id : Nat) : id ∈ exitsThrough wires (Graph.functions (.ofWires (p.blocks intrinsics) 0 wires)) name ↔
      ∃ other, Relation.ReflTransGen (p.TailCalls intrinsics) name other ∧ id ∈ ownExits wires other := by
    rw [gathers.mem_found_iff]
    simp [enters]
  refine ⟨exists_gathers_exits, _, met, gathers, fun _ _ => gathers.unique, rfl, gathers.nodup List.nodup_nil, enters,
    finds, ?_⟩
  intro id b place
  rw [finds]
  constructor
  · intro given
    rcases given with ⟨other, path, member⟩
    rcases (built.exit_iff place).1 (mem_exits.1 (mem_blocksOf.1 member)) with ⟨f, function, rfl, left⟩
    exact ⟨f, function, path, left⟩
  · intro given
    rcases given with ⟨f, function, path, left⟩
    exact ⟨f.name, path, mem_blocksOf.2 (mem_exits.2 ((built.exit_iff place).2 ⟨f, function, rfl, left⟩))⟩

def circling : Program := ⟨[
  { name := [103]
    body := [⟨.call, [⟨.function, [102]⟩], 1⟩] },
  { name := [102]
    body := [
      ⟨.branch .eq, [⟨.label, [76]⟩, ⟨.variable, [120]⟩, ⟨.constant, [48]⟩], 2⟩,
      ⟨.ret, [], 3⟩,
      ⟨.label, [⟨.label, [76]⟩], 4⟩,
      ⟨.call, [⟨.function, [103]⟩], 5⟩] }]⟩

def circlingWires : List Wire := [
  .jump 0 1, .tail [103] [102], .jump 1 3, .jump 1 2, .exit [102] 2, .jump 3 0, .tail [102] [103]]

theorem circling_leaves_by_return :
    scan [] [] circling.functions = .ok () ∧
      wiresFrom [] (circling.blocks []) 0 (circling.blocks []) = .ok circlingWires ∧
      ∃ met, Gathers (ownExits circlingWires) (calleesOf circlingWires) [] [[103]] [2] met ∧ met.Nodup ∧
        [102] ∈ met := by
  have accepted : scan [] [] circling.functions = .ok () := by cbv
  have wired : wiresFrom [] (circling.blocks []) 0 (circling.blocks []) = .ok circlingWires := by cbv
  have through : exitsThrough circlingWires (Bytes.sorted (distinct ((circling.blocks []).map (·.function)))) [103] =
      [2] := by cbv
  obtain ⟨_, found, met, gathers, _, same, nodup, enters, _⟩ := tail_call_exits_complete accepted wired [103]
  rw [through] at same
  subst same
  refine ⟨accepted, wired, met, gathers, nodup, (enters [102]).2 (.single ?_)⟩
  exact ⟨_, List.mem_cons_self, rfl, _, rfl, rfl⟩

end Wiring

end Deadwood

import Deadwood.Proofs.Flow.Partition
import Mathlib.Logic.Relation

/-!
Which edges a graph has, by its wires: the jumps, and an edge from every exit of a function, tail calls followed, to
every resumption after a call of that function.
-/

namespace Deadwood

theorem mem_distinct {α : Type} [DecidableEq α] {a : α} {list : List α} : a ∈ distinct list ↔ a ∈ list := by
  induction list with
  | nil => rfl
  | cons b rest ih =>
      simp only [distinct, List.mem_cons, List.mem_filter, ih, decide_eq_true_eq]
      by_cases same : a = b <;> simp [same]

theorem Bytes.mem_sorted {s : Bytes} {names : List Bytes} : s ∈ Bytes.sorted names ↔ s ∈ names := List.mem_mergeSort

theorem Except.bind_eq_ok {ε α β : Type} {first : Except ε α} {next : α → Except ε β} {b : β} :
    first >>= next = .ok b ↔ ∃ a, first = .ok a ∧ next a = .ok b := by
  cases first with
  | error e => simp [bind, Except.bind]
  | ok a => simp [bind, Except.bind]

theorem Except.map_eq_ok {ε α β : Type} {first : Except ε α} {change : α → β} {b : β} :
    first.map change = .ok b ↔ ∃ a, first = .ok a ∧ change a = b := by
  cases first with
  | error e => simp [Except.map]
  | ok a => simp [Except.map]

namespace Wiring

@[simp] theorem mem_exits {wires : List Wire} {function : Bytes} {block : Nat} :
    (function, block) ∈ exits wires ↔ .exit function block ∈ wires := by
  rw [exits, List.mem_filterMap]
  constructor
  · intro given
    rcases given with ⟨wire, member, found⟩
    cases wire <;> simp_all
  · exact fun member => ⟨_, member, rfl⟩

@[simp] theorem mem_resumptions {wires : List Wire} {function : Bytes} {block : Nat} :
    (function, block) ∈ resumptions wires ↔ .resume function block ∈ wires := by
  rw [resumptions, List.mem_filterMap]
  constructor
  · intro given
    rcases given with ⟨wire, member, found⟩
    cases wire <;> simp_all
  · exact fun member => ⟨_, member, rfl⟩

@[simp] theorem mem_tails {wires : List Wire} {caller callee : Bytes} :
    (caller, callee) ∈ tails wires ↔ .tail caller callee ∈ wires := by
  rw [tails, List.mem_filterMap]
  constructor
  · intro given
    rcases given with ⟨wire, member, found⟩
    cases wire <;> simp_all
  · exact fun member => ⟨_, member, rfl⟩

@[simp] theorem mem_blocksOf {function : Bytes} {pairs : List (Bytes × Nat)} {block : Nat} :
    block ∈ blocksOf function pairs ↔ (function, block) ∈ pairs := by
  rw [blocksOf, List.mem_map]
  constructor
  · intro given
    rcases given with ⟨⟨name, found⟩, member, rfl⟩
    obtain ⟨member, same⟩ := List.mem_filter.1 member
    rw [decide_eq_true_eq] at same
    exact same ▸ member
  · exact fun member => ⟨_, List.mem_filter.2 ⟨member, by simp⟩, rfl⟩

theorem mem_edgesFrom {before wires : List Wire} {a b : Nat} :
    (a, b) ∈ edgesFrom before wires ↔
      .jump a b ∈ wires ∨ ∃ f, .exit f a ∈ before ++ wires ∧ .resume f b ∈ before ++ wires ∧
        (.exit f a ∈ wires ∨ .resume f b ∈ wires) := by
  induction wires generalizing before with
  | nil => simp [edgesFrom]
  | cons wire rest ih =>
      rw [edgesFrom, List.mem_append, ih, List.append_assoc, List.singleton_append]
      cases wire with
      | jump source target => simp [edgesOf, or_assoc]
      | exit function block =>
          simp only [edgesOf, List.mem_map, mem_blocksOf, mem_resumptions, Prod.mk.injEq, List.mem_cons,
            List.mem_append]
          grind
      | resume function block =>
          simp only [edgesOf, List.mem_map, mem_blocksOf, mem_exits, Prod.mk.injEq, List.mem_cons, List.mem_append]
          grind
      | tail caller callee => simp [edgesOf]

def TailStep (wires : List Wire) (caller callee : Bytes) : Prop := (tails wires).lookup caller = some callee

section

variable {pairs : List (Bytes × Bytes)} {unseen : List Bytes} {function name next : Bytes}

theorem reaches_of_mem_tailChain (member : name ∈ tailChain pairs unseen function) :
    Relation.ReflTransGen (fun caller callee => pairs.lookup caller = some callee) function name := by
  fun_induction tailChain pairs unseen function with
  | case1 unseen function present callee found ih =>
      rcases List.mem_cons.1 member with rfl | member
      · exact .refl
      · exact .head found (ih member)
  | case2 unseen function present absent =>
      rw [List.mem_singleton.1 member]
  | case3 unseen function absent => cases member

theorem mem_tailChain_self (present : function ∈ unseen) : function ∈ tailChain pairs unseen function := by
  rw [tailChain, if_pos present]
  split <;> simp

theorem tailChain_closed (member : name ∈ tailChain pairs unseen function) (step : pairs.lookup name = some next)
    (present : next ∈ unseen) : next ∈ tailChain pairs unseen function := by
  fun_induction tailChain pairs unseen function with
  | case1 unseen function here callee found ih =>
      by_cases same : next = function
      · exact same ▸ List.mem_cons_self
      · have left : next ∈ unseen.erase function := (List.mem_erase_of_ne same).2 present
        refine List.mem_cons_of_mem _ ?_
        rcases List.mem_cons.1 member with rfl | member
        · rw [found] at step
          cases step
          exact mem_tailChain_self left
        · exact ih member left
  | case2 unseen function here absent =>
      rw [List.mem_singleton.1 member, absent] at step
      cases step
  | case3 unseen function absent => cases member

theorem mem_tailChain_iff (start : function ∈ unseen)
    (closed : ∀ caller callee, pairs.lookup caller = some callee → callee ∈ unseen) :
    name ∈ tailChain pairs unseen function ↔
      Relation.ReflTransGen (fun caller callee => pairs.lookup caller = some callee) function name := by
  constructor
  · exact reaches_of_mem_tailChain
  · intro reaches
    induction reaches with
    | refl => exact mem_tailChain_self start
    | tail _ step ih => exact tailChain_closed ih step (closed _ _ step)

end

theorem mem_exitsThrough {wires : List Wire} {names : List Bytes} {function : Bytes} {block : Nat}
    (start : function ∈ names) (closed : ∀ caller callee, TailStep wires caller callee → callee ∈ names) :
    block ∈ exitsThrough wires names function ↔
      ∃ name, Relation.ReflTransGen (TailStep wires) function name ∧ .exit name block ∈ wires := by
  rw [exitsThrough, List.mem_flatMap]
  simp only [mem_tailChain_iff start closed, mem_blocksOf, mem_exits]
  rfl

theorem mem_wiresFrom {intrinsics : List Bytes} {blocks rest : List Block} {id : Nat} {wires : List Wire}
    {wire : Wire} (done : wiresFrom intrinsics blocks id rest = .ok wires) :
    wire ∈ wires ↔ ∃ k b here, rest[k]? = some b ∧ leave intrinsics blocks (id + k) b = .ok here ∧ wire ∈ here := by
  induction rest generalizing id wires with
  | nil =>
      rw [wiresFrom] at done
      cases done
      simp
  | cons b rest ih =>
      obtain ⟨here, leaves, done⟩ := Except.bind_eq_ok.1 done
      obtain ⟨later, others, done⟩ := Except.bind_eq_ok.1 done
      cases done
      rw [List.mem_append, ih others]
      constructor
      · intro given
        rcases given with member | ⟨k, c, found, place, leavesToo, member⟩
        · exact ⟨0, b, here, rfl, leaves, member⟩
        · refine ⟨k + 1, c, found, place, ?_, member⟩
          rwa [Nat.add_right_comm] at leavesToo
      · intro given
        rcases given with ⟨k, c, found, place, leavesToo, member⟩
        cases k with
        | zero =>
            simp only [List.getElem?_cons_zero, Option.some.injEq] at place
            subst place
            rw [Nat.add_zero, leaves] at leavesToo
            cases leavesToo
            exact .inl member
        | succ k =>
            refine .inr ⟨k, c, found, place, ?_, member⟩
            rwa [Nat.add_right_comm]

theorem leaves_of_wiresFrom {intrinsics : List Bytes} {blocks rest : List Block} {id k : Nat} {wires : List Wire}
    {b : Block} (done : wiresFrom intrinsics blocks id rest = .ok wires) (place : rest[k]? = some b) :
    ∃ here, leave intrinsics blocks (id + k) b = .ok here := by
  induction rest generalizing id k wires with
  | nil => simp at place
  | cons c rest ih =>
      obtain ⟨here, leaves, done⟩ := Except.bind_eq_ok.1 done
      obtain ⟨later, others, done⟩ := Except.bind_eq_ok.1 done
      cases k with
      | zero =>
          simp only [List.getElem?_cons_zero, Option.some.injEq] at place
          exact ⟨here, place ▸ leaves⟩
      | succ k =>
          have found := ih others place
          rwa [Nat.add_right_comm] at found

end Wiring

end Deadwood

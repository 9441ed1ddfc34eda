import Deadwood.Flow.Walk
import Mathlib.Data.List.Nodup
import Mathlib.Data.List.Perm.Basic

/-! Walks meet every vertex that waits on their stack, and none of them twice. -/

namespace Deadwood

variable {succs : Nat → List Nat} {unvisited stack : List Nat} {id : Nat}

theorem visit_subset (member : id ∈ visit succs unvisited stack) : id ∈ unvisited := by
  fun_induction visit succs unvisited stack with
  | case1 unvisited => cases member
  | case2 unvisited next stack present ih =>
      rcases List.mem_cons.1 member with rfl | member
      · exact present
      · exact List.mem_of_mem_erase (ih member)
  | case3 unvisited next stack absent ih => exact ih member

theorem visit_nodup (distinct : unvisited.Nodup) : (visit succs unvisited stack).Nodup := by
  fun_induction visit succs unvisited stack with
  | case1 unvisited => exact List.nodup_nil
  | case2 unvisited next stack present ih =>
      refine List.nodup_cons.2 ⟨fun again => ?_, ih (distinct.erase next)⟩
      exact distinct.not_mem_erase (visit_subset again)
  | case3 unvisited next stack absent ih => exact ih distinct

theorem mem_visit_of_mem_stack (present : id ∈ unvisited) (waiting : id ∈ stack) :
    id ∈ visit succs unvisited stack := by
  fun_induction visit succs unvisited stack with
  | case1 unvisited => cases waiting
  | case2 unvisited next stack here ih =>
      by_cases same : id = next
      · exact same ▸ List.mem_cons_self
      · have waits : id ∈ stack := (List.mem_cons.1 waiting).resolve_left same
        refine List.mem_cons_of_mem _ (ih ?_ (List.mem_append_right _ waits))
        exact (List.mem_erase_of_ne same).2 present
  | case3 unvisited next stack absent ih =>
      rcases List.mem_cons.1 waiting with rfl | waits
      · exact (absent present).elim
      · exact ih present waits

namespace Graph

theorem order_nodup (g : Graph) : g.order.Nodup := visit_nodup List.nodup_range

theorem mem_order_iff {g : Graph} : id ∈ g.order ↔ id < g.size := by
  rw [← List.mem_range]
  constructor
  · exact visit_subset
  · exact fun member => mem_visit_of_mem_stack member (List.mem_cons_of_mem _ member)

theorem order_perm (g : Graph) : g.order.Perm g.ids := by
  apply (List.perm_ext_iff_of_nodup g.order_nodup List.nodup_range).2
  intro id
  rw [mem_order_iff, List.mem_range]

end Graph

end Deadwood

import Deadwood.Proofs.Flow.Acceptance
import Deadwood.Proofs.Flow.Order

/-!
Walks and recursive search. A walk keeps on its stack what is still to be looked at, and a vertex may stand there many
times, also after it has been met. All the same it meets the vertices in the order of the recursive search, and from the
entry of a graph it meets exactly what edges lead to, as does the search that keeps no order.
-/

namespace Deadwood

structure Search (unvisited : List Nat) where
  found : List Nat
  left : List Nat
  fewer : left.length ≤ unvisited.length

/-- Depth-first search from some roots, one after the other. A root that is still unvisited comes first, then all that
is found from its successors, and only then the next root. -/
def search (succs : Nat → List Nat) (unvisited : List Nat) : (roots : List Nat) → Search unvisited
  | [] => ⟨[], unvisited, Nat.le_refl _⟩
  | root :: roots =>
    if root ∈ unvisited then
      let below := search succs (unvisited.erase root) (succs root)
      let later := search succs below.left roots
      ⟨root :: below.found ++ later.found, later.left,
        Nat.le_trans later.fewer (Nat.le_trans below.fewer List.length_erase_le)⟩
    else search succs unvisited roots
termination_by roots => (unvisited.length, roots.length)
decreasing_by
  · apply Prod.Lex.left
    rename_i present
    have erased := List.length_erase_add_one present
    omega
  · apply Prod.Lex.left
    rename_i present
    have erased := List.length_erase_add_one present
    refine Nat.lt_of_le_of_lt (Search.fewer _) ?_
    omega
  · apply Prod.Lex.right
    simp

section

variable {succs : Nat → List Nat} {unvisited stack reached : List Nat} {size id next : Nat}

theorem visit_filter {keep : Nat → Bool} (kept : ∀ id ∈ unvisited, keep id = true) (stack : List Nat) :
    visit succs unvisited (stack.filter keep) = visit succs unvisited stack := by
  fun_induction visit succs unvisited stack with
  | case1 unvisited => rw [List.filter_nil, visit]
  | case2 unvisited root stack present ih =>
      have fewer : ∀ id ∈ unvisited.erase root, keep id = true :=
        fun id member => kept id (List.mem_of_mem_erase member)
      have fresh : ((succs root).filter (· ∈ unvisited.erase root)).filter keep =
          (succs root).filter (· ∈ unvisited.erase root) :=
        List.filter_eq_self.2 fun id member => fewer id (by simpa using (List.mem_filter.1 member).2)
      have later := ih fewer
      rw [List.filter_append, fresh] at later
      rw [List.filter_cons_of_pos (kept root present), visit, if_pos present, later]
  | case3 unvisited root stack absent ih =>
      cases keeps : keep root with
      | true => rw [List.filter_cons_of_pos keeps, visit, if_neg absent, ih kept]
      | false => rw [List.filter_cons_of_neg (by simp [keeps]), ih kept]

theorem visit_cons (present : id ∈ unvisited) :
    visit succs unvisited (id :: stack) = id :: visit succs (unvisited.erase id) (succs id ++ stack) := by
  rw [visit, if_pos present]
  have kept : ∀ next ∈ unvisited.erase id, decide (next ∈ unvisited.erase id) = true := fun _ => decide_eq_true
  rw [← visit_filter kept, ← visit_filter kept (succs id ++ stack)]
  simp only [List.filter_append, List.filter_filter, Bool.and_self]

theorem visit_append (roots : List Nat) :
    visit succs unvisited (roots ++ stack) =
      (search succs unvisited roots).found ++ visit succs (search succs unvisited roots).left stack := by
  fun_induction search succs unvisited roots generalizing stack with
  | case1 unvisited => simp
  | case2 unvisited root roots present below later ihBelow ihLater =>
      rw [List.cons_append, visit_cons present, ihBelow, ihLater, List.cons_append, List.cons_append, List.append_assoc]
  | case3 unvisited root roots absent ih => rw [List.cons_append, visit, if_neg absent, ih]

theorem visit_eq_search (roots : List Nat) : visit succs unvisited roots = (search succs unvisited roots).found := by
  have whole : visit succs unvisited (roots ++ []) = _ := visit_append roots
  rwa [List.append_nil, visit, List.append_nil] at whole

theorem reaches_of_mem_visit (member : id ∈ visit succs unvisited stack) :
    ∃ root ∈ stack, Relation.ReflTransGen (fun k l => l ∈ succs k) root id := by
  fun_induction visit succs unvisited stack with
  | case1 unvisited => cases member
  | case2 unvisited root stack present ih =>
      rcases List.mem_cons.1 member with rfl | member
      · exact ⟨id, List.mem_cons_self, .refl⟩
      · rcases ih member with ⟨first, waiting, reaches⟩
        rcases List.mem_append.1 waiting with step | waiting
        · exact ⟨root, List.mem_cons_self, .head (List.mem_filter.1 step).1 reaches⟩
        · exact ⟨first, List.mem_cons_of_mem root waiting, reaches⟩
  | case3 unvisited root stack absent ih =>
      rcases ih member with ⟨first, waiting, reaches⟩
      exact ⟨first, List.mem_cons_of_mem root waiting, reaches⟩

theorem visit_closed (member : id ∈ visit succs unvisited stack) (step : next ∈ succs id) (present : next ∈ unvisited) :
    next ∈ visit succs unvisited stack := by
  fun_induction visit succs unvisited stack with
  | case1 unvisited => cases member
  | case2 unvisited root stack here ih =>
      by_cases same : next = root
      · exact same ▸ List.mem_cons_self
      · have left : next ∈ unvisited.erase root := (List.mem_erase_of_ne same).2 present
        refine List.mem_cons_of_mem root ?_
        rcases List.mem_cons.1 member with rfl | member
        · have pushed : next ∈ (succs id).filter (· ∈ unvisited.erase id) :=
            List.mem_filter.2 ⟨step, decide_eq_true left⟩
          exact mem_visit_of_mem_stack left (List.mem_append_left stack pushed)
        · exact ih member left
  | case3 unvisited root stack absent ih => exact ih member present

theorem reach_nodup (distinct : reached.Nodup) : (reach succs size reached stack).Nodup := by
  fun_induction reach succs size reached stack with
  | case1 reached => exact distinct
  | case2 reached root stack new ih =>
      refine ih (List.nodup_append.2 ⟨distinct, List.nodup_singleton root, ?_⟩)
      intro id member other same
      rw [List.mem_singleton.1 same]
      exact fun equal => new.2 (equal ▸ member)
  | case3 reached root stack old ih => exact ih distinct

theorem reaches_of_mem_reach (member : id ∈ reach succs size reached stack) :
    id ∈ reached ∨ ∃ root ∈ stack, Relation.ReflTransGen (fun k l => l ∈ succs k) root id := by
  fun_induction reach succs size reached stack with
  | case1 reached => exact .inl member
  | case2 reached root stack new ih =>
      rcases ih member with old | ⟨first, waiting, reaches⟩
      · rcases List.mem_append.1 old with old | now
        · exact .inl old
        · rw [List.mem_singleton.1 now]
          exact .inr ⟨root, List.mem_cons_self, .refl⟩
      · rcases List.mem_append.1 waiting with step | waiting
        · exact .inr ⟨root, List.mem_cons_self, .head (List.mem_reverse.1 step) reaches⟩
        · exact .inr ⟨first, List.mem_cons_of_mem root waiting, reaches⟩
  | case3 reached root stack old ih =>
      rcases ih member with old | ⟨first, waiting, reaches⟩
      · exact .inl old
      · exact .inr ⟨first, List.mem_cons_of_mem root waiting, reaches⟩

theorem reached_or_waits_of_new (known : id ∈ reached ∨ id ∈ next :: stack) :
    id ∈ reached ++ [next] ∨ id ∈ (succs next).reverse ++ stack := by
  rcases known with old | waiting
  · exact .inl (List.mem_append_left _ old)
  · rcases List.mem_cons.1 waiting with rfl | waiting
    · exact .inl (List.mem_append_right _ List.mem_cons_self)
    · exact .inr (List.mem_append_right _ waiting)

theorem reached_or_waits_of_old (old : ¬(next < size ∧ next ∉ reached)) (bound : id < size)
    (known : id ∈ reached ∨ id ∈ next :: stack) : id ∈ reached ∨ id ∈ stack := by
  rcases known with known | waiting
  · exact .inl known
  · rcases List.mem_cons.1 waiting with rfl | waiting
    · by_contra missing
      exact old ⟨bound, fun known => missing (.inl known)⟩
    · exact .inr waiting

theorem mem_reach (bound : id < size) (known : id ∈ reached ∨ id ∈ stack) : id ∈ reach succs size reached stack := by
  fun_induction reach succs size reached stack with
  | case1 reached => exact known.resolve_right List.not_mem_nil
  | case2 reached root stack new ih => exact ih (reached_or_waits_of_new known)
  | case3 reached root stack old ih => exact ih (reached_or_waits_of_old old bound known)

theorem reach_closed (waits : ∀ id ∈ reached, ∀ next ∈ succs id, next < size → next ∈ reached ∨ next ∈ stack)
    (member : id ∈ reach succs size reached stack) (step : next ∈ succs id) (bound : next < size) :
    next ∈ reach succs size reached stack := by
  fun_induction reach succs size reached stack with
  | case1 reached => exact (waits id member next step bound).resolve_right List.not_mem_nil
  | case2 reached root stack new ih =>
      apply ih ?_ member
      intro id known next step bound
      rcases List.mem_append.1 known with known | now
      · exact reached_or_waits_of_new (waits id known next step bound)
      · rw [List.mem_singleton.1 now] at step
        exact .inr (List.mem_append_left _ (List.mem_reverse.2 step))
  | case3 reached root stack old ih =>
      apply ih ?_ member
      intro id known next step bound
      exact reached_or_waits_of_old old bound (waits id known next step bound)

end

namespace Graph

def preorder (g : Graph) : List Nat :=
  let fromEntry := search g.succs g.ids [g.entry]
  fromEntry.found ++ (search g.succs fromEntry.left g.ids).found

def Reaches (g : Graph) : Nat → Nat → Prop := Relation.ReflTransGen fun k l => l ∈ g.succs k

section

variable {intrinsics : List Bytes} {entry : Bytes} {p : Program} {g : Graph} {id : Nat}

theorem order_eq_append (g : Graph) :
    g.order = visit g.succs g.ids [g.entry] ++ visit g.succs (search g.succs g.ids [g.entry]).left g.ids := by
  rw [order, visit_eq_search [g.entry], ← visit_append, List.singleton_append]

theorem order_eq_preorder (g : Graph) : g.order = g.preorder := by
  rw [order_eq_append, visit_eq_search, visit_eq_search, preorder]

theorem mem_visit_entry_iff (built : build intrinsics entry p = .ok g) :
    id ∈ visit g.succs g.ids [g.entry] ↔ g.Reaches g.entry id := by
  constructor
  · intro member
    rcases reaches_of_mem_visit member with ⟨root, waiting, reaches⟩
    rwa [List.mem_singleton.1 waiting] at reaches
  · intro reaches
    induction reaches with
    | refl => exact mem_visit_of_mem_stack (List.mem_range.2 (entry_lt_size built)) List.mem_cons_self
    | tail _ step ih =>
        rcases exists_wires built with ⟨wires, origin⟩
        have bounds := origin.edge_bounds (mem_succs_iff.1 step)
        exact visit_closed ih step (List.mem_range.2 bounds.2)

theorem mem_reachable_iff (built : build intrinsics entry p = .ok g) : id ∈ g.reachable ↔ g.Reaches g.entry id := by
  constructor
  · intro member
    rcases reaches_of_mem_reach member with none | ⟨root, waiting, reaches⟩
    · cases none
    · rwa [List.mem_singleton.1 waiting] at reaches
  · intro reaches
    induction reaches with
    | refl => exact mem_reach (entry_lt_size built) (.inr List.mem_cons_self)
    | tail _ step ih =>
        rcases exists_wires built with ⟨wires, origin⟩
        have bounds := origin.edge_bounds (mem_succs_iff.1 step)
        exact reach_closed (fun _ none => by cases none) ih step bounds.2

theorem visit_entry_perm_reachable (built : build intrinsics entry p = .ok g) :
    (visit g.succs g.ids [g.entry]).Perm g.reachable := by
  apply (List.perm_ext_iff_of_nodup (visit_nodup List.nodup_range) (reach_nodup List.nodup_nil)).2
  exact fun id => (mem_visit_entry_iff built).trans (mem_reachable_iff built).symm

/-- The walk over the blocks of a program is the recursive search in preorder. It meets every block once, and those that
edges lead to from the entry, which are the reachable ones, before all others. -/
theorem order_is_recursive_preorder (built : build intrinsics entry p = .ok g) :
    g.order = g.preorder ∧ g.order.Perm g.ids ∧ (g.order.take g.reachable.length).Perm g.reachable ∧
      g.reachable.Nodup ∧ ∀ id, id ∈ g.reachable ↔ g.Reaches g.entry id := by
  have first := visit_entry_perm_reachable built
  refine ⟨g.order_eq_preorder, g.order_perm, ?_, reach_nodup List.nodup_nil, fun id => mem_reachable_iff built⟩
  rw [order_eq_append, ← first.length_eq, List.take_left]
  exact first

end

def crossing : Program := ⟨[
  { name := [109]
    body := [
      ⟨.branch .eq, [⟨.label, [65]⟩, ⟨.variable, [120]⟩, ⟨.constant, [49]⟩], 1⟩,
      ⟨.goto, [⟨.label, [66]⟩], 2⟩,
      ⟨.label, [⟨.label, [65]⟩], 3⟩,
      ⟨.branch .lt, [⟨.label, [66]⟩, ⟨.variable, [120]⟩, ⟨.constant, [49]⟩], 4⟩,
      ⟨.ret, [], 5⟩,
      ⟨.label, [⟨.label, [66]⟩], 6⟩,
      ⟨.goto, [⟨.label, [65]⟩], 7⟩,
      ⟨.ret, [], 8⟩] }]⟩

theorem stranded_return_walked_last :
    ∃ g, build [] [109] crossing = .ok g ∧ g.order = [0, 2, 4, 3, 1, 5] ∧ g.preorder = [0, 2, 4, 3, 1, 5] ∧
      g.Reaches g.entry 1 ∧ ¬g.Reaches g.entry 5 := by
  have evaluated : (build [] [109] crossing).map (fun g => (g.order, g.reachable)) =
      .ok ([0, 2, 4, 3, 1, 5], [0, 1, 4, 2, 3]) := by cbv
  rcases Except.map_eq_ok.1 evaluated with ⟨g, built, walked⟩
  rcases Prod.mk.inj walked with ⟨order, reachable⟩
  rcases order_is_recursive_preorder built with ⟨same, _, _, _, reaches⟩
  refine ⟨g, built, order, same ▸ order, (reaches 1).1 ?_, mt (reaches 5).2 ?_⟩
  · rw [reachable]
    decide
  · rw [reachable]
    decide

end Graph

end Deadwood

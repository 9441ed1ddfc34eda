import Deadwood.Proofs.Flow.Succession

/-!
Edges are added one at a time, at both of their ends, and an edge that is found again is passed over. What a block then
has after it and before it are the edges of the graph, each list in the order of discovery.
-/

namespace Deadwood

theorem distinct_concat {α : Type} [DecidableEq α] (list : List α) (a : α) :
    distinct (list ++ [a]) = if a ∈ list then distinct list else distinct list ++ [a] := by
  induction list with
  | nil => rfl
  | cons b rest ih =>
      rw [List.cons_append, distinct, ih, distinct]
      by_cases same : a = b
      · subst same
        by_cases member : a ∈ rest <;> simp [member]
      · by_cases member : a ∈ rest <;> simp [member, same]

namespace Neighbours

/-- What a block has at its ends are its edges, and the sets hold what the lists do. -/
structure Holds (e : Neighbours) (edges : List (Nat × Nat)) (id : Nat) : Prop where
  succs : e.succs = (edges.filter (·.1 = id)).map (·.2)
  preds : e.preds = (edges.filter (·.2 = id)).map (·.1)
  succBits : ∀ n, e.succBits.testBit n = decide (n ∈ e.succs)
  predBits : ∀ n, e.predBits.testBit n = decide (n ∈ e.preds)

def withEdge (edge : Nat × Nat) (id : Nat) (e : Neighbours) : Neighbours where
  succs := if edge.1 = id then e.succs ++ [edge.2] else e.succs
  preds := if edge.2 = id then e.preds ++ [edge.1] else e.preds
  succBits := if edge.1 = id then e.succBits ||| 1 <<< edge.2 else e.succBits
  predBits := if edge.2 = id then e.predBits ||| 1 <<< edge.1 else e.predBits

variable {e : Neighbours} {edges : List (Nat × Nat)} {id source target : Nat} {edge : Nat × Nat}
  {blocks : List Neighbours}

theorem Holds.testBit_succBits (holds : e.Holds edges source) :
    e.succBits.testBit target = decide ((source, target) ∈ edges) := by
  rw [holds.succBits, holds.succs]
  simp

theorem Holds.testBit_predBits (holds : e.Holds edges target) :
    e.predBits.testBit source = decide ((source, target) ∈ edges) := by
  rw [holds.predBits, holds.preds]
  simp

theorem testBit_or_one_shiftLeft {bits : Nat} {list : List Nat} (known : ∀ n, bits.testBit n = decide (n ∈ list))
    (new n : Nat) : (bits ||| 1 <<< new).testBit n = decide (n ∈ list ++ [new]) := by
  rw [Nat.testBit_or, known, Nat.one_shiftLeft, Nat.testBit_two_pow, ← Bool.decide_or]
  simp [eq_comm]

theorem Holds.withEdge (holds : e.Holds edges id) (edge : Nat × Nat) :
    (e.withEdge edge id).Holds (edges ++ [edge]) id := by
  constructor
  · by_cases here : edge.1 = id <;> simp [Neighbours.withEdge, List.filter_append, holds.succs, here]
  · by_cases here : edge.2 = id <;> simp [Neighbours.withEdge, List.filter_append, holds.preds, here]
  · intro n
    by_cases here : edge.1 = id
    · simpa only [Neighbours.withEdge, if_pos here] using testBit_or_one_shiftLeft holds.succBits edge.2 n
    · simpa only [Neighbours.withEdge, if_neg here] using holds.succBits n
  · intro n
    by_cases here : edge.2 = id
    · simpa only [Neighbours.withEdge, if_pos here] using testBit_or_one_shiftLeft holds.predBits edge.1 n
    · simpa only [Neighbours.withEdge, if_neg here] using holds.predBits n

def Linked (blocks : List Neighbours) (edges : List (Nat × Nat)) : Prop :=
  ∀ id (e : Neighbours), blocks[id]? = some e → e.Holds edges id

@[simp] theorem length_link (blocks : List Neighbours) (edge : Nat × Nat) :
    (link blocks edge).length = blocks.length := by
  rw [link]
  split <;> simp

theorem link_of_mem (linked : Linked blocks edges) (known : edge ∈ edges) : link blocks edge = blocks := by
  rw [link]
  cases here : blocks[edge.1]? with
  | none => rfl
  | some e =>
      have known : e.succBits.testBit edge.2 = true := by
        rw [(linked _ _ here).testBit_succBits]
        exact decide_eq_true known
      simp [addSucc?, known]

theorem getElem?_link_of_not_mem (linked : Linked blocks edges) (new : edge ∉ edges) (bound : edge.1 < blocks.length) :
    (link blocks edge)[id]? = (blocks[id]?).map (withEdge edge id) := by
  have here := List.getElem?_eq_getElem bound
  have after : (blocks[edge.1]).succBits.testBit edge.2 = false := by
    rw [(linked _ _ here).testBit_succBits]
    exact decide_eq_false new
  simp only [link, here, Option.bind_some, addSucc?, after, Bool.false_eq_true, if_false, List.getElem?_modify,
    List.getElem?_set, bound, if_true]
  by_cases begins : edge.1 = id
  · subst begins
    rw [if_pos rfl, here]
    by_cases ends : edge.2 = edge.1
    · have before : (blocks[edge.1]).predBits.testBit edge.1 = false := by
        rw [(linked _ _ here).testBit_predBits]
        have loop : edge = (edge.1, edge.1) := Prod.ext rfl ends
        exact decide_eq_false fun known => new (by rwa [loop])
      simp [withEdge, addPred?, ends, before]
    · simp [withEdge, ends]
  · rw [if_neg begins]
    cases place : blocks[id]? with
    | none => rfl
    | some e =>
        by_cases ends : edge.2 = id
        · subst ends
          have before : e.predBits.testBit edge.1 = false := by
            rw [(linked _ _ place).testBit_predBits]
            exact decide_eq_false new
          simp [withEdge, addPred?, begins, before]
        · simp [withEdge, begins, ends]

theorem Linked.link (linked : Linked blocks edges) (new : edge ∉ edges) (bound : edge.1 < blocks.length) :
    Linked (link blocks edge) (edges ++ [edge]) := by
  intro id e place
  rw [getElem?_link_of_not_mem linked new bound] at place
  obtain ⟨before, here, rfl⟩ := Option.map_eq_some_iff.1 place
  exact (linked id before here).withEdge edge

theorem linked_ofLinks {size : Nat} {links : List (Nat × Nat)} (bounds : ∀ edge ∈ links, edge.1 < size) :
    (ofLinks size links).length = size ∧ Linked (ofLinks size links) (distinct links) := by
  induction links using List.reverseRecOn with
  | nil =>
      refine ⟨List.length_replicate, fun id e place => ?_⟩
      obtain rfl : e = {} := List.eq_of_mem_replicate (List.mem_of_getElem? place)
      constructor <;> simp [distinct]
  | append_singleton links edge ih =>
      obtain ⟨length, linked⟩ := ih fun edge member => bounds edge (List.mem_append_left _ member)
      have bound : edge.1 < (ofLinks size links).length := by
        rw [length]
        exact bounds edge (by simp)
      have last : ofLinks size (links ++ [edge]) = link (ofLinks size links) edge := List.foldl_append
      rw [last, length_link, distinct_concat]
      refine ⟨length, ?_⟩
      split
      · rename_i known
        rw [link_of_mem linked (mem_distinct.2 known)]
        exact linked
      · rename_i new
        exact linked.link (fun known => new (mem_distinct.1 known)) bound

end Neighbours

namespace Graph

/-- Added at the blocks one after the other, as the wires give them, the edges of a graph make up the lists of what
follows and what precedes each of its blocks. -/
theorem neighbours_of_build {intrinsics : List Bytes} {entry : Bytes} {p : Program} {g : Graph}
    (built : build intrinsics entry p = .ok g) :
    ∃ wires, Wiring.wiresFrom intrinsics g.blocks 0 g.blocks = .ok wires ∧
      (Neighbours.ofLinks g.size (Wiring.edgesFrom [] wires ++ Wiring.tailEdges wires g.functions)).map
        (fun e => (e.succs, e.preds)) = g.ids.map fun id => (g.succs id, g.preds id) := by
  obtain ⟨wires, built⟩ := exists_wires built
  refine ⟨wires, built.wired, ?_⟩
  obtain ⟨length, linked⟩ := Neighbours.linked_ofLinks fun edge member =>
    (built.edge_bounds (built.edges ▸ mem_distinct.2 member)).1
  apply List.ext_getElem (by simp [length, ids])
  intro id bound bound'
  simp only [List.length_map] at bound
  have holds := linked id _ (List.getElem?_eq_getElem bound)
  simp only [List.getElem_map, ids, List.getElem_range, holds.succs, holds.preds, succs, preds, built.edges]

end Graph

end Deadwood

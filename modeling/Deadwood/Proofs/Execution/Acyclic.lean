import Deadwood.Proofs.Execution.Sources

/-!
Programs whose functions do not call each other in a circle. No function is then active twice at a time, and the last
overwriting of a variable of a function is one by the activation that is still active, if that has overwritten it.
-/

namespace Deadwood

namespace Program

def Calls (p : Program) (intrinsics : List Bytes) (caller callee : Bytes) : Prop :=
  ∃ f ∈ p.functions, f.name = caller ∧ ∃ i ∈ f.body, i.userCall? intrinsics = some callee

def Acyclic (p : Program) (intrinsics : List Bytes) : Prop :=
  ∀ name, ¬ Relation.TransGen (p.Calls intrinsics) name name

theorem acyclic_of_rank {p : Program} {intrinsics : List Bytes} (rank : Bytes → Nat)
    (down : ∀ caller callee, p.Calls intrinsics caller callee → rank callee < rank caller) : p.Acyclic intrinsics := by
  intro name circle
  have less {caller callee : Bytes} (reaches : Relation.TransGen (p.Calls intrinsics) caller callee) :
      rank callee < rank caller := by
    induction reaches with
    | single calls => exact down _ _ calls
    | tail _ calls ih => exact Nat.lt_trans (down _ _ calls) ih
  exact Nat.lt_irrefl _ (less circle)

end Program

namespace Execution

variable {Value World : Type} {m : Meaning Value World} {intrinsics : List Bytes} {p : Program}
  {s t : Execution Value World}

theorem Stacked.called (held : s.Stacked intrinsics p) :
    s.frames.Pairwise fun upper lower =>
      Relation.TransGen (p.Calls intrinsics) lower.function.name upper.function.name := by
  have chain : s.frames.IsChain fun upper lower =>
      Relation.TransGen (p.Calls intrinsics) lower.function.name upper.function.name := by
    refine held.waits.imp_of_mem_imp fun upper lower _ present waits => .single ?_
    obtain ⟨call, rest, left, calls⟩ := waits
    exact ⟨lower.function, held.functions lower present, rfl, call, held.mem_body present left, calls⟩
  have transitive : Trans
      (fun upper lower : Frame Value =>
        Relation.TransGen (p.Calls intrinsics) lower.function.name upper.function.name)
      (fun upper lower : Frame Value =>
        Relation.TransGen (p.Calls intrinsics) lower.function.name upper.function.name)
      (fun upper lower : Frame Value =>
        Relation.TransGen (p.Calls intrinsics) lower.function.name upper.function.name) :=
    ⟨fun first second => second.trans first⟩
  exact chain.pairwise

theorem Stacked.names_ne (held : s.Stacked intrinsics p) (acyclic : p.Acyclic intrinsics) :
    s.frames.Pairwise fun upper lower => lower.function.name ≠ upper.function.name := by
  refine held.called.imp fun {upper lower} called same => ?_
  rw [same] at called
  exact acyclic _ called

def replacer? (writes : List Write) (activation : Nat) (v : Bytes) : Option Write :=
  writes.find? fun w => w.activation = activation && w.source.dest? = some v

theorem replacer?_resume {frame : Frame Value} {below : List (Frame Value)} {i : Instruction}
    {after : List Instruction} {value : Value} {activation : Nat} {v : Bytes} :
    replacer? (s.resume frame below i after value).writes activation v =
      if frame.id = activation ∧ i.dest? = some v then some ⟨frame.id, frame.function.name, v, i⟩
      else replacer? s.writes activation v := by
  simp only [replacer?, find?_resume, decide_eq_true_eq]

/-- No other activation has overwritten what an activation has overwritten. -/
def Undisturbed (s : Execution Value World) : Prop :=
  ∀ frame ∈ s.frames, ∀ v w, replacer? s.writes frame.id v = some w → s.overwriter? frame.function.name v = some w

theorem undisturbed_resume {frame : Frame Value} {below : List (Frame Value)} {i : Instruction}
    {after : List Instruction} {value : Value}
    (before : ∀ other ∈ frame :: below, ∀ v w, replacer? s.writes other.id v = some w →
      s.overwriter? other.function.name v = some w)
    (ordered : ∀ lower ∈ below, lower.id < frame.id)
    (names : ∀ lower ∈ below, lower.function.name ≠ frame.function.name) :
    (s.resume frame below i after value).Undisturbed := by
  intro other member v w found
  rw [replacer?_resume] at found
  rw [overwriter?_resume]
  rcases List.mem_cons.1 member with rfl | lower
  · simp only [Frame.after_id, Frame.after_function, true_and] at found ⊢
    split at found
    · rename_i written
      rw [if_pos written, found]
    · rename_i kept
      rw [if_neg kept]
      exact before frame List.mem_cons_self v w found
  · have number := ordered other lower
    have name := names other lower
    rw [if_neg fun own => by omega] at found
    rw [if_neg fun own => name own.1.symm]
    exact before other (List.mem_cons_of_mem _ lower) v w found

theorem Undisturbed.next (alone : s.Undisturbed) (acyclic : p.Acyclic intrinsics) (held : s.Stacked intrinsics p)
    (turn : Turn intrinsics p s t) : t.Undisturbed := by
  have ordered := held.ordered
  have names := held.names_ne acyclic
  cases turn with
  | advance stack goes =>
      rw [stack] at ordered names
      refine undisturbed_resume (fun other member => ?_) (List.pairwise_cons.1 ordered).1 (List.pairwise_cons.1 names).1
      exact alone other (stack ▸ member)
  | enter stack left calls present =>
      intro frame member v w found
      rcases List.mem_cons.1 member with rfl | member
      · have past := held.past w (List.mem_of_find?_eq_some found)
        have own := List.find?_some found
        simp only [Bool.and_eq_true, decide_eq_true_eq] at own
        omega
      · exact alone frame (stack ▸ member) v w found
  | halt stack =>
      intro frame member
      cases member
  | leave stack ends left calls =>
      rw [stack] at ordered names
      have ordered := (List.pairwise_cons.1 ordered).2
      have names := (List.pairwise_cons.1 names).2
      refine undisturbed_resume (fun other member => ?_) (List.pairwise_cons.1 ordered).1 (List.pairwise_cons.1 names).1
      exact alone other (stack ▸ List.mem_cons_of_mem _ member)

theorem Reached.undisturbed (acyclic : p.Acyclic intrinsics) {entry : Bytes} {world : World}
    (reached : Reached m intrinsics p entry world s) : s.Undisturbed := by
  refine (Reached.induct ?_ (fun s t held alone turn => alone.next acyclic held turn) reached).2
  intro frame _ v w found
  cases found

end Execution

end Deadwood

import Deadwood.Proofs.Text.Pieces
import Deadwood.Text.Grammar

/-!
What a grammar reads and what it refuses, whatever mark earlier rules have left. Each combinator has a lemma for either
outcome, so that the reading of a text is put together along the rules that read it.
-/

namespace Deadwood.Grammar

variable {α β : Type} {r r' : Grammar α} {f : α → Grammar β} {s t u : Bytes} {a : α} {b : β}

/-- A grammar reads the front of a text as a value and leaves the rest. -/
def Reads (r : Grammar α) (s : Bytes) (a : α) (rest : Bytes) : Prop :=
  ∀ mark, ∃ mark', r ⟨s, s.length⟩ mark = (some (a, ⟨rest, rest.length⟩), mark')

def Refuses (r : Grammar α) (s : Bytes) : Prop := ∀ mark, ∃ mark', r ⟨s, s.length⟩ mark = (none, mark')

theorem reads_pure (a : α) (s : Bytes) : Reads (pure a) s a s := fun mark => ⟨mark, rfl⟩

theorem reads_left (s : Bytes) : Reads left s s.length s := fun mark => ⟨mark, rfl⟩

theorem reads_get (s : Bytes) : Reads (get : Grammar Place) s ⟨s, s.length⟩ s := fun mark => ⟨mark, rfl⟩

theorem refuses_failure (s : Bytes) : Refuses (failure : Grammar α) s := fun mark => ⟨mark, rfl⟩

theorem reads_set (s t : Bytes) : Reads (set (⟨t, t.length⟩ : Place) : Grammar Unit) s () t := fun mark => ⟨mark, rfl⟩

theorem Reads.bind (first : Reads r s a t) (next : Reads (f a) t b u) : Reads (r >>= f) s b u := by
  intro mark
  obtain ⟨mark', read⟩ := first mark
  obtain ⟨mark'', read'⟩ := next mark'
  refine ⟨mark'', ?_⟩
  simp only [Bind.bind, StateT.bind, OptionT.bind, OptionT.mk]
  rw [read]
  exact read'

theorem Refuses.bind (first : Refuses r s) (f : α → Grammar β) : Refuses (r >>= f) s := by
  intro mark
  obtain ⟨mark', refused⟩ := first mark
  refine ⟨mark', ?_⟩
  simp only [Bind.bind, StateT.bind, OptionT.bind, OptionT.mk]
  rw [refused]
  rfl

theorem Reads.bind_refuses (first : Reads r s a t) (next : Refuses (f a) t) : Refuses (r >>= f) s := by
  intro mark
  obtain ⟨mark', read⟩ := first mark
  obtain ⟨mark'', refused⟩ := next mark'
  refine ⟨mark'', ?_⟩
  simp only [Bind.bind, StateT.bind, OptionT.bind, OptionT.mk]
  rw [read]
  exact refused

theorem Reads.map (read : Reads r s a t) (f : α → β) : Reads (f <$> r) s (f a) t := by
  rw [map_eq_pure_bind]
  exact read.bind (reads_pure (f a) t)

theorem Refuses.map (refused : Refuses r s) (f : α → β) : Refuses (f <$> r) s := by
  rw [map_eq_pure_bind]
  exact refused.bind _

theorem Reads.orElse (read : Reads r s a t) (r' : Grammar α) : Reads (r <|> r') s a t := by
  intro mark
  obtain ⟨mark', read⟩ := read mark
  refine ⟨mark', ?_⟩
  simp only [HOrElse.hOrElse, OrElse.orElse, Alternative.orElse, StateT.orElse, OptionT.orElse, OptionT.mk, Bind.bind,
    StateT.bind]
  rw [read]
  rfl

theorem Refuses.orElse_reads (refused : Refuses r s) (read : Reads r' s a t) : Reads (r <|> r') s a t := by
  intro mark
  obtain ⟨mark', refused⟩ := refused mark
  obtain ⟨mark'', read⟩ := read mark'
  refine ⟨mark'', ?_⟩
  simp only [HOrElse.hOrElse, OrElse.orElse, Alternative.orElse, StateT.orElse, OptionT.orElse, OptionT.mk, Bind.bind,
    StateT.bind]
  rw [refused]
  exact read

theorem Refuses.orElse (refused : Refuses r s) (refused' : Refuses r' s) : Refuses (r <|> r') s := by
  intro mark
  obtain ⟨mark', refused⟩ := refused mark
  obtain ⟨mark'', refused'⟩ := refused' mark'
  refine ⟨mark'', ?_⟩
  simp only [HOrElse.hOrElse, OrElse.orElse, Alternative.orElse, StateT.orElse, OptionT.orElse, OptionT.mk, Bind.bind,
    StateT.bind]
  rw [refused]
  exact refused'

theorem Reads.optional (read : Reads r s a t) : Reads (optional r) s (some a) t := (read.map some).orElse _

theorem Refuses.optional (refused : Refuses r s) : Reads (optional r) s none s :=
  (refused.map some).orElse_reads (reads_pure none s)

theorem Reads.rule (read : Reads r s a t) : Reads (rule r) s a t := by
  refine (reads_get s).bind (read.bind ((reads_get t).bind ?_))
  dsimp only
  split
  · exact Reads.bind (a := ()) (t := t) (fun mark => ⟨_, rfl⟩) (reads_pure a t)
  · exact reads_pure a t

theorem Refuses.rule (refused : Refuses r s) : Refuses (rule r) s := (reads_get s).bind_refuses (refused.bind _)

theorem Reads.text (read : Reads r (s ++ t) a t) : Reads (text r) (s ++ t) s t := by
  refine (reads_get (s ++ t)).bind (read.rule.bind ((reads_get t).bind ?_))
  have taken : (s ++ t).take ((s ++ t).length - t.length) = s := by simp
  dsimp only
  rw [taken]
  exact reads_pure s t

theorem Refuses.text (refused : Refuses r s) : Refuses (text r) s := (reads_get s).bind_refuses (refused.rule.bind _)

theorem reads_byte {p : UInt8 → Bool} {b : UInt8} (fits : p b = true) (s : Bytes) : Reads (byte p) (b :: s) b s := by
  refine (reads_get _).bind ?_
  dsimp only
  rw [if_pos fits]
  exact (reads_set _ s).bind (reads_pure b s)

theorem refuses_byte {p : UInt8 → Bool} (differs : ∀ b ∈ s.head?, p b = false) : Refuses (byte p) s := by
  refine (reads_get s).bind_refuses ?_
  cases s with
  | nil => exact refuses_failure []
  | cons b s =>
      dsimp only
      rw [if_neg (by simpa using differs)]
      exact refuses_failure _

theorem reads_bytes {p : UInt8 → Bool} (each : ∀ b ∈ s, p b = true) (stop : ∀ b ∈ t.head?, p b = false) :
    Reads (bytes p) (s ++ t) s t := by
  have rest : t.takeWhile p = [] := by
    cases t with
    | nil => rfl
    | cons b t => rw [List.takeWhile_cons, stop b rfl, if_neg Bool.false_ne_true]
  have taken : (s ++ t).takeWhile p = s := by rw [List.takeWhile_append_of_pos each, rest, List.append_nil]
  refine (reads_get _).bind ?_
  dsimp only
  rw [taken, List.drop_left, List.length_append, Nat.add_sub_cancel_left]
  exact (reads_set _ t).bind (reads_pure s t)

theorem reads_literal (text s : Bytes) : Reads (literal text) (text ++ s) () s := by
  refine (reads_get _).bind ?_
  dsimp only
  rw [Bytes.after_append]
  dsimp only
  rw [List.length_append, Nat.add_sub_cancel_left]
  exact reads_set _ s

theorem refuses_literal {text : Bytes} (differs : Bytes.after? text s = none) : Refuses (literal text) s := by
  refine (reads_get s).bind_refuses ?_
  dsimp only
  rw [differs]
  exact refuses_failure s

theorem refuses_atEnd (present : s ≠ []) : Refuses atEnd s := by
  refine (reads_get s).bind_refuses ?_
  rw [if_neg present]
  exact refuses_failure s

theorem reads_atEnd : Reads atEnd [] () [] := fun mark => ⟨mark, rfl⟩

/-- A grammar that fits again and again, and then no more. -/
inductive Repeats (r : Grammar α) : Bytes → List α → Bytes → Prop
  | stop {s : Bytes} (refused : Refuses r s) : Repeats r s [] s
  | again {s t u : Bytes} {a : α} {rest : List α} (read : Reads r s a t) (shorter : t.length < s.length)
      (later : Repeats r t rest u) : Repeats r s (a :: rest) u

theorem Repeats.upTo {as : List α} (repeats : Repeats r s as u) {fuel : Nat} (enough : s.length ≤ fuel) :
    Reads (upTo r fuel) s as u := by
  induction repeats generalizing fuel with
  | stop refused =>
      cases fuel with
      | zero => exact reads_pure [] _
      | succ fuel => exact refused.optional.bind (reads_pure [] _)
  | again read shorter later ih =>
      cases fuel with
      | zero => omega
      | succ fuel => exact read.optional.bind ((ih (by omega)).bind (reads_pure _ _))

theorem Repeats.cons {as : List α} {front : Bytes} (later : Repeats r t as u) (present : front ≠ [])
    (read : Reads r (front ++ t) a t) : Repeats r (front ++ t) (a :: as) u := by
  apply Repeats.again read _ later
  have longer := List.length_pos_of_ne_nil present
  rw [List.length_append]
  omega

theorem Repeats.many {as : List α} (repeats : Repeats r s as u) : Reads (many r) s as u :=
  (reads_left s).bind (repeats.upTo (Nat.le_refl _))

end Deadwood.Grammar

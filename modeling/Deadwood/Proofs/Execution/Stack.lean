import Deadwood.Proofs.Execution.Basic
import Mathlib.Data.List.Chain

/-! What holds of the activations of a run between two steps: each waits for the one above it, and none is mixed up. -/

namespace Deadwood

theorem Program.function?_eq_some {p : Program} {name : Bytes} {f : Function} (found : p.function? name = some f) :
    f ∈ p.functions ∧ f.name = name := by
  rw [function?] at found
  have named := List.find?_some found
  exact ⟨List.mem_of_find?_eq_some found, by simpa using named⟩

def Frame.WaitsFor {Value : Type} (intrinsics : List Bytes) (callee caller : Frame Value) : Prop :=
  ∃ call rest, caller.rest = call :: rest ∧ call.userCall? intrinsics = some callee.function.name

namespace Execution

variable {Value World : Type} {m : Meaning Value World} {intrinsics : List Bytes} {p : Program}
  {s t : Execution Value World}

structure Stacked (intrinsics : List Bytes) (p : Program) (s : Execution Value World) : Prop where
  functions : ∀ frame ∈ s.frames, frame.function ∈ p.functions
  suffixes : ∀ frame ∈ s.frames, frame.rest <:+ frame.function.body
  waits : s.frames.IsChain (Frame.WaitsFor intrinsics)
  ordered : s.frames.Pairwise fun upper lower => lower.id < upper.id
  fresh : ∀ frame ∈ s.frames, frame.id < s.started
  past : ∀ w ∈ s.writes, w.activation < s.started
  changed : ∀ w ∈ s.writes, w.source.changes? = some w.name
  owned : ∀ w ∈ s.writes, ∀ frame ∈ s.frames, w.activation = frame.id →
    w.function = frame.function.name ∧ w.source ∈ frame.function.body

theorem start_stacked (m : Meaning Value World) (p : Program) (entry : Bytes) (world : World) :
    (start m p entry world).Stacked intrinsics p := by
  cases found : p.function? entry with
  | none => constructor <;> simp [start, found]
  | some f =>
      have present := (Program.function?_eq_some found).1
      constructor <;> simp [start, found, present]

theorem Stacked.mem_body (held : s.Stacked intrinsics p) {frame : Frame Value} (member : frame ∈ s.frames)
    {i : Instruction} {rest : List Instruction} (left : frame.rest = i :: rest) : i ∈ frame.function.body := by
  apply (held.suffixes frame member).subset
  rw [left]
  exact List.mem_cons_self

theorem Stacked.mem_code (held : s.Stacked intrinsics p) {frame : Frame Value} (member : frame ∈ s.frames)
    {i : Instruction} {rest : List Instruction} (left : frame.rest = i :: rest) : i ∈ p.code :=
  List.mem_flatMap.2 ⟨frame.function, held.functions frame member, held.mem_body member left⟩

theorem Stacked.pop (held : s.Stacked intrinsics p) {top : Frame Value} {below : List (Frame Value)}
    (stack : s.frames = top :: below) : { s with frames := below }.Stacked intrinsics p := by
  have kept (frame : Frame Value) (member : frame ∈ below) : frame ∈ s.frames := by
    rw [stack]
    exact List.mem_cons_of_mem _ member
  have waits := held.waits
  have ordered := held.ordered
  rw [stack] at waits ordered
  exact {
    functions := fun frame member => held.functions frame (kept frame member)
    suffixes := fun frame member => held.suffixes frame (kept frame member)
    waits := waits.tail
    ordered := (List.pairwise_cons.1 ordered).2
    fresh := fun frame member => held.fresh frame (kept frame member)
    past := held.past
    changed := held.changed
    owned := fun w written frame member => held.owned w written frame (kept frame member) }

theorem Stacked.resume (held : s.Stacked intrinsics p) {frame : Frame Value} {below : List (Frame Value)}
    (stack : s.frames = frame :: below) {i : Instruction} {rest : List Instruction} {value : Value}
    (body : i ∈ frame.function.body) (suffix : rest <:+ frame.function.body) :
    (s.resume frame below i rest value).Stacked intrinsics p := by
  have here : frame ∈ s.frames := by simp [stack]
  have waits := held.waits
  have ordered := held.ordered
  rw [stack] at waits ordered
  have written {w : Write} (member : w ∈ (s.resume frame below i rest value).writes) :
      (w.activation = frame.id ∧ w.function = frame.function.name ∧ w.source = i ∧ i.changes? = some w.name) ∨
        w ∈ s.writes := by
    simp only [Execution.resume, List.mem_append, Option.mem_toList, Option.map_eq_some_iff] at member
    rcases member with ⟨v, changed, rfl⟩ | old
    · exact .inl ⟨rfl, rfl, rfl, changed⟩
    · exact .inr old
  -- A frame of the new stack is one of the old stack, as far as its number and its function go.
  have known {other : Frame Value} (member : other ∈ (s.resume frame below i rest value).frames) :
      ∃ old ∈ s.frames, old.id = other.id ∧ old.function = other.function ∧
        (other.rest = old.rest ∨ other.rest = rest ∧ old = frame) := by
    rcases List.mem_cons.1 member with rfl | lower
    · exact ⟨frame, here, rfl, rfl, .inr ⟨rfl, rfl⟩⟩
    · exact ⟨other, by simp [stack, lower], rfl, rfl, .inl rfl⟩
  constructor
  · intro other member
    obtain ⟨old, present, _, same, _⟩ := known member
    exact same ▸ held.functions old present
  · intro other member
    obtain ⟨old, present, _, same, left | ⟨left, rfl⟩⟩ := known member
    · rw [left, ← same]
      exact held.suffixes old present
    · rw [left, ← same]
      exact suffix
  · cases below with
    | nil => exact .singleton _
    | cons lower below => exact .cons_cons (List.isChain_cons_cons.1 waits).1 waits.tail
  · exact List.pairwise_cons.2 (List.pairwise_cons.1 ordered)
  · intro other member
    obtain ⟨old, present, same, _⟩ := known member
    exact same ▸ held.fresh old present
  · intro w member
    rcases written member with ⟨same, _⟩ | old
    · rw [same]
      exact held.fresh frame here
    · exact held.past w old
  · intro w member
    rcases written member with ⟨_, _, same, changed⟩ | old
    · rw [same, changed]
    · exact held.changed w old
  · intro w member other present own
    obtain ⟨old, inside, number, same, _⟩ := known present
    rcases written member with ⟨activation, function, source, _⟩ | earlier
    · have unique : old = frame := by
        rcases List.mem_cons.1 (stack ▸ inside) with top | lower
        · exact top
        · have less := (List.pairwise_cons.1 ordered).1 old lower
          omega
      rw [← same, unique]
      exact ⟨function, source ▸ body⟩
    · rw [← same]
      exact held.owned w earlier old inside (own.trans number.symm)

theorem Stacked.push (held : s.Stacked intrinsics p) {top : Frame Value} {below : List (Frame Value)}
    (stack : s.frames = top :: below) {f : Function} {store : Bytes → Value} (function : f ∈ p.functions)
    {call : Instruction} {rest : List Instruction} (left : top.rest = call :: rest)
    (calls : call.userCall? intrinsics = some f.name) :
    (s.apply top below (.enter f store)).Stacked intrinsics p := by
  have waits := held.waits
  have ordered := held.ordered
  have fresh := held.fresh
  rw [stack] at waits ordered fresh
  constructor
  · intro frame member
    rcases List.mem_cons.1 member with rfl | old
    · exact function
    · exact held.functions frame (stack ▸ old)
  · intro frame member
    rcases List.mem_cons.1 member with rfl | old
    · exact List.suffix_rfl
    · exact held.suffixes frame (stack ▸ old)
  · exact .cons_cons ⟨call, rest, left, calls⟩ waits
  · exact List.pairwise_cons.2 ⟨fresh, ordered⟩
  · intro frame member
    rcases List.mem_cons.1 member with rfl | old
    · exact Nat.lt_succ_self _
    · exact Nat.lt_succ_of_lt (fresh frame old)
  · intro w written
    exact Nat.lt_succ_of_lt (held.past w written)
  · exact held.changed
  · intro w written frame member own
    rcases List.mem_cons.1 member with rfl | old
    · have before := held.past w written
      have number : w.activation = s.started := own
      omega
    · exact held.owned w written frame (stack ▸ old) own

inductive Turn (intrinsics : List Bytes) (p : Program) (s : Execution Value World) : Execution Value World → Prop
  | advance {top : Frame Value} {below : List (Frame Value)} {i : Instruction} {after : List Instruction}
      {value : Value} {world : World} {calls : List (Bytes × List Value)} :
      s.frames = top :: below → top.Goes intrinsics i after →
        Turn intrinsics p s ({ s with world, calls }.resume top below i after value)
  | enter {top : Frame Value} {below : List (Frame Value)} {call : Instruction} {rest : List Instruction} {f : Function}
      {store : Bytes → Value} :
      s.frames = top :: below → top.rest = call :: rest → call.userCall? intrinsics = some f.name → f ∈ p.functions →
        Turn intrinsics p s (s.apply top below (.enter f store))
  | halt {top : Frame Value} : s.frames = [top] → Turn intrinsics p s { s with frames := [] }
  | leave {top caller : Frame Value} {deeper : List (Frame Value)} {call : Instruction} {rest : List Instruction}
      {value : Value} :
      s.frames = top :: caller :: deeper → top.Ends → caller.rest = call :: rest →
        call.userCall? intrinsics = some top.function.name →
          Turn intrinsics p s (s.resume caller deeper call rest value)

theorem Stacked.turn (held : s.Stacked intrinsics p) (stepped : s.step m intrinsics p = some t) :
    Turn intrinsics p s t := by
  obtain ⟨top, below, action, stack, moved, rfl⟩ := exists_move stepped
  cases Meaning.fits_of_move moved with
  | advance goes => exact .advance stack goes
  | enter left call called =>
      obtain ⟨present, rfl⟩ := Program.function?_eq_some called
      exact .enter stack left call present
  | leave ends =>
      cases below with
      | nil => exact .halt stack
      | cons caller deeper =>
          have waits := held.waits
          rw [stack] at waits
          obtain ⟨call, rest, left, calls⟩ := (List.isChain_cons_cons.1 waits).1
          simp only [apply, left]
          exact .leave stack ends left calls

theorem Stacked.next (held : s.Stacked intrinsics p) (turn : Turn intrinsics p s t) : t.Stacked intrinsics p := by
  have inside {frame : Frame Value} {i : Instruction} {rest : List Instruction} (member : frame ∈ s.frames)
      (left : frame.rest = i :: rest) : i ∈ frame.function.body ∧ rest <:+ frame.function.body := by
    have suffix := left ▸ held.suffixes frame member
    exact ⟨held.mem_body member left, (List.suffix_cons i rest).trans suffix⟩
  cases turn with
  | @advance top below i after value world calls stack goes =>
      obtain ⟨rest, left, goes⟩ := goes
      obtain ⟨body, suffix⟩ := inside (by simp [stack]) left
      have same : { s with world, calls }.Stacked intrinsics p :=
        ⟨held.functions, held.suffixes, held.waits, held.ordered, held.fresh, held.past, held.changed, held.owned⟩
      refine same.resume stack body ?_
      rcases goes with ⟨rfl, _⟩ | ⟨_, lands⟩
      · exact suffix
      · obtain ⟨front, label, rest, split, rfl, _⟩ := Function.landing?_eq_some lands
        exact ⟨front, split.symm⟩
  | enter stack left calls present => exact held.push stack present left calls
  | halt stack => exact held.pop stack
  | leave stack ends left calls =>
      obtain ⟨body, suffix⟩ := inside (by simp [stack]) left
      exact (held.pop stack).resume rfl body suffix

theorem Reached.induct {entry : Bytes} {world : World} {motive : Execution Value World → Prop}
    (first : motive (start m p entry world))
    (next : ∀ s t, s.Stacked intrinsics p → motive s → Turn intrinsics p s t → motive t)
    (reached : Reached m intrinsics p entry world s) : s.Stacked intrinsics p ∧ motive s := by
  induction reached with
  | refl => exact ⟨start_stacked m p entry world, first⟩
  | tail _ stepped ih =>
      obtain ⟨held, good⟩ := ih
      have turn := held.turn stepped
      exact ⟨held.next turn, next _ _ held good turn⟩

theorem Reached.stacked {entry : Bytes} {world : World} (reached : Reached m intrinsics p entry world s) :
    s.Stacked intrinsics p :=
  (Reached.induct (motive := fun _ => True) trivial (fun _ _ _ _ _ => trivial) reached).1

end Execution

end Deadwood

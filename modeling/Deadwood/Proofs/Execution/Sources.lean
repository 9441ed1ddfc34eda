import Deadwood.Proofs.Dataflow.Closure
import Deadwood.Proofs.Execution.Stack

/-!
Where the values of variables come from. In every run, the write that a variable of an activation has its value from
leads to the present place along a path of the graph that does not overwrite the variable, as long as no other
activation of the same function has overwritten a variable of that name since. The graph knows functions, not
activations: after such an overwriting the path is broken.
-/

namespace Deadwood

def Frame.Arrives {Value : Type} (wires : List Wire) (g : Graph) (frame : Frame Value) (i : Instruction) : Prop :=
  match frame.rest with
  | next :: _ => g.Next i next
  | [] => g.ExitsBy wires frame.function.name i

namespace Execution

variable {Value World : Type} {m : Meaning Value World} {intrinsics : List Bytes} {p : Program} {wires : List Wire}
  {g : Graph} {s t : Execution Value World}

def latest? (s : Execution Value World) (activation : Nat) (v : Bytes) : Option Write :=
  s.writes.find? fun w => w.activation = activation && w.name = v

def overwriter? (s : Execution Value World) (function v : Bytes) : Option Write :=
  s.writes.find? fun w => w.function = function && w.source.dest? = some v

theorem find?_resume {frame : Frame Value} {below : List (Frame Value)} {i : Instruction} {after : List Instruction}
    {value : Value} {counts : Write → Bool} {v : Bytes} :
    (s.resume frame below i after value).writes.find? (fun w => counts w && w.source.dest? = some v) =
      if counts ⟨frame.id, frame.function.name, v, i⟩ = true ∧ i.dest? = some v then
        some ⟨frame.id, frame.function.name, v, i⟩
      else s.writes.find? (fun w => counts w && w.source.dest? = some v) := by
  by_cases written : i.dest? = some v
  · have changed := Instruction.changes?_of_dest? written
    by_cases counted : counts ⟨frame.id, frame.function.name, v, i⟩ = true <;> simp [resume, changed, written, counted]
  · cases changed : i.changes? <;> simp [resume, changed, written]

theorem overwriter?_resume {frame : Frame Value} {below : List (Frame Value)} {i : Instruction}
    {after : List Instruction} {value : Value} {function v : Bytes} :
    (s.resume frame below i after value).overwriter? function v =
      if frame.function.name = function ∧ i.dest? = some v then some ⟨frame.id, frame.function.name, v, i⟩
      else s.overwriter? function v := by
  simp only [overwriter?, find?_resume, decide_eq_true_eq]

/-- Why the write that an activation has a variable from may still be seen: it is the result of a call, an activation
not further down waits for a call that will overwrite the variable, or the path from the write to here is clear. -/
def Explained (wires : List Wire) (g : Graph) (top : Frame Value) (below : List (Frame Value)) (frame : Frame Value)
    (v : Bytes) (d : Instruction) : Prop :=
  d.op = .callr ∨
    (∃ waiting ∈ below, frame.id ≤ waiting.id ∧ waiting.function = frame.function ∧
      ∃ call rest, waiting.rest = call :: rest ∧ call.dest? = some v) ∨
    ∃ l, g.Carries frame.function v d l ∧ top.Arrives wires g l

def Traced (wires : List Wire) (g : Graph) (s : Execution Value World) : Prop :=
  ∀ top below, s.frames = top :: below → ∀ frame ∈ top :: below, ∀ v w,
    s.overwriter? frame.function.name v = some w → w.activation = frame.id →
      Explained wires g top below frame v w.source

theorem traced_resume {frame : Frame Value} {below : List (Frame Value)} {i : Instruction} {after : List Instruction}
    {value : Value} (ordered : ∀ lower ∈ below, lower.id < frame.id)
    (others : ∀ other ∈ frame :: below, ∀ v w, s.overwriter? other.function.name v = some w →
      w.activation = other.id → ¬ (frame.function.name = other.function.name ∧ i.dest? = some v) →
        Explained wires g (frame.after i after value) below other v w.source)
    (own : ∀ v, i.dest? = some v → Explained wires g (frame.after i after value) below frame v i) :
    (s.resume frame below i after value).Traced wires g := by
  intro top lower stack other member v w found activation
  obtain ⟨rfl, rfl⟩ := List.cons.inj stack
  rw [overwriter?_resume] at found
  split at found
  · rename_i overwritten
    cases found
    rcases List.mem_cons.1 member with rfl | further
    · exact own v overwritten.2
    · have less := ordered other further
      have same : frame.id = other.id := activation
      omega
  · rename_i kept
    rcases List.mem_cons.1 member with rfl | further
    · exact others frame List.mem_cons_self v w found activation kept
    · exact others other (List.mem_cons_of_mem _ further) v w found activation kept

end Execution

namespace Graph.BuiltFrom

variable {Value World : Type} {intrinsics : List Bytes} {p : Program} {wires : List Wire} {g : Graph}

theorem arrives_of_goes (built : g.BuiltFrom intrinsics p wires) {frame : Frame Value}
    (function : frame.function ∈ p.functions) (suffix : frame.rest <:+ frame.function.body) {i : Instruction}
    {after : List Instruction} (goes : frame.Goes intrinsics i after) (value : Value) :
    (frame.after i after value).Arrives wires g i := by
  obtain ⟨rest, left, goes⟩ := goes
  obtain ⟨front, split⟩ := suffix
  rw [left] at split
  rcases goes with ⟨rfl, falls⟩ | ⟨jumps, lands⟩
  · cases after with
    | nil =>
        have plain : i.closes intrinsics = false := by
          rcases falls with plain | ⟨test, op⟩
          · exact plain
          · exact (built.branch_not_final function split.symm test op).elim
        exact built.exits_of_final function split.symm plain
    | cons j after => exact built.next_of_fall function split.symm falls
  · obtain ⟨front', label, rest', split', rfl, op, named⟩ := Function.landing?_eq_some lands
    exact built.next_of_jump function (by simp [← split]) jumps (by simp [split']) op named

theorem arrives_of_leave (built : g.BuiltFrom intrinsics p wires) {caller : Frame Value}
    (function : caller.function ∈ p.functions) (suffix : caller.rest <:+ caller.function.body) {call i : Instruction}
    {rest : List Instruction} {callee : Bytes} (left : caller.rest = call :: rest)
    (calls : call.userCall? intrinsics = some callee) (exits : g.ExitsBy wires callee i) (value : Value) :
    (caller.after call rest value).Arrives wires g i := by
  obtain ⟨front, split⟩ := suffix
  rw [left] at split
  cases rest with
  | nil => exact built.exits_of_tail function split.symm calls exits
  | cons j rest => exact built.next_of_return function split.symm calls exits

end Graph.BuiltFrom

theorem Frame.Ends.exits {Value : Type} {intrinsics : List Bytes} {p : Program} {wires : List Wire} {g : Graph}
    (built : g.BuiltFrom intrinsics p wires) {top : Frame Value} (ends : top.Ends)
    (function : top.function ∈ p.functions) (suffix : top.rest <:+ top.function.body) {f : Function} {v : Bytes}
    {d l : Instruction} (carries : g.Carries f v d l) (arrives : top.Arrives wires g l) :
    ∃ i, g.Carries f v d i ∧ g.ExitsBy wires top.function.name i := by
  rcases ends with left | ⟨i, rest, left, op⟩
  · rw [Frame.Arrives, left] at arrives
    exact ⟨l, carries, arrives⟩
  · rw [Frame.Arrives, left] at arrives
    have body : i ∈ top.function.body := suffix.subset (by simp [left])
    have clear : ¬ f.Overwrites v i := by
      intro overwrites
      have written := overwrites.2
      simp [Instruction.dest?, op, Opcode.defines] at written
    exact ⟨i, carries.tail ⟨arrives, clear⟩, built.exits_of_ret function body op⟩

namespace Execution

variable {Value World : Type} {m : Meaning Value World} {intrinsics : List Bytes} {p : Program} {wires : List Wire}
  {g : Graph} {s t : Execution Value World}

theorem Stacked.clear (held : s.Stacked intrinsics p) (distinct : p.Distinct) {frame other : Frame Value}
    (first : frame ∈ s.frames) (second : other ∈ s.frames) {i : Instruction} {rest : List Instruction} {v : Bytes}
    (left : frame.rest = i :: rest) (kept : ¬ (frame.function.name = other.function.name ∧ i.dest? = some v)) :
    ¬ other.function.Overwrites v i := by
  intro overwrites
  have body := held.mem_body first left
  have same := distinct.owner_eq (held.functions frame first) (held.functions other second) body overwrites.1
  exact kept ⟨by rw [same], overwrites.2⟩

theorem Traced.advance (traced : s.Traced wires g) (built : g.BuiltFrom intrinsics p wires)
    (held : s.Stacked intrinsics p) {top : Frame Value} {below : List (Frame Value)} (stack : s.frames = top :: below)
    {i : Instruction} {after : List Instruction} (goes : top.Goes intrinsics i after) (value : Value) :
    (s.resume top below i after value).Traced wires g := by
  have here : top ∈ s.frames := by simp [stack]
  have ordered := held.ordered
  rw [stack] at ordered
  have arrives := built.arrives_of_goes (held.functions top here) (held.suffixes top here) goes value
  apply traced_resume (List.pairwise_cons.1 ordered).1
  · intro other member v w found activation kept
    obtain ⟨rest, left, _⟩ := goes
    have clear := held.clear built.distinct here (stack ▸ member) left kept
    rcases traced top below stack other member v w found activation with result | waiting | ⟨l, carries, comes⟩
    · exact .inl result
    · exact .inr (.inl waiting)
    · rw [Frame.Arrives, left] at comes
      exact .inr (.inr ⟨i, carries.tail ⟨comes, clear⟩, arrives⟩)
  · intro v _
    exact .inr (.inr ⟨i, .refl, arrives⟩)

theorem Traced.enter (traced : s.Traced wires g) (built : g.BuiltFrom intrinsics p wires)
    (held : s.Stacked intrinsics p) {top : Frame Value} {below : List (Frame Value)} (stack : s.frames = top :: below)
    {call : Instruction} {rest : List Instruction} (left : top.rest = call :: rest) {f : Function}
    (calls : call.userCall? intrinsics = some f.name) (present : f ∈ p.functions) (store : Bytes → Value) :
    (s.apply top below (.enter f store)).Traced wires g := by
  have here : top ∈ s.frames := by simp [stack]
  obtain ⟨h, function, named, first, others, split, next⟩ :=
    built.next_of_call (held.functions top here) (held.mem_body here left) calls
  obtain rfl := built.distinct.function_eq function present named
  intro top' below' stack' frame member v w found activation
  obtain ⟨rfl, rfl⟩ := List.cons.inj stack'
  rcases List.mem_cons.1 member with rfl | member
  · -- The new activation has not written anything.
    have before := held.past w (List.mem_of_find?_eq_some found)
    have number : w.activation = s.started := activation
    omega
  · rcases traced top below stack frame member v w found activation with result | ⟨waiting, lower, above⟩ |
      ⟨l, carries, comes⟩
    · exact .inl result
    · exact .inr (.inl ⟨waiting, List.mem_cons_of_mem _ lower, above⟩)
    · rw [Frame.Arrives, left] at comes
      by_cases kept : top.function.name = frame.function.name ∧ call.dest? = some v
      · -- The path is broken here, and will be until the call comes back and overwrites the variable.
        have same := built.distinct.function_eq (held.functions top here) (held.functions frame (stack ▸ member)) kept.1
        have ordered := held.ordered
        rw [stack] at ordered
        have up : frame.id ≤ top.id := by
          rcases List.mem_cons.1 member with rfl | lower
          · exact Nat.le_refl _
          · exact Nat.le_of_lt ((List.pairwise_cons.1 ordered).1 frame lower)
        exact .inr (.inl ⟨top, List.mem_cons_self, up, same, call, rest, left, kept.2⟩)
      · have clear := held.clear built.distinct here (stack ▸ member) left kept
        refine .inr (.inr ⟨call, carries.tail ⟨comes, clear⟩, ?_⟩)
        rw [Frame.Arrives, split]
        exact next

theorem Traced.leave (traced : s.Traced wires g) (built : g.BuiltFrom intrinsics p wires)
    (held : s.Stacked intrinsics p) {top caller : Frame Value} {deeper : List (Frame Value)}
    (stack : s.frames = top :: caller :: deeper) (ends : top.Ends) {call : Instruction} {rest : List Instruction}
    (left : caller.rest = call :: rest) (calls : call.userCall? intrinsics = some top.function.name) (value : Value) :
    (s.resume caller deeper call rest value).Traced wires g := by
  have here : top ∈ s.frames := by simp [stack]
  have under : caller ∈ s.frames := by simp [stack]
  have ordered := held.ordered
  rw [stack] at ordered
  apply traced_resume (List.pairwise_cons.1 (List.pairwise_cons.1 ordered).2).1
  · intro other member v w found activation kept
    have inside : other ∈ top :: caller :: deeper := List.mem_cons_of_mem _ member
    rcases traced top (caller :: deeper) stack other inside v w found activation with result |
      ⟨waiting, further, up, same, again⟩ | ⟨l, carries, comes⟩
    · exact .inl result
    · rcases List.mem_cons.1 further with rfl | further
      · -- It was this call that was waited for, and it overwrites the variable.
        obtain ⟨call', rest', left', written⟩ := again
        rw [left] at left'
        obtain ⟨rfl, rfl⟩ := List.cons.inj left'
        exact (kept ⟨by rw [same], written⟩).elim
      · exact .inr (.inl ⟨waiting, further, up, same, again⟩)
    · have function := held.functions top here
      obtain ⟨i, carries, exits⟩ := ends.exits built function (held.suffixes top here) carries comes
      refine .inr (.inr ⟨i, carries, ?_⟩)
      exact built.arrives_of_leave (held.functions caller under) (held.suffixes caller under) left calls exits value
  · intro v written
    exact .inl (Instruction.callr_of_dest? calls written)

theorem Traced.next (traced : s.Traced wires g) (built : g.BuiltFrom intrinsics p wires)
    (held : s.Stacked intrinsics p) (turn : Turn intrinsics p s t) : t.Traced wires g := by
  cases turn with
  | @advance top below i after value world calls stack goes =>
      have moved := traced.advance built held stack goes value
      intro first lower stack' frame member v w found
      exact moved first lower stack' frame member v w found
  | @enter top below call rest f store stack left calls present =>
      exact traced.enter built held stack left calls present store
  | halt stack =>
      intro top below stack'
      cases stack'
  | @leave top caller deeper call rest value stack ends left calls =>
      exact traced.leave built held stack ends left calls value

theorem Reached.traced (built : g.BuiltFrom intrinsics p wires) {entry : Bytes} {world : World}
    (reached : Reached m intrinsics p entry world s) : s.Stacked intrinsics p ∧ s.Traced wires g := by
  refine Reached.induct ?_ (fun s t held traced turn => traced.next built held turn) reached
  intro top below _ frame _ v w found
  cases found

theorem Reached.flows (built : g.BuiltFrom intrinsics p wires) {entry : Bytes} {world : World}
    (reached : Reached m intrinsics p entry world s) {top : Frame Value} {below : List (Frame Value)}
    (stack : s.frames = top :: below) {i : Instruction} {rest : List Instruction} (left : top.rest = i :: rest)
    {v : Bytes} {w : Write} (found : s.overwriter? top.function.name v = some w) (own : w.activation = top.id) :
    w.source.op = .callr ∨ g.Flows top.function v w.source i := by
  obtain ⟨held, traced⟩ := reached.traced built
  have ordered := held.ordered
  rw [stack] at ordered
  rcases traced top below stack top List.mem_cons_self v w found own with result | ⟨waiting, lower, up, _⟩ |
    ⟨l, carries, comes⟩
  · exact .inl result
  · have less := (List.pairwise_cons.1 ordered).1 waiting lower
    omega
  · rw [Frame.Arrives, left] at comes
    exact .inr (carries.flows comes)

def OverwrittenSince (s : Execution Value World) (frame : Frame Value) (v : Bytes) (w : Write) : Prop :=
  ∃ newer older, s.writes = newer ++ w :: older ∧ ∃ other ∈ newer, other.activation ≠ frame.id ∧
    other.function = frame.function.name ∧ other.source.dest? = some v

theorem Stacked.overwriter?_of_latest? (held : s.Stacked intrinsics p) {frame : Frame Value} (member : frame ∈ s.frames)
    {v : Bytes} {w : Write} (found : s.latest? frame.id v = some w) (whole : w.source.dest? = some v) :
    s.overwriter? frame.function.name v = some w ∨ s.OverwrittenSince frame v w := by
  obtain ⟨own, newer, older, split, skipped⟩ := List.find?_eq_some_iff_append.1 found
  have inside (other : Write) (recent : other ∈ newer) : other ∈ s.writes := by simp [split, recent]
  simp only [Bool.and_eq_true, decide_eq_true_eq] at own
  by_cases since : s.OverwrittenSince frame v w
  · exact .inr since
  · refine .inl (List.find?_eq_some_iff_append.2 ⟨?_, newer, older, split, fun other recent => ?_⟩)
    · have owned := held.owned w (by simp [split]) frame member own.1
      simp [owned.1, whole]
    · have passed := skipped other recent
      simp only [Bool.not_eq_true', Bool.and_eq_false_iff, decide_eq_false_iff_not] at passed ⊢
      by_contra overwrites
      push Not at overwrites
      obtain ⟨function, written⟩ := overwrites
      have changed := held.changed other (inside other recent)
      rw [Instruction.changes?_of_dest? written, Option.some.injEq] at changed
      rcases passed with elsewhere | different
      · exact since ⟨newer, older, split, other, recent, elsewhere, function, written⟩
      · exact different changed.symm

end Execution

theorem Graph.BuiltFrom.source_critical {intrinsics : List Bytes} {p : Program} {wires : List Wire} {g : Graph}
    (built : g.BuiltFrom intrinsics p wires) {limit : Nat} {solution : Equations.Solution}
    (solved : g.solve limit = .ok solution) {policy : LabelPolicy} {Value World : Type} {m : Meaning Value World}
    {entry : Bytes} {world : World} {s : Execution Value World}
    (reached : Execution.Reached m intrinsics p entry world s) {top : Frame Value} {below : List (Frame Value)}
    (stack : s.frames = top :: below) {i : Instruction} {rest : List Instruction} (left : top.rest = i :: rest)
    (critical : i.line ∈ (Solved.mk g solution.facts).critical policy p) {v : Bytes} (reads : i.Reads v) {w : Write}
    (found : s.overwriter? top.function.name v = some w) (own : w.activation = top.id) :
    w.source.line ∈ (Solved.mk g solution.facts).critical policy p := by
  obtain ⟨held, _⟩ := reached.traced built
  have here : top ∈ s.frames := by simp [stack]
  have function := held.functions top here
  have body := (held.owned w (List.mem_of_find?_eq_some found) top here own).2
  have overwrites := List.find?_some found
  simp only [Bool.and_eq_true, decide_eq_true_eq] at overwrites
  have reader := (Solved.line_mem_critical_iff built.distinct (held.mem_code here left) reads.op_ne_label).1 critical
  refine (Solved.mem_critical_iff built.distinct).2 (.inl ?_)
  refine (built.definition_mem_closure_iff solved policy function ⟨body, overwrites.2⟩).2 ?_
  rcases reached.flows built stack left found own with op | flows
  · exact .inl (.inl (by simp [Critical.Acts, op]))
  · exact .inr ⟨i, held.mem_body here left, reader, reads.mem_reads, flows⟩

namespace Analysis

/-- The last write to a variable that a critical instruction reads, in the same activation, is critical unless another
activation of the same function has overwritten a variable of that name since. In either case it is critical exactly
if it acts beyond its variable, or reaches a marked instruction that reads the variable. -/
theorem latest_write_critical_or_overwritten {settings : Settings} {p : Program} {a : Analysis}
    (analysed : Analysis.run settings p = .ok a) {Value World : Type} {m : Meaning Value World} {world : World}
    {s : Execution Value World} (reached : Execution.Reached m settings.intrinsics p settings.entry world s)
    {top : Frame Value} {below : List (Frame Value)} (stack : s.frames = top :: below) {i : Instruction}
    {rest : List Instruction} (left : top.rest = i :: rest) (critical : i.line ∈ a.critical) {v : Bytes}
    (reads : i.Reads v) {w : Write} (latest : s.latest? top.id v = some w) :
    (w.source.line ∈ a.critical ∨ s.OverwrittenSince top v w) ∧
      (w.source.line ∈ a.critical ↔ Critical.Acts w.source ∨
        ∃ j ∈ top.function.body, j.line ∈ a.solved.closure settings.labels p ∧ v ∈ j.reads ∧
          a.solved.graph.Flows top.function v w.source j) := by
  obtain ⟨g, wires, solution, built, solved, rfl⟩ := exists_solution analysed
  obtain ⟨held, _⟩ := reached.traced built
  have here : top ∈ s.frames := by simp [stack]
  have function := held.functions top here
  have member := List.mem_of_find?_eq_some latest
  have found := List.find?_some latest
  simp only [Bool.and_eq_true, decide_eq_true_eq] at found
  have body := (held.owned w member top here found.1).2
  have changed := found.2 ▸ held.changed w member
  have code : w.source ∈ p.code := Program.mem_code_iff.2 ⟨top.function, function, body⟩
  have unlabelled : w.source.op ≠ .label := by
    intro op
    simp [Instruction.changes?, op] at changed
  have seed : Critical.Seed settings.labels w.source ↔ Critical.Acts w.source := by simp [Critical.Seed, unlabelled]
  have marked : w.source.line ∈ (Solved.mk g solution.facts).critical settings.labels p ↔ _ :=
    Solved.line_mem_critical_iff built.distinct code unlabelled
  by_cases partly : w.source.op = .arrayStore
  · -- A store into an array is kept on its own account.
    have acts : Critical.Acts w.source := by simp [Critical.Acts, partly]
    have kept := marked.2 ((Solved.line_mem_closure_iff built.distinct code).2 (.inl (seed.2 acts)))
    exact ⟨.inl kept, fun _ => .inl acts, fun _ => kept⟩
  · have written : w.source.dest? = some v := by rw [← Instruction.changes?_eq_dest? partly, changed]
    have needed := built.definition_mem_closure_iff solved settings.labels function ⟨body, written⟩
    rw [seed] at needed
    refine ⟨?_, marked.trans needed⟩
    rcases held.overwriter?_of_latest? here latest written with last | since
    · exact .inl (built.source_critical solved reached stack left critical reads last found.1)
    · exact .inr since

/-- Writes a variable, calls itself once, and then prints what it wrote by way of an array. The inner activation writes
the variable again. -/
def nesting : Function where
  name := [102]
  params := [⟨[], [110]⟩]
  ints := [[97, 91, 49, 93]]
  body := [
    ⟨.assign, [⟨.variable, [120]⟩, ⟨.constant, [49]⟩], 1⟩,
    ⟨.branch .gt, [⟨.label, [82]⟩, ⟨.variable, [110]⟩, ⟨.constant, [48]⟩], 2⟩,
    ⟨.assign, [⟨.variable, [120]⟩, ⟨.constant, [50]⟩], 3⟩,
    ⟨.ret, [], 4⟩,
    ⟨.label, [⟨.label, [82]⟩], 5⟩,
    ⟨.call, [⟨.function, [102]⟩, ⟨.constant, [48]⟩], 6⟩,
    ⟨.assign, [⟨.array, [97]⟩, ⟨.constant, [49]⟩, ⟨.constant, [48]⟩], 7⟩,
    ⟨.arrayStore, [⟨.variable, [120]⟩, ⟨.array, [97]⟩, ⟨.constant, [48]⟩], 8⟩,
    ⟨.arrayLoad, [⟨.variable, [121]⟩, ⟨.array, [97]⟩, ⟨.constant, [48]⟩], 9⟩,
    ⟨.call, [⟨.function, [112]⟩, ⟨.variable, [121]⟩], 10⟩,
    ⟨.ret, [], 11⟩]

/-- Numbers are arrays of one cell. Constants are single digits, and the parameter of the first activation is one. -/
def cells : Meaning (List Nat) Unit where
  initial _ v := if v = [110] then [1] else [0]
  constant o := [(o.name.headD 48).toNat - 48]
  compute
    | .assign, [size, [value]] => List.replicate (size.headD 0) value
    | .arrayStore, [[value], array, [index]] => array.set index value
    | .arrayLoad, [array, [index]] => [array.getD index 0]
    | _, values => values.headD []
  test _ values := [0] < values.headD []
  intrinsic _ _ world := ([], world)
  void := []

/-- The write of the outer activation is not critical, though what it wrote is stored into an array and printed. -/
theorem nested_activation_hides_write :
    ∃ a s top below i rest w, Analysis.run ⟨.all, [[112]], [102], 0, 0⟩ ⟨[nesting]⟩ = .ok a ∧
      Execution.Reached cells [[112]] ⟨[nesting]⟩ [102] () s ∧ s.frames = top :: below ∧ top.rest = i :: rest ∧
      i.op = .arrayStore ∧ i.line ∈ a.critical ∧ i.Reads [120] ∧ s.latest? top.id [120] = some w ∧
      w.source.line ∉ a.critical ∧ s.OverwrittenSince top [120] w := by
  have evaluated : (Analysis.run ⟨.all, [[112]], [102], 0, 0⟩ ⟨[nesting]⟩).map (·.critical.lines) =
      .ok [2, 3, 4, 5, 6, 7, 8, 9, 10, 11] := by cbv
  obtain ⟨a, analysed, lines⟩ := Except.map_eq_ok.1 evaluated
  have run : ∃ s top, Execution.Reached cells [[112]] ⟨[nesting]⟩ [102] () s ∧ s.frames = [top] ∧
      top.rest = nesting.body.drop 7 ∧ s.latest? top.id [120] = some ⟨0, [102], [120],
        ⟨.assign, [⟨.variable, [120]⟩, ⟨.constant, [49]⟩], 1⟩⟩ :=
    ⟨_, _, .head rfl (.head rfl (.head rfl (.head rfl (.head rfl (.head rfl (.head rfl (.head rfl (.head rfl
      .refl)))))))), rfl, rfl, rfl⟩
  obtain ⟨s, top, reached, stack, left, latest⟩ := run
  have critical : 8 ∈ a.critical := by
    rw [← LineSet.mem_lines, lines]
    decide
  have dropped : 1 ∉ a.critical := by
    rw [← LineSet.mem_lines, lines]
    decide
  have reads : Instruction.Reads
      ⟨.arrayStore, [⟨.variable, [120]⟩, ⟨.array, [97]⟩, ⟨.constant, [48]⟩], 8⟩ [120] :=
    ⟨⟨.variable, [120]⟩, by decide, rfl, rfl⟩
  obtain ⟨kept | since, _⟩ := latest_write_critical_or_overwritten analysed reached stack left critical reads latest
  · exact (dropped kept).elim
  · exact ⟨a, s, top, [], _, _, _, analysed, reached, stack, left, rfl, critical, reads, latest, dropped, since⟩

end Analysis

end Deadwood

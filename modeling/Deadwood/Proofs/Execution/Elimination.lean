import Deadwood.Proofs.Execution.Acyclic
import Deadwood.Proofs.Program.Legible

/-!
A program and what is left of it without dead code run alike. The runs are compared step by step: an instruction that
was dropped is a step of the whole program alone, every other instruction is one of both. Variables of the two may
differ as long as they were last replaced by a dropped instruction.
-/

namespace Deadwood

def Function.keeping (f : Function) (keep : Instruction → Bool) : Function := { f with body := f.body.filter keep }

theorem Program.function?_filter {p : Program} {keep : Instruction → Bool} (name : Bytes) :
    (p.filter keep).function? name = (p.function? name).map (·.keeping keep) := by
  simp only [function?, filter, List.find?_map]
  rfl

theorem dropWhile_filter {α : Type} {stop keep : α → Bool} {list : List α}
    (kept : ∀ a ∈ list, stop a = true → keep a = true) :
    (list.filter keep).dropWhile (fun a => !stop a) = (list.dropWhile fun a => !stop a).filter keep := by
  induction list with
  | nil => rfl
  | cons a list ih =>
      have later := ih fun b member => kept b (List.mem_cons_of_mem _ member)
      cases stops : stop a with
      | true => simp [stops, kept a List.mem_cons_self stops]
      | false => cases keeps : keep a <;> simp [stops, keeps, later]

theorem Function.landing?_keeping {f : Function} {keep : Instruction → Bool} {jump : Instruction}
    (kept : ∀ name, jump.target? = some name → ∀ label ∈ f.body, label.labels name = true → keep label = true) :
    (f.keeping keep).landing? jump = (f.landing? jump).map (List.filter keep) := by
  cases target : jump.target? with
  | none => simp [landing?, target]
  | some name =>
      simp only [landing?, target, keeping, dropWhile_filter (kept name target)]
      cases found : f.body.dropWhile fun i => !i.labels name with
      | nil => rfl
      | cons label rest =>
          have stops := List.head?_dropWhile_not (fun i : Instruction => !i.labels name) f.body
          have member : label ∈ f.body := (List.dropWhile_suffix _).subset (by rw [found]; exact List.mem_cons_self)
          rw [found] at stops
          simp only [List.head?_cons, Bool.not_eq_false'] at stops
          simp [kept name target label member stops]

def Move.keeping {Value World : Type} (keep : Instruction → Bool) : Move Value World → Move Value World
  | .advance i rest value world calls => .advance i (rest.filter keep) value world calls
  | .enter f store => .enter (f.keeping keep) store
  | .leave value => .leave value

namespace Meaning

variable {Value World : Type} {m : Meaning Value World} {intrinsics : List Bytes} {p : Program}
  {keep : Instruction → Bool} {frame other : Frame Value} {world : World}

theorem values_congr {i : Instruction} {first second : Bytes → Value} (same : ∀ v, i.Reads v → first v = second v) :
    m.values i first = m.values i second := by
  refine List.map_congr_left fun o member => ?_
  rw [operand, operand]
  split
  · rename_i storage
    exact same o.name ⟨o, member, storage, rfl⟩
  · rfl

theorem move_keeping_nil (left : frame.rest = []) (rest : other.rest = frame.rest.filter keep) :
    m.move intrinsics (p.filter keep) other world = (m.move intrinsics p frame world).map (Move.keeping keep) := by
  rw [left] at rest
  simp only [move, left, rest]
  rfl

theorem move_keeping {i : Instruction} {after : List Instruction} (left : frame.rest = i :: after)
    (kept : keep i = true) (function : other.function = frame.function.keeping keep)
    (rest : other.rest = frame.rest.filter keep) (values : m.values i other.store = m.values i frame.store)
    (labels : i.op.isJump = true → ∀ name, i.target? = some name → ∀ label ∈ frame.function.body,
      label.labels name = true → keep label = true) :
    m.move intrinsics (p.filter keep) other world = (m.move intrinsics p frame world).map (Move.keeping keep) := by
  have rest : other.rest = i :: after.filter keep := by rw [rest, left, List.filter_cons_of_pos kept]
  have lands (jumps : i.op.isJump = true) :
      other.function.landing? i = (frame.function.landing? i).map (List.filter keep) := by
    rw [function, Function.landing?_keeping (labels jumps)]
  simp only [move, left, rest, values]
  cases op : i.op with
  | ret => rfl
  | goto =>
      simp only [lands (by rw [op]; rfl), Option.map_map]
      rfl
  | branch test =>
      simp only [lands (by rw [op]; rfl)]
      split
      · simp only [Option.map_map]
        rfl
      · rfl
  | _ =>
      cases i.userCall? intrinsics with
      | some callee =>
          simp only [Program.function?_filter, Option.map_map]
          rfl
      | none => cases i.callee? <;> rfl

theorem move_idle {i : Instruction} {after : List Instruction} (left : frame.rest = i :: after)
    (idle : ¬ Critical.Acts i) :
    m.move intrinsics p frame world =
      some (.advance i after (m.compute i.op (m.values i frame.store)) world []) := by
  have uncalled : i.callee? = none := by
    rw [Instruction.callee?]
    split <;> simp_all [Critical.Acts]
  have inside : i.userCall? intrinsics = none := by simp [Instruction.userCall?, uncalled]
  simp only [move, left, inside, uncalled]
  cases op : i.op <;> first | rfl | simp [Critical.Acts, op] at idle

end Meaning

/-- An activation among fewer instructions. The stores agree on what was last replaced by an instruction that is kept,
and on what was never replaced. -/
structure Frame.Mirrors {Value : Type} (keep : Instruction → Bool) (writes : List Write) (frame other : Frame Value) :
    Prop where
  function : other.function = frame.function.keeping keep
  rest : other.rest = frame.rest.filter keep
  store : ∀ v, (∀ w, Execution.replacer? writes frame.id v = some w → keep w.source = true) →
    other.store v = frame.store v

namespace Execution

variable {Value World : Type} {m : Meaning Value World} {intrinsics : List Bytes} {p : Program} {entry : Bytes}
  {keep : Instruction → Bool} {s t other : Execution Value World}

structure Mirrors (keep : Instruction → Bool) (s other : Execution Value World) : Prop where
  world : other.world = s.world
  calls : other.calls = s.calls
  frames : List.Forall₂ (Frame.Mirrors keep s.writes) s.frames other.frames

/-- The instructions that are kept suffice: those that act, the labels that are jumped to, and whatever a kept
instruction has its variables from. -/
structure Suffices (m : Meaning Value World) (intrinsics : List Bytes) (p : Program) (entry : Bytes)
    (keep : Instruction → Bool) : Prop where
  acts : ∀ i ∈ p.code, Critical.Acts i → keep i = true
  labels : ∀ f ∈ p.functions, ∀ jump ∈ f.body, jump.op.isJump = true → ∀ name, jump.target? = some name →
    ∀ label ∈ f.body, label.labels name = true → keep label = true
  sources : ∀ world s, Reached m intrinsics p entry world s → ∀ top below, s.frames = top :: below →
    ∀ i rest, top.rest = i :: rest → keep i = true → ∀ v, i.Reads v → ∀ w, replacer? s.writes top.id v = some w →
      keep w.source = true

theorem start_mirrors (m : Meaning Value World) (p : Program) (entry : Bytes) (world : World)
    (keep : Instruction → Bool) : (start m p entry world).Mirrors keep (start m (p.filter keep) entry world) := by
  refine ⟨rfl, rfl, ?_⟩
  simp only [start, Program.function?_filter]
  cases p.function? entry with
  | none => exact .nil
  | some f => exact .cons ⟨rfl, rfl, fun v _ => rfl⟩ .nil

theorem mirrors_resume_below {frame : Frame Value} {below mirrored : List (Frame Value)} {i : Instruction}
    {after : List Instruction} {value : Value} (frames : List.Forall₂ (Frame.Mirrors keep s.writes) below mirrored)
    (ordered : ∀ lower ∈ below, lower.id < frame.id) :
    List.Forall₂ (Frame.Mirrors keep (s.resume frame below i after value).writes) below mirrored := by
  have both := (List.forall₂_and_left _ _).2 ⟨ordered, frames⟩
  refine both.imp fun lower mirror ⟨less, mirrors⟩ => ⟨mirrors.function, mirrors.rest, fun v agree => ?_⟩
  refine mirrors.store v fun w found => agree w ?_
  rw [replacer?_resume, if_neg fun own => by omega]
  exact found

theorem Mirrors.resume (mirrors : s.Mirrors keep other) {frame mirror : Frame Value}
    {below mirrored : List (Frame Value)}
    (frames : List.Forall₂ (Frame.Mirrors keep s.writes) (frame :: below) (mirror :: mirrored))
    (ordered : ∀ lower ∈ below, lower.id < frame.id) (i : Instruction) (after : List Instruction) (value : Value) :
    (s.resume frame below i after value).Mirrors keep (other.resume mirror mirrored i (after.filter keep) value) := by
  obtain ⟨top, rest⟩ := List.forall₂_cons.1 frames
  refine ⟨mirrors.world, mirrors.calls, .cons ⟨top.function, rfl, ?_⟩ (mirrors_resume_below rest ordered)⟩
  intro v agree
  by_cases changed : i.changes? = some v
  · simp [Frame.after, changed]
  · simp only [Frame.after, if_neg changed]
    refine top.store v fun w found => agree w ?_
    rw [replacer?_resume, if_neg fun own => changed (Instruction.changes?_of_dest? own.2)]
    exact found

theorem Mirrors.idle (mirrors : s.Mirrors keep other) {top : Frame Value} {below : List (Frame Value)}
    (stack : s.frames = top :: below) (ordered : ∀ lower ∈ below, lower.id < top.id) {i : Instruction}
    {rest : List Instruction} (left : top.rest = i :: rest) (idle : ¬ Critical.Acts i) (dropped : keep i = false)
    (value : Value) : (s.resume top below i rest value).Mirrors keep other := by
  have frames := mirrors.frames
  rw [stack] at frames
  obtain ⟨mirror, mirrored, first, lower, same⟩ := List.forall₂_cons_left_iff.1 frames
  refine ⟨mirrors.world, mirrors.calls, ?_⟩
  rw [same]
  refine .cons ⟨first.function, ?_, fun v agree => ?_⟩ (mirrors_resume_below lower ordered)
  · rw [first.rest, left, List.filter_cons_of_neg (by simp [dropped])]
    rfl
  · have changed : i.changes? = i.dest? := Instruction.changes?_eq_dest? fun op => idle (by simp [Critical.Acts, op])
    simp only [Frame.after, replacer?_resume, changed, true_and] at agree ⊢
    by_cases written : i.dest? = some v
    · have kept := agree _ (if_pos written)
      rw [dropped] at kept
      cases kept
    · rw [if_neg written]
      refine first.store v fun w found => agree w ?_
      rw [if_neg written]
      exact found

theorem Mirrors.apply (mirrors : s.Mirrors keep other) (held : s.Stacked intrinsics p)
    (acts : ∀ i ∈ p.code, Critical.Acts i → keep i = true) {top mirror : Frame Value}
    {below mirrored : List (Frame Value)} (stack : s.frames = top :: below)
    (mirroring : other.frames = mirror :: mirrored) (action : Move Value World) :
    (s.apply top below action).Mirrors keep (other.apply mirror mirrored (action.keeping keep)) := by
  have frames := mirrors.frames
  have ordered := held.ordered
  rw [stack] at ordered
  rw [stack, mirroring] at frames
  cases action with
  | advance i after value world calls =>
      have same : { s with world, calls := s.calls ++ calls }.Mirrors keep
          { other with world, calls := other.calls ++ calls } :=
        ⟨rfl, by rw [mirrors.calls], mirrors.frames⟩
      exact same.resume frames (List.pairwise_cons.1 ordered).1 i after value
  | enter f store => exact ⟨mirrors.world, mirrors.calls, .cons ⟨rfl, rfl, fun v _ => rfl⟩ frames⟩
  | leave value =>
      obtain ⟨_, lower⟩ := List.forall₂_cons.1 frames
      cases below with
      | nil =>
          obtain rfl := List.forall₂_nil_left_iff.1 lower
          exact ⟨mirrors.world, mirrors.calls, .nil⟩
      | cons caller deeper =>
          obtain ⟨mirror', mirrored', first, _, rfl⟩ := List.forall₂_cons_left_iff.1 lower
          have under : caller ∈ s.frames := by simp [stack]
          have waits := held.waits
          rw [stack] at waits
          obtain ⟨call, rest, left, calls⟩ := (List.isChain_cons_cons.1 waits).1
          have kept := acts call (held.mem_code under left) (Critical.acts_of_userCall calls)
          have left' : mirror'.rest = call :: rest.filter keep := by
            rw [first.rest, left, List.filter_cons_of_pos kept]
          simp only [Execution.apply, Move.keeping, left, left']
          exact mirrors.resume lower (List.pairwise_cons.1 (List.pairwise_cons.1 ordered).2).1 call rest value

def remaining (s : Execution Value World) : Nat := (s.frames.head?.map (·.rest.length)).getD 0

theorem Mirrors.step (enough : Suffices m intrinsics p entry keep) {world : World}
    (reached : Reached m intrinsics p entry world s) (mirrors : s.Mirrors keep other) :
    (∃ t, s.step m intrinsics p = some t ∧ t.Mirrors keep other ∧ t.remaining < s.remaining) ∨
      Option.Rel (Mirrors keep) (s.step m intrinsics p) (other.step m intrinsics (p.filter keep)) := by
  have held := reached.stacked
  have frames := mirrors.frames
  cases stack : s.frames with
  | nil =>
      rw [stack] at frames
      have stopped := List.forall₂_nil_left_iff.1 frames
      refine .inr ?_
      simp only [Execution.step, stack, stopped]
      exact .none
  | cons top below =>
      rw [stack] at frames
      obtain ⟨mirror, mirrored, first, _, mirroring⟩ := List.forall₂_cons_left_iff.1 frames
      have here : top ∈ s.frames := by simp [stack]
      -- With the same move in both programs the runs stay alike.
      have together (moved : m.move intrinsics (p.filter keep) mirror s.world =
          (m.move intrinsics p top s.world).map (Move.keeping keep)) :
          Option.Rel (Mirrors keep) (s.step m intrinsics p) (other.step m intrinsics (p.filter keep)) := by
        simp only [Execution.step, stack, mirroring, mirrors.world, moved]
        cases m.move intrinsics p top s.world with
        | none => exact .none
        | some action => exact .some (mirrors.apply held enough.acts stack mirroring action)
      cases left : top.rest with
      | nil => exact .inr (together (Meaning.move_keeping_nil left first.rest))
      | cons i rest =>
          cases kept : keep i with
          | true =>
              refine .inr (together (Meaning.move_keeping left kept first.function first.rest ?_ ?_))
              · refine Meaning.values_congr fun v reads => first.store v fun w found => ?_
                exact enough.sources world s reached top below stack i rest left kept v reads w found
              · exact enough.labels top.function (held.functions top here) i (held.mem_body here left)
          | false =>
              have idle : ¬ Critical.Acts i := by
                intro acts
                have needed := enough.acts i (held.mem_code here left) acts
                rw [kept] at needed
                cases needed
              have ordered := held.ordered
              rw [stack] at ordered
              have stepped : s.step m intrinsics p =
                  some (s.resume top below i rest (m.compute i.op (m.values i top.store))) := by
                simp only [Execution.step, stack, Meaning.move_idle left idle, Option.map_some, Execution.apply,
                  List.append_nil]
                rfl
              refine .inl ⟨_, stepped, mirrors.idle stack (List.pairwise_cons.1 ordered).1 left idle kept _, ?_⟩
              simp [remaining, stack, left, Execution.resume]

theorem Reached.exists_mirror (enough : Suffices m intrinsics p entry keep) {world : World}
    (reached : Reached m intrinsics p entry world s) :
    ∃ other, Reached m intrinsics (p.filter keep) entry world other ∧ s.Mirrors keep other := by
  induction reached with
  | refl => exact ⟨_, .refl, start_mirrors m p entry world keep⟩
  | tail before stepped ih =>
      obtain ⟨other, reached, mirrors⟩ := ih
      rcases mirrors.step enough before with ⟨t, passed, still, _⟩ | both
      · rw [stepped] at passed
        cases passed
        exact ⟨other, reached, still⟩
      · rw [stepped] at both
        generalize next : other.step m intrinsics (p.filter keep) = after at both
        cases both with
        | some mirrors => exact ⟨_, reached.tail next, mirrors⟩

/-- Before a step among fewer instructions, dropped instructions are passed, one after the other. -/
theorem Mirrors.catch_up (enough : Suffices m intrinsics p entry keep) {world : World}
    (reached : Reached m intrinsics p entry world s) (mirrors : s.Mirrors keep other) {after : Execution Value World}
    (stepped : other.step m intrinsics (p.filter keep) = some after) :
    ∃ t, Reached m intrinsics p entry world t ∧ t.Mirrors keep after := by
  induction size : s.remaining using Nat.strongRecOn generalizing s with
  | ind size ih =>
      rcases mirrors.step enough reached with ⟨t, passed, still, less⟩ | both
      · exact ih t.remaining (size ▸ less) (reached.tail passed) still rfl
      · rw [stepped] at both
        generalize next : s.step m intrinsics p = before at both
        cases both with
        | some mirrors => exact ⟨_, reached.tail next, mirrors⟩

theorem Reached.exists_mirrored (enough : Suffices m intrinsics p entry keep) {world : World}
    (reached : Reached m intrinsics (p.filter keep) entry world other) :
    ∃ s, Reached m intrinsics p entry world s ∧ s.Mirrors keep other := by
  induction reached with
  | refl => exact ⟨_, .refl, start_mirrors m p entry world keep⟩
  | tail _ stepped ih =>
      obtain ⟨s, reached, mirrors⟩ := ih
      exact mirrors.catch_up enough reached stepped

def Proceeds (m : Meaning Value World) (intrinsics : List Bytes) (p : Program) (entry : Bytes) (world : World) : Prop :=
  ∀ s, Reached m intrinsics p entry world s → s.frames = [] ∨ ∃ t, s.step m intrinsics p = some t

theorem Suffices.proceeds (enough : Suffices m intrinsics p entry keep) {world : World}
    (proceeds : Proceeds m intrinsics p entry world) : Proceeds m intrinsics (p.filter keep) entry world := by
  intro other reached
  obtain ⟨s, reached, mirrors⟩ := reached.exists_mirrored enough
  induction size : s.remaining using Nat.strongRecOn generalizing s with
  | ind size ih =>
      rcases mirrors.step enough reached with ⟨t, passed, still, less⟩ | both
      · exact ih t.remaining (size ▸ less) t (reached.tail passed) still rfl
      · rcases proceeds s reached with stopped | ⟨t, stepped⟩
        · have frames := mirrors.frames
          rw [stopped] at frames
          exact .inl (List.forall₂_nil_left_iff.1 frames)
        · rw [stepped] at both
          generalize next : other.step m intrinsics (p.filter keep) = after at both
          cases both with
          | some _ => exact .inr ⟨_, rfl⟩

def Makes (m : Meaning Value World) (intrinsics : List Bytes) (p : Program) (entry : Bytes) (world : World)
    (calls : List (Bytes × List Value)) : Prop :=
  ∃ s, Reached m intrinsics p entry world s ∧ s.calls = calls

def Ends (m : Meaning Value World) (intrinsics : List Bytes) (p : Program) (entry : Bytes) (world : World)
    (calls : List (Bytes × List Value)) : Prop :=
  ∃ s, Reached m intrinsics p entry world s ∧ s.frames = [] ∧ s.calls = calls

theorem Suffices.makes_iff (enough : Suffices m intrinsics p entry keep) {world : World}
    {calls : List (Bytes × List Value)} :
    Makes m intrinsics p entry world calls ↔ Makes m intrinsics (p.filter keep) entry world calls := by
  constructor
  · intro given
    rcases given with ⟨s, reached, rfl⟩
    obtain ⟨other, reached, mirrors⟩ := reached.exists_mirror enough
    exact ⟨other, reached, mirrors.calls⟩
  · intro given
    rcases given with ⟨other, reached, rfl⟩
    obtain ⟨s, reached, mirrors⟩ := reached.exists_mirrored enough
    exact ⟨s, reached, mirrors.calls.symm⟩

theorem Suffices.ends_iff (enough : Suffices m intrinsics p entry keep) {world : World}
    {calls : List (Bytes × List Value)} :
    Ends m intrinsics p entry world calls ↔ Ends m intrinsics (p.filter keep) entry world calls := by
  constructor
  · intro given
    rcases given with ⟨s, reached, stopped, rfl⟩
    obtain ⟨other, reached, mirrors⟩ := reached.exists_mirror enough
    have frames := mirrors.frames
    rw [stopped] at frames
    exact ⟨other, reached, List.forall₂_nil_left_iff.1 frames, mirrors.calls⟩
  · intro given
    rcases given with ⟨other, reached, stopped, rfl⟩
    obtain ⟨s, reached, mirrors⟩ := reached.exists_mirrored enough
    have frames := mirrors.frames
    rw [stopped] at frames
    exact ⟨s, reached, List.forall₂_nil_right_iff.1 frames, mirrors.calls.symm⟩

end Execution

namespace Graph.BuiltFrom

variable {Value World : Type} {intrinsics : List Bytes} {p : Program} {wires : List Wire} {g : Graph}

theorem exists_move (built : g.BuiltFrom intrinsics p wires) {frame : Frame Value}
    (function : frame.function ∈ p.functions) (suffix : frame.rest <:+ frame.function.body) (m : Meaning Value World)
    (world : World) : ∃ action, m.move intrinsics p frame world = some action := by
  rw [Meaning.move]
  cases left : frame.rest with
  | nil => exact ⟨_, rfl⟩
  | cons i rest =>
      have body : i ∈ frame.function.body := suffix.subset (by simp [left])
      have lands (jumps : i.op.isJump = true) : ∃ after, frame.function.landing? i = some after := by
        obtain ⟨label, present, op, named, _⟩ := built.exists_target function body jumps
        exact Function.exists_landing present op named
      dsimp only
      split
      · exact ⟨_, rfl⟩
      · rename_i op
        obtain ⟨after, found⟩ := lands (by rw [op]; rfl)
        exact ⟨_, by rw [found]; rfl⟩
      · rename_i test op
        obtain ⟨after, found⟩ := lands (by rw [op]; rfl)
        split
        · exact ⟨_, by rw [found]; rfl⟩
        · exact ⟨_, rfl⟩
      · cases call : i.userCall? intrinsics with
        | some callee =>
            obtain ⟨h, present, rfl, _⟩ := built.next_of_call function body call
            dsimp only
            rw [built.distinct.function?_eq present]
            exact ⟨_, rfl⟩
        | none => cases i.callee? <;> exact ⟨_, rfl⟩

theorem proceeds (built : g.BuiltFrom intrinsics p wires) (m : Meaning Value World) (entry : Bytes) (world : World) :
    Execution.Proceeds m intrinsics p entry world := by
  intro s reached
  have held := reached.stacked
  cases stack : s.frames with
  | nil => exact .inl rfl
  | cons top below =>
      have here : top ∈ s.frames := by simp [stack]
      obtain ⟨action, moved⟩ := built.exists_move (held.functions top here) (held.suffixes top here) m s.world
      refine .inr ⟨s.apply top below action, ?_⟩
      simp [Execution.step, stack, moved]

end Graph.BuiltFrom

namespace Analysis

theorem suffices_critical {settings : Settings} {p : Program} {a : Analysis}
    (analysed : Analysis.run settings p = .ok a) (named : ∀ f ∈ p.functions, f.JumpsNamed)
    (acyclic : p.Acyclic settings.intrinsics) {Value World : Type} (m : Meaning Value World) :
    Execution.Suffices m settings.intrinsics p settings.entry a.isCritical := by
  obtain ⟨g, wires, solution, built, solved, rfl⟩ := exists_solution analysed
  have kept {i : Instruction} : (ofSolution settings.labels p g solution).isCritical i = true ↔
      i.line ∈ (Solved.mk g solution.facts).critical settings.labels p := decide_eq_true_iff
  have seeds {i : Instruction} (code : i ∈ p.code) (seed : Critical.Seed settings.labels i) :
      i.line ∈ (Solved.mk g solution.facts).critical settings.labels p :=
    (Solved.mem_critical_iff built.distinct).2 (.inl ((Solved.line_mem_closure_iff built.distinct code).2 (.inl seed)))
  constructor
  · intro i code acts
    exact kept.2 (seeds code (.inl acts))
  · intro f function jump body jumps name target label present labels
    simp only [Instruction.labels, Bool.and_eq_true, decide_eq_true_eq] at labels
    obtain ⟨op, rfl⟩ := labels
    refine kept.2 ?_
    cases policy : settings.labels with
    | all => exact policy ▸ seeds (Program.mem_code_iff.2 ⟨f, function, present⟩) (.inr ⟨op, policy⟩)
    | referenced =>
        have nonempty : label.labelName ≠ [] := by
          intro empty
          rw [empty] at target
          exact named f function jump body jumps target
        have targets : f.Targets label := ⟨present, op, nonempty, jump, body, Opcode.isJump_iff.1 jumps, target⟩
        exact (Solved.mem_critical_iff built.distinct).2 (.inr ⟨rfl, f, function, label, targets, rfl⟩)
  · intro world s reached top below stack i rest left critical v reads w found
    have own := List.find?_some found
    simp only [Bool.and_eq_true, decide_eq_true_eq] at own
    have last := reached.undisturbed acyclic top (by simp [stack]) v w found
    exact kept.2 (built.source_critical solved reached stack left (kept.1 critical) reads last own.1)

/-- Without its dead code, a program that was read and has no circular calls makes the same calls of intrinsics in the
same order and with the same arguments, whatever operations compute and the world answers, and ends if and only if it
ended before. Neither gets stuck. -/
theorem optimized_runs_alike {text : Bytes} {settings : Settings} {p : Program} {a : Analysis}
    (read : Program.read text = .ok p) (acyclic : p.Acyclic settings.intrinsics)
    (analysed : Analysis.run settings p = .ok a) {Value World : Type} (m : Meaning Value World) (world : World)
    (calls : List (Bytes × List Value)) :
    (Execution.Makes m settings.intrinsics p settings.entry world calls ↔
        Execution.Makes m settings.intrinsics a.optimized settings.entry world calls) ∧
      (Execution.Ends m settings.intrinsics p settings.entry world calls ↔
        Execution.Ends m settings.intrinsics a.optimized settings.entry world calls) ∧
      Execution.Proceeds m settings.intrinsics p settings.entry world ∧
      Execution.Proceeds m settings.intrinsics a.optimized settings.entry world := by
  have enough := suffices_critical analysed (Program.jumpsNamed_of_read read) acyclic m
  obtain ⟨g, wires, solution, built, _, rfl⟩ := exists_solution analysed
  have proceeds := built.proceeds m settings.entry world
  exact ⟨enough.makes_iff, enough.ends_iff, proceeds, enough.proceeds proceeds⟩

/-- Stores a number in an array, hands it on to a function that prints it, and writes another that nothing reads. -/
def relayText : Bytes :=
  bytes "#start_function\nvoid m():\nint-list: x, y, a[2]\nassign, a, 2, 0\nassign, x, 1\nassign, y, 2\n" ++
    bytes "array_store, x, a, 1\narray_load, x, a, 1\ncall, f, x\n#end_function\n" ++
    bytes "#start_function\nvoid f(int n):\ncall, p, n\n#end_function\n"

def relay : Program := ⟨[
  { name := [109], returnType := [118, 111, 105, 100], ints := [[120], [121], [97, 91, 50, 93]], body := [
      ⟨.assign, [⟨.array, [97]⟩, ⟨.constant, [50]⟩, ⟨.constant, [48]⟩], 4⟩,
      ⟨.assign, [⟨.variable, [120]⟩, ⟨.constant, [49]⟩], 5⟩,
      ⟨.assign, [⟨.variable, [121]⟩, ⟨.constant, [50]⟩], 6⟩,
      ⟨.arrayStore, [⟨.variable, [120]⟩, ⟨.array, [97]⟩, ⟨.constant, [49]⟩], 7⟩,
      ⟨.arrayLoad, [⟨.variable, [120]⟩, ⟨.array, [97]⟩, ⟨.constant, [49]⟩], 8⟩,
      ⟨.call, [⟨.function, [102]⟩, ⟨.variable, [120]⟩], 9⟩] },
  { name := [102], returnType := [118, 111, 105, 100], params := [⟨[105, 110, 116], [110]⟩], body := [
      ⟨.call, [⟨.function, [112]⟩, ⟨.variable, [110]⟩], 13⟩] }]⟩

theorem relay_prints_without_dead_write :
    Program.read relayText = .ok relay ∧ relay.Acyclic [[112]] ∧
      ∃ a, Analysis.run ⟨.referenced, [[112]], [109], 0, 0⟩ relay = .ok a ∧
        a.critical.lines = [4, 5, 7, 8, 9, 13] ∧
        Execution.Ends cells [[112]] a.optimized [109] () [([112], [[1]])] := by
  have read : Program.read relayText = .ok relay := by decide +kernel
  have acyclic : relay.Acyclic [[112]] := by
    have down : ∀ f ∈ relay.functions, ∀ i ∈ f.body, ∀ callee ∈ i.userCall? [[112]],
        (if callee = [109] then 1 else 0) < if f.name = [109] then 1 else 0 := by decide
    refine Program.acyclic_of_rank (fun name => if name = [109] then 1 else 0) fun caller callee calls => ?_
    obtain ⟨f, function, rfl, i, body, calls⟩ := calls
    exact down f function i body callee calls
  have evaluated : (Analysis.run ⟨.referenced, [[112]], [109], 0, 0⟩ relay).map (·.critical.lines) =
      .ok [4, 5, 7, 8, 9, 13] := by cbv
  obtain ⟨a, analysed, lines⟩ := Except.map_eq_ok.1 evaluated
  have ends : Execution.Ends cells [[112]] relay [109] () [([112], [[1]])] :=
    ⟨_, .head rfl (.head rfl (.head rfl (.head rfl (.head rfl (.head rfl (.head rfl (.head rfl (.head rfl
      .refl)))))))), rfl, rfl⟩
  exact ⟨read, acyclic, a, analysed, lines, (optimized_runs_alike read acyclic analysed cells () _).2.1.1 ends⟩

end Analysis

end Deadwood

import Deadwood.Pool
import Mathlib.Algebra.BigOperators.Group.Finset.Basic
import Mathlib.Algebra.Order.BigOperators.Group.Finset

/-!
What a pool comes to, whatever the order in which its tasks get on. The places taken and the tasks pending are sums over
the tasks, each by its stage alone. Hence no more calls are in progress than there are places, the caller returns only
when nothing is left to do, and some move is always possible before that. Every task that is taken on is called once,
and the error reported is the one of the least index that failed or was refused.
-/

namespace Deadwood.Pool

variable {ε : Type}

section

variable {α : Type} (table : Nat → α) {i j n : Nat} (entry : α)

@[simp] theorem put_self : put table i entry i = entry := if_pos rfl

variable {table entry} in
theorem put_ne (other : j ≠ i) : put table i entry j = table j := if_neg other

@[simp] theorem put_put (later : α) : put (put table i entry) i later = put table i later := by
  funext j
  simp only [put]
  split <;> rfl

theorem put_below (below above : Nat → α) (k : Nat) :
    put (fun i => if i < k then below i else above i) k (below k) =
      fun i => if i < k + 1 then below i else above i := by
  funext i
  by_cases same : i = k
  · subst same
    simp
  · have still : i < k ↔ i < k + 1 := by omega
    simp only [put_ne same, still]

theorem sum_put (weight : α → Nat) (inside : i < n) :
    ∑ j ∈ Finset.range n, weight (put table i entry j) + weight (table i) =
      ∑ j ∈ Finset.range n, weight (table j) + weight entry := by
  have member : i ∈ Finset.range n := Finset.mem_range.2 inside
  have others : ∑ j ∈ (Finset.range n).erase i, weight (put table i entry j) =
      ∑ j ∈ (Finset.range n).erase i, weight (table j) := by
    apply Finset.sum_congr rfl
    intro j present
    rw [put_ne (Finset.ne_of_mem_erase present)]
  have changed := Finset.sum_erase_add (Finset.range n) (fun j => weight (put table i entry j)) member
  have kept := Finset.sum_erase_add (Finset.range n) (fun j => weight (table j)) member
  simp only [put_self] at changed
  omega

theorem countP_range (p : Nat → Bool) (n : Nat) :
    (List.range n).countP p = ∑ i ∈ Finset.range n, if p i then 1 else 0 := by
  induction n with
  | zero => rfl
  | succ n ih => rw [List.range_succ, List.countP_append, ih, Finset.sum_range_succ, List.countP_singleton]

end

namespace Stage

def places : Stage ε → Nat
  | placed | counted | refused _ | accepted | called | finished => 1
  | ahead | withdrawn _ | discounted _ | dropped _ | vacated | ended => 0

def pending : Stage ε → Nat
  | counted | refused _ | withdrawn _ | accepted | called | finished | vacated => 1
  | ahead | placed | discounted _ | dropped _ | ended => 0

def calls : Stage ε → Nat
  | called | finished | vacated | ended => 1
  | ahead | placed | counted | refused _ | withdrawn _ | discounted _ | dropped _ | accepted => 0

def age : Stage ε → Nat
  | ahead => 0
  | placed => 1
  | counted => 2
  | refused _ | accepted => 3
  | withdrawn _ | called => 4
  | discounted _ | finished => 5
  | dropped _ | vacated => 6
  | ended => 7

def isAccepted : Stage ε → Bool
  | accepted | called | finished | vacated | ended => true
  | ahead | placed | counted | refused _ | withdrawn _ | discounted _ | dropped _ => false

def refusal? : Stage ε → Option ε
  | refused why | withdrawn why | discounted why | dropped why => some why
  | ahead | placed | counted | accepted | called | finished | vacated | ended => none

def isBehind : Stage ε → Bool
  | dropped _ | accepted | called | finished | vacated | ended => true
  | ahead | placed | counted | refused _ | withdrawn _ | discounted _ => false

def error? (own : Option ε) : Stage ε → Option ε
  | finished | vacated | ended => own
  | dropped why => some why
  | ahead | placed | counted | refused _ | withdrawn _ | discounted _ | accepted | called => none

inductive Follows : Stage ε → Move ε → Stage ε → Prop
  | place : Follows ahead .place placed
  | count : Follows placed .count counted
  | accept : Follows counted .accept accepted
  | refuse (why : ε) : Follows counted (.refuse why) (refused why)
  | withdraw (why : ε) : Follows (refused why) .withdraw (withdrawn why)
  | discount (why : ε) : Follows (withdrawn why) .discount (discounted why)
  | drop (why : ε) : Follows (discounted why) .drop (dropped why)
  | call : Follows accepted .call called
  | finish : Follows called .finish finished
  | vacate : Follows finished .vacate vacated
  | leave : Follows vacated .leave ended

theorem follows_of_after {before after : Stage ε} {move : Move ε} (moved : before.after? move = some after) :
    Follows before move after := by
  unfold after? at moved
  split at moved <;> cases moved <;> constructor

variable {before after : Stage ε} {move : Move ε}

theorem Follows.age_eq (follows : Follows before move after) : after.age = before.age + 1 := by
  cases follows <;> rfl

theorem Follows.isAccepted_iff (follows : Follows before move after) :
    after.isAccepted ↔ before.isAccepted ∨ move = .accept := by
  cases follows <;> simp [isAccepted]

theorem Follows.refusal_iff (follows : Follows before move after) (why : ε) :
    after.refusal? = some why ↔ before.refusal? = some why ∨ move = .refuse why := by
  cases follows <;> simp [refusal?]

theorem Follows.isBehind (follows : Follows before move after) (behind : before.isBehind) : after.isBehind := by
  cases follows <;> first | rfl | cases behind

theorem Follows.isCallers (follows : Follows before move after) (inHand : before.isBehind = false) :
    move.isCallers := by
  cases follows <;> first | rfl | cases inHand

theorem isSome_after_of_next {stage : Stage ε} (next : stage.next? = some move) : (stage.after? move).isSome := by
  cases stage <;> cases next <;> rfl

theorem isBehind_of_callers {stage : Stage ε} (next : stage.next? = some move) (callers : move.isCallers) :
    stage.isBehind = false := by
  cases stage <;> cases next <;> first | rfl | cases callers

theorem Follows.late_of_finish (follows : Follows before move after) (finishes : move = .finish) : 4 < after.age := by
  subst finishes
  cases follows
  simp [age]

theorem Follows.refusal?_eq_none (follows : Follows before move after) (unrefused : before.refusal? = none)
    (next : before.next? = some move) : after.refusal? = none := by
  cases follows <;> simp [refusal?, next?] at unrefused next ⊢

theorem late_of_uncalled {stage : Stage ε} (late : 3 < stage.age) (uncalled : stage.isCalled = false)
    (unrefused : stage.refusal? = none) : 4 < stage.age := by
  cases stage <;> simp [age, isCalled, refusal?] at late uncalled unrefused ⊢

theorem age_of_isCalled {stage : Stage ε} (called : stage.isCalled) : stage.age = 4 := by
  cases stage <;> simp [age, isCalled] at called ⊢

theorem age_of_next?_eq_none {stage : Stage ε} (last : stage.next? = none) (unrefused : stage.refusal? = none) :
    stage.age = 7 := by
  cases stage <;> simp [age, next?, refusal?] at last unrefused ⊢

theorem eq_ended_of_age {stage : Stage ε} (last : stage.age = 7) : stage = ended := by
  cases stage <;> simp [age] at last ⊢

theorem places_of_placing {stage : Stage ε} (next : stage.next? = some .place) : stage.places = 0 := by
  cases stage <;> cases next
  rfl

theorem age_le (stage : Stage ε) : stage.age ≤ 7 := by
  cases stage <;> simp [age]

theorem isCalled_le (stage : Stage ε) : (if stage.isCalled then 1 else 0) ≤ stage.places := by
  cases stage <;> simp [isCalled, places]

end Stage

namespace State

open Stage (Follows)

variable {n width : Nat} {task : Nat → Option ε} {s next : State ε} {e : Event ε} {events : List (Event ε)}

theorem step_cases (stepped : s.step n width task e = some next) :
    s.admits n width e ∧ ∃ after, Follows (s.stage e.index) e.move after ∧
      next = { s.share task e.index e.move with stage := put s.stage e.index after } := by
  rw [step] at stepped
  split at stepped
  · rename_i admitted
    obtain ⟨after, moved, rfl⟩ := Option.map_eq_some_iff.1 stepped
    exact ⟨admitted, after, Stage.follows_of_after moved, rfl⟩
  · cases stepped

theorem index_lt (admitted : s.admits n width e) : e.index < n := by
  simp only [admits, Bool.and_eq_true, decide_eq_true_eq] at admitted
  exact admitted.1.1

theorem index_eq (admitted : s.admits n width e) (callers : e.move.isCallers) : e.index = s.next := by
  simp only [admits, Bool.and_eq_true, callers, Bool.not_true, Bool.false_or, decide_eq_true_eq] at admitted
  exact admitted.1.2

theorem places_lt (admitted : s.admits n width e) (placing : e.move = .place) : s.places < width := by
  simp only [admits, placing, Bool.and_eq_true, decide_eq_true_eq] at admitted
  exact admitted.2

theorem isSome_step {i : Nat} {move : Move ε} (admitted : s.admits n width ⟨i, move⟩)
    (possible : ((s.stage i).after? move).isSome) : (s.step n width task ⟨i, move⟩).isSome := by
  rw [step, if_pos admitted, Option.isSome_map]
  exact possible

theorem admits_of_worker {i : Nat} {move : Move ε} (inside : i < n) (worker : move.isCallers = false) :
    s.admits n width ⟨i, move⟩ := by
  cases move <;> simp [Move.isCallers] at worker <;> simp [admits, Move.isCallers, inside]

theorem admits_of_caller {move : Move ε} (more : s.next < n) (free : move = .place → s.places < width) :
    s.admits n width ⟨s.next, move⟩ := by
  cases move with
  | place => simpa [admits, more] using free
  | _ => simp [admits, more]

theorem step_congr {task' : Nat → Option ε} (same : e.move = .finish → task e.index = task' e.index) :
    s.step n width task e = s.step n width task' e := by
  have shared : s.share task e.index e.move = s.share task' e.index e.move := by
    cases move : e.move <;> simp only [share]
    rw [same move]
  rw [step, step, shared]

/-! What a move does to each thing that is shared, told by the stages before and after it. -/

section

variable (task) {after : Stage ε} {i : Nat} {move : Move ε} (follows : Follows (s.stage i) move after)

include follows

theorem share_places (held : (s.stage i).places ≤ s.places) :
    (s.share task i move).places + (s.stage i).places = s.places + after.places := by
  generalize stage : s.stage i = before at follows held
  cases follows <;> simp [share, stage, Stage.places] at held ⊢ <;> omega

theorem share_room (room : s.places ≤ width) (free : move = .place → s.places < width) :
    (s.share task i move).places ≤ width := by
  generalize stage : s.stage i = before at follows
  cases follows <;> simp [share, stage] at free ⊢ <;> omega

theorem share_pending (held : (s.stage i).pending ≤ s.pending) :
    (s.share task i move).pending + (s.stage i).pending = s.pending + after.pending := by
  generalize stage : s.stage i = before at follows held
  cases follows <;> simp [share, stage, Stage.pending] at held ⊢ <;> omega

theorem share_calls (known : ∀ j, s.calls.count j = (s.stage j).calls) (j : Nat) :
    (s.share task i move).calls.count j = (put s.stage i after j).calls := by
  by_cases same : j = i
  · subst same
    have known := known j
    generalize stage : s.stage j = before at follows known
    cases follows <;> simp [share, stage, known, Stage.calls]
  · have apart : ¬ i = j := fun other => same other.symm
    rw [put_ne same, ← known j]
    generalize stage : s.stage i = before at follows
    cases follows <;> simp [share, stage, apart]

theorem share_errors (known : ∀ j, s.errors j = (s.stage j).error? (task j)) (j : Nat) :
    (s.share task i move).errors j = (put s.stage i after j).error? (task j) := by
  by_cases same : j = i
  · subst same
    have known := known j
    generalize stage : s.stage j = before at follows known
    cases follows <;> simp [share, stage, known, Stage.error?]
  · rw [put_ne same, ← known j]
    generalize stage : s.stage i = before at follows
    cases follows <;> simp [share, stage, put_ne same]

theorem share_next :
    (s.share task i move).next = s.next + if after.isBehind && !(s.stage i).isBehind then 1 else 0 := by
  generalize stage : s.stage i = before at follows
  cases follows <;> simp [share, stage, Stage.isBehind]

end

/-- A pool that has come about by some events. -/
structure Sound (n width : Nat) (task : Nat → Option ε) (events : List (Event ε)) (s : State ε) : Prop where
  places : s.places = ∑ i ∈ Finset.range n, (s.stage i).places
  pending : s.pending = ∑ i ∈ Finset.range n, (s.stage i).pending
  room : s.places ≤ width
  bound : s.next ≤ n
  behind : ∀ i, (s.stage i).isBehind = decide (i < s.next)
  ahead : ∀ i, s.next < i ∨ n ≤ i → s.stage i = .ahead
  calls : ∀ i, s.calls.count i = (s.stage i).calls
  errors : ∀ i, s.errors i = (s.stage i).error? (task i)
  accepted : ∀ i, ⟨i, .accept⟩ ∈ events ↔ (s.stage i).isAccepted
  refused : ∀ i why, ⟨i, .refuse why⟩ ∈ events ↔ (s.stage i).refusal? = some why
  age : events.length = ∑ i ∈ Finset.range n, (s.stage i).age

theorem sound_start : ({} : State ε).Sound n width task [] := by
  constructor <;> simp [Stage.places, Stage.pending, Stage.isBehind, Stage.calls, Stage.error?, Stage.isAccepted,
    Stage.refusal?, Stage.age]

namespace Sound

variable (sound : s.Sound n width task events)

include sound

theorem places_le {i : Nat} (inside : i < n) : (s.stage i).places ≤ s.places := by
  rw [sound.places]
  exact Finset.single_le_sum (f := fun j => (s.stage j).places) (fun _ _ => Nat.zero_le _) (Finset.mem_range.2 inside)

theorem pending_le {i : Nat} (inside : i < n) : (s.stage i).pending ≤ s.pending := by
  rw [sound.pending]
  exact Finset.single_le_sum (f := fun j => (s.stage j).pending) (fun _ _ => Nat.zero_le _) (Finset.mem_range.2 inside)

theorem index_le (admitted : s.admits n width e) {after : Stage ε} (follows : Follows (s.stage e.index) e.move after) :
    e.index ≤ s.next := by
  by_cases passed : e.index < s.next
  · exact Nat.le_of_lt passed
  · have front : (s.stage e.index).isBehind = false := by simp [sound.behind, passed]
    exact Nat.le_of_eq (index_eq admitted (follows.isCallers front))

theorem next_eq (admitted : s.admits n width e) {after : Stage ε} (follows : Follows (s.stage e.index) e.move after) :
    e.index < s.next ∧ after.isBehind ∧ (s.share task e.index e.move).next = s.next ∨
      e.index = s.next ∧ (s.share task e.index e.move).next = s.next + if after.isBehind then 1 else 0 := by
  have moved := share_next task follows
  have known := sound.behind e.index
  rcases Nat.lt_or_eq_of_le (sound.index_le admitted follows) with passed | inHand
  · have behind : (s.stage e.index).isBehind := by simpa [known] using passed
    refine .inl ⟨passed, follows.isBehind behind, ?_⟩
    simpa [behind] using moved
  · have front : (s.stage e.index).isBehind = false := by
      rw [known]
      exact decide_eq_false (by omega)
    refine .inr ⟨inHand, ?_⟩
    simpa [front] using moved

theorem step (stepped : s.step n width task e = some next) : next.Sound n width task (events ++ [e]) := by
  obtain ⟨admitted, after, follows, rfl⟩ := step_cases stepped
  have inside := index_lt admitted
  have moved := sound.next_eq admitted follows
  constructor
  case places =>
    have shared := share_places task follows (sound.places_le inside)
    have total := sum_put s.stage after Stage.places inside
    have known := sound.places
    dsimp only
    omega
  case pending =>
    have shared := share_pending task follows (sound.pending_le inside)
    have total := sum_put s.stage after Stage.pending inside
    have known := sound.pending
    dsimp only
    omega
  case room => exact share_room task follows sound.room (places_lt admitted)
  case bound =>
    have known := sound.bound
    dsimp only
    split at moved <;> omega
  case behind =>
    intro i
    dsimp only
    by_cases same : i = e.index
    · subst same
      rw [put_self]
      rcases moved with ⟨passed, behind, kept⟩ | ⟨inHand, raised⟩
      · simp [behind, kept, passed]
      · rw [raised]
        cases after.isBehind <;> simp [inHand]
    · rw [put_ne same, sound.behind i]
      congr 1
      rw [eq_iff_iff]
      split at moved <;> omega
  case ahead =>
    intro i beyond
    dsimp only at beyond ⊢
    have other : i ≠ e.index := by
      split at moved <;> omega
    rw [put_ne other]
    apply sound.ahead
    split at moved <;> omega
  case calls => exact share_calls task follows sound.calls
  case errors => exact share_errors task follows sound.errors
  case accepted =>
    intro i
    dsimp only
    by_cases same : i = e.index
    · subst same
      rw [List.mem_append, List.mem_singleton, sound.accepted, put_self, follows.isAccepted_iff]
      exact or_congr_right ⟨fun same => congrArg Event.move same.symm, fun same => by rw [← same]⟩
    · have apart : (⟨i, .accept⟩ : Event ε) ≠ e := fun equal => same (congrArg Event.index equal)
      rw [List.mem_append, List.mem_singleton, or_iff_left apart, sound.accepted, put_ne same]
  case refused =>
    intro i why
    dsimp only
    by_cases same : i = e.index
    · subst same
      rw [List.mem_append, List.mem_singleton, sound.refused, put_self, follows.refusal_iff]
      exact or_congr_right ⟨fun same => congrArg Event.move same.symm, fun same => by rw [← same]⟩
    · have apart : (⟨i, .refuse why⟩ : Event ε) ≠ e := fun equal => same (congrArg Event.index equal)
      rw [List.mem_append, List.mem_singleton, or_iff_left apart, sound.refused, put_ne same]
  case age =>
    have total := sum_put s.stage after Stage.age inside
    have older := follows.age_eq
    have known := sound.age
    rw [List.length_append, List.length_singleton]
    dsimp only
    omega

/-! What is left to do before the caller returns. -/

theorem exists_step_of_pending {i : Nat} (inside : i < n) (behind : i < s.next) (waits : (s.stage i).pending ≠ 0) :
    ∃ e, (s.step n width task e).isSome := by
  have passed : (s.stage i).isBehind := by simpa [sound.behind] using behind
  have worker (move : Move ε) (own : move.isCallers = false) (possible : ((s.stage i).after? move).isSome) :
      ∃ e, (s.step n width task e).isSome :=
    ⟨⟨i, move⟩, isSome_step (admits_of_worker inside own) possible⟩
  cases stage : s.stage i with
  | accepted => exact worker .call rfl (by rw [stage]; rfl)
  | called => exact worker .finish rfl (by rw [stage]; rfl)
  | finished => exact worker .vacate rfl (by rw [stage]; rfl)
  | vacated => exact worker .leave rfl (by rw [stage]; rfl)
  | ahead | placed | counted | refused | withdrawn | discounted => simp [stage, Stage.isBehind] at passed
  | dropped | ended => simp [stage, Stage.pending] at waits

theorem exists_step_of_full (roomy : 0 < width) (full : width ≤ s.places) (start : s.stage s.next = .ahead) :
    ∃ e, (s.step n width task e).isSome := by
  have taken : ∑ i ∈ Finset.range n, (s.stage i).places ≠ 0 := by
    have known := sound.places
    omega
  obtain ⟨i, member, holds⟩ := Finset.exists_ne_zero_of_sum_ne_zero taken
  have behind : i < s.next := by
    apply Nat.lt_of_le_of_ne
    · by_contra beyond
      rw [sound.ahead i (.inl (by omega))] at holds
      exact holds rfl
    · intro same
      rw [same, start] at holds
      exact holds rfl
  apply sound.exists_step_of_pending (Finset.mem_range.1 member) behind
  have passed : (s.stage i).isBehind := by simpa [sound.behind] using behind
  cases stage : s.stage i <;> simp_all [Stage.places, Stage.pending, Stage.isBehind]

theorem exists_step (roomy : 0 < width) (unfinished : s.isDone n = false) : ∃ e, (s.step n width task e).isSome := by
  by_cases more : s.next < n
  · have caller (move : Move ε) (free : move = .place → s.places < width)
        (possible : ((s.stage s.next).after? move).isSome) : ∃ e, (s.step n width task e).isSome :=
      ⟨⟨s.next, move⟩, isSome_step (admits_of_caller more free) possible⟩
    have inHand : (s.stage s.next).isBehind = false := by simp [sound.behind]
    cases stage : s.stage s.next with
    | ahead =>
        by_cases free : s.places < width
        · exact caller .place (fun _ => free) (by rw [stage]; rfl)
        · exact sound.exists_step_of_full roomy (Nat.le_of_not_lt free) stage
    | placed => exact caller .count (by intro same; cases same) (by rw [stage]; rfl)
    | counted => exact caller .accept (by intro same; cases same) (by rw [stage]; rfl)
    | refused => exact caller .withdraw (by intro same; cases same) (by rw [stage]; rfl)
    | withdrawn => exact caller .discount (by intro same; cases same) (by rw [stage]; rfl)
    | discounted => exact caller .drop (by intro same; cases same) (by rw [stage]; rfl)
    | dropped | accepted | called | finished | vacated | ended => simp [stage, Stage.isBehind] at inHand
  · have last : s.next = n := Nat.le_antisymm sound.bound (Nat.le_of_not_lt more)
    have waits : ∑ i ∈ Finset.range n, (s.stage i).pending ≠ 0 := by
      rw [← sound.pending]
      simpa [isDone, last] using unfinished
    obtain ⟨i, member, waiting⟩ := Finset.exists_ne_zero_of_sum_ne_zero waits
    have inside := Finset.mem_range.1 member
    exact sound.exists_step_of_pending inside (by omega) waiting

theorem exists_next (roomy : 0 < width) {i : Nat} (inside : i < n) (earlier : ∀ j < i, s.stage j = .ended)
    {move : Move ε} (next : (s.stage i).next? = some move) (own : Nat → Option ε) :
    ∃ s', s.step n width own ⟨i, move⟩ = some s' ∧ (s'.stage i).age = (s.stage i).age + 1 ∧
      ∀ j, j ≠ i → s'.stage j = s.stage j := by
  have admitted : s.admits n width ⟨i, move⟩ := by
    cases callers : move.isCallers with
    | false => exact admits_of_worker inside callers
    | true =>
        have inHand : s.next = i := by
          have front : ¬ i < s.next := by simpa [sound.behind] using Stage.isBehind_of_callers next callers
          by_contra other
          have passed : (s.stage s.next).isBehind := by rw [earlier s.next (by omega)]; rfl
          rw [sound.behind, decide_eq_true_eq] at passed
          omega
        subst inHand
        refine admits_of_caller inside fun placing => ?_
        have none : s.places = 0 := by
          rw [sound.places]
          apply Finset.sum_eq_zero
          intro j _
          rcases Nat.lt_trichotomy j s.next with before | rfl | after
          · rw [earlier j before]
            rfl
          · exact Stage.places_of_placing (placing ▸ next)
          · rw [sound.ahead j (.inl after)]
            rfl
        omega
  have possible : (s.step n width own ⟨i, move⟩).isSome := isSome_step admitted (Stage.isSome_after_of_next next)
  obtain ⟨s', stepped⟩ := Option.isSome_iff_exists.1 possible
  obtain ⟨-, after, follows, rfl⟩ := step_cases stepped
  refine ⟨_, stepped, ?_, fun j other => put_ne other⟩
  dsimp only
  rw [put_self, follows.age_eq]

theorem callsInProgress_le : s.callsInProgress n ≤ width := by
  calc
    s.callsInProgress n = ∑ i ∈ Finset.range n, if (s.stage i).isCalled then 1 else 0 := countP_range _ n
    _ ≤ ∑ i ∈ Finset.range n, (s.stage i).places := Finset.sum_le_sum fun i _ => (s.stage i).isCalled_le
    _ = s.places := sound.places.symm
    _ ≤ width := sound.room

theorem length_le : events.length ≤ 7 * n := by
  calc
    events.length = ∑ i ∈ Finset.range n, (s.stage i).age := sound.age
    _ ≤ ∑ _i ∈ Finset.range n, 7 := Finset.sum_le_sum fun i _ => (s.stage i).age_le
    _ = 7 * n := by simp [Nat.mul_comm]

theorem settled (done : s.isDone n) {i : Nat} (inside : i < n) :
    s.stage i = .ended ∨ ∃ why, s.stage i = .dropped why := by
  simp only [isDone, Bool.and_eq_true, decide_eq_true_eq] at done
  have behind : (s.stage i).isBehind := by
    rw [sound.behind]
    exact decide_eq_true (by omega)
  have quiet := sound.pending_le inside
  cases stage : s.stage i with
  | ended => exact .inl rfl
  | dropped why => exact .inr ⟨why, rfl⟩
  | ahead | placed | counted | refused | withdrawn | discounted => simp [stage, Stage.isBehind] at behind
  | accepted | called | finished | vacated =>
      rw [stage, done.2] at quiet
      simp [Stage.pending] at quiet

end Sound

theorem run_append (s : State ε) (front back : List (Event ε)) :
    s.run n width task (front ++ back) = (s.run n width task front).bind fun s => s.run n width task back := by
  induction front generalizing s with
  | nil => rfl
  | cons e front ih =>
      rw [List.cons_append, run, run, Option.bind_assoc]
      congr 1
      funext s
      exact ih s

theorem sound_of_run (ran : ({} : State ε).run n width task events = some s) : s.Sound n width task events := by
  induction events using List.reverseRecOn generalizing s with
  | nil =>
      cases ran
      exact sound_start
  | append_singleton events e ih =>
      rw [run_append] at ran
      obtain ⟨before, earlier, last⟩ := Option.bind_eq_some_iff.1 ran
      obtain ⟨after, stepped, same⟩ := Option.bind_eq_some_iff.1 last
      cases same
      exact (ih earlier).step stepped

end State

theorem firstError?_eq_none_iff {errors : Nat → Option ε} {n : Nat} :
    firstError? errors n = none ↔ ∀ i < n, errors i = none := by
  simp only [firstError?, List.findSome?_eq_none_iff, List.mem_range]

theorem firstError?_succ (errors : Nat → Option ε) (n : Nat) :
    firstError? errors (n + 1) = (firstError? errors n).or (errors n) := by
  rw [firstError?, List.range_succ, List.findSome?_append, List.findSome?_singleton, firstError?]

theorem firstError?_congr {first second : Nat → Option ε} {n : Nat} (same : ∀ i < n, first i = second i) :
    firstError? first n = firstError? second n := by
  induction n with
  | zero => rfl
  | succ n ih =>
      rw [firstError?_succ, firstError?_succ, ih fun i inside => same i (by omega), same n (by omega)]

theorem firstError?_eq_some_iff {errors : Nat → Option ε} {n : Nat} {e : ε} :
    firstError? errors n = some e ↔ ∃ i < n, errors i = some e ∧ ∀ j < i, errors j = none := by
  induction n with
  | zero => simp [firstError?]
  | succ n ih =>
      rw [firstError?_succ, Option.or_eq_some_iff, ih, firstError?_eq_none_iff]
      constructor
      · rintro (⟨i, inside, found⟩ | ⟨earlier, last⟩)
        · exact ⟨i, by omega, found⟩
        · exact ⟨n, by omega, last, earlier⟩
      · rintro ⟨i, inside, fails, earlier⟩
        by_cases last : i = n
        · subst last
          exact .inr ⟨earlier, fails⟩
        · exact .inl ⟨i, by omega, fails, earlier⟩

/-- A task ends in an error if it was taken on and its call does, or if it was refused. -/
def Fails (task : Nat → Option ε) (events : List (Event ε)) (i : Nat) (e : ε) : Prop :=
  ⟨i, .accept⟩ ∈ events ∧ task i = some e ∨ ⟨i, .refuse e⟩ ∈ events

namespace State.Sound

variable {n width : Nat} {task : Nat → Option ε} {s : State ε} {events : List (Event ε)}
  (sound : s.Sound n width task events) (done : s.isDone n)

include sound

theorem calls_le (i : Nat) : s.calls.count i ≤ if (s.stage i).isAccepted then 1 else 0 := by
  rw [sound.calls]
  cases s.stage i <;> simp [Stage.calls, Stage.isAccepted]

include done

theorem errors_iff {i : Nat} (inside : i < n) (e : ε) : s.errors i = some e ↔ Fails task events i e := by
  rw [Fails, sound.errors, sound.accepted, sound.refused]
  rcases sound.settled done inside with ended | ⟨why, dropped⟩
  · simp [ended, Stage.error?, Stage.isAccepted, Stage.refusal?]
  · simp [dropped, Stage.error?, Stage.isAccepted, Stage.refusal?]

end State.Sound

theorem run_moves (task : Nat → Option ε) {n i : Nat} (inside : i < n) {s : State ε} (turn : s.next = i)
    (start : s.stage i = .ahead) (free : s.places = 0) :
    s.run n 1 task ((moves ε).map (⟨i, ·⟩)) = some { s with
      next := i + 1, stage := put s.stage i .ended, calls := s.calls ++ [i], errors := put s.errors i (task i) } := by
  subst turn
  simp [moves, State.run, State.step, State.admits, Move.isCallers, inside, start, free, Stage.after?, State.share]

theorem run_inOrder (task : Nat → Option ε) {n k : Nat} (bound : k ≤ n) :
    State.run n 1 task {} (inOrder ε k) = some {
      next := k, stage := fun i => if i < k then .ended else .ahead, calls := List.range k,
      errors := fun i => if i < k then task i else none } := by
  induction k with
  | zero => simp [inOrder, State.run]
  | succ k ih =>
      have earlier := ih (Nat.le_of_succ_le bound)
      rw [inOrder] at earlier
      rw [inOrder, List.range_succ, List.flatMap_append, List.flatMap_singleton, State.run_append, earlier,
        Option.bind_some, run_moves task bound rfl (if_neg (Nat.lt_irrefl k)) rfl]
      have stages := put_below (fun _ => (.ended : Stage ε)) (fun _ => .ahead) k
      have errors := put_below task (fun _ => none) k
      rw [← stages, ← errors]

theorem forEach_eq (n : Nat) (task : Nat → Option ε) : forEach n task = (List.range n, firstError? task n) := by
  rw [forEach, run_inOrder task (Nat.le_refl n)]
  exact Prod.ext rfl (firstError?_congr fun i inside => if_pos inside)

theorem width_pos {processors : Nat} (equipped : 0 < processors) (tasks : Nat) : 0 < width processors tasks := by
  rw [width]
  split
  · exact equipped
  · split <;> omega

/-- Whatever the order in which the tasks of a pool get on, and whichever of them are refused: no task is called that
was not taken on, none is called twice, and no more calls are in progress than there are workers; as long as the caller
has not returned some move is possible, and there are not many of them. When the caller returns, every task was taken on
or refused, those taken on have been called and are over, and the error is the one of the least index that failed. The
pool that finishes every task before the next calls all of them. -/
theorem forEach_schedule_independent (processors n : Nat) (equipped : 0 < processors) (task : Nat → Option ε) :
    forEach n task = (List.range n, firstError? task n) ∧
      ∀ events s, State.run n (width processors n) task {} events = some s →
        (∀ i, s.calls.count i ≤ 1 ∧ (i ∈ s.calls → ⟨i, .accept⟩ ∈ events)) ∧
        s.callsInProgress n ≤ width processors n ∧
        (s.isDone n = false → ∃ e, (s.step n (width processors n) task e).isSome) ∧ events.length ≤ 7 * n ∧
        (s.isDone n →
          (∀ i < n, ⟨i, .accept⟩ ∈ events ∧ s.calls.count i = 1 ∧ s.stage i = .ended ∨
            (∃ why, ⟨i, .refuse why⟩ ∈ events) ∧ s.calls.count i = 0) ∧
          ∀ e, firstError? s.errors n = some e ↔
            ∃ i < n, Fails task events i e ∧ ∀ j < i, ∀ other, ¬ Fails task events j other) := by
  refine ⟨forEach_eq n task, ?_⟩
  intro events s ran
  have sound := State.sound_of_run ran
  refine ⟨?_, sound.callsInProgress_le, sound.exists_step (width_pos equipped n), sound.length_le, ?_⟩
  · intro i
    have once := sound.calls_le i
    rw [sound.accepted]
    refine ⟨by split at once <;> omega, ?_⟩
    intro called
    by_contra refused
    rw [if_neg refused] at once
    exact absurd (List.count_pos_iff.2 called) (by omega)
  · intro done
    refine ⟨?_, ?_⟩
    · intro i inside
      rw [sound.accepted, sound.calls]
      rcases sound.settled done inside with ended | ⟨why, dropped⟩
      · exact .inl (by rw [ended]; exact ⟨rfl, rfl, rfl⟩)
      · exact .inr ⟨⟨why, (sound.refused i why).2 (by rw [dropped]; rfl)⟩, by rw [dropped]; rfl⟩
    · intro e
      rw [firstError?_eq_some_iff]
      apply exists_congr
      intro i
      apply and_congr_right
      intro inside
      rw [sound.errors_iff done inside]
      apply and_congr_right
      intro fails
      apply forall_congr'
      intro j
      apply forall_congr'
      intro before
      rw [Option.eq_none_iff_forall_ne_some]
      apply forall_congr'
      intro other
      rw [ne_eq, sound.errors_iff done (by omega)]

/-- The second of three tasks is over before the first, and the third is refused meanwhile. -/
def overtaking : List (Event Nat) := [
  ⟨0, .place⟩, ⟨0, .count⟩, ⟨0, .accept⟩, ⟨1, .place⟩, ⟨1, .count⟩, ⟨1, .accept⟩, ⟨0, .call⟩, ⟨1, .call⟩, ⟨1, .finish⟩,
  ⟨1, .vacate⟩, ⟨2, .place⟩, ⟨1, .leave⟩, ⟨2, .count⟩, ⟨2, .refuse 9⟩, ⟨2, .withdraw⟩, ⟨2, .discount⟩, ⟨2, .drop⟩,
  ⟨0, .finish⟩, ⟨0, .vacate⟩, ⟨0, .leave⟩]

theorem overtaking_reports_least :
    ∃ s, State.run 3 (width 2 3) (fun i => if i = 1 then some 7 else none) {} overtaking = some s ∧ s.isDone 3 ∧
      s.calls.count 0 = 1 ∧ s.calls.count 2 = 0 ∧ firstError? s.errors 3 = some 7 := by
  let task (i : Nat) : Option Nat := if i = 1 then some 7 else none
  obtain ⟨s, ran⟩ := Option.isSome_iff_exists.1
    (show (State.run 3 (width 2 3) task {} overtaking).isSome by decide)
  have done : s.isDone 3 := by
    have ends : (State.run 3 (width 2 3) task {} overtaking).all (·.isDone 3) := by decide
    rwa [ran] at ends
  obtain ⟨verdicts, least⟩ := ((forEach_schedule_independent 2 3 (by decide) task).2 _ s ran).2.2.2.2 done
  have first : s.calls.count 0 = 1 ∧ s.stage 0 = .ended := by simpa [overtaking] using verdicts 0 (by decide)
  refine ⟨s, ran, done, first.1, ?_, (least 7).2 ⟨1, by decide, .inl ⟨by simp [overtaking], rfl⟩, ?_⟩⟩
  · simpa [overtaking] using verdicts 2 (by decide)
  · intro j before other
    obtain rfl : j = 0 := by omega
    simp [Fails, overtaking, task]

end Deadwood.Pool

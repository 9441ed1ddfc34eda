import Deadwood.Proofs.Log.Delivery

/-!
A log file that is started and stopped more than once. It can be started again after a stop, but the clock is stopped
only once, so the second stop fails when its loop has ended. A start that fails for want of a directory leaves the
writer marked as started for good.
-/

namespace Deadwood.Log.FileWriter

inductive Answer
  | started (outcome : Except StartError Unit)
  | stopped

/-- Whether a start that went well has not been stopped. The last answer comes first. -/
def running : List Answer → Bool
  | [] => false
  | .started (.ok _) :: _ => true
  | .started (.error _) :: earlier => running earlier
  | .stopped :: _ => false

def Broken (answers : List Answer) : Prop := ∃ message, .started (.error (.noDirectory message)) ∈ answers

def Event.isCall : Event → Bool
  | start _ | ask | leave => true
  | write _ | receive | put | rotate | answer | quit => false

/-- Starts and stops of one writer, the last answer first. Between them messages come and the loop does what it
chooses; it is stopped only when it was started and has not been stopped since. -/
inductive History : List Answer → FileWriter → Prop
  | new : History [] {}
  | meanwhile {answers : List Answer} {w next : FileWriter} {e : Event} :
      History answers w → e.isCall = false → w.step e = some next → History answers next
  | start {answers : List Answer} {w : FileWriter} (directory : Except Bytes Unit) :
      History answers w → History (.started (w.start directory).1 :: answers) (w.start directory).2
  | stop {answers : List Answer} {w next : FileWriter} {events : List Event} :
      History answers w → running answers → (∀ e ∈ events, e.isLoops) →
        w.run (.ask :: events ++ [.leave]) = some next → History (.stopped :: answers) next

structure Settled (answers : List Answer) (w : FileWriter) : Prop where
  request : w.request = .none
  hand : w.loop = .off → w.hand = none
  loop : w.loop = if running answers then .waiting else .off
  started : w.started ↔ running answers ∨ Broken answers
  clock : w.clockRuns ↔ .stopped ∉ answers
  broken : Broken answers → running answers = false

variable {answers : List Answer} {w next : FileWriter} {e : Event} {events : List Event}

theorem broken_cons {answer : Answer} :
    Broken (answer :: answers) ↔ (∃ message, answer = .started (.error (.noDirectory message))) ∨ Broken answers := by
  simp only [Broken, List.mem_cons, exists_or, eq_comm]

theorem settled_new : ({} : FileWriter).Settled [] where
  request := rfl
  hand _ := rfl
  loop := rfl
  started := by simp [running, Broken]
  clock := by simp
  broken _ := rfl

theorem Settled.meanwhile (settled : w.Settled answers) (steps : w.Steps e next) (own : e.isCall = false) :
    next.Settled answers := by
  obtain ⟨request, hand, loop, started, clock, broken⟩ := settled
  cases steps with
  | idle | fail | start | ask | leave => cases own
  | write | lose | rotate => exact ⟨request, hand, loop, started, clock, broken⟩
  | receive on => exact ⟨request, fun off => absurd off on, loop, started, clock, broken⟩
  | put => exact ⟨request, fun _ => rfl, loop, started, clock, broken⟩
  | answer _ _ asked => simp [request] at asked
  | quit draining =>
      rw [draining] at loop
      split at loop <;> cases loop

theorem Settled.start (settled : w.Settled answers) (directory : Except Bytes Unit) :
    (w.start directory).2.Settled (.started (w.start directory).1 :: answers) := by
  obtain ⟨request, hand, loop, started, clock, broken⟩ := settled
  simp only [FileWriter.start]
  split
  · rename_i already
    refine ⟨request, hand, loop, ?_, ?_, ?_⟩
    · simpa [running, broken_cons] using started
    · simpa using clock
    · simpa [running, broken_cons] using broken
  · rename_i fresh
    rw [started, not_or, Bool.not_eq_true] at fresh
    obtain ⟨still, whole⟩ := fresh
    cases directory with
    | error message =>
        refine ⟨request, hand, loop, ?_, ?_, ?_⟩
        · simp [broken_cons]
        · simpa using clock
        · simp [running, still]
    | ok _ =>
        refine ⟨request, by simp, rfl, ?_, ?_, ?_⟩
        · simp [running]
        · simpa using clock
        · simp [broken_cons, whole]

theorem cleared_of_answered (cleared : w.request = .answered → w.started = false) (ran : w.run events = some next)
    (quiet : ∀ e ∈ events, e.isLoops) : next.request = .answered → next.started = false := by
  induction events generalizing w with
  | nil =>
      cases ran
      exact cleared
  | cons e events ih =>
      obtain ⟨after, stepped, later⟩ := Option.bind_eq_some_iff.1 ran
      obtain ⟨first, rest⟩ := List.forall_mem_cons.1 quiet
      refine ih ?_ later rest
      cases steps_of_step stepped with
      | idle | fail | start | write | lose | ask | leave => cases first
      | receive | put | rotate | quit => exact cleared
      | answer => exact fun _ => rfl

theorem Settled.asked (settled : w.Settled answers) (on : running answers) :
    w.step .ask = some { w with request := .asked } ∧ { w with request := .asked }.Stopping := by
  refine ⟨if_pos settled.request, .asked ?_ rfl⟩
  exact settled.loop.trans (if_pos on)

theorem Settled.stop (settled : w.Settled answers) (on : running answers) (quiet : ∀ e ∈ events, e.isLoops)
    (ran : w.run (.ask :: events ++ [.leave]) = some next) :
    .stopped ∉ answers ∧ next.Settled (.stopped :: answers) := by
  obtain ⟨asking, asked⟩ := settled.asked on
  rw [run_append] at ran
  obtain ⟨ended, front, last⟩ := Option.bind_eq_some_iff.1 ran
  obtain ⟨left, leaves, same⟩ := Option.bind_eq_some_iff.1 last
  cases same
  obtain ⟨after, same, rest⟩ := Option.bind_eq_some_iff.1 front
  cases asking.symm.trans same
  obtain ⟨stopping, clock⟩ := asked.run rest quiet
  have cleared := cleared_of_answered (by simp) rest quiet
  have whole : ¬Broken answers := fun broken => by simp [settled.broken broken] at on
  obtain ⟨_, free, _⟩ := stopping.leave leaves
  cases steps_of_step leaves with
  | leave off answered ticking =>
      have first : .stopped ∉ answers := settled.clock.1 (clock ▸ ticking)
      refine ⟨first, rfl, fun _ => free, off, ?_, by simp, ?_⟩
      · simp [cleared answered, running, broken_cons, whole]
      · simp [running]

theorem History.settled (history : History answers w) : w.Settled answers := by
  induction history with
  | new => exact settled_new
  | meanwhile _ own stepped ih => exact ih.meanwhile (steps_of_step stepped) own
  | start directory _ ih => exact ih.start directory
  | stop _ on quiet ran ih => exact (ih.stop on quiet ran).2

theorem Settled.start_eq (settled : w.Settled answers) (directory : Except Bytes Unit) :
    ((w.start directory).1 = .error .alreadyStarted ↔ running answers ∨ Broken answers) ∧
      (¬(running answers ∨ Broken answers) → (w.start directory).1 = directory.mapError .noDirectory) := by
  rw [← settled.started]
  cases already : w.started with
  | true => simp [FileWriter.start, already]
  | false => cases directory <;> simp [FileWriter.start, already, Except.mapError]

theorem Stopping.leave_eq (stopping : w.Stopping) (off : w.loop = .off) :
    w.step .leave = if w.clockRuns then some { w with request := .none, clockRuns := false } else none := by
  cases stopping with
  | asked running | answered running => simp [off] at running
  | ended _ answered => simp [FileWriter.step, leave?, off, answered]

theorem Settled.run_stop (settled : w.Settled answers) (on : running answers) (free : w.hand = none) :
    ∃ ended : FileWriter, w.run ([.ask, .answer] ++ w.draining ++ [.quit]) = some ended ∧ ended.loop = .off ∧
      ended.request = .answered ∧ ended.clockRuns = w.clockRuns := by
  let answering := { w with started := false, loop := .draining, request := .answered }
  have waiting : w.loop = .waiting := settled.loop.trans (if_pos on)
  have moved : w.run [.ask, .answer] = some answering := by
    simp [FileWriter.run, FileWriter.step, ask?, answer?, settled.request, waiting, free, answering]
  have drained : answering.run w.draining = _ := run_draining (w := answering) (by simp [answering]) free
  rw [run_append, run_append, moved, Option.bind_some, drained]
  simp [FileWriter.run, FileWriter.step, quit?, answering, free]

theorem Settled.stop_eq (settled : w.Settled answers) (on : running answers) (free : w.hand = none) :
    w.stop.1 = if w.clockRuns then .ok () else .error .clockStopped := by
  obtain ⟨ended, ran, off, answered, clock⟩ := settled.run_stop on free
  rw [FileWriter.stop, ran, ← clock]
  cases ticking : ended.clockRuns with
  | true => simp [leave?, off, answered, ticking]
  | false => simp [leave?, off, answered, ticking]

/-- The calls made on one writer, whatever comes in between. Its loop is on exactly between a start that went well and
the next stop. A start is refused then, but also ever after a start that failed for its directory, though the loop is
off; any other start answers what becomes of the directory. A stop always gets as far as the end of the loop. The
first one is over then, and the writer may be started again; every later one fails there, since it finds the clock
stopped. -/
theorem life_cycle (history : History answers w) :
    (w.loop ≠ .off ↔ running answers) ∧ (Broken answers → w.loop = .off) ∧
      (∀ directory, ((w.start directory).1 = .error .alreadyStarted ↔ running answers ∨ Broken answers) ∧
        (¬(running answers ∨ Broken answers) → (w.start directory).1 = directory.mapError .noDirectory)) ∧
      (running answers → ∀ events asked, (∀ e ∈ events, e.isLoops) → w.run (.ask :: events) = some asked →
        (∃ more ended, (∀ e ∈ more, e.isLoops) ∧ asked.run more = some ended ∧ ended.loop = .off) ∧
          (asked.loop = .off →
            (.stopped ∉ answers → ∃ left, asked.step .leave = some left ∧ History (.stopped :: answers) left) ∧
              (.stopped ∈ answers → asked.step .leave = none))) ∧
      (running answers → w.hand = none →
        (.stopped ∉ answers → w.stop.1 = .ok ()) ∧ (.stopped ∈ answers → w.stop.1 = .error .clockStopped)) := by
  have settled := history.settled
  refine ⟨?_, ?_, settled.start_eq, ?_, ?_⟩
  · rw [settled.loop]
    split <;> simp [*]
  · intro broken
    rw [settled.loop, settled.broken broken]
    rfl
  · intro on events asked quiet ran
    obtain ⟨asking, stopping⟩ := settled.asked on
    obtain ⟨after, same, rest⟩ := Option.bind_eq_some_iff.1 ran
    cases asking.symm.trans same
    obtain ⟨stopping, clock⟩ := stopping.run rest quiet
    obtain ⟨more, ended, loops, onward, off, _⟩ := stopping.exists_ended
    refine ⟨⟨more, ended, loops, onward, off⟩, fun off => ?_⟩
    have leaves := stopping.leave_eq off
    rw [clock] at leaves
    constructor
    · intro first
      rw [if_pos (settled.clock.2 first)] at leaves
      refine ⟨_, leaves, .stop history on quiet ?_⟩
      rw [run_append, ran, Option.bind_some, FileWriter.run, leaves]
      rfl
    · intro again
      rw [leaves]
      exact if_neg fun ticking => settled.clock.1 ticking again
  · intro on free
    rw [settled.stop_eq on free]
    exact ⟨fun first => if_pos (settled.clock.2 first),
      fun again => if_neg fun ticking => settled.clock.1 ticking again⟩

def restarted : FileWriter := { started := true, loop := .waiting, clockRuns := false }

/-- The second start of one writer fails since the first had no directory, the second stop of another since the first
stopped the clock. -/
theorem second_attempts_fail :
    History [.started (.error (.noDirectory [109]))] { started := true } ∧
      (({ started := true } : FileWriter).start (.ok ())).1 = .error .alreadyStarted ∧
      History [.started (.ok ()), .stopped, .started (.ok ())] restarted ∧
      restarted.stop.1 = .error .clockStopped := by
  have missed : History [.started (.error (.noDirectory [109]))] { started := true } := .start (.error [109]) .new
  have refused := ((life_cycle missed).2.2.1 (.ok ())).1.2 (.inr ⟨[109], List.mem_singleton_self _⟩)
  have first : History [.started (.ok ())] { started := true, loop := .waiting } := .start (.ok ()) .new
  have ran : ({ started := true, loop := .waiting } : FileWriter).run (.ask :: [.answer, .quit] ++ [.leave]) =
      some { clockRuns := false } := rfl
  have again : History [.started (.ok ()), .stopped, .started (.ok ())] restarted :=
    .start (.ok ()) (.stop first rfl (by decide) ran)
  have fails := ((life_cycle again).2.2.2.2 rfl rfl).2 (by simp)
  exact ⟨missed, refused, again, fails⟩

end Deadwood.Log.FileWriter

import Deadwood.Log.FileWriter
import Mathlib.Data.List.Basic

/-!
No message that found room in the queue of a log file is lost, doubled or moved out of its turn. What was handed to the
file, what the loop has in hand and what is still queued make up the messages that were taken, in their order, after
every event. A loop that was told to stop ends with an empty queue, so that by then all of them are in the file.
-/

namespace Deadwood.Log.FileWriter

variable {w next : FileWriter} {e : Event} {front back events : List Event}

def Event.isLoops : Event → Bool
  | receive | put | rotate | answer | quit => true
  | start _ | write _ | ask | leave => false

def taken (w : FileWriter) : Event → List Bytes
  | .write message => if w.queue.length < capacity then [message] else []
  | .start _ | .receive | .put | .rotate | .ask | .answer | .quit | .leave => []

def accepted (w : FileWriter) : List Event → List Bytes
  | [] => []
  | e :: events => w.taken e ++ ((w.step e).map (·.accepted events)).getD []

inductive Steps (w : FileWriter) : Event → FileWriter → Prop
  | idle (directory : Except Bytes Unit) : w.started → Steps w (.start directory) w
  | fail (message : Bytes) : w.started = false → Steps w (.start (.error message)) { w with started := true }
  | start : w.started = false → Steps w (.start (.ok ())) { w with started := true, loop := .waiting }
  | write (message : Bytes) :
      w.queue.length < capacity → Steps w (.write message) { w with queue := w.queue ++ [message] }
  | lose (message : Bytes) : capacity ≤ w.queue.length → Steps w (.write message) w
  | receive {message : Bytes} {queue : List Bytes} :
      w.loop ≠ .off → w.hand = none → w.queue = message :: queue →
        Steps w .receive { w with queue, hand := some message }
  | put {message : Bytes} : w.hand = some message → Steps w .put { w with hand := none, file := w.file ++ message }
  | rotate : w.loop = .waiting → w.hand = none → w.clockRuns →
      Steps w .rotate { w with closed := w.closed ++ [w.file], file := [] }
  | ask : w.request = .none → Steps w .ask { w with request := .asked }
  | answer : w.loop = .waiting → w.hand = none → w.request = .asked →
      Steps w .answer { w with started := false, loop := .draining, request := .answered }
  | quit : w.loop = .draining → w.hand = none → w.queue = [] → Steps w .quit { w with loop := .off }
  | leave : w.loop = .off → w.request = .answered → w.clockRuns →
      Steps w .leave { w with request := .none, clockRuns := false }

theorem steps_of_step (stepped : w.step e = some next) : w.Steps e next := by
  cases e with
  | start directory =>
      cases fresh : w.started with
      | true =>
          simp only [step, FileWriter.start, fresh, if_true, Option.some.injEq] at stepped
          exact stepped ▸ .idle directory fresh
      | false =>
          cases directory with
          | error message =>
              simp only [step, FileWriter.start, fresh, Bool.false_eq_true, if_false, Option.some.injEq] at stepped
              exact stepped ▸ .fail message fresh
          | ok =>
              simp only [step, FileWriter.start, fresh, Bool.false_eq_true, if_false, Option.some.injEq] at stepped
              exact stepped ▸ .start fresh
  | write message =>
      simp only [step, FileWriter.write, Option.some.injEq] at stepped
      split at stepped
      · exact stepped ▸ .write message ‹_›
      · exact stepped ▸ .lose message (by omega)
  | receive =>
      rw [step, receive?] at stepped
      cases queued : w.queue with
      | nil => simp [queued] at stepped
      | cons message queue =>
          rw [queued] at stepped
          obtain ⟨⟨running, free⟩, same⟩ := Option.ite_none_right_eq_some.1 stepped
          cases same
          exact .receive running free queued
  | put =>
      obtain ⟨message, held, same⟩ := Option.map_eq_some_iff.1 stepped
      cases same
      exact .put held
  | rotate =>
      rw [step, rotate?, Option.ite_none_right_eq_some] at stepped
      obtain ⟨⟨waiting, free, clock⟩, same⟩ := stepped
      cases same
      exact .rotate waiting free clock
  | ask =>
      rw [step, ask?, Option.ite_none_right_eq_some] at stepped
      obtain ⟨idle, same⟩ := stepped
      cases same
      exact .ask idle
  | answer =>
      rw [step, answer?, Option.ite_none_right_eq_some] at stepped
      obtain ⟨⟨waiting, free, asked⟩, same⟩ := stepped
      cases same
      exact .answer waiting free asked
  | quit =>
      rw [step, quit?, Option.ite_none_right_eq_some] at stepped
      obtain ⟨⟨draining, free, empty⟩, same⟩ := stepped
      cases same
      exact .quit draining free empty
  | leave =>
      rw [step, leave?, Option.ite_none_right_eq_some] at stepped
      obtain ⟨⟨off, answered, clock⟩, same⟩ := stepped
      cases same
      exact .leave off answered clock

structure Conserves (messages : List Bytes) (w : FileWriter) : Prop where
  content : w.handed ++ w.hand.getD [] ++ w.queue.flatten = messages.flatten
  bound : w.queue.length ≤ capacity

theorem conserves_start : ({} : FileWriter).Conserves [] := ⟨rfl, Nat.zero_le _⟩

theorem Conserves.step {messages : List Bytes} (conserves : w.Conserves messages) (steps : w.Steps e next) :
    next.Conserves (messages ++ w.taken e) := by
  obtain ⟨content, bound⟩ := conserves
  cases steps with
  | write message room =>
      constructor
      · rw [taken, if_pos room, List.flatten_append, List.flatten_append, ← content]
        simp [handed]
      · rw [List.length_append, List.length_singleton]
        exact room
  | lose message full =>
      have lost : w.taken (.write message) = [] := if_neg (Nat.not_lt.2 full)
      rw [lost, List.append_nil]
      exact ⟨content, bound⟩
  | receive running free queued =>
      constructor
      · simpa [handed, taken, free, queued] using content
      · rw [queued, List.length_cons] at bound
        exact Nat.le_of_succ_le bound
  | put held => exact ⟨by simpa [handed, taken, held] using content, bound⟩
  | rotate => exact ⟨by simpa [handed, taken] using content, bound⟩
  | idle | fail | start | ask | answer | quit | leave => exact ⟨by simpa [handed, taken] using content, bound⟩

theorem run_append (w : FileWriter) (front back : List Event) :
    w.run (front ++ back) = (w.run front).bind fun w => w.run back := by
  induction front generalizing w with
  | nil => rfl
  | cons e front ih =>
      rw [List.cons_append, run, run, Option.bind_assoc]
      congr 1
      funext w
      exact ih w

theorem accepted_cons (stepped : w.step e = some next) (events : List Event) :
    w.accepted (e :: events) = w.taken e ++ next.accepted events := by
  rw [accepted, stepped]
  rfl

theorem accepted_append (ran : w.run front = some next) (back : List Event) :
    w.accepted (front ++ back) = w.accepted front ++ next.accepted back := by
  induction front generalizing w with
  | nil =>
      cases ran
      rfl
  | cons e front ih =>
      obtain ⟨after, stepped, later⟩ := Option.bind_eq_some_iff.1 ran
      rw [List.cons_append, accepted_cons stepped, accepted_cons stepped, ih later, List.append_assoc]

theorem Conserves.run {messages : List Bytes} (conserves : w.Conserves messages) (ran : w.run events = some next) :
    next.Conserves (messages ++ w.accepted events) := by
  induction events generalizing w messages with
  | nil =>
      cases ran
      rwa [accepted, List.append_nil]
  | cons e events ih =>
      obtain ⟨after, stepped, later⟩ := Option.bind_eq_some_iff.1 ran
      rw [accepted_cons stepped, ← List.append_assoc]
      exact ih (conserves.step (steps_of_step stepped)) later

theorem accepted_of_loops (ran : w.run events = some next) (quiet : ∀ e ∈ events, e.isLoops) :
    w.accepted events = [] := by
  induction events generalizing w with
  | nil => rfl
  | cons e events ih =>
      obtain ⟨after, stepped, later⟩ := Option.bind_eq_some_iff.1 ran
      obtain ⟨first, rest⟩ := List.forall_mem_cons.1 quiet
      rw [accepted_cons stepped, ih later rest, List.append_nil]
      cases e <;> first | rfl | cases first

/-- A writer whose loop runs or never ran, as long as nobody asks it to stop. -/
structure Unasked (w : FileWriter) : Prop where
  request : w.request = .none
  clock : w.clockRuns
  loop : w.loop ≠ .draining
  hand : w.loop = .off → w.hand = none

theorem Unasked.step (unasked : w.Unasked) (steps : w.Steps e next) (other : e ≠ .ask) : next.Unasked := by
  obtain ⟨request, clock, loop, hand⟩ := unasked
  cases steps with
  | idle | fail | write | lose | rotate => exact ⟨request, clock, loop, hand⟩
  | start => exact ⟨request, clock, by simp, by simp⟩
  | receive running => exact ⟨request, clock, loop, fun off => absurd off running⟩
  | put => exact ⟨request, clock, loop, fun _ => rfl⟩
  | ask => exact absurd rfl other
  | answer _ _ asked | leave _ asked => simp [request] at asked
  | quit draining => exact absurd draining loop

inductive Stopping (w : FileWriter) : Prop
  | asked : w.loop = .waiting → w.request = .asked → Stopping w
  | answered : w.loop = .draining → w.request = .answered → Stopping w
  | ended : w.loop = .off → w.request = .answered → w.queue = [] → w.hand = none → Stopping w

theorem Stopping.step (stopping : w.Stopping) (steps : w.Steps e next) (loops : e.isLoops) : next.Stopping := by
  cases steps with
  | idle | fail | start | write | lose | ask | leave => cases loops
  | receive running free queued =>
      cases stopping with
      | asked waiting asked => exact .asked waiting asked
      | answered draining answered => exact .answered draining answered
      | ended off => exact absurd off running
  | put held =>
      cases stopping with
      | asked waiting asked => exact .asked waiting asked
      | answered draining answered => exact .answered draining answered
      | ended _ _ _ free => simp [free] at held
  | rotate waiting =>
      cases stopping with
      | asked waiting asked => exact .asked waiting asked
      | answered draining | ended draining => simp [waiting] at draining
  | answer => exact .answered rfl rfl
  | quit draining free empty =>
      cases stopping with
      | asked waiting | ended waiting => simp [draining] at waiting
      | answered _ answered => exact .ended rfl answered empty free

theorem clockRuns_step (steps : w.Steps e next) (loops : e.isLoops) : next.clockRuns = w.clockRuns := by
  cases steps <;> first | rfl | cases loops

theorem Unasked.run (unasked : w.Unasked) (ran : w.run events = some next) (other : .ask ∉ events) : next.Unasked := by
  induction events generalizing w with
  | nil =>
      cases ran
      exact unasked
  | cons e events ih =>
      obtain ⟨after, stepped, later⟩ := Option.bind_eq_some_iff.1 ran
      rw [List.mem_cons, not_or] at other
      exact ih (unasked.step (steps_of_step stepped) (Ne.symm other.1)) later other.2

theorem Stopping.run (stopping : w.Stopping) (ran : w.run events = some next) (quiet : ∀ e ∈ events, e.isLoops) :
    next.Stopping ∧ next.clockRuns = w.clockRuns := by
  induction events generalizing w with
  | nil =>
      cases ran
      exact ⟨stopping, rfl⟩
  | cons e events ih =>
      obtain ⟨after, stepped, later⟩ := Option.bind_eq_some_iff.1 ran
      obtain ⟨first, rest⟩ := List.forall_mem_cons.1 quiet
      have steps := steps_of_step stepped
      rw [← clockRuns_step steps first]
      exact ih (stopping.step steps first) later rest

/-! The loop can always come to its end. -/

theorem run_draining (running : w.loop ≠ .off) (free : w.hand = none) :
    w.run w.draining = some { w with queue := [], file := w.file ++ w.queue.flatten } := by
  obtain ⟨messages, queued⟩ : ∃ messages, w.queue = messages := ⟨_, rfl⟩
  rw [draining, queued]
  induction messages generalizing w with
  | nil =>
      rw [List.flatMap_nil, FileWriter.run, List.flatten_nil, List.append_nil, ← queued]
  | cons message messages ih =>
      have moved : w.run [.receive, .put] = some { w with queue := messages, file := w.file ++ message } := by
        simp [FileWriter.run, FileWriter.step, receive?, put?, queued, running, free]
      have rest := ih (w := { w with queue := messages, file := w.file ++ message }) running free rfl
      rw [List.flatMap_cons, run_append, moved, Option.bind_some, rest, List.flatten_cons, List.append_assoc]

theorem isLoops_draining (w : FileWriter) : ∀ e ∈ w.draining ++ [.quit], e.isLoops := by
  intro e member
  rcases List.mem_append.1 member with moving | last
  · obtain ⟨message, _, either⟩ := List.mem_flatMap.1 moving
    rcases List.mem_pair.1 either with rfl | rfl <;> rfl
  · obtain rfl := List.mem_singleton.1 last
    rfl

theorem Stopping.exists_ended_of_free (stopping : w.Stopping) (free : w.hand = none) :
    ∃ more ended, (∀ e ∈ more, e.isLoops) ∧ w.run more = some ended ∧ ended.loop = .off ∧
      ended.request = .answered := by
  have drains {w : FileWriter} (draining : w.loop = .draining) (answered : w.request = .answered)
      (free : w.hand = none) :
      ∃ ended, w.run (w.draining ++ [.quit]) = some ended ∧ ended.loop = .off ∧ ended.request = .answered := by
    rw [run_append, run_draining (by simp [draining]) free]
    simp [FileWriter.run, FileWriter.step, quit?, draining, answered, free]
  cases stopping with
  | asked waiting asked =>
      let answering := { w with started := false, loop := .draining, request := .answered }
      have moved : w.step .answer = some answering := if_pos ⟨waiting, free, asked⟩
      obtain ⟨ended, ran, ends⟩ := drains (w := answering) rfl rfl free
      refine ⟨.answer :: (w.draining ++ [.quit]), ended, List.forall_mem_cons.2 ⟨rfl, w.isLoops_draining⟩, ?_, ends⟩
      rw [FileWriter.run, moved]
      exact ran
  | answered draining answered =>
      obtain ⟨ended, ran, ends⟩ := drains draining answered free
      exact ⟨w.draining ++ [.quit], ended, w.isLoops_draining, ran, ends⟩
  | ended off answered => exact ⟨[], w, by simp, rfl, off, answered⟩

theorem Stopping.exists_ended (stopping : w.Stopping) :
    ∃ more ended, (∀ e ∈ more, e.isLoops) ∧ w.run more = some ended ∧ ended.loop = .off ∧
      ended.request = .answered := by
  cases held : w.hand with
  | none => exact stopping.exists_ended_of_free held
  | some message =>
      have moved : w.step .put = some { w with hand := none, file := w.file ++ message } := by
        rw [FileWriter.step, put?, held, Option.map_some]
      have later := stopping.step (steps_of_step moved) rfl
      obtain ⟨more, ended, quiet, ran, ends⟩ := later.exists_ended_of_free rfl
      refine ⟨.put :: more, ended, List.forall_mem_cons.2 ⟨rfl, quiet⟩, ?_, ends⟩
      rw [FileWriter.run, moved]
      exact ran

theorem Stopping.exists_leave (stopping : w.Stopping) (clock : w.clockRuns) :
    ∃ more left, (∀ e ∈ more, e.isLoops) ∧ w.run (more ++ [.leave]) = some left := by
  obtain ⟨more, ended, quiet, ran, off, answered⟩ := stopping.exists_ended
  have ticking : ended.clockRuns = true := (stopping.run ran quiet).2.trans clock
  have moved : ended.step .leave = _ := if_pos ⟨off, answered, ticking⟩
  exact ⟨more, _, quiet, by rw [run_append, ran, Option.bind_some, FileWriter.run, moved]; rfl⟩

theorem unasked_start : ({} : FileWriter).Unasked := ⟨rfl, rfl, by simp, fun _ => rfl⟩

theorem Stopping.leave (stopping : w.Stopping) (left : w.step .leave = some next) :
    w.queue = [] ∧ w.hand = none ∧ next = { w with request := .none, clockRuns := false } := by
  cases steps_of_step left with
  | leave off =>
      cases stopping with
      | asked running | answered running => simp [off] at running
      | ended _ _ empty free => exact ⟨empty, free, rfl⟩

theorem eq_nil_of_off (off : w.loop = .off) (free : w.hand = none) (ran : w.run events = some next)
    (quiet : ∀ e ∈ events, e.isLoops) : events = [] := by
  cases events with
  | nil => rfl
  | cons e events =>
      obtain ⟨after, stepped, _⟩ := Option.bind_eq_some_iff.1 ran
      have loops := quiet e List.mem_cons_self
      cases steps_of_step stepped with
      | idle | fail | start | write | lose | ask | leave => cases loops
      | receive running => exact absurd off running
      | put held => simp [free] at held
      | rotate running | answer running | quit running => simp [off] at running

theorem exists_of_stop (unstopped : .ask ∉ front) (ran : ({} : FileWriter).run (front ++ .ask :: back) = some w) :
    ∃ u : FileWriter, ({} : FileWriter).run front = some u ∧ u.Unasked ∧
      { u with request := .asked }.run back = some w := by
  rw [run_append] at ran
  obtain ⟨u, first, later⟩ := Option.bind_eq_some_iff.1 ran
  obtain ⟨asked, asking, rest⟩ := Option.bind_eq_some_iff.1 later
  have unasked := unasked_start.run first unstopped
  cases steps_of_step asking with
  | ask => exact ⟨u, first, unasked, rest⟩

theorem accepted_stop (ran : ({} : FileWriter).run (front ++ .ask :: back) = some w) (quiet : ∀ e ∈ back, e.isLoops) :
    ({} : FileWriter).accepted (front ++ .ask :: back) = ({} : FileWriter).accepted front := by
  rw [run_append] at ran
  obtain ⟨u, first, later⟩ := Option.bind_eq_some_iff.1 ran
  obtain ⟨asked, asking, rest⟩ := Option.bind_eq_some_iff.1 later
  rw [accepted_append first, accepted_cons asking, accepted_of_loops rest quiet]
  exact List.append_nil _

theorem delivered_of_leave (unstopped : .ask ∉ front) (quiet : ∀ e ∈ back, e.isLoops)
    (ran : ({} : FileWriter).run (front ++ .ask :: back) = some w) (left : w.step .leave = some next) :
    next.handed = (({} : FileWriter).accepted front).flatten ∧ next.queue = [] ∧ next.hand = none := by
  obtain ⟨u, first, unasked, rest⟩ := exists_of_stop unstopped ran
  have stopping : w.Stopping := by
    cases loop : u.loop with
    | waiting =>
        have asked : { u with request := .asked }.Stopping := .asked loop rfl
        exact (asked.run rest quiet).1
    | draining => exact absurd loop unasked.loop
    | off =>
        -- Nobody answers, so that whoever asked never goes on.
        have still : back = [] :=
          eq_nil_of_off (w := { u with request := .asked }) loop (unasked.hand loop) rest quiet
        subst still
        cases rest
        cases steps_of_step left with
        | leave _ answered => cases answered
  obtain ⟨empty, free, rfl⟩ := stopping.leave left
  have conserves := conserves_start.run ran
  rw [List.nil_append, accepted_stop ran quiet] at conserves
  have content := conserves.content
  rw [empty, free, List.flatten_nil, Option.getD_none, List.append_nil, List.append_nil] at content
  exact ⟨content, empty, free⟩

theorem exists_of_stop_ok (stopped : w.stop = (.ok (), next)) :
    ∃ ended : FileWriter, w.run (.ask :: .answer :: (w.draining ++ [.quit])) = some ended ∧
      ended.step .leave = some next := by
  rw [stop] at stopped
  split at stopped
  · cases stopped
  · rename_i ended ran
    split at stopped
    · cases stopped
    · rename_i left leaves
      cases stopped
      exact ⟨ended, ran, leaves⟩

/-- What happens between a start and a stop of a log file, whatever its loop chooses to do and whenever messages come,
as long as none comes after the stop. When the stop is over, the file was handed exactly the messages that found room in
the queue, in their order; a message is lost only if the queue is full when it comes. A loop that runs can always go on
until the stop is over. -/
theorem queued_messages_delivered (front back : List Event) (unstopped : .ask ∉ front)
    (quiet : ∀ e ∈ back, e.isLoops) :
    (∀ w, ({} : FileWriter).run (front ++ .ask :: back ++ [.leave]) = some w →
        w.handed = (({} : FileWriter).accepted front).flatten ∧ w.queue = [] ∧ w.hand = none) ∧
      (∀ u w, ({} : FileWriter).run front = some u → u.loop = .waiting →
        ({} : FileWriter).run (front ++ .ask :: back) = some w →
          ∃ more left, (∀ e ∈ more, e.isLoops) ∧ w.run (more ++ [.leave]) = some left) ∧
      (∀ u left, ({} : FileWriter).run front = some u → u.stop = (.ok (), left) →
        left.handed = (({} : FileWriter).accepted front).flatten) ∧
      ∀ before message after u, front = before ++ .write message :: after → ({} : FileWriter).run before = some u →
        u.queue.length ≤ 1024 ∧
          ({} : FileWriter).accepted front = ({} : FileWriter).accepted before ++
            (if u.queue.length < 1024 then [message] else []) ++ (u.write message).2.accepted after := by
  refine ⟨?_, ?_, ?_, ?_⟩
  · intro w ran
    rw [run_append] at ran
    obtain ⟨before, stopped, last⟩ := Option.bind_eq_some_iff.1 ran
    obtain ⟨after, left, same⟩ := Option.bind_eq_some_iff.1 last
    cases same
    exact delivered_of_leave unstopped quiet stopped left
  · intro u w first running ran
    obtain ⟨asked, same, unasked, rest⟩ := exists_of_stop unstopped ran
    rw [first] at same
    cases same
    have asking : { u with request := .asked }.Stopping := .asked running rfl
    obtain ⟨stopping, clock⟩ := asking.run rest quiet
    exact stopping.exists_leave (clock.trans unasked.clock)
  · intro u left first stopped
    obtain ⟨ended, ran, leaves⟩ := exists_of_stop_ok stopped
    have loops : ∀ e ∈ .answer :: (u.draining ++ [.quit]), e.isLoops :=
      List.forall_mem_cons.2 ⟨rfl, u.isLoops_draining⟩
    apply (delivered_of_leave unstopped loops ?_ leaves).1
    rw [run_append, first]
    exact ran
  · intro before message after u split ran
    subst split
    refine ⟨(conserves_start.run ran).bound, ?_⟩
    rw [accepted_append ran, accepted_cons rfl, List.append_assoc]
    rfl

def interrupted : List Event := [
  .write (bytes "a"), .start (.ok ()), .receive, .put, .write (bytes "b"), .receive, .write (bytes "c")]

def interruption : List Event := [.put, .rotate, .answer, .receive, .put, .quit]

theorem interrupted_delivered :
    ∃ w, ({} : FileWriter).run (interrupted ++ .ask :: interruption ++ [.leave]) = some w ∧ w.closed = [bytes "ab"] ∧
      w.handed = bytes "abc" := by
  have ran : (({} : FileWriter).run (interrupted ++ .ask :: interruption ++ [.leave])).map (·.closed) =
      some [bytes "ab"] := by decide
  obtain ⟨w, ran, closed⟩ := Option.map_eq_some_iff.1 ran
  have delivered := (queued_messages_delivered interrupted interruption (by simp [interrupted]) (by decide)).1 w ran
  refine ⟨w, ran, closed, delivered.1.trans ?_⟩
  decide

end Deadwood.Log.FileWriter

import Deadwood.Text.Bytes

/-!
Independent tasks run by a pool of workers. One caller submits the tasks in the order of their index. It takes a place
for each of them, of which there are only so many, counts it as pending, and hands it to the pool, which may refuse it.
A worker gives the place back when its task is over, and the caller returns once no task is pending. Tasks may be over
in any order; the error of the least index is the one reported.
-/

namespace Deadwood.Pool

def firstError? {ε : Type} (errors : Nat → Option ε) (n : Nat) : Option ε := (List.range n).findSome? errors

/-- How far a task has come. Up to where the pool takes it on, or down to where the caller has dropped it, it is the
caller that moves it on, and from there a worker. -/
inductive Stage (ε : Type)
  | ahead
  | placed
  | counted
  | refused (why : ε)
  | withdrawn (why : ε)
  | discounted (why : ε)
  | dropped (why : ε)
  | accepted
  | called
  | finished
  | vacated
  | ended

inductive Move (ε : Type)
  | place
  | count
  | accept
  | refuse (why : ε)
  | withdraw
  | discount
  | drop
  | call
  | finish
  | vacate
  | leave

structure Event (ε : Type) where
  index : Nat
  move : Move ε

variable {ε : Type}

/-- Where a move leads, if it is possible. A refused task is undone in the order in which it was prepared. -/
def Stage.after? : Stage ε → Move ε → Option (Stage ε)
  | ahead, .place => some placed
  | placed, .count => some counted
  | counted, .accept => some accepted
  | counted, .refuse why => some (refused why)
  | refused why, .withdraw => some (withdrawn why)
  | withdrawn why, .discount => some (discounted why)
  | discounted why, .drop => some (dropped why)
  | accepted, .call => some called
  | called, .finish => some finished
  | finished, .vacate => some vacated
  | vacated, .leave => some ended
  | _, _ => none

/-- The move that a task makes next. None is refused of its own accord. -/
def Stage.next? : Stage ε → Option (Move ε)
  | ahead => some .place
  | placed => some .count
  | counted => some .accept
  | accepted => some .call
  | called => some .finish
  | finished => some .vacate
  | vacated => some .leave
  | refused _ => some .withdraw
  | withdrawn _ => some .discount
  | discounted _ => some .drop
  | dropped _ | ended => none

def Stage.isCalled : Stage ε → Bool
  | called => true
  | _ => false

def Move.isCallers : Move ε → Bool
  | place | count | accept | refuse _ | withdraw | discount | drop => true
  | call | finish | vacate | leave => false

/-- A pool at work: the task in the caller's hand, how far each task has come, how many places are taken and how many
tasks are pending, the calls made and the errors seen so far. -/
structure State (ε : Type) where
  next : Nat := 0
  stage : Nat → Stage ε := fun _ => .ahead
  places : Nat := 0
  pending : Nat := 0
  calls : List Nat := []
  errors : Nat → Option ε := fun _ => none

def put {α : Type} (table : Nat → α) (index : Nat) (entry : α) : Nat → α :=
  fun i => if i = index then entry else table i

namespace State

def share (task : Nat → Option ε) (s : State ε) (index : Nat) : Move ε → State ε
  | .place => { s with places := s.places + 1 }
  | .count => { s with pending := s.pending + 1 }
  | .accept => { s with next := s.next + 1 }
  | .refuse _ => s
  | .withdraw | .vacate => { s with places := s.places - 1 }
  | .discount | .leave => { s with pending := s.pending - 1 }
  | .drop =>
    match s.stage index with
    | .discounted why => { s with next := s.next + 1, errors := put s.errors index (some why) }
    | _ => s
  | .call => { s with calls := s.calls ++ [index] }
  | .finish => { s with errors := put s.errors index (task index) }

/-- Whether a pool with `n` tasks and `width` places for them admits an event: the caller goes by the index, and has to
wait for a place. -/
def admits (n width : Nat) (s : State ε) (e : Event ε) : Bool :=
  e.index < n && (!e.move.isCallers || e.index = s.next) &&
    match e.move with
    | .place => s.places < width
    | _ => true

def step (n width : Nat) (task : Nat → Option ε) (s : State ε) (e : Event ε) : Option (State ε) :=
  if s.admits n width e then
    ((s.stage e.index).after? e.move).map fun stage =>
      { s.share task e.index e.move with stage := put s.stage e.index stage }
  else none

def callsInProgress (n : Nat) (s : State ε) : Nat := (List.range n).countP fun i => (s.stage i).isCalled

def isDone (n : Nat) (s : State ε) : Bool := s.next = n && s.pending = 0

def run (n width : Nat) (task : Nat → Option ε) (s : State ε) : List (Event ε) → Option (State ε)
  | [] => some s
  | event :: events => (s.step n width task event).bind fun s => run n width task s events

end State

def width (processors tasks : Nat) : Nat := if processors < tasks then processors else if tasks = 0 then 1 else tasks

def moves (ε : Type) : List (Move ε) := [.place, .count, .accept, .call, .finish, .vacate, .leave]

def inOrder (ε : Type) (n : Nat) : List (Event ε) := (List.range n).flatMap fun i => (moves ε).map (⟨i, ·⟩)

def forEach (n : Nat) (task : Nat → Option ε) : List Nat × Option ε :=
  match State.run n 1 task {} (inOrder ε n) with
  | some s => (s.calls, firstError? s.errors n)
  | none => ([], none)

end Deadwood.Pool

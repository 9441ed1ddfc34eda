import Deadwood.Text.Bytes

/-!
A log file fed through a queue. Writers put messages in the queue; a loop in the background moves them to the file,
starts a new file when the clock says so, and on stopping empties the queue. Whoever stops the writer asks the loop to
stop, waits until the loop is off and then stops the clock.
-/

namespace Deadwood.Log

inductive StartError
  | alreadyStarted
  | noDirectory (message : Bytes)
  deriving DecidableEq, Repr

namespace StartError

def message : StartError → Bytes
  | .alreadyStarted => bytes "logger has already been started"
  | .noDirectory message => message

end StartError

inductive StopError
  | noLoop
  | clockStopped
  deriving DecidableEq, Repr

/-- What the loop is at. It waits for whatever comes next until it is told to stop. -/
inductive Loop
  | off
  | waiting
  | draining
  deriving DecidableEq, Repr

inductive StopRequest
  | none
  | asked
  | answered
  deriving DecidableEq, Repr

/-- A writer, with the message that the loop has taken from the queue and not yet put in the file. -/
structure FileWriter where
  started : Bool := false
  loop : Loop := .off
  request : StopRequest := .none
  clockRuns : Bool := true
  queue : List Bytes := []
  hand : Option Bytes := none
  closed : List Bytes := []
  file : Bytes := []
  deriving DecidableEq, Repr

namespace FileWriter

def capacity : Nat := 1024

/-- All bytes handed to the file so far, those in files already closed included. -/
def handed (w : FileWriter) : Bytes := w.closed.flatten ++ w.file

def start (w : FileWriter) (directory : Except Bytes Unit) : Except StartError Unit × FileWriter :=
  if w.started then (.error .alreadyStarted, w)
  else match directory with
    | .error message => (.error (.noDirectory message), { w with started := true })
    | .ok _ => (.ok (), { w with started := true, loop := .waiting })

/-- Puts a message in the queue and reports its length. A message that finds the queue full is lost. -/
def write (w : FileWriter) (message : Bytes) : Nat × FileWriter :=
  (message.length, if w.queue.length < capacity then { w with queue := w.queue ++ [message] } else w)

def receive? (w : FileWriter) : Option FileWriter :=
  match w.queue with
  | [] => none
  | message :: queue => if w.loop ≠ .off ∧ w.hand = none then some { w with queue, hand := some message } else none

def put? (w : FileWriter) : Option FileWriter :=
  w.hand.map fun message => { w with hand := none, file := w.file ++ message }

def rotate? (w : FileWriter) : Option FileWriter :=
  if w.loop = .waiting ∧ w.hand = none ∧ w.clockRuns then
    some { w with closed := w.closed ++ [w.file], file := [] }
  else none

def ask? (w : FileWriter) : Option FileWriter :=
  if w.request = .none then some { w with request := .asked } else none

def answer? (w : FileWriter) : Option FileWriter :=
  if w.loop = .waiting ∧ w.hand = none ∧ w.request = .asked then
    some { w with started := false, loop := .draining, request := .answered }
  else none

def quit? (w : FileWriter) : Option FileWriter :=
  if w.loop = .draining ∧ w.hand = none ∧ w.queue = [] then some { w with loop := .off } else none

/-- Whoever asked the loop to stop finds it off and stops the clock. -/
def leave? (w : FileWriter) : Option FileWriter :=
  if w.loop = .off ∧ w.request = .answered ∧ w.clockRuns then
    some { w with request := .none, clockRuns := false }
  else none

inductive Event
  | start (directory : Except Bytes Unit)
  | write (message : Bytes)
  | receive
  | put
  | rotate
  | ask
  | answer
  | quit
  | leave

def step (w : FileWriter) : Event → Option FileWriter
  | .start directory => some (w.start directory).2
  | .write message => some (w.write message).2
  | .receive => w.receive?
  | .put => w.put?
  | .rotate => w.rotate?
  | .ask => w.ask?
  | .answer => w.answer?
  | .quit => w.quit?
  | .leave => w.leave?

def run (w : FileWriter) : List Event → Option FileWriter
  | [] => some w
  | event :: events => (w.step event).bind fun w => w.run events

def take (w : FileWriter) : FileWriter := (w.run [.receive, .put]).getD w

def draining (w : FileWriter) : List Event := w.queue.flatMap fun _ => [.receive, .put]

def stop (w : FileWriter) : Except StopError Unit × FileWriter :=
  match w.run ([.ask, .answer] ++ w.draining ++ [.quit]) with
  | none => (.error .noLoop, w)
  | some ended =>
    match ended.leave? with
    | none => (.error .clockStopped, { ended with request := .none })
    | some left => (.ok (), left)

end FileWriter

end Deadwood.Log

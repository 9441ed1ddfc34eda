import Deadwood.CommandLine.Console
import Deadwood.Disk.Buffer
import Deadwood.Pool
import Deadwood.Session.Basic

/-!
Optimizing files, one or many. The work on a file is a task of a pool. Tasks that are under way at a time take their
steps in any order, and share the session, the log and the directory they write to.
-/

namespace Deadwood

/-- The program in a file, given the outcome of reading it. A file that can be opened but not read is a bad program. -/
def Program.ofFile (path : Bytes) : Except FileError Bytes → Except CommandError Program
  | .ok content => (Program.read content).mapError (.program path)
  | .error e => .error (if e.operation = bytes "read" then .programInput path e else .file e)

/-- How far the work on a file has come. A file that is being written comes with what puts a text in it, the number of
bytes put so far, and what is left to put. -/
inductive Task (m : Type → Type)
  | waiting
  | read (p : Program)
  | missed (p : Program) (start : Instant)
  | optimized (result : Result)
  | writing (result : Result) (put : (offset : Nat) → (text : Bytes) → m (Except FileError Unit)) (offset : Nat)
      (left : List Bytes)
  | finished (failure : Option CommandError)

namespace Task

variable {m : Type → Type}

def ofProgram : Except CommandError Program → Task m
  | .error e => finished (some e)
  | .ok p => read p

def ofAnswer (file : Bytes) : Except FlowError Result → Task m
  | .error e => finished (some (.flow .optimize file e))
  | .ok result => optimized result

def isFinished : Task m → Bool
  | finished _ => true
  | _ => false

def failure? : Task m → Option CommandError
  | finished failure => failure
  | _ => none

def unwritten : Task m → Nat
  | writing _ _ _ left => left.length
  | _ => 0

end Task

structure Batch (m : Type → Type) where
  session : Session
  progress : Log.Interval := ⟨.ofSeconds 8, none⟩
  pool : Pool.State CommandError := {}
  tasks : Nat → Task m := fun _ => .waiting

namespace Batch

variable {m : Type → Type}

def put (b : Batch m) (index : Nat) (task : Task m) : Batch m := { b with tasks := Pool.put b.tasks index task }

def move (processors total : Nat) (b : Batch m) (index : Nat) : Batch m :=
  match (b.pool.stage index).next? with
  | none => b
  | some move =>
    match b.pool.step total (Pool.width processors total) (fun i => (b.tasks i).failure?) ⟨index, move⟩ with
    | none => b
    | some pool => { b with pool }

def target (out file : Bytes) : Bytes := Path.join out (Path.optimizedName file)

variable [Monad m]

def tell (sys : System m) (c : Console) (index total : Nat) (b : Batch m) : m (Batch m) := do
  let (passes, progress) := b.progress.check (← sys.now)
  if passes then
    c.say sys .info (bytes "Optimizing files") (Notice.count "done" (index + 1) ++ Notice.count "total" total)
  return { b with progress }

def answered (sys : System m) (c : Console) (b : Batch m) (index : Nat) (file : Bytes) (start : Instant)
    (outcome : Outcome Result) : m (Batch m) := do
  c.report sys start outcome.notices
  return b.put index (.ofAnswer file outcome.answer)

def deliver (sys : System m) (out : Bytes) (b : Batch m) (index : Nat) (file : Bytes) (result : Result) :
    m (Batch m) := do
  if out = [] then
    sys.print result.program.text
    return b.put index (.finished none)
  else match ← sys.create (target out file) with
    | .error e => return b.put index (.finished (some (.file e)))
    | .ok put => return b.put index (.writing result put 0 (Buffer.flushes [] result.program.pieces))

def work (sys : System m) (c : Console) (out : Bytes) (total : Nat) (b : Batch m) (index : Nat) (file : Bytes) :
    m (Batch m) := do
  match b.tasks index with
  | .waiting => return b.put index (.ofProgram (Program.ofFile file (← sys.read file)))
  | .read p =>
    let start ← sys.now
    match b.session.look p with
    | (some outcome, session) => answered sys c { b with session } index file start outcome
    | (none, session) => return { b with session }.put index (.missed p start)
  | .missed p start =>
    let (outcome, session) := b.session.compute p
    answered sys c { b with session } index file start outcome
  | .optimized result => deliver sys out (← b.tell sys c index total) index file result
  | .writing result put offset (text :: left) =>
    match ← put offset text with
    | .error e => return b.put index (.finished (some (.file e)))
    | .ok _ => return b.put index (.writing result put (offset + text.length) left)
  | .writing result _ _ [] =>
    c.say sys .debug (bytes "Wrote optimized program")
      (Notice.field "file" (.text (target out file)) ++ Notice.field "removed" (.int result.stats.removed))
    return b.put index (.finished none)
  | .finished _ => return b

/-- A turn of a task: a step of its work if that is under way, and otherwise a move in the pool. -/
def turn (sys : System m) (c : Console) (out : Bytes) (files : List Bytes) (b : Batch m) (index : Nat) : m (Batch m) :=
  match files[index]? with
  | none => pure b
  | some file =>
    if (b.pool.stage index).isCalled && !(b.tasks index).isFinished then b.work sys c out files.length index file
    else pure (b.move sys.processors files.length index)

def turns (sys : System m) (c : Console) (out : Bytes) (files : List Bytes) (b : Batch m) (indices : List Nat) :
    m (Batch m) :=
  indices.foldlM (fun b index => b.turn sys c out files index) b

/-- All that is left to do for a file: as far as its result, and from there to the end. -/
def settle (sys : System m) (c : Console) (out : Bytes) (files : List Bytes) (b : Batch m) (index : Nat) :
    m (Batch m) := do
  let b ← b.turns sys c out files (List.replicate 8 index)
  b.turns sys c out files (List.replicate ((b.tasks index).unwritten + 4) index)

def run (sys : System m) (c : Console) (out : Bytes) (files : List Bytes) (session : Session) : m (Batch m) := do
  let b ← turns sys c out files { session } (sys.turns files.length)
  (List.range files.length).foldlM (fun b index => b.settle sys c out files index) b

def error? (b : Batch m) (total : Nat) : Option CommandError := Pool.firstError? b.pool.errors total

end Batch

end Deadwood

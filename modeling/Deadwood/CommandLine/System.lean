import Deadwood.Disk.Basic
import Deadwood.Time.Instant

/-! What commands ask of the system they run on, and a system that is a value. -/

namespace Deadwood

structure System (m : Type → Type) where
  read : (path : Bytes) → m (Except FileError Bytes)
  /-- Empties a file, which is made if it is not there. Answers with what puts a text in it from an offset on; one writer
  puts its texts one after the other. -/
  create : (path : Bytes) → m (Except FileError ((offset : Nat) → (text : Bytes) → m (Except FileError Unit)))
  append : (path content : Bytes) → m (Except FileError Unit)
  makeDirectories : (path : Bytes) → m (Except FileError Unit)
  /-- Takes a lock file, which is made if it is not there. Answers with what lets go of it, or with nothing if another
  process has it. -/
  lock : (path : Bytes) → m (Except FileError (Option (m Unit)))
  print : Bytes → m Unit
  warn : Bytes → m Unit
  now : m Instant
  home : m Bytes
  processors : Nat := 1
  /-- Whose turn it is when a number of tasks are under way. What is left after these turns is done in order. -/
  turns : Nat → List Nat := fun _ => []

def System.replace {m : Type → Type} [Monad m] (sys : System m) (path content : Bytes) : m (Except FileError Unit) := do
  match ← sys.create path with
  | .error e => return .error e
  | .ok put => put 0 content

/-- A system as a value. Its time stands still. -/
structure World where
  disk : Disk
  held : List (List Bytes) := []
  output : Bytes := []
  warnings : Bytes := []
  time : Instant := ⟨0⟩
  home : Bytes := []

namespace World

def changeDisk (change : Disk → Except FileError Disk) : StateM World (Except FileError Unit) := fun w =>
  match change w.disk with
  | .ok disk => (.ok (), { w with disk })
  | .error e => (.error e, w)

def put (place : List Bytes) (offset : Nat) (text : Bytes) : StateM World (Except FileError Unit) := fun w =>
  (.ok (), { w with disk := w.disk.set place (.file (Bytes.splice (w.disk.contentAt place) offset text)) })

def create (path : Bytes) :
    StateM World (Except FileError ((offset : Nat) → (text : Bytes) → StateM World (Except FileError Unit))) := fun w =>
  match w.disk.target path with
  | .error cause => (.error (.onOpen path cause), w)
  | .ok (place, _) => (.ok (put place), { w with disk := w.disk.set place (.file []) })

def release (place : List Bytes) : StateM World Unit := fun w => ((), { w with held := w.held.erase place })

def lock (path : Bytes) : StateM World (Except FileError (Option (StateM World Unit))) := fun w =>
  match w.disk.target path with
  | .error cause => (.error (.onOpen path cause), w)
  | .ok (place, content) =>
    let w := { w with disk := w.disk.set place (.file content) }
    if place ∈ w.held then (.ok none, w)
    else (.ok (some (release place)), { w with held := place :: w.held })

def system (turns : Nat → List Nat) (processors : Nat := 1) : System (StateM World) where
  read path := fun w => (w.disk.read path, w)
  create := create
  append path content := changeDisk (·.append path content)
  makeDirectories path := changeDisk (·.makeDirectories path)
  lock := lock
  print s := fun w => ((), { w with output := w.output ++ s })
  warn s := fun w => ((), { w with warnings := w.warnings ++ s })
  now := fun w => (w.time, w)
  home := fun w => (w.home, w)
  processors := processors
  turns := turns

end World

end Deadwood

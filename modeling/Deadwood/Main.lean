import Deadwood.CommandLine.Run
import Std.Time.DateTime.Timestamp

/-! The command line on a real system. -/

namespace Deadwood.Machine

def toText (s : Bytes) : String := (String.fromUTF8? ⟨s.toArray⟩).getD ""

def cause : IO.Error → FileCause
  | .noFileOrDirectory .. => .notFound
  | .alreadyExists .. => .present
  | .invalidArgument _ code _ => if code = 36 then .nameTooLong else .invalid
  | .inappropriateType _ code _ => if code = 20 then .notDirectory else .isDirectory
  | e => .other (bytes (toString e))

def attempt {α : Type} (operation : String) (path : Bytes) (x : IO α) : IO (Except FileError α) := do
  try return .ok (← x)
  catch e => return .error ⟨bytes operation, path, cause e⟩

/-- A file that is a directory can be opened and then not be read. -/
def read (path : Bytes) : IO (Except FileError Bytes) := do
  match ← attempt "open" path (IO.FS.readBinFile (toText path)) with
  | .error ⟨_, path, .isDirectory⟩ => return .error ⟨bytes "read", path, .isDirectory⟩
  | .error e => return .error e
  | .ok content => return .ok content.toList

/-- The texts are put one after the other, so that the file is where it should be. -/
def create (path : Bytes) : IO (Except FileError ((offset : Nat) → (text : Bytes) → IO (Except FileError Unit))) :=
  attempt "open" path do
    let handle ← IO.FS.Handle.mk (toText path) .write
    return fun _ text => attempt "write" path (handle.write ⟨text.toArray⟩)

def append (path content : Bytes) : IO (Except FileError Unit) :=
  attempt "open" path do (← IO.FS.Handle.mk (toText path) .append).write ⟨content.toArray⟩

def lock (path : Bytes) : IO (Except FileError (Option (IO Unit))) :=
  attempt "open" path do
    let handle ← IO.FS.Handle.mk (toText path) .append
    return if ← handle.tryLock then some handle.unlock else none

def system : System IO where
  read := read
  create := create
  append := append
  makeDirectories path := attempt "mkdir" path (IO.FS.createDirAll (toText path))
  lock := lock
  print s := do (← IO.getStdout).write ⟨s.toArray⟩
  warn s := do (← IO.getStderr).write ⟨s.toArray⟩
  now := do return .ofMilliseconds (← Std.Time.Timestamp.now).toMillisecondsSinceUnixEpoch.val
  home := do return bytes ((← IO.getEnv "HOME").getD "")

end Deadwood.Machine

def main (arguments : List String) : IO UInt32 := do
  let ending ← Deadwood.CommandLine.run Deadwood.Machine.system (arguments.map Deadwood.bytes)
  return ending.code

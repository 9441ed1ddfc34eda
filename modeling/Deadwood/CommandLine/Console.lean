import Deadwood.CommandLine.Options
import Deadwood.CommandLine.System
import Deadwood.Session.Notice

/-! Where commands log to. -/

namespace Deadwood

structure Console where
  logger : Log.Logger
  file : Option Bytes := none

namespace Console

open Log

variable {m : Type → Type} [Monad m]

/-- Lines that cannot be written are lost. -/
def emit (sys : System m) (c : Console) (line : Bytes) : m Unit :=
  if line = [] then pure ()
  else match c.file with
    | some path => sys.append path line >>= fun _ => pure ()
    | none => sys.warn line

def say (sys : System m) (c : Console) (level : Level) (message : Bytes) (arguments : List Value) : m Unit := do
  c.emit sys (c.logger.write (← sys.now) level message arguments)

def report (sys : System m) (c : Console) (start : Instant) (notices : List Notice) : m Unit := do
  let now ← sys.now
  notices.forM fun n => c.emit sys (n.write c.logger now (now.since start))

def style? (format : Bytes) : Option Style :=
  if format = [] ∨ format = bytes "terminal" then some (.terminal false)
  else if format = bytes "logfmt" then some .logfmt
  else if format = bytes "json" then some .objects
  else none

/-- The file that a log goes to. One that is rotated is known by the plainest path to it. -/
def logFile (o : LogOptions) : Bytes := if o.rotate then Path.clean o.file else o.file

def prepare (sys : System m) (o : LogOptions) : m (Except FileError Unit) :=
  if o.file = [] then pure (.ok ())
  else if o.rotate then sys.makeDirectories (Path.directory (logFile o))
  else sys.append o.file []

def start (sys : System m) (o : LogOptions) : m (Except CommandError Console) := do
  match ← prepare sys o, style? o.format with
  | .error e, _ => return .error (.file e)
  | .ok _, none => return .error (.logFormat o.format)
  | .ok _, some style =>
    return .ok {
      logger := { style, threshold := some (.ofVerbosity o.verbosity) }
      file := if o.file = [] then none else some (logFile o) }

def startTrace (sys : System m) (c : Console) (file : Bytes) : m (Except CommandError Unit) := do
  if file = [] then return .ok ()
  else match ← sys.create (Path.expandHome (← sys.home) [] file) with
    | .error e => return .error (.file e)
    | .ok _ =>
      c.say sys .info (bytes "Go tracing started") (Notice.field "dump" (.text file))
      return .ok ()

def stopTrace (sys : System m) (c : Console) (file : Bytes) : m Unit :=
  if file = [] then pure () else c.say sys .info (bytes "Done writing Go trace") (Notice.field "dump" (.text file))

end Console

end Deadwood

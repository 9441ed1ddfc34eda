import Deadwood.Log.Structured

/-! Loggers: what they write, from which level on, and what they add to every record. -/

namespace Deadwood.Log

inductive Style
  | terminal (colour : Bool)
  | logfmt
  | objects
  | discard
  deriving DecidableEq, Repr

namespace Style

def line : Style → Record → Bytes
  | .terminal colour, r => Terminal.line colour r
  | .logfmt, r => Logfmt.line r
  | .objects, r => Objects.line r
  | .discard, _ => []

def hasGroups : Style → Bool
  | .logfmt | .objects => true
  | .terminal _ | .discard => false

end Style

/-- A logger writes records from its least level on, and from its threshold on if it has one. -/
structure Logger where
  style : Style
  least : Level := .trace
  threshold : Option Level := none
  context : List Entry := []

namespace Logger

def silent : Logger := { style := .discard }

def enabled (l : Logger) (level : Level) : Bool :=
  l.style ≠ .discard && l.least ≤ level && l.threshold.all (· ≤ level)

def record? (l : Logger) (now : Instant) (level : Level) (message : Bytes) (arguments : List Value) : Option Record :=
  if l.enabled level then
    some ⟨now, level, message, l.context, Attribute.ofArguments (Attribute.normalized arguments)⟩
  else none

def write (l : Logger) (now : Instant) (level : Level) (message : Bytes) (arguments : List Value) : Bytes :=
  ((l.record? now level message arguments).map l.style.line).getD []

def withArguments (l : Logger) (arguments : List Value) : Logger :=
  { l with context := l.context ++ [.attributes (Attribute.ofArguments arguments)] }

def withGroup? (l : Logger) (name : Bytes) : Option Logger :=
  if l.style.hasGroups then
    some (if name = [] then l else { l with context := l.context ++ [.group name] })
  else none

def noGroups : Bytes := bytes "not implemented"

/-- A threshold takes a new verbosity; a logger without one keeps showing all. -/
def setVerbosity (l : Logger) (n : Int) : Logger := { l with threshold := l.threshold.map fun _ => .ofVerbosity n }

end Logger

end Deadwood.Log

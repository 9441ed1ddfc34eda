import Deadwood.Digest.Basic
import Deadwood.Log.Level
import Deadwood.Number.Double
import Deadwood.Number.Integer
import Deadwood.Program.Opcode
import Deadwood.Time.Duration
import Deadwood.Time.Instant

/-! Log records: a message with attributes, which may be collected in groups. -/

namespace Deadwood.Log

inductive Value
  | text (s : Bytes)
  | int (n : Int)
  | double (x : Double)
  | bool (b : Bool)
  | duration (d : Duration)
  | time (t : Instant)
  | absent
  | digest (d : Digest)
  | error (message : Bytes)
  | policy (name : Bytes)
  | opcode (op : Opcode)
  | ints (ns : List Int)
  | texts (ss : List Bytes)
  deriving DecidableEq

structure Attribute where
  key : Bytes
  value : Value
  deriving DecidableEq

/-- What a logger adds to its records, step by step: some attributes at once, or a group that holds all later ones. -/
inductive Entry
  | attributes (as : List Attribute)
  | group (name : Bytes)
  deriving DecidableEq

structure Record where
  time : Instant
  level : Level
  message : Bytes
  context : List Entry
  own : List Attribute
  deriving DecidableEq

namespace Value

/-- A time as records keep it: a signed word of nanoseconds, which wraps. Only the start of the calendar is kept
as it is, for times that were never set. -/
def ofTime (t : Instant) : Value :=
  .time (if t = .calendarStart then t else ⟨t.nanoseconds.bmod Integer.wordSize⟩)

end Value

namespace Attribute

def badKey : Bytes := bytes "!BADKEY"

/-- Attributes from a flat list of keys and values. A value where a key should stand, and a key at the very end, go
under the bad key. -/
def ofArguments : List Value → List Attribute
  | [] => []
  | [.text key] => [⟨badKey, .text key⟩]
  | .text key :: value :: rest => ⟨key, value⟩ :: ofArguments rest
  | value :: rest => ⟨badKey, value⟩ :: ofArguments rest

def normalized (arguments : List Value) : List Value :=
  if arguments.length % 2 = 0 then arguments
  else arguments ++ [.absent, .text (bytes "LOG_ERROR"),
    .text (bytes "Normalized odd number of arguments by adding nil")]

end Attribute

namespace Record

def attributes (r : Record) : List Attribute :=
  (r.context.flatMap fun
    | .attributes as => as
    | .group _ => []) ++ r.own

end Record

end Deadwood.Log

import Deadwood.Disk.Path
import Deadwood.Text.Quoted

/-! The forms a graph can be written in, and how one is chosen. -/

namespace Deadwood

inductive GraphFormat
  | dot
  | svg
  deriving DecidableEq, Repr

namespace GraphFormat

def name : GraphFormat → Bytes
  | .dot => bytes "dot"
  | .svg => bytes "svg"

def ofName? (s : Bytes) : Option GraphFormat := [dot, svg].find? (·.name = s)

def unknownMessage (s : Bytes) : Bytes := bytes "unknown format " ++ s.quote ++ bytes " (use dot or svg)"

/-- The format asked for, or else the one that the name of the output file calls for. Fails with a name that is no
format. -/
def choose (format output : Bytes) : Except Bytes GraphFormat :=
  if format ≠ [] then
    match ofName? format with
    | some f => .ok f
    | none => .error format
  else .ok (if (Path.extension output).lower = bytes ".svg" then .svg else .dot)

end GraphFormat

end Deadwood

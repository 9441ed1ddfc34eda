import Deadwood.Time.Instant

/-! Filters that let only some of the records of a place through. -/

namespace Deadwood.Log

/-- Passes every record whose number, counted in 32 bits, is a multiple of the period. -/
structure EveryNth where
  period : UInt32
  count : UInt32 := 0
  deriving DecidableEq, Repr

namespace EveryNth

/-- Whether the next record passes. A period of zero passes all and does not count. -/
def check (f : EveryNth) : Bool × EveryNth :=
  if f.period = 0 then (true, f)
  else
    let count := f.count + 1
    (count % f.period = 0, { f with count })

def passed {α : Type} (f : EveryNth) : List α → List α
  | [] => []
  | a :: rest => if f.check.1 then a :: passed f.check.2 rest else passed f.check.2 rest

end EveryNth

/-- Passes at most one record in a period. -/
structure Interval where
  period : Duration
  last : Option Instant := none
  deriving DecidableEq, Repr

namespace Interval

def check (f : Interval) (now : Instant) : Bool × Interval :=
  if f.period.nanoseconds ≤ 0 then (true, f)
  else match f.last with
    | some last =>
      if (now.since last).nanoseconds < f.period.nanoseconds then (false, f)
      else (true, { f with last := some now })
    | none => (true, { f with last := some now })

end Interval

inductive Filter
  | everyNth (f : EveryNth)
  | interval (f : Interval)
  | condition (b : Bool)
  | always
  deriving DecidableEq, Repr

namespace Filter

def check (now : Instant) : Filter → Bool × Filter
  | .everyNth f => let (passes, f) := f.check; (passes, .everyNth f)
  | .interval f => let (passes, f) := f.check now; (passes, .interval f)
  | .condition b => (b, .condition b)
  | .always => (true, .always)

end Filter

end Deadwood.Log

import Deadwood.Metrics.Registry
import Deadwood.Program.Printer
import Deadwood.Session.Cache
import Deadwood.Session.Notice

/-!
Sessions: one configuration, many programs. Results are kept by the digest of their program, and runs are counted.
-/

namespace Deadwood

structure Tally where
  optimized : Nat := 0
  removed : Int := 0
  failed : Nat := 0
  hits : Nat := 0
  misses : Nat := 0
  iterations : Metrics.Sample := {}
  lastRun : Option (LabelPolicy × Bytes) := none
  deriving DecidableEq

namespace Tally

open Metrics

def registry (t : Tally) : Registry where
  metrics := [
    (bytes "optimizer/optimized", .counter (.ofNat t.optimized)),
    (bytes "optimizer/removed", .counter (.ofInt t.removed)),
    (bytes "optimizer/failed", .counter (.ofNat t.failed)),
    (bytes "optimizer/cache/hit", .counter (.ofNat t.hits)),
    (bytes "optimizer/cache/miss", .counter (.ofNat t.misses)),
    (bytes "optimizer/fixpoint/iterations", .histogram t.iterations),
    (bytes "optimizer/cfg/build", .timer {}),
    (bytes "optimizer/reaching", .timer {}),
    (bytes "optimizer/critical", .timer {})]
  labels := [(bytes "optimizer/lastrun", ⟨match t.lastRun with
    | some (policy, entry) => [(bytes "labels", policy.name), (bytes "entry", entry)]
    | none => []⟩)]

end Tally

structure Result where
  program : Program
  stats : Stats
  run : Nat
  deriving DecidableEq

structure Session where
  settings : Settings
  cache : Cache Digest Result
  verbose : Bool := false
  tally : Tally := {}

structure Outcome (α : Type) where
  answer : Except FlowError α
  notices : List Notice

namespace Session

def start (c : Config) : Session × List Notice :=
  ({ settings := c.settings, cache := .empty c.settings.cacheSize }, c.adjustments.map .adjusted)

def analyze (s : Session) (p : Program) : Outcome Analysis × Session :=
  let (notices, answer) := Analysis.report s.verbose s.settings p
  let tally := match answer with
    | .ok a => { s.tally with iterations := s.tally.iterations.add (.ofNat a.stats.iterations) }
    | .error _ => s.tally
  (⟨answer, notices⟩, { s with tally })

def compute (s : Session) (p : Program) : Outcome Result × Session :=
  let (outcome, s) := s.analyze p
  match outcome.answer with
  | .error e => (⟨.error e, outcome.notices⟩, { s with tally.failed := s.tally.failed + 1 })
  | .ok a =>
    let result : Result := ⟨a.optimized, a.stats, s.tally.optimized⟩
    let tally := { s.tally with
      optimized := s.tally.optimized + 1
      removed := s.tally.removed + a.stats.removed
      lastRun := some (s.settings.labels, s.settings.entry) }
    (⟨.ok result, outcome.notices ++ [.optimized p.digest a.stats]⟩,
      { s with cache := s.cache.insert p.digest result, tally })

/-- Looks for a program among those that were optimized before. A program without functions is refused at once. -/
def look (s : Session) (p : Program) : Option (Outcome Result) × Session :=
  if p.functions = [] then (some ⟨.error .emptyProgram, []⟩, { s with tally.failed := s.tally.failed + 1 })
  else match s.cache.get? p.digest with
    | some (result, cache) =>
      (some ⟨.ok result, [.served p.digest]⟩, { s with cache, tally.hits := s.tally.hits + 1 })
    | none => (none, { s with tally.misses := s.tally.misses + 1 })

def optimize (s : Session) (p : Program) : Outcome Result × Session :=
  match s.look p with
  | (some outcome, s) => (outcome, s)
  | (none, s) => s.compute p

end Session

end Deadwood

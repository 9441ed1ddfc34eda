import Deadwood.Dataflow.Critical

/-! Configuration as users give it, and the settings that a run works with. -/

namespace Deadwood

namespace LabelPolicy

def name : LabelPolicy → Bytes
  | .all => bytes "all"
  | .referenced => bytes "referenced"

def ofName? (s : Bytes) : Option LabelPolicy :=
  if s = name .all then some .all else if s = name .referenced then some .referenced else none

def unknownMessage (s : Bytes) : Bytes :=
  bytes "unknown label policy " ++ s.quote ++ bytes ", want " ++ (name .all).quote ++ bytes " or " ++
    (name .referenced).quote

end LabelPolicy

/-- Configuration before it is checked. An absent list of intrinsics stands for the usual one. -/
structure Config where
  labels : Bytes := []
  intrinsics : Option (List Bytes) := none
  entry : Bytes := []
  maxIterations : Int := 0
  cacheSize : Int := 0
  deriving DecidableEq, Repr

namespace Config

def usualIntrinsics : List Bytes :=
  [bytes "geti", bytes "puti", bytes "getc", bytes "putc", bytes "getf", bytes "putf"]

def usual : Config where
  labels := LabelPolicy.name .all
  intrinsics := some usualIntrinsics
  entry := bytes "main"
  cacheSize := 64

end Config

structure Settings where
  labels : LabelPolicy
  intrinsics : List Bytes
  entry : Bytes
  maxIterations : Nat
  cacheSize : Nat
  deriving DecidableEq, Repr

inductive Adjustment
  | labels (provided : Bytes)
  | maxIterations (provided : Int)
  | cacheSize (provided : Int)
  deriving DecidableEq, Repr

namespace Config

def settings (c : Config) : Settings where
  labels := (LabelPolicy.ofName? c.labels).getD .all
  intrinsics := c.intrinsics.getD usualIntrinsics
  entry := if c.entry = [] then usual.entry else c.entry
  maxIterations := c.maxIterations.toNat
  cacheSize := c.cacheSize.toNat

/-- What `settings` replaces. Missing values are not counted. -/
def adjustments (c : Config) : List Adjustment :=
  (if c.labels ≠ [] ∧ (LabelPolicy.ofName? c.labels).isNone then [.labels c.labels] else []) ++
  (if c.maxIterations < 0 then [.maxIterations c.maxIterations] else []) ++
  (if c.cacheSize < 0 then [.cacheSize c.cacheSize] else [])

end Config

namespace Settings

def config (s : Settings) : Config :=
  ⟨s.labels.name, some s.intrinsics, s.entry, s.maxIterations, s.cacheSize⟩

end Settings

end Deadwood

import Deadwood.Number.Double
import Deadwood.Number.Integer
import Deadwood.Text.Rune
import Deadwood.Time.Duration

/-! Named measurements of a run: counters, distributions, timers and labels. -/

namespace Deadwood.Metrics

structure Sample where
  count : Nat := 0
  sum : Int64 := 0
  least : Int64 := 0
  most : Int64 := 0
  deriving DecidableEq

namespace Sample

def add (s : Sample) (x : Int64) : Sample :=
  if s.count = 0 then ⟨1, x, x, x⟩
  else ⟨s.count + 1, s.sum + x, if x < s.least then x else s.least, if s.most < x then x else s.most⟩

def mean (s : Sample) : Double := if s.count = 0 then .ofInt 0 else (Double.ofInt s.sum.toInt).divNat s.count

/-- The mean of times. One that no word can hold counts as the least word. -/
def meanDuration (s : Sample) : Duration := ⟨Integer.clamped s.mean.truncate⟩

end Sample

inductive Metric
  | counter (count : Int64)
  | histogram (values : Sample)
  | timer (nanoseconds : Sample)
  deriving DecidableEq

namespace Metric

def text : Metric → Bytes
  | .counter count => bytes "count=" ++ Bytes.ofInt count.toInt
  | .histogram s =>
    bytes "count=" ++ Bytes.ofNat s.count ++ bytes " min=" ++ Bytes.ofInt s.least.toInt ++ bytes " max=" ++
      Bytes.ofInt s.most.toInt ++ bytes " mean=" ++ s.mean.toFixed 2
  | .timer s =>
    bytes "count=" ++ Bytes.ofNat s.count ++ bytes " mean=" ++ s.meanDuration.text ++ bytes " max=" ++
      (Duration.mk s.most.toInt).text

end Metric

def put {κ α : Type} [DecidableEq κ] (key : κ) (value : α) : List (κ × α) → List (κ × α)
  | [] => [(key, value)]
  | entry :: rest => if entry.1 = key then (key, value) :: rest else entry :: put key value rest

def find? {κ α : Type} [DecidableEq κ] (key : κ) (entries : List (κ × α)) : Option α :=
  (entries.find? (·.1 = key)).map (·.2)

structure Label where
  values : List (Bytes × Bytes) := []
  deriving DecidableEq, Repr

namespace Label

def mark (l : Label) (values : List (Bytes × Bytes)) : Label :=
  ⟨values.foldl (fun marked (key, value) => put key value marked) l.values⟩

def sorted (l : Label) : List (Bytes × Bytes) := l.values.mergeSort fun a b => !Bytes.less b.1 a.1

def text (l : Label) : Bytes :=
  bytes "map[" ++ Bytes.join (bytes " ") (l.sorted.map fun (key, value) => key ++ bytes ":" ++ value) ++ bytes "]"

end Label

structure Registry where
  timing : Bool := false
  metrics : List (Bytes × Metric) := []
  labels : List (Bytes × Label) := []
  deriving DecidableEq

namespace Registry

/-- Adds to a counter and tells its new value, unless the name stands for something else. -/
def count? (r : Registry) (name : Bytes) (n : Int64) : Option (Int64 × Registry) :=
  match (find? name r.metrics).getD (.counter 0) with
  | .counter count => some (count + n, { r with metrics := put name (.counter (count + n)) r.metrics })
  | _ => none

def sample? (r : Registry) (name : Bytes) (x : Int64) : Option (Nat × Registry) :=
  match (find? name r.metrics).getD (.histogram {}) with
  | .histogram s => some ((s.add x).count, { r with metrics := put name (.histogram (s.add x)) r.metrics })
  | _ => none

/-- Adds times to a timer, which counts them only while timing is on, and tells how many it has. -/
def time? (r : Registry) (name : Bytes) (nanoseconds : List Int64) : Option (Nat × Registry) :=
  match (find? name r.metrics).getD (.timer {}) with
  | .timer s =>
    let s := if r.timing then nanoseconds.foldl Sample.add s else s
    some (s.count, { r with metrics := put name (.timer s) r.metrics })
  | _ => none

def label (r : Registry) (name : Bytes) : Label := (find? name r.labels).getD {}

def setLabel (r : Registry) (name : Bytes) (l : Label) : Registry := { r with labels := put name l r.labels }

/-- What is shown for a name. A label hides a metric of the same name. -/
def shown (r : Registry) (name : Bytes) : Bytes :=
  match find? name r.labels with
  | some l => l.text
  | none => ((find? name r.metrics).map Metric.text).getD []

def nameWidth : Nat := 40

def lines (r : Registry) : List Bytes :=
  (Bytes.sorted (r.metrics.map (·.1) ++ r.labels.map (·.1))).map fun name =>
    name.padColumns nameWidth ++ bytes " " ++ r.shown name

end Registry

end Deadwood.Metrics

import Deadwood.Analysis
import Deadwood.Report.Table

/-! Sizes of programs before and after, by function and in total, as a table. -/

namespace Deadwood

structure Extent where
  name : Bytes
  blocks : Nat
  before : Nat
  after : Nat
  deriving DecidableEq, Repr

namespace Extent

def removed (e : Extent) : Int := e.before - e.after

def cells (file : Bytes) (e : Extent) : List Bytes :=
  [file, e.name] ++ [e.blocks, e.before, e.after].map Bytes.ofNat ++ [Bytes.ofInt e.removed]

end Extent

namespace Analysis

def extent (a : Analysis) (f : Function) : Extent :=
  ⟨f.name, (a.solved.graph.blocks.filter (·.function = f.name)).length, f.body.length, a.kept f⟩

def extents (a : Analysis) : List Extent := a.program.functions.map a.extent

def total (a : Analysis) : Extent := ⟨bytes "(total)", a.stats.blocks, a.stats.before, a.stats.after⟩

def table (files : List (Bytes × Analysis)) : Bytes :=
  Table.text (["FILE", "FUNCTION", "BLOCKS", "BEFORE", "AFTER", "REMOVED"].map bytes)
    (files.flatMap fun (file, a) => (a.extents ++ [a.total]).map (Extent.cells file))

end Analysis

end Deadwood

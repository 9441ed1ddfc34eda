import Deadwood.Flow.Walk

/-!
Control-flow graphs as DOT text: a cluster for every function, dashed nodes for blocks that the entry cannot reach,
dotted edges between functions.
-/

namespace Deadwood

namespace Dot

/-- Quotes get a backslash and newlines become `\n`. Backslashes stay, so that line ends written as `\l` keep their
meaning. -/
def escape (s : Bytes) : Bytes :=
  s.flatMap fun b => if b = 34 then [92, 34] else if b = Bytes.newline then [92, 110] else [b]

def label (id : Nat) (b : Block) : Bytes :=
  Graph.blockName id ++ bytes "\\l" ++
    b.code.flatMap fun i => Bytes.ofInt i.line ++ bytes ": " ++ i.text ++ bytes "\\l"

def node (reachable : List Nat) (id : Nat) (b : Block) : Bytes :=
  let style := if id ∈ reachable then [] else bytes ", style=dashed"
  bytes "    n" ++ Bytes.ofNat id ++ bytes " [label=\"" ++ escape (label id b) ++ bytes "\"" ++ style ++ bytes "];\n"

def cluster (g : Graph) (reachable : List Nat) (index : Nat) (function : Bytes) : Bytes :=
  let nodes := g.blocks.zipIdx.filter fun (b, _) => b.function = function
  bytes "  subgraph cluster_" ++ Bytes.ofNat index ++ bytes " \x7b\n    label=\"" ++ escape function ++ bytes "\";\n" ++
    (nodes.flatMap fun (b, id) => node reachable id b) ++ bytes "  \x7d\n"

def edge (g : Graph) (source target : Nat) : Bytes :=
  let same := (g.blocks[source]?).map (·.function) = (g.blocks[target]?).map (·.function)
  bytes "  n" ++ Bytes.ofNat source ++ bytes " -> n" ++ Bytes.ofNat target ++
    (if same then [] else bytes " [style=dotted]") ++ bytes ";\n"

def heading (title : Bytes) : Bytes :=
  if title = [] then [] else bytes "  labelloc=\"t\";\n  label=\"" ++ escape title ++ bytes "\";\n"

end Dot

namespace Graph

def dot (g : Graph) (title : Bytes) : Bytes :=
  let reachable := g.reachable
  bytes "digraph CFG \x7b\n  node [shape=box, fontname=\"monospace\"];\n" ++ Dot.heading title ++
    (g.functions.zipIdx.flatMap fun (function, index) => Dot.cluster g reachable index function) ++
    (g.ids.flatMap fun id => (g.succs id).flatMap (Dot.edge g id)) ++ bytes "\x7d\n"

end Graph

end Deadwood

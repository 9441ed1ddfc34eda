import Mathlib.Data.List.Perm.Basic
import Deadwood.Proofs.Flow.TailCalls
import Deadwood.Proofs.Report.Lexing

/-!
What a reader finds in the drawing of a graph. Names never close a text early. A title does where it has a quote, or
its end, behind an odd number of backslashes, and a block does where an operand has such a quote. Apart from these the
drawing declares each block once as a node, and each edge once.
-/

namespace Deadwood

theorem flatMap_filter_perm {α β : Type} [DecidableEq β] (key : α → β) {keys : List β} (distinct : keys.Nodup)
    {list : List α} (covered : ∀ a ∈ list, key a ∈ keys) :
    (keys.flatMap fun k => list.filter (key · = k)).Perm list := by
  induction keys generalizing list with
  | nil =>
      have empty : list = [] := List.eq_nil_iff_forall_not_mem.2 fun a member => List.not_mem_nil (covered a member)
      rw [empty, List.flatMap_nil]
  | cons k keys ih =>
      obtain ⟨fresh, distinct⟩ := List.nodup_cons.1 distinct
      have others : ∀ a ∈ list.filter (fun a => !decide (key a = k)), key a ∈ keys := by
        intro a member
        obtain ⟨present, differs⟩ := List.mem_filter.1 member
        exact (List.mem_cons.1 (covered a present)).resolve_left (by simpa using differs)
      have same : (keys.flatMap fun k => list.filter (key · = k)) =
          keys.flatMap fun k' => (list.filter (fun a => !decide (key a = k))).filter (key · = k') := by
        refine List.flatMap_congr fun k' later => ?_
        rw [List.filter_filter]
        refine List.filter_congr fun a _ => ?_
        by_cases here : key a = k'
        · have differs : k' ≠ k := fun equal => fresh (equal ▸ later)
          simp [here, differs]
        · simp [here]
      rw [List.flatMap_cons, same]
      exact ((ih distinct others).append_left _).trans (List.filter_append_perm _ list)

namespace Dot

/-- Read outside of quotes, this makes up whole statements, with these quoted texts in them, which declare these nodes
and these edges. -/
def Draws (s : Bytes) (texts nodes : List Bytes) (edges : List (Bytes × Bytes)) : Prop :=
  ∃ tokens found, (Reading.outside []).run s = (.outside [], tokens) ∧
    (∀ rest, statements (tokens ++ rest) = found ++ statements rest) ∧
    found.flatten.filterMap Token.text? = texts ∧ found.filterMap node? = nodes ∧ found.filterMap edge? = edges

namespace Draws

variable {s t : Bytes} {texts texts' nodes nodes' : List Bytes} {edges edges' : List (Bytes × Bytes)}

theorem nil : Draws [] [] [] [] := ⟨[], [], rfl, fun _ => rfl, rfl, rfl, rfl⟩

theorem append (first : Draws s texts nodes edges) (second : Draws t texts' nodes' edges') :
    Draws (s ++ t) (texts ++ texts') (nodes ++ nodes') (edges ++ edges') := by
  obtain ⟨tokens, found, read, cut, rfl, rfl, rfl⟩ := first
  obtain ⟨tokens', found', read', cut', rfl, rfl, rfl⟩ := second
  refine ⟨tokens ++ tokens', found ++ found', Reading.run_trans read read', ?_, ?_, List.filterMap_append,
    List.filterMap_append⟩
  · intro rest
    rw [List.append_assoc, cut, cut', List.append_assoc]
  · rw [List.flatten_append, List.filterMap_append]

section

variable {α : Type} {list : List α} {text : α → Bytes} {texts nodes : α → List Bytes} {edges : α → List (Bytes × Bytes)}

theorem flatMap (each : ∀ a ∈ list, Draws (text a) (texts a) (nodes a) (edges a)) :
    Draws (list.flatMap text) (list.flatMap texts) (list.flatMap nodes) (list.flatMap edges) := by
  induction list with
  | nil => exact nil
  | cons a list ih =>
      obtain ⟨first, rest⟩ := List.forall_mem_cons.1 each
      simp only [List.flatMap_cons]
      exact first.append (ih rest)

theorem flatMap_nodes (each : ∀ a ∈ list, Draws (text a) (texts a) (nodes a) []) :
    Draws (list.flatMap text) (list.flatMap texts) (list.flatMap nodes) [] := by
  have none : (list.flatMap fun _ => ([] : List (Bytes × Bytes))) = [] := by simp
  exact none ▸ flatMap each

theorem flatMap_edges (each : ∀ a ∈ list, Draws (text a) [] [] (edges a)) :
    Draws (list.flatMap text) [] [] (list.flatMap edges) := by
  have none : (list.flatMap fun _ => ([] : List Bytes)) = [] := by simp
  have whole := flatMap each
  rwa [none] at whole

end

theorem read_back (draws : Draws s texts nodes edges) :
    ∃ found, statements? s = some found ∧ found.flatten.filterMap Token.text? = texts ∧
      found.filterMap node? = nodes ∧ found.filterMap edge? = edges := by
  obtain ⟨tokens, found, read, cut, rfl, rfl, rfl⟩ := draws
  have lexed : lex s = some (tokens ++ []) := by rw [lex, read]; rfl
  have empty : statements [] = [[]] := rfl
  refine ⟨found ++ [[]], ?_, ?_, ?_, ?_⟩
  · rw [statements?, lexed, Option.map_some, cut, empty]
  · rw [List.flatten_append, List.filterMap_append]
    exact List.append_nil _
  · rw [List.filterMap_append]
    exact List.append_nil _
  · rw [List.filterMap_append]
    exact List.append_nil _

end Draws

def nodeName (id : Nat) : Bytes := 110 :: Bytes.ofNat id

def blocksOf (g : Graph) (function : Bytes) : List (Block × Nat) :=
  g.blocks.zipIdx.filter fun (b, _) => b.function = function

def nodesOf (g : Graph) (function : Bytes) : List Bytes := (blocksOf g function).map fun (_, id) => nodeName id

def textsOf (g : Graph) (function : Bytes) : List Bytes :=
  escape function :: (blocksOf g function).map fun (b, id) => escape (label id b)

def titlesOf (title : Bytes) : List Bytes :=
  bytes "monospace" :: if title = [] then [] else [bytes "t", escape title]

def edgesOf (g : Graph) : List (Bytes × Bytes) :=
  g.ids.flatMap fun id => (g.succs id).map fun next => (nodeName id, nodeName next)

theorem isInk_ofNat (n : Nat) : ∀ b ∈ Bytes.ofNat n, isInk b = true := by
  intro b member
  simp [isInk, Bytes.isWord, Bytes.isDigit_ofNat n b member]

theorem name?_nodeName (id : Nat) : (Token.word (nodeName id)).name? = some (nodeName id) := by
  have letters : ∀ s ∈ Token.keywords, ∀ b ∈ s, Bytes.isDigit b = false := by decide +kernel
  obtain ⟨d, rest, digits⟩ := List.exists_cons_of_ne_nil (Bytes.ofNat_ne_nil id)
  have digit : Bytes.isDigit d = true := Bytes.isDigit_ofNat id d (by simp [digits])
  have low : Bytes.lowerByte d = d := by
    rw [Bytes.lowerByte, if_neg]
    simp only [Bytes.isDigit, Bool.and_eq_true, decide_eq_true_eq, not_and, UInt8.not_le] at digit ⊢
    intro large
    exact absurd (UInt8.le_trans large digit.2) (by decide)
  have absent : Token.keywords.contains (nodeName id).lower ≠ true := by
    intro keyword
    have plain := letters _ (List.contains_iff_mem.1 keyword) d (by simp [nodeName, digits, Bytes.lower, low])
    exact Bool.false_ne_true (plain.symm.trans digit)
  rw [Token.name?, if_neg absent]

theorem node?_nodeName (id : Nat) (rest : List Token) :
    node? (.word (nodeName id) :: .mark 91 :: rest) = some (nodeName id) := name?_nodeName id

theorem edge?_nodeName (source target : Nat) (rest : List Token) :
    edge? (.word (nodeName source) :: .mark 45 :: .mark 62 :: .word (nodeName target) :: rest) =
      some (nodeName source, nodeName target) := by
  simp only [edge?, name?_nodeName, Option.bind_eq_bind, Option.bind_some]
  rfl

namespace Reading

variable {here there : Reading} {s t : Bytes} {found more : List Token}

theorem run_number (word : Bytes) (first : here.run s = (.outside word, found)) (n : Nat) :
    here.run (s ++ Bytes.ofNat n) = (.outside (word ++ Bytes.ofNat n), found) := by
  have joined := run_trans first (run_ink (isInk_ofNat n) word)
  rwa [List.append_nil] at joined

theorem run_quoted (first : here.run s = (.inside [], found)) (closes : Closes t) (rest : Bytes)
    (later : (outside []).run rest = (there, more)) :
    here.run (s ++ escape t ++ 34 :: rest) = (there, found ++ [.text (escape t)] ++ more) := by
  have joined := run_trans (run_trans first closes) later
  simpa only [List.append_assoc, List.singleton_append] using joined

end Reading

theorem draws_title {title : Bytes} (closes : Closes title) :
    Draws (bytes "  labelloc=\"t\";\n  label=\"" ++ escape title ++ bytes "\";\n") [bytes "t", escape title] []
      [] := by
  have opened : (Reading.outside []).run (bytes "  labelloc=\"t\";\n  label=\"") = (.inside [],
      [.word (bytes "labelloc"), .mark 61, .text (bytes "t"), .mark 59, .word (bytes "label"), .mark 61]) := rfl
  have read := Reading.run_quoted opened closes (bytes ";\n") rfl
  exact ⟨_, [[.word (bytes "labelloc"), .mark 61, .text (bytes "t")],
    [.word (bytes "label"), .mark 61, .text (escape title)]], read, fun _ => rfl, rfl, rfl, rfl⟩

theorem draws_titles {title : Bytes} (closes : title ≠ [] → Closes title) :
    Draws (bytes "digraph CFG \x7b\n  node [shape=box, fontname=\"monospace\"];\n" ++ heading title) (titlesOf title)
      [] [] := by
  have opening : Draws (bytes "digraph CFG \x7b\n  node [shape=box, fontname=\"monospace\"];\n") [bytes "monospace"]
      [] [] := by
    exact ⟨_, [[.word (bytes "digraph"), .word (bytes "CFG")],
      [.word (bytes "node"), .mark 91, .word (bytes "shape"), .mark 61, .word (bytes "box"), .mark 44,
        .word (bytes "fontname"), .mark 61, .text (bytes "monospace"), .mark 93]], rfl, fun _ => rfl, rfl, rfl, rfl⟩
  have titles : Draws (heading title) (if title = [] then [] else [bytes "t", escape title]) [] [] := by
    rw [heading]
    split
    · exact .nil
    · exact draws_title (closes ‹_›)
  exact opening.append titles

theorem draws_node (reachable : List Nat) (id : Nat) {b : Block} (closes : Closes (label id b)) :
    Draws (node reachable id b) [escape (label id b)] [nodeName id] [] := by
  have named : (Reading.outside []).run (bytes "    n" ++ Bytes.ofNat id) = (.outside (nodeName id), []) :=
    Reading.run_number [110] rfl id
  have opened : (Reading.outside (nodeName id)).run (bytes " [label=\"") =
      (.inside [], [.word (nodeName id), .mark 91, .word (bytes "label"), .mark 61]) := rfl
  have read := Reading.run_quoted (Reading.run_trans named opened) closes [] rfl
  rw [node]
  split
  · exact ⟨_, [_], Reading.run_trans (Reading.run_trans read rfl) rfl, fun _ => rfl, rfl,
      List.filterMap_cons_some (node?_nodeName id _), rfl⟩
  · exact ⟨_, [_], Reading.run_trans (Reading.run_trans read rfl) rfl, fun _ => rfl, rfl,
      List.filterMap_cons_some (node?_nodeName id _), rfl⟩

theorem draws_cluster (g : Graph) (reachable : List Nat) (index : Nat) {function : Bytes} (named : Closes function)
    (closes : ∀ id b, g.blocks[id]? = some b → Closes (label id b)) :
    Draws (cluster g reachable index function) (textsOf g function) (nodesOf g function) [] := by
  have numbered : (Reading.outside []).run (bytes "  subgraph cluster_" ++ Bytes.ofNat index) =
      (.outside (bytes "cluster_" ++ Bytes.ofNat index), [.word (bytes "subgraph")]) :=
    Reading.run_number (bytes "cluster_") rfl index
  have opened : (Reading.outside (bytes "cluster_" ++ Bytes.ofNat index)).run (bytes " \x7b\n    label=\"") =
      (.inside [], [.word (bytes "cluster_" ++ Bytes.ofNat index), .mark 123, .word (bytes "label"), .mark 61]) := rfl
  have read := Reading.run_quoted (Reading.run_trans numbered opened) named (bytes ";\n") rfl
  have head : Draws (bytes "  subgraph cluster_" ++ Bytes.ofNat index ++ bytes " \x7b\n    label=\"" ++
      escape function ++ bytes "\";\n") [escape function] [] [] := ⟨_, [_, _], read, fun _ => rfl, rfl, rfl, rfl⟩
  have each : ∀ place ∈ blocksOf g function,
      Draws (node reachable place.2 place.1) [escape (label place.2 place.1)] [nodeName place.2] [] := by
    intro place member
    exact draws_node reachable place.2 (closes _ _ (List.mem_zipIdx_iff_getElem?.1 (List.mem_of_mem_filter member)))
  have brace : Draws (bytes "  \x7d\n") [] [] [] := ⟨_, [[]], rfl, fun _ => rfl, rfl, rfl, rfl⟩
  have whole := (head.append (Draws.flatMap_nodes each)).append brace
  rwa [List.nil_append, List.append_nil, List.append_nil, ← List.map_eq_flatMap, ← List.map_eq_flatMap] at whole

theorem draws_edge (g : Graph) (source target : Nat) :
    Draws (edge g source target) [] [] [(nodeName source, nodeName target)] := by
  have first : (Reading.outside []).run (bytes "  n" ++ Bytes.ofNat source) = (.outside (nodeName source), []) :=
    Reading.run_number [110] rfl source
  have arrow : (Reading.outside (nodeName source)).run (bytes " -> n") =
      (.outside [110], [.word (nodeName source), .mark 45, .mark 62]) := rfl
  have read := Reading.run_number [110] (Reading.run_trans first arrow) target
  rw [edge]
  split
  · exact ⟨_, [_], Reading.run_trans (Reading.run_trans read rfl) rfl, fun _ => rfl, rfl, rfl,
      List.filterMap_cons_some (edge?_nodeName source target _)⟩
  · exact ⟨_, [_], Reading.run_trans (Reading.run_trans read rfl) rfl, fun _ => rfl, rfl, rfl,
      List.filterMap_cons_some (edge?_nodeName source target _)⟩

theorem draws_dot {g : Graph} {title : Bytes} (titled : title ≠ [] → Closes title)
    (named : ∀ name ∈ g.functions, Closes name) (closes : ∀ id b, g.blocks[id]? = some b → Closes (label id b)) :
    Draws (g.dot title) (titlesOf title ++ g.functions.flatMap (textsOf g)) (g.functions.flatMap (nodesOf g))
      (edgesOf g) := by
  have clusters : Draws (g.functions.zipIdx.flatMap fun place => cluster g g.reachable place.2 place.1)
      (g.functions.zipIdx.flatMap fun place => textsOf g place.1)
      (g.functions.zipIdx.flatMap fun place => nodesOf g place.1) [] := by
    refine .flatMap_nodes fun place member => ?_
    have listed : place.1 ∈ g.functions := List.mem_of_getElem? (List.mem_zipIdx_iff_getElem?.1 member)
    exact draws_cluster g g.reachable place.2 (named place.1 listed) closes
  have edges : Draws (g.ids.flatMap fun id => (g.succs id).flatMap (edge g id)) [] [] (edgesOf g) := by
    refine .flatMap_edges fun id _ => ?_
    rw [List.map_eq_flatMap]
    exact .flatMap_edges fun next _ => draws_edge g id next
  have brace : Draws (bytes "\x7d\n") [] [] [] := ⟨_, [[]], rfl, fun _ => rfl, rfl, rfl, rfl⟩
  have whole := (((draws_titles titled).append clusters).append edges).append brace
  rw [← List.flatMap_map Prod.fst (nodesOf g), ← List.flatMap_map Prod.fst (textsOf g), List.zipIdx_map_fst] at whole
  simp only [List.nil_append, List.append_nil] at whole
  exact whole

theorem nodesOf_perm (g : Graph) : (g.functions.flatMap (nodesOf g)).Perm (g.ids.map nodeName) := by
  have covered : ∀ place ∈ g.blocks.zipIdx, place.1.function ∈ g.functions := by
    intro place member
    exact Graph.mem_functions_iff.2 ⟨_, List.mem_of_getElem? (List.mem_zipIdx_iff_getElem?.1 member), rfl⟩
  have grouped := (flatMap_filter_perm (fun place : Block × Nat => place.1.function) g.functions_nodup covered).map
    (nodeName ∘ Prod.snd)
  have numbered : g.blocks.zipIdx.map (nodeName ∘ Prod.snd) = g.ids.map nodeName := by
    rw [← List.map_map, List.zipIdx_map_snd, Graph.ids, List.range_eq_range', Graph.size]
  rw [numbered, List.map_flatMap] at grouped
  exact grouped

theorem EvenQuotes.of_isName {name : Bytes} (named : name.IsName) : EvenQuotes name :=
  .of_not_mem (named.not_mem rfl)

theorem closes_of_isName {name : Bytes} (named : name.IsName) : Closes name := by
  refine closes_iff.2 ⟨.of_isName named, ?_⟩
  have last : name.getLast? = some (name.getLast named.ne_nil) := List.getLast?_eq_some_getLast named.ne_nil
  have differs : name.getLast named.ne_nil ≠ 92 := by
    intro same
    exact named.not_mem (b := 92) rfl (same ▸ List.getLast_mem named.ne_nil)
  rw [backslashes_of_getLast? last differs]
  exact Even.zero

theorem evenQuotes_text {i : Instruction} (legible : i.Legible) :
    EvenQuotes i.text ↔ ∀ o ∈ i.operands, EvenQuotes o.name := by
  cases legible with
  | @label name line named =>
      have plain : EvenQuotes (Instruction.text ⟨.label, [⟨.label, name⟩], line⟩) :=
        (evenQuotes_append_plain (by decide)).2 (.of_isName named)
      simp [plain, EvenQuotes.of_isName named]
  | @operation op names arrays line defined operates =>
      have mnemonic : EvenQuotes op.mnemonic := .of_isName (Opcode.mnemonic_isName defined)
      rw [Instruction.text_of_ne_label operates, evenQuotes_join, List.forall_mem_cons, List.forall_mem_map]
      exact and_iff_right mnemonic

def line (i : Instruction) : Bytes := Bytes.ofInt i.line ++ bytes ": " ++ i.text ++ bytes "\\l"

theorem backslashes_lineEnd (s : Bytes) : backslashes (s ++ bytes "\\l") = 0 :=
  backslashes_of_getLast? (b := 108) (List.getLast?_append_of_ne_nil s (by decide)) (by decide)

theorem evenQuotes_line {i : Instruction} : EvenQuotes (line i) ↔ EvenQuotes i.text := by
  have number : 34 ∉ Bytes.ofInt i.line ++ bytes ": " := by
    rw [List.mem_append, not_or]
    refine ⟨fun member => ?_, by decide⟩
    rcases (Bytes.ofInt_cases i.line).2 34 member with digit | sign
    · cases digit
    · cases sign
  have space : backslashes (Bytes.ofInt i.line ++ bytes ": ") = 0 :=
    backslashes_of_getLast? (b := 32) (List.getLast?_append_of_ne_nil _ (by decide)) (by decide)
  rw [line, evenQuotes_append_plain (by decide), evenQuotes_append space]
  exact and_iff_right (.of_not_mem number)

theorem closes_label_iff {id : Nat} {b : Block} :
    Closes (label id b) ↔ ∀ i ∈ b.code, EvenQuotes i.text := by
  have head : backslashes (Graph.blockName id ++ bytes "\\l") = 0 := backslashes_lineEnd _
  have plain : EvenQuotes (Graph.blockName id ++ bytes "\\l") := by
    have named : (Graph.blockName id).IsName := by
      refine ⟨66, Bytes.ofNat id, rfl, rfl, fun b member => ?_⟩
      rw [Bytes.isWord, Bytes.isDigit_ofNat id b member, Bool.or_true]
    exact (evenQuotes_append_plain (by decide)).2 (.of_isName named)
  have lines : ∀ i ∈ b.code, backslashes (line i) = 0 := fun i _ => backslashes_lineEnd _
  have finish : backslashes (label id b) = 0 := by
    rw [label, backslashes_append head]
    exact backslashes_flatMap lines
  have quotes : EvenQuotes (label id b) ↔ ∀ i ∈ b.code, EvenQuotes (line i) := by
    rw [label, evenQuotes_append head]
    exact (and_iff_right plain).trans (evenQuotes_flatMap lines)
  rw [closes_iff, finish, quotes]
  simp only [evenQuotes_line, Even.zero, and_true]

end Dot

namespace Graph

variable {source entry : Bytes} {intrinsics : List Bytes} {p : Program} {g : Graph}

/-- The quotes around a text are those that were written around it exactly if no quote of a title, nor its end, stands
behind an odd number of backslashes, and no quote in an operand does. Names are always safe. With such texts a
drawing is read back with these texts and no other, with one node for each block and with one edge for each pair of a
block and a successor. -/
theorem dot_statements (read : Program.read source = .ok p) (built : build intrinsics entry p = .ok g) (title : Bytes) :
    (∀ name ∈ g.functions, Dot.Closes name) ∧
      (Dot.Closes title ↔ Dot.EvenQuotes title ∧ Even (Dot.backslashes title)) ∧
      (∀ id b, g.blocks[id]? = some b →
        (Dot.Closes (Dot.label id b) ↔ ∀ i ∈ b.code, ∀ o ∈ i.operands, Dot.EvenQuotes o.name)) ∧
      ((title ≠ [] → Dot.Closes title) → (∀ id b, g.blocks[id]? = some b → Dot.Closes (Dot.label id b)) →
        ∃ found, Dot.statements? (g.dot title) = some found ∧
          found.flatten.filterMap Dot.Token.text? = Dot.titlesOf title ++ g.functions.flatMap (Dot.textsOf g) ∧
          (found.filterMap Dot.node?).Perm (g.ids.map Dot.nodeName) ∧ found.filterMap Dot.edge? = Dot.edgesOf g) := by
  obtain ⟨wires, built⟩ := exists_wires built
  have legible := Program.legible_of_read read
  have named : ∀ name ∈ g.functions, Dot.Closes name := by
    intro name listed
    obtain ⟨b, member, rfl⟩ := mem_functions_iff.1 listed
    obtain ⟨f, function, same, _⟩ := built.function_of_block member
    exact same ▸ Dot.closes_of_isName (legible f function).name
  refine ⟨named, Dot.closes_iff, ?_, ?_⟩
  · intro id b place
    obtain ⟨f, function, _, within⟩ := built.function_of_block (List.mem_of_getElem? place)
    rw [Dot.closes_label_iff]
    exact forall₂_congr fun i member => Dot.evenQuotes_text ((legible f function).body i (within i member))
  · intro titled closes
    obtain ⟨found, read, texts, nodes, edges⟩ := (Dot.draws_dot titled named closes).read_back
    exact ⟨found, read, texts, nodes ▸ Dot.nodesOf_perm g, edges⟩

def turnText : Bytes := bytes "#start_function\nvoid m():\nL:\ngoto, L\n#end_function\n"

def turn : Program := ⟨[
  { name := [109], returnType := [118, 111, 105, 100], body := [
      ⟨.label, [⟨.label, [76]⟩], 3⟩, ⟨.goto, [⟨.label, [76]⟩], 4⟩] }]⟩

def turnGraph : Graph where
  blocks := [⟨[109], ⟨.label, [⟨.label, [76]⟩], 3⟩, [⟨.goto, [⟨.label, [76]⟩], 4⟩]⟩]
  entry := 0
  edges := [(0, 0)]
  exits := [([109], 0)]

/-- A title that is a single backslash takes along the quote behind it, and no statement of the drawing is found. -/
theorem lone_backslash_leaves_text_open :
    Program.read turnText = .ok turn ∧ build [] [109] turn = .ok turnGraph ∧ ¬Dot.Closes [92] ∧
      Dot.statements? (turnGraph.dot [92]) = none ∧ ∃ found, Dot.statements? (turnGraph.dot []) = some found ∧
        found.flatten.filterMap Dot.Token.text? =
          [bytes "monospace", [109], bytes "B0\\l3: L:\\l4: goto, L\\l"] ∧
        (found.filterMap Dot.node?).Perm [[110, 48]] ∧ found.filterMap Dot.edge? = [([110, 48], [110, 48])] := by
  have read : Program.read turnText = .ok turn := by decide +kernel
  have built : build [] [109] turn = .ok turnGraph := by cbv
  have functions : turnGraph.functions = [[109]] := by cbv
  have lost : Dot.statements? (turnGraph.dot [92]) = none := by
    have reachable : turnGraph.reachable = [0] := by cbv
    rw [dot, reachable, functions]
    decide +kernel
  have texts : Dot.titlesOf [] ++ turnGraph.functions.flatMap (Dot.textsOf turnGraph) =
      [bytes "monospace", [109], bytes "B0\\l3: L:\\l4: goto, L\\l"] := by
    rw [functions]
    decide +kernel
  have nodes : turnGraph.ids.map Dot.nodeName = [[110, 48]] := by cbv
  have edges : Dot.edgesOf turnGraph = [([110, 48], [110, 48])] := by cbv
  refine ⟨read, built, ?_, lost, ?_⟩
  · intro closes
    have even := ((dot_statements read built [92]).2.1.1 closes).2
    revert even
    decide
  · obtain ⟨_, _, blocks, statements⟩ := dot_statements read built []
    rw [texts, nodes, edges] at statements
    refine statements (fun given => absurd rfl given) fun id b place => (blocks id b place).2 ?_
    have plain : ∀ b ∈ turnGraph.blocks, ∀ i ∈ b.code, ∀ o ∈ i.operands, 34 ∉ o.name := by decide
    exact fun i code o operand => .of_not_mem (plain b (List.mem_of_getElem? place) i code o operand)

end Graph

end Deadwood

import Deadwood.Proofs.Flow.Edges
import Mathlib.Data.List.Chain

/-!
Control flow between instructions. `Graph.Next` relates an instruction to those that may follow it in the graph. The
graph of a program covers what the program can do: falling through, jumping, calling, and coming back from a call,
also out of a function that was called last by another.
-/

namespace Deadwood

namespace Graph

/-- What may follow an instruction: its neighbour in the block, or the first of a block that its own leads to. -/
inductive Next (g : Graph) : Instruction → Instruction → Prop
  | within {b : Block} {front back : List Instruction} {i j : Instruction} :
      b ∈ g.blocks → b.code = front ++ i :: j :: back → Next g i j
  | across {k l : Nat} {b c : Block} :
      g.blocks[k]? = some b → g.blocks[l]? = some c → l ∈ g.succs k → Next g b.last c.leader

theorem mem_succs_iff {g : Graph} {k l : Nat} : l ∈ g.succs k ↔ (k, l) ∈ g.edges := by
  simp [succs]

theorem mem_preds_iff {g : Graph} {k l : Nat} : k ∈ g.preds l ↔ (k, l) ∈ g.edges := by
  simp [preds]

/-- A graph that was built from a program, and the wires it has its edges from. -/
structure BuiltFrom (intrinsics : List Bytes) (p : Program) (wires : List Wire) (g : Graph) : Prop where
  distinct : p.Distinct
  blocks : g.blocks = p.blocks intrinsics
  wired : Wiring.wiresFrom intrinsics g.blocks 0 g.blocks = .ok wires
  edges : g.edges = Deadwood.distinct (Wiring.edgesFrom [] wires ++ Wiring.tailEdges wires g.functions)
  exits : g.exits = Wiring.exits wires

theorem exists_wires {intrinsics : List Bytes} {entry : Bytes} {p : Program} {g : Graph}
    (built : build intrinsics entry p = .ok g) : ∃ wires, g.BuiltFrom intrinsics p wires := by
  rw [build] at built
  split at built
  · cases built
  · obtain ⟨_, accepted, built⟩ := Except.bind_eq_ok.1 built
    obtain ⟨wires, wired, built⟩ := Except.bind_eq_ok.1 built
    split at built
    · cases built
    · cases built
      exact ⟨wires, p.distinct_of_scan accepted, rfl, wired, rfl, rfl⟩

theorem mem_functions_iff {g : Graph} {name : Bytes} : name ∈ g.functions ↔ ∃ b ∈ g.blocks, b.function = name := by
  rw [functions, Bytes.mem_sorted, mem_distinct, List.mem_map]

end Graph

def Wire.ids : Wire → List Nat
  | .jump source target => [source, target]
  | .exit _ block | .resume _ block => [block]
  | .tail _ _ => []

theorem Opcode.isJump_iff {op : Opcode} : op.isJump = true ↔ op = .goto ∨ ∃ test, op = .branch test := by
  cases op <;> simp [isJump]

namespace Wiring

variable {intrinsics : List Bytes} {blocks : List Block} {id : Nat} {b : Block} {here : List Wire}

theorem target_eq_ok {label : Nat} (found : target blocks b = .ok label) :
    ∃ name c, b.last.target? = some name ∧ blocks[label]? = some c ∧ c.function = b.function ∧
      c.leader.op = .label ∧ c.leader.labelName = name := by
  rw [target] at found
  split at found
  · cases found
  · rename_i name named
    split at found
    · cases found
    · rename_i place located
      cases found
      obtain ⟨bound, good, -⟩ := List.findIdx?_eq_some_iff_getElem.1 located
      simp only [Bool.and_eq_true, decide_eq_true_eq] at good
      exact ⟨name, blocks[label], named, List.getElem?_eq_getElem bound, good.1.1, good.1.2, good.2⟩

theorem leave_of_goto (op : b.last.op = .goto) :
    leave intrinsics blocks id b = (target blocks b).map fun label =>
      if (follower? blocks id b).isNone && !returns blocks b.function then [.jump id label, .exit b.function id]
      else [.jump id label] := by
  simp only [leave, op]
  cases target blocks b with
  | error e => rfl
  | ok label =>
      simp only [bind, Except.bind, Except.map]
      split <;> rfl

theorem leave_of_branch {test : Comparison} (op : b.last.op = .branch test) :
    leave intrinsics blocks id b = target blocks b >>= fun label =>
      match follower? blocks id b with
      | none => .error (.dangling b.last.line .fallThrough)
      | some next => .ok [.jump id label, .jump id next] := by
  simp only [leave, op]
  rfl

theorem leave_goto (op : b.last.op = .goto) (leaves : leave intrinsics blocks id b = .ok here) :
    ∃ label, target blocks b = .ok label ∧
      here = if (follower? blocks id b).isNone && !returns blocks b.function then
        [.jump id label, .exit b.function id] else [.jump id label] := by
  rw [leave_of_goto op] at leaves
  rcases Except.map_eq_ok.1 leaves with ⟨label, found, rfl⟩
  exact ⟨label, found, rfl⟩

theorem leave_branch {test : Comparison} (op : b.last.op = .branch test)
    (leaves : leave intrinsics blocks id b = .ok here) :
    ∃ label next, target blocks b = .ok label ∧ follower? blocks id b = some next ∧
      here = [.jump id label, .jump id next] := by
  rw [leave_of_branch op] at leaves
  rcases Except.bind_eq_ok.1 leaves with ⟨label, found, leaves⟩
  split at leaves
  · cases leaves
  · rename_i next following
    cases leaves
    exact ⟨label, next, found, following, rfl⟩

theorem leave_ret (op : b.last.op = .ret) (leaves : leave intrinsics blocks id b = .ok here) :
    here = [.exit b.function id] := by
  simp only [leave, op] at leaves
  cases leaves
  rfl

theorem leave_other (jumps : b.last.op.isJump = false) (returns : b.last.op ≠ .ret) :
    leave intrinsics blocks id b =
      match b.last.userCall? intrinsics with
      | some callee =>
        match blocks.findIdx? (·.function = callee) with
        | none => throw (.dangling b.last.line (.function callee))
        | some entry =>
          match follower? blocks id b with
          | some next => .ok [.jump id entry, .resume callee next]
          | none => .ok [.jump id entry, .tail b.function callee]
      | none =>
        match follower? blocks id b with
        | some next => .ok [.jump id next]
        | none => .ok [.exit b.function id] := by
  unfold leave
  cases op : b.last.op with
  | goto => simp [op, Opcode.isJump] at jumps
  | branch test => simp [op, Opcode.isJump] at jumps
  | ret => exact (returns op).elim
  | _ => rfl

theorem not_jump_of_userCall {i : Instruction} {callee : Bytes} (call : i.userCall? intrinsics = some callee) :
    i.op.isJump = false ∧ i.op ≠ .ret := by
  rcases Instruction.call_of_userCall call with op | op <;> simp [op, Opcode.isJump]

theorem leave_call {callee : Bytes} (call : b.last.userCall? intrinsics = some callee)
    (leaves : leave intrinsics blocks id b = .ok here) :
    ∃ entry, blocks.findIdx? (·.function = callee) = some entry ∧
      here = match follower? blocks id b with
        | some next => [.jump id entry, .resume callee next]
        | none => [.jump id entry, .tail b.function callee] := by
  obtain ⟨jumps, returns⟩ := not_jump_of_userCall call
  rw [leave_other jumps returns, call] at leaves
  dsimp only at leaves
  split at leaves
  · cases leaves
  · rename_i entry found
    refine ⟨entry, found, ?_⟩
    split at leaves <;> rename_i following <;> cases leaves <;> simp

theorem leave_plain (open' : b.last.closes intrinsics = false) (leaves : leave intrinsics blocks id b = .ok here) :
    here = match follower? blocks id b with
      | some next => [.jump id next]
      | none => [.exit b.function id] := by
  simp only [Instruction.closes, Bool.or_eq_false_iff, decide_eq_false_iff_not, Option.isSome_eq_false_iff,
    Option.isNone_iff_eq_none] at open'
  obtain ⟨⟨jumps, returns⟩, call⟩ := open'
  rw [leave_other jumps returns, call] at leaves
  dsimp only at leaves
  split at leaves <;> cases leaves <;> rfl

theorem ending_cases (intrinsics : List Bytes) (i : Instruction) :
    i.op = .goto ∨ (∃ test, i.op = .branch test) ∨ i.op = .ret ∨ (∃ callee, i.userCall? intrinsics = some callee) ∨
      i.closes intrinsics = false := by
  cases call : i.userCall? intrinsics with
  | some callee => exact .inr (.inr (.inr (.inl ⟨callee, rfl⟩)))
  | none => cases op : i.op <;> simp [Instruction.closes, Opcode.isJump, op, call]

theorem wire_cases {wire : Wire} (leaves : leave intrinsics blocks id b = .ok here) (member : wire ∈ here) :
    (∃ target, wire = .jump id target) ∨ wire = .exit b.function id ∨
      ∃ callee entry, b.last.userCall? intrinsics = some callee ∧
        blocks.findIdx? (·.function = callee) = some entry ∧
          ((∃ next, follower? blocks id b = some next ∧ wire = .resume callee next) ∨
            follower? blocks id b = none ∧ wire = .tail b.function callee) := by
  rcases ending_cases intrinsics b.last with op | ⟨test, op⟩ | op | ⟨callee, call⟩ | plain
  · obtain ⟨label, _, rfl⟩ := leave_goto op leaves
    split at member
    · simp only [List.mem_cons, List.not_mem_nil, or_false] at member
      rcases member with rfl | rfl
      · exact .inl ⟨label, rfl⟩
      · exact .inr (.inl rfl)
    · exact .inl ⟨label, List.mem_singleton.1 member⟩
  · obtain ⟨label, next, _, _, rfl⟩ := leave_branch op leaves
    simp only [List.mem_cons, List.not_mem_nil, or_false] at member
    rcases member with rfl | rfl
    · exact .inl ⟨label, rfl⟩
    · exact .inl ⟨next, rfl⟩
  · rw [leave_ret op leaves] at member
    exact .inr (.inl (List.mem_singleton.1 member))
  · obtain ⟨entry, found, rfl⟩ := leave_call call leaves
    split at member <;> rename_i following
    all_goals
      simp only [List.mem_cons, List.not_mem_nil, or_false] at member
      rcases member with rfl | rfl
    · exact .inl ⟨entry, rfl⟩
    · exact .inr (.inr ⟨callee, entry, call, found, .inl ⟨_, following, rfl⟩⟩)
    · exact .inl ⟨entry, rfl⟩
    · exact .inr (.inr ⟨callee, entry, call, found, .inr ⟨following, rfl⟩⟩)
  · rw [leave_plain plain leaves] at member
    split at member
    · exact .inl ⟨_, List.mem_singleton.1 member⟩
    · exact .inr (.inl (List.mem_singleton.1 member))

theorem resume_of_leave {callee : Bytes} {next : Nat} (leaves : leave intrinsics blocks id b = .ok here)
    (member : .resume callee next ∈ here) :
    b.last.userCall? intrinsics = some callee ∧ follower? blocks id b = some next ∧
      ∃ entry, blocks.findIdx? (·.function = callee) = some entry := by
  rcases wire_cases leaves member with ⟨_, same⟩ | same | ⟨_, entry, call, found, ⟨_, following, same⟩ | ⟨_, same⟩⟩ <;>
    cases same
  exact ⟨call, following, entry, found⟩

theorem tail_of_leave {caller callee : Bytes} (leaves : leave intrinsics blocks id b = .ok here)
    (member : .tail caller callee ∈ here) :
    caller = b.function ∧ b.last.userCall? intrinsics = some callee ∧ follower? blocks id b = none ∧
      ∃ entry, blocks.findIdx? (·.function = callee) = some entry := by
  rcases wire_cases leaves member with ⟨_, same⟩ | same | ⟨_, entry, call, found, ⟨_, _, same⟩ | ⟨following, same⟩⟩ <;>
    cases same
  exact ⟨rfl, call, following, entry, found⟩

theorem follower?_eq_some {next : Nat} (following : follower? blocks id b = some next) :
    next = id + 1 ∧ ∃ c, blocks[next]? = some c ∧ c.function = b.function := by
  rw [follower?] at following
  split at following
  · rename_i c found
    split at following
    · rename_i same
      cases following
      exact ⟨rfl, c, found, same⟩
    · cases following
  · cases following

theorem leave_ids (place : blocks[id]? = some b) (leaves : leave intrinsics blocks id b = .ok here) :
    ∀ wire ∈ here, ∀ k ∈ wire.ids, k < blocks.length := by
  have own : id < blocks.length := (List.getElem?_eq_some_iff.1 place).1
  have after {next : Nat} (following : follower? blocks id b = some next) : next < blocks.length := by
    rcases follower?_eq_some following with ⟨_, c, found, _⟩
    exact (List.getElem?_eq_some_iff.1 found).1
  have label {l : Nat} (found : target blocks b = .ok l) : l < blocks.length := by
    rcases target_eq_ok found with ⟨_, c, _, there, _⟩
    exact (List.getElem?_eq_some_iff.1 there).1
  rcases ending_cases intrinsics b.last with op | ⟨test, op⟩ | op | ⟨callee, call⟩ | plain
  · rcases leave_goto op leaves with ⟨l, found, rfl⟩
    split <;> simp [Wire.ids, own, label found]
  · rcases leave_branch op leaves with ⟨l, next, found, following, rfl⟩
    simp [Wire.ids, own, label found, after following]
  · rw [leave_ret op leaves]
    simp [Wire.ids, own]
  · rcases leave_call call leaves with ⟨entry, found, rfl⟩
    have first : entry < blocks.length := (List.findIdx?_eq_some_iff_getElem.1 found).1
    split
    · rename_i next following
      simp [Wire.ids, own, first, after following]
    · simp [Wire.ids, own, first]
  · rw [leave_plain plain leaves]
    split
    · rename_i next following
      simp [Wire.ids, own, after following]
    · simp [Wire.ids, own]

theorem mem_tailEdges {wires : List Wire} {names : List Bytes} {source target : Nat} :
    (source, target) ∈ tailEdges wires names ↔
      ∃ function ∈ names, (∃ callee, TailStep wires function callee) ∧ source ∈ exitsThrough wires names function ∧
        .resume function target ∈ wires := by
  rw [tailEdges, List.mem_flatMap]
  refine exists_congr fun function => and_congr_right fun _ => ?_
  simp only [TailStep, ← Option.isSome_iff_exists]
  split
  · rename_i goesOn
    simp [goesOn]
  · rename_i stays
    simp [stays]

theorem TailStep.mem {wires : List Wire} {caller callee : Bytes} (step : TailStep wires caller callee) :
    .tail caller callee ∈ wires := by
  obtain ⟨first, rest, split, _⟩ := List.lookup_eq_some_iff.1 step
  rw [← mem_tails, split]
  simp

end Wiring

namespace Graph.BuiltFrom

variable {intrinsics : List Bytes} {p : Program} {wires : List Wire} {g : Graph}

theorem mem_wires_iff (built : g.BuiltFrom intrinsics p wires) {wire : Wire} :
    wire ∈ wires ↔
      ∃ k b here, g.blocks[k]? = some b ∧ Wiring.leave intrinsics g.blocks k b = .ok here ∧ wire ∈ here := by
  simpa using Wiring.mem_wiresFrom built.wired

theorem leaves (built : g.BuiltFrom intrinsics p wires) {k : Nat} {b : Block} (place : g.blocks[k]? = some b) :
    ∃ here, Wiring.leave intrinsics g.blocks k b = .ok here ∧ ∀ wire ∈ here, wire ∈ wires := by
  obtain ⟨here, found⟩ := Wiring.leaves_of_wiresFrom built.wired place
  rw [Nat.zero_add] at found
  exact ⟨here, found, fun wire member => built.mem_wires_iff.2 ⟨k, b, here, place, found, member⟩⟩

theorem mem_functions_of_findIdx? {callee : Bytes} {entry : Nat}
    (found : g.blocks.findIdx? (·.function = callee) = some entry) : callee ∈ g.functions := by
  obtain ⟨bound, good, -⟩ := List.findIdx?_eq_some_iff_getElem.1 found
  exact mem_functions_iff.2 ⟨_, List.getElem_mem bound, by simpa using good⟩

theorem resumed_mem_functions (built : g.BuiltFrom intrinsics p wires) {function : Bytes} {block : Nat}
    (member : .resume function block ∈ wires) : function ∈ g.functions := by
  obtain ⟨k, b, here, _, leaves, present⟩ := built.mem_wires_iff.1 member
  obtain ⟨_, _, entry, found⟩ := Wiring.resume_of_leave leaves present
  exact mem_functions_of_findIdx? found

theorem tail_mem_functions (built : g.BuiltFrom intrinsics p wires) (caller callee : Bytes)
    (step : Wiring.TailStep wires caller callee) : callee ∈ g.functions := by
  obtain ⟨k, b, here, _, leaves, present⟩ := built.mem_wires_iff.1 step.mem
  obtain ⟨_, _, _, entry, found⟩ := Wiring.tail_of_leave leaves present
  exact mem_functions_of_findIdx? found

theorem mem_edges_iff (built : g.BuiltFrom intrinsics p wires) {source target : Nat} :
    (source, target) ∈ g.edges ↔
      .jump source target ∈ wires ∨ ∃ function name, Relation.ReflTransGen (Wiring.TailStep wires) function name ∧
        .exit name source ∈ wires ∧ .resume function target ∈ wires := by
  have closed := built.tail_mem_functions
  rw [built.edges, mem_distinct, List.mem_append, Wiring.mem_edgesFrom, Wiring.mem_tailEdges]
  simp only [List.nil_append]
  constructor
  · intro given
    rcases given with (jump | ⟨function, exit, resume, _⟩) | ⟨function, member, _, exit, resume⟩
    · exact .inl jump
    · exact .inr ⟨function, function, .refl, exit, resume⟩
    · obtain ⟨name, reaches, exit⟩ := (Wiring.mem_exitsThrough member closed).1 exit
      exact .inr ⟨function, name, reaches, exit, resume⟩
  · intro given
    rcases given with jump | ⟨function, name, reaches, exit, resume⟩
    · exact .inl (.inl jump)
    · rcases Relation.ReflTransGen.cases_head reaches with rfl | ⟨callee, step, _⟩
      · exact .inl (.inr ⟨function, exit, resume, .inl exit⟩)
      · have member := built.resumed_mem_functions resume
        exact .inr ⟨function, member, ⟨callee, step⟩,
          (Wiring.mem_exitsThrough member closed).2 ⟨name, reaches, exit⟩, resume⟩

theorem wire_ids (built : g.BuiltFrom intrinsics p wires) {wire : Wire} (member : wire ∈ wires) {k : Nat}
    (named : k ∈ wire.ids) : k < g.size := by
  rcases built.mem_wires_iff.1 member with ⟨l, b, here, place, leaves, present⟩
  exact Wiring.leave_ids place leaves wire present k named

theorem edge_bounds (built : g.BuiltFrom intrinsics p wires) {source target : Nat}
    (edge : (source, target) ∈ g.edges) : source < g.size ∧ target < g.size := by
  rcases built.mem_edges_iff.1 edge with jump | ⟨_, _, _, exit, resume⟩
  · exact ⟨built.wire_ids jump (by simp [Wire.ids]), built.wire_ids jump (by simp [Wire.ids])⟩
  · exact ⟨built.wire_ids exit (by simp [Wire.ids]), built.wire_ids resume (by simp [Wire.ids])⟩

theorem mem_blocks_iff (built : g.BuiltFrom intrinsics p wires) {b : Block} :
    b ∈ g.blocks ↔ ∃ f ∈ p.functions, b ∈ f.blocks intrinsics := by
  rw [built.blocks, Program.mem_blocks_iff]

theorem block_eq (built : g.BuiltFrom intrinsics p wires) {k l : Nat} {b c : Block} {i : Instruction}
    (first : g.blocks[k]? = some b) (second : g.blocks[l]? = some c) (inFirst : i ∈ b.code) (inSecond : i ∈ c.code) :
    k = l := by
  rw [built.blocks] at first second
  exact built.distinct.block_eq first second inFirst inSecond

theorem function_eq_of_block (built : g.BuiltFrom intrinsics p wires) {f : Function} {b : Block} {i : Instruction}
    (function : f ∈ p.functions) (body : i ∈ f.body) (block : b ∈ g.blocks) (member : i ∈ b.code) :
    b.function = f.name :=
  built.distinct.function_eq_of_block function body (built.blocks ▸ block) member

theorem exists_place (built : g.BuiltFrom intrinsics p wires) {f : Function} (function : f ∈ p.functions)
    {earlier later : List Block} {b : Block} (split : f.blocks intrinsics = earlier ++ b :: later) :
    ∃ k, g.blocks[k]? = some b ∧ (∀ c rest, later = c :: rest → g.blocks[k + 1]? = some c) ∧
      Wiring.follower? g.blocks k b = if later = [] then none else some (k + 1) := by
  rw [built.blocks]
  exact built.distinct.exists_place function split

theorem block_cases (built : g.BuiltFrom intrinsics p wires) {k : Nat} {b : Block} (place : g.blocks[k]? = some b) :
    ∃ f ∈ p.functions, b.function = f.name ∧ (∀ i ∈ b.code, i ∈ f.body) ∧
      ((Wiring.follower? g.blocks k b = none ∧ f.body.getLast? = some b.last) ∨
        ∃ c front back, Wiring.follower? g.blocks k b = some (k + 1) ∧ g.blocks[k + 1]? = some c ∧
          f.body = front ++ b.last :: c.leader :: back) := by
  rw [built.blocks] at place ⊢
  exact built.distinct.block_cases place

theorem neighbours (built : g.BuiltFrom intrinsics p wires) {f : Function} (function : f ∈ p.functions)
    {front back : List Instruction} {i j : Instruction} (body : f.body = front ++ i :: j :: back) :
    (g.Next i j ∧ i.closes intrinsics = false) ∨
      ∃ k b c, g.blocks[k]? = some b ∧ g.blocks[k + 1]? = some c ∧ b.function = f.name ∧ b.last = i ∧ c.leader = j ∧
        Wiring.follower? g.blocks k b = some (k + 1) := by
  rw [← f.code_blocks intrinsics] at body
  rcases neighbours_of_flatMap_code body with ⟨b, member, before, after, code⟩ |
    ⟨earlier, b, c, later, split, ends, begins⟩
  · have joined := Function.joined_of_mem_blocks member
    rw [code] at joined
    have closes := (List.isChain_append_cons_cons.1 joined).2.1.1
    exact .inl ⟨.within (built.mem_blocks_iff.2 ⟨f, function, member⟩) code, closes⟩
  · obtain ⟨k, place, next, following⟩ := built.exists_place function split
    have owner : b.function = f.name := Function.function_of_mem_blocks (by rw [split]; simp)
    exact .inr ⟨k, b, c, place, next c later rfl, owner, ends, begins, by simpa using following⟩

theorem final_block (built : g.BuiltFrom intrinsics p wires) {f : Function} (function : f ∈ p.functions)
    {front : List Instruction} {i : Instruction} (body : f.body = front ++ [i]) :
    ∃ k b, g.blocks[k]? = some b ∧ b.function = f.name ∧ b.last = i ∧ Wiring.follower? g.blocks k b = none := by
  rcases List.eq_nil_or_concat' (f.blocks intrinsics) with none | ⟨earlier, b, split⟩
  · rw [← f.code_blocks intrinsics, none] at body
    simp at body
  · obtain ⟨k, place, _, following⟩ := built.exists_place function split
    exact ⟨k, b, place, Function.function_of_mem_blocks (by rw [split]; simp), Function.last_of_final split body,
      by simpa using following⟩

theorem closing_block (built : g.BuiltFrom intrinsics p wires) {f : Function} (function : f ∈ p.functions)
    {i : Instruction} (member : i ∈ f.body) (closes : i.closes intrinsics = true) :
    ∃ (k : Nat) (b : Block), g.blocks[k]? = some b ∧ b.function = f.name ∧ b.last = i := by
  obtain ⟨front, back, body⟩ := List.append_of_mem member
  cases back with
  | nil =>
      obtain ⟨k, b, place, owner, ends, _⟩ := built.final_block function body
      exact ⟨k, b, place, owner, ends⟩
  | cons j back =>
      rcases built.neighbours function body with ⟨_, stays⟩ | ⟨k, b, c, place, _, owner, ends, _⟩
      · rw [closes] at stays
        cases stays
      · exact ⟨k, b, place, owner, ends⟩

theorem next_of_jump_wire (built : g.BuiltFrom intrinsics p wires) {k l : Nat} {b c : Block}
    (source : g.blocks[k]? = some b) (target : g.blocks[l]? = some c) (wire : .jump k l ∈ wires) :
    g.Next b.last c.leader :=
  .across source target (mem_succs_iff.2 (built.mem_edges_iff.2 (.inl wire)))

theorem function_of_block (built : g.BuiltFrom intrinsics p wires) {b : Block} (member : b ∈ g.blocks) :
    ∃ f ∈ p.functions, f.name = b.function ∧ ∀ i ∈ b.code, i ∈ f.body := by
  obtain ⟨f, function, here⟩ := built.mem_blocks_iff.1 member
  refine ⟨f, function, (Function.function_of_mem_blocks here).symm, ?_⟩
  intro i code
  exact (Function.mem_body_iff intrinsics).2 ⟨b, here, code⟩

theorem next_of_fall (built : g.BuiltFrom intrinsics p wires) {f : Function} (function : f ∈ p.functions)
    {front back : List Instruction} {i j : Instruction} (body : f.body = front ++ i :: j :: back)
    (falls : i.closes intrinsics = false ∨ ∃ test, i.op = .branch test) : g.Next i j := by
  rcases built.neighbours function body with ⟨next, _⟩ | ⟨k, b, c, place, after, _, rfl, rfl, following⟩
  · exact next
  obtain ⟨here, leaves, wired⟩ := built.leaves place
  rcases falls with plain | ⟨test, op⟩
  · rw [Wiring.leave_plain plain leaves, following] at wired
    exact built.next_of_jump_wire place after (wired _ (by simp))
  · obtain ⟨label, next, _, follows, rfl⟩ := Wiring.leave_branch op leaves
    rw [following] at follows
    cases follows
    exact built.next_of_jump_wire place after (wired _ (by simp))

theorem branch_not_final (built : g.BuiltFrom intrinsics p wires) {f : Function} (function : f ∈ p.functions)
    {front : List Instruction} {i : Instruction} (body : f.body = front ++ [i]) (test : Comparison) :
    i.op ≠ .branch test := by
  intro op
  obtain ⟨k, b, place, _, rfl, following⟩ := built.final_block function body
  obtain ⟨here, leaves, _⟩ := built.leaves place
  obtain ⟨_, next, _, follows, _⟩ := Wiring.leave_branch op leaves
  rw [following] at follows
  cases follows

theorem jump_wire (built : g.BuiltFrom intrinsics p wires) {k : Nat} {b : Block} (place : g.blocks[k]? = some b)
    (jumps : b.last.op.isJump = true) : ∃ l, Wiring.target g.blocks b = .ok l ∧ .jump k l ∈ wires := by
  rcases built.leaves place with ⟨here, leaves, wired⟩
  rcases Opcode.isJump_iff.1 jumps with goto | ⟨test, branch⟩
  · rcases Wiring.leave_goto goto leaves with ⟨l, target, rfl⟩
    exact ⟨l, target, wired _ (by split <;> simp)⟩
  · rcases Wiring.leave_branch branch leaves with ⟨l, next, target, _, rfl⟩
    exact ⟨l, target, wired _ (by simp)⟩

theorem target_begins (built : g.BuiltFrom intrinsics p wires) {f : Function} (function : f ∈ p.functions) {l : Nat}
    {b : Block} (owner : b.function = f.name) (target : Wiring.target g.blocks b = .ok l) :
    ∃ c, g.blocks[l]? = some c ∧ c.leader ∈ f.body ∧ c.leader.op = .label ∧
      b.last.target? = some c.leader.labelName := by
  rcases Wiring.target_eq_ok target with ⟨name, c, names, place, same, begins, rfl⟩
  rcases built.function_of_block (List.mem_of_getElem? place) with ⟨h, other, named, code⟩
  obtain rfl := built.distinct.function_eq other function (by rw [named, same, owner])
  exact ⟨c, place, code _ c.leader_mem, begins, names⟩

theorem exists_target (built : g.BuiltFrom intrinsics p wires) {f : Function} (function : f ∈ p.functions)
    {i : Instruction} (member : i ∈ f.body) (jumps : i.op.isJump = true) :
    ∃ label ∈ f.body, label.op = .label ∧ i.target? = some label.labelName ∧ g.Next i label := by
  have closes : i.closes intrinsics = true := by simp [Instruction.closes, jumps]
  rcases built.closing_block function member closes with ⟨k, b, place, owner, rfl⟩
  rcases built.jump_wire place jumps with ⟨l, target, wire⟩
  rcases built.target_begins function owner target with ⟨c, place', body, begins, names⟩
  exact ⟨c.leader, body, begins, names, built.next_of_jump_wire place place' wire⟩

theorem next_of_jump (built : g.BuiltFrom intrinsics p wires) {f : Function} (function : f ∈ p.functions)
    {i label : Instruction} (member : i ∈ f.body) (jumps : i.op.isJump = true) (present : label ∈ f.body)
    (op : label.op = .label) (named : i.target? = some label.labelName) : g.Next i label := by
  obtain ⟨other, there, begins, names, leads⟩ := built.exists_target function member jumps
  -- The label of that name is the only one in the function.
  have unique : other = label := built.distinct.label_eq function there present begins op (by
    rw [named] at names
    exact (Option.some.inj names).symm)
  rwa [unique] at leads

theorem entry_block (built : g.BuiltFrom intrinsics p wires) {name : Bytes} {entry : Nat}
    (found : g.blocks.findIdx? (·.function = name) = some entry) :
    ∃ f ∈ p.functions, f.name = name ∧ ∃ b rest, g.blocks[entry]? = some b ∧ f.body = b.leader :: rest := by
  obtain ⟨bound, good, -⟩ := List.findIdx?_eq_some_iff_getElem.1 found
  rw [decide_eq_true_eq] at good
  obtain ⟨f, function, here⟩ := built.mem_blocks_iff.1 (List.getElem_mem bound)
  obtain rfl := (Function.function_of_mem_blocks here).symm.trans good
  obtain ⟨before, after, functions⟩ := List.append_of_mem function
  cases split : f.blocks intrinsics with
  | nil => simp [split] at here
  | cons b later =>
      have named : b.function = f.name := Function.function_of_mem_blocks (by rw [split]; simp)
      have whole : g.blocks = before.flatMap (·.blocks intrinsics) ++ b :: (later ++
          after.flatMap (·.blocks intrinsics)) := by
        rw [built.blocks, Program.blocks_split functions, split]
        rfl
      have absent : (before.flatMap (·.blocks intrinsics)).findIdx? (·.function = f.name) = none := by
        rw [List.findIdx?_eq_none_iff]
        intro c member
        obtain ⟨h, present, inside⟩ := List.mem_flatMap.1 member
        rw [decide_eq_false_iff_not, Function.function_of_mem_blocks inside]
        exact built.distinct.name_ne functions (List.mem_append_left _ present)
      have first : entry = (before.flatMap (·.blocks intrinsics)).length := by
        rw [whole, List.findIdx?_append, absent, List.findIdx?_cons] at found
        simpa [named] using found.symm
      have body : f.body = b.leader :: (b.others ++ later.flatMap Block.code) := by
        rw [← f.code_blocks intrinsics, split]
        rfl
      exact ⟨f, function, rfl, b, _, by simp [whole, first], body⟩

theorem next_of_call (built : g.BuiltFrom intrinsics p wires) {f : Function} (function : f ∈ p.functions)
    {i : Instruction} {callee : Bytes} (member : i ∈ f.body) (call : i.userCall? intrinsics = some callee) :
    ∃ h ∈ p.functions, h.name = callee ∧ ∃ j rest, h.body = j :: rest ∧ g.Next i j := by
  have closes : i.closes intrinsics = true := by simp [Instruction.closes, call]
  obtain ⟨k, b, place, _, rfl⟩ := built.closing_block function member closes
  obtain ⟨here, leaves, wired⟩ := built.leaves place
  obtain ⟨entry, found, rfl⟩ := Wiring.leave_call call leaves
  obtain ⟨h, owner, named, c, rest, place', body⟩ := built.entry_block found
  refine ⟨h, owner, named, c.leader, rest, body, ?_⟩
  exact built.next_of_jump_wire place place' (wired _ (by split <;> simp))

end Graph.BuiltFrom

def Graph.ExitsBy (wires : List Wire) (g : Graph) (function : Bytes) (i : Instruction) : Prop :=
  ∃ (name : Bytes) (k : Nat) (b : Block), Relation.ReflTransGen (Wiring.TailStep wires) function name ∧
    .exit name k ∈ wires ∧ g.blocks[k]? = some b ∧ b.last = i

namespace Graph.BuiltFrom

variable {intrinsics : List Bytes} {p : Program} {wires : List Wire} {g : Graph}

theorem exits_of_final (built : g.BuiltFrom intrinsics p wires) {f : Function} (function : f ∈ p.functions)
    {front : List Instruction} {i : Instruction} (body : f.body = front ++ [i])
    (plain : i.closes intrinsics = false) : g.ExitsBy wires f.name i := by
  obtain ⟨k, b, place, owner, rfl, following⟩ := built.final_block function body
  obtain ⟨here, leaves, wired⟩ := built.leaves place
  rw [Wiring.leave_plain plain leaves, following] at wired
  exact ⟨f.name, k, b, .refl, owner ▸ wired _ (by simp), place, rfl⟩

theorem exits_of_ret (built : g.BuiltFrom intrinsics p wires) {f : Function} (function : f ∈ p.functions)
    {i : Instruction} (member : i ∈ f.body) (op : i.op = .ret) : g.ExitsBy wires f.name i := by
  have closes : i.closes intrinsics = true := by simp [Instruction.closes, op]
  obtain ⟨k, b, place, owner, rfl⟩ := built.closing_block function member closes
  obtain ⟨here, leaves, wired⟩ := built.leaves place
  rw [Wiring.leave_ret op leaves] at wired
  exact ⟨f.name, k, b, .refl, owner ▸ wired _ (by simp), place, rfl⟩

theorem next_of_return (built : g.BuiltFrom intrinsics p wires) {f : Function} (function : f ∈ p.functions)
    {front back : List Instruction} {i j call : Instruction} {callee : Bytes}
    (body : f.body = front ++ call :: j :: back) (calls : call.userCall? intrinsics = some callee)
    (exits : g.ExitsBy wires callee i) : g.Next i j := by
  rcases built.neighbours function body with ⟨_, plain⟩ | ⟨k, b, c, place, after, _, rfl, rfl, following⟩
  · simp [Instruction.closes, calls] at plain
  obtain ⟨here, leaves, wired⟩ := built.leaves place
  obtain ⟨entry, _, rfl⟩ := Wiring.leave_call calls leaves
  rw [following] at wired
  obtain ⟨name, l, d, reaches, exit, place', rfl⟩ := exits
  refine .across place' after (mem_succs_iff.2 (built.mem_edges_iff.2 (.inr ?_)))
  exact ⟨callee, name, reaches, exit, wired _ (by simp)⟩

theorem final_of_follower? (built : g.BuiltFrom intrinsics p wires) {f : Function} (function : f ∈ p.functions)
    {k : Nat} {b : Block} (place : g.blocks[k]? = some b) (owner : b.function = f.name)
    (last : Wiring.follower? g.blocks k b = none) : f.body.getLast? = some b.last := by
  rcases built.block_cases place with ⟨h, other, named, _, ⟨_, final⟩ | ⟨_, _, _, following, _⟩⟩
  · rwa [built.distinct.function_eq function other (owner.symm.trans named)]
  · rw [last] at following
    cases following

theorem tailStep_of_final (built : g.BuiltFrom intrinsics p wires) {f : Function} (function : f ∈ p.functions)
    {front : List Instruction} {call : Instruction} {callee : Bytes} (body : f.body = front ++ [call])
    (calls : call.userCall? intrinsics = some callee) : Wiring.TailStep wires f.name callee := by
  obtain ⟨k, b, place, owner, rfl, following⟩ := built.final_block function body
  obtain ⟨here, leaves, wired⟩ := built.leaves place
  obtain ⟨entry, _, rfl⟩ := Wiring.leave_call calls leaves
  rw [following] at wired
  have wire : .tail f.name callee ∈ wires := owner ▸ wired _ (by simp)
  cases found : (Wiring.tails wires).lookup f.name with
  | none =>
      have differs := List.lookup_eq_none_iff.1 found _ (Wiring.mem_tails.2 wire)
      simp at differs
  | some other =>
      obtain ⟨l, c, here, place', leaves, present⟩ := built.mem_wires_iff.1 (Wiring.TailStep.mem found)
      obtain ⟨owner', calls', last, _⟩ := Wiring.tail_of_leave leaves present
      have final := built.final_of_follower? function place' owner'.symm last
      rw [body, List.getLast?_concat, Option.some.injEq] at final
      rw [← final, calls] at calls'
      rw [Wiring.TailStep, found, calls']

theorem exits_of_tail (built : g.BuiltFrom intrinsics p wires) {f : Function} (function : f ∈ p.functions)
    {front : List Instruction} {i call : Instruction} {callee : Bytes} (body : f.body = front ++ [call])
    (calls : call.userCall? intrinsics = some callee) (exits : g.ExitsBy wires callee i) :
    g.ExitsBy wires f.name i := by
  obtain ⟨name, l, c, reaches, exit, place', rfl⟩ := exits
  exact ⟨name, l, c, .head (built.tailStep_of_final function body calls) reaches, exit, place', rfl⟩

end Graph.BuiltFrom

end Deadwood

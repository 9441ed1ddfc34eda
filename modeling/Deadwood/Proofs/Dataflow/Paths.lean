import Deadwood.Proofs.Dataflow.Solution
import Deadwood.Proofs.Flow.Placement

/-!
Reaching definitions as paths. A definition feeds an instruction exactly if a path of the graph leads from the one to
the other and no instruction strictly between them overwrites the variable.
-/

namespace Deadwood

def Function.Overwrites (f : Function) (v : Bytes) (i : Instruction) : Prop := i ∈ f.body ∧ i.dest? = some v

namespace Graph

/-- A path of at least one step on which nothing strictly between its ends overwrites a variable. -/
def Flows (g : Graph) (f : Function) (v : Bytes) (d i : Instruction) : Prop :=
  ∃ between : List Instruction, (d :: between ++ [i]).IsChain g.Next ∧ ∀ j ∈ between, ¬ f.Overwrites v j

/-- A path, perhaps empty, on which nothing after its start overwrites a variable. -/
def Carries (g : Graph) (f : Function) (v : Bytes) : Instruction → Instruction → Prop :=
  Relation.ReflTransGen fun i j => g.Next i j ∧ ¬ f.Overwrites v j

section

variable {g : Graph} {f : Function} {v : Bytes} {d i j : Instruction}

theorem flows_iff : g.Flows f v d i ↔ ∃ l, g.Carries f v d l ∧ g.Next l i := by
  constructor
  · intro given
    rcases given with ⟨between, chain, clear⟩
    induction between generalizing d with
    | nil => exact ⟨d, .refl, by simpa using chain⟩
    | cons m between ih =>
        obtain ⟨step, rest⟩ := List.isChain_cons_cons.1 chain
        obtain ⟨l, carries, next⟩ := ih rest fun j member => clear j (List.mem_cons_of_mem m member)
        exact ⟨l, .head ⟨step, clear m List.mem_cons_self⟩ carries, next⟩
  · intro given
    rcases given with ⟨l, carries, next⟩
    induction carries using Relation.ReflTransGen.head_induction_on with
    | refl => exact ⟨[], by simpa using next, by simp⟩
    | head step _ ih =>
        obtain ⟨between, chain, clear⟩ := ih
        refine ⟨_ :: between, List.isChain_cons_cons.2 ⟨step.1, chain⟩, fun j member => ?_⟩
        rcases List.mem_cons.1 member with rfl | member
        · exact step.2
        · exact clear j member

theorem Flows.carries (flows : g.Flows f v d i) (clear : ¬ f.Overwrites v i) : g.Carries f v d i := by
  obtain ⟨l, carries, next⟩ := flows_iff.1 flows
  exact carries.tail ⟨next, clear⟩

theorem Carries.flows (carries : g.Carries f v d i) (next : g.Next i j) : g.Flows f v d j :=
  flows_iff.2 ⟨i, carries, next⟩

theorem Carries.flows_within {b : Block} {front between back : List Instruction} (carries : g.Carries f v d i)
    (block : b ∈ g.blocks) (code : b.code = front ++ i :: (between ++ j :: back))
    (clear : ∀ m ∈ between, ¬ f.Overwrites v m) : g.Flows f v d j := by
  induction between generalizing front i with
  | nil => exact carries.flows (.within block code)
  | cons m between ih =>
      have step : g.Next i m := .within block code
      have further := (carries.flows step).carries (clear m List.mem_cons_self)
      have shifted : b.code = (front ++ [i]) ++ m :: (between ++ j :: back) := by simp [code]
      exact ih further shifted fun k member => clear k (List.mem_cons_of_mem m member)

theorem Carries.last {b : Block} {front back : List Instruction} (carries : g.Carries f v d i)
    (block : b ∈ g.blocks) (code : b.code = front ++ i :: back) (clear : ∀ m ∈ back, ¬ f.Overwrites v m) :
    g.Carries f v d b.last := by
  rcases List.eq_nil_or_concat' back with rfl | ⟨between, last, rfl⟩
  · rwa [Block.last_eq code]
  · have ends : b.code = (front ++ i :: between) ++ [last] := by simp [code]
    rw [Block.last_eq ends]
    refine (carries.flows_within block code fun m member => ?_).carries (clear last (by simp))
    exact clear m (List.mem_append_left _ member)

theorem Flows.enters {b : Block} {front back : List Instruction} (flows : g.Flows f v d b.leader)
    (block : b ∈ g.blocks) (code : b.code = front ++ j :: back) (clear : ∀ m ∈ front, ¬ f.Overwrites v m) :
    g.Flows f v d j := by
  cases front with
  | nil =>
      rw [Block.code, List.nil_append, List.cons.injEq] at code
      rwa [← code.1]
  | cons first front =>
      have begins : b.leader = first := (List.cons.inj code).1
      have carries := begins ▸ flows.carries (begins ▸ clear first List.mem_cons_self)
      have start : b.code = [] ++ first :: (front ++ j :: back) := code
      exact carries.flows_within block start fun m member => clear m (List.mem_cons_of_mem _ member)

end

end Graph

theorem mem_lastWrites {code : List Instruction} {v : Bytes} {n : Int} :
    (v, n) ∈ lastWrites code ↔
      ∃ front d back, code = front ++ d :: back ∧ d.line = n ∧ d.dest? = some v ∧ ∀ j ∈ back, j.dest? ≠ some v := by
  induction code with
  | nil => simp [lastWrites]
  | cons i rest ih =>
      -- A last write of the whole is one of the rest, or the first instruction if the rest does not write again.
      have split : (∃ front d back, i :: rest = front ++ d :: back ∧ d.line = n ∧ d.dest? = some v ∧
            ∀ j ∈ back, j.dest? ≠ some v) ↔
          (i.line = n ∧ i.dest? = some v ∧ ∀ j ∈ rest, j.dest? ≠ some v) ∨ (v, n) ∈ lastWrites rest := by
        rw [ih]
        constructor
        · intro given
          rcases given with ⟨front, d, back, shape, found⟩
          cases front with
          | nil =>
              obtain ⟨rfl, rfl⟩ := List.cons.inj shape
              exact .inl found
          | cons first front => exact .inr ⟨front, d, back, (List.cons.inj shape).2, found⟩
        · intro given
          rcases given with found | ⟨front, d, back, rfl, found⟩
          · exact ⟨[], i, rest, rfl, found⟩
          · exact ⟨i :: front, d, back, rfl, found⟩
      rw [split, lastWrites]
      cases written : i.dest? with
      | none => simp
      | some w =>
          dsimp only
          split
          · rename_i again
            obtain ⟨j, member, same⟩ := List.any_eq_true.1 again
            rw [decide_eq_true_eq] at same
            refine ⟨.inr, fun found => found.resolve_left ?_⟩
            intro given
            rcases given with ⟨_, here, clear⟩
            exact clear j member (same.trans here)
          · rename_i once
            simp only [List.any_eq_true, decide_eq_true_eq, not_exists, not_and] at once
            rw [List.mem_cons, Prod.mk.injEq, Option.some.injEq]
            refine or_congr_left ⟨?_, ?_⟩
            · intro given
              rcases given with ⟨rfl, rfl⟩
              exact ⟨rfl, rfl, once⟩
            · intro given
              rcases given with ⟨rfl, rfl, _⟩
              exact ⟨rfl, rfl⟩

namespace Block

theorem mem_gen_iff {b : Block} {n : Int} :
    n ∈ b.gen ↔ ∃ v front d back, b.code = front ++ d :: back ∧ d.line = n ∧ d.dest? = some v ∧
      ∀ j ∈ back, j.dest? ≠ some v := by
  simp [gen, mem_lastWrites]

theorem mem_kill_iff {b : Block} {definitions : List Definition} {n : Int} :
    n ∈ b.kill definitions ↔ (∃ d ∈ definitions, b.writes d = true ∧ d.line = n) ∧ n ∉ b.gen := by
  simp [kill, and_assoc]

end Block

namespace Graph.BuiltFrom

open Equations

variable {intrinsics : List Bytes} {p : Program} {wires : List Wire} {g : Graph}

theorem place_eq (built : g.BuiltFrom intrinsics p wires) {k l : Nat} {b c : Block} {i : Instruction}
    {front back front' back' : List Instruction} (first : g.blocks[k]? = some b) (second : g.blocks[l]? = some c)
    (inFirst : b.code = front ++ i :: back) (inSecond : c.code = front' ++ i :: back') :
    k = l ∧ b = c ∧ front = front' ∧ back = back' := by
  have here : i ∈ b.code := by simp [inFirst]
  have there : i ∈ c.code := by simp [inSecond]
  obtain rfl := built.block_eq first second here there
  obtain rfl := Option.some.inj (first.symm.trans second)
  have nodup := built.distinct.code_nodup_of_block (built.blocks ▸ List.mem_of_getElem? first)
  rw [inFirst] at nodup
  exact ⟨rfl, rfl, place_eq_of_nodup nodup (inFirst.symm.trans inSecond)⟩

theorem next_cases (built : g.BuiltFrom intrinsics p wires) {k : Nat} {b : Block} {m i : Instruction}
    {front back : List Instruction} (next : g.Next m i) (place : g.blocks[k]? = some b)
    (code : b.code = front ++ i :: back) :
    (∃ before, front = before ++ [m]) ∨
      front = [] ∧ ∃ (l : Nat) (c : Block), g.blocks[l]? = some c ∧ c.last = m ∧ l ∈ g.preds k := by
  cases next with
  | @within c before after _ _ block inside =>
      obtain ⟨l, place'⟩ := List.getElem?_of_mem block
      have shifted : c.code = (before ++ [m]) ++ i :: after := by simp [inside]
      obtain ⟨-, -, same, -⟩ := built.place_eq place place' code shifted
      exact .inl ⟨before, same⟩
  | @across l l' c c' source target edge =>
      have start : c'.code = [] ++ c'.leader :: c'.others := rfl
      obtain ⟨rfl, -, same, -⟩ := built.place_eq place target code start
      exact .inr ⟨same, l, c, source, rfl, mem_preds_iff.2 (mem_succs_iff.1 edge)⟩

theorem mem_body_of_block (built : g.BuiltFrom intrinsics p wires) {f : Function} {b : Block} {i : Instruction}
    (function : f ∈ p.functions) (block : b ∈ g.blocks) (owner : b.function = f.name) (member : i ∈ b.code) :
    i ∈ f.body := by
  obtain ⟨h, other, named, code⟩ := built.function_of_block block
  rw [← built.distinct.function_eq other function (named.trans owner)]
  exact code i member

theorem mem_definitions_iff (built : g.BuiltFrom intrinsics p wires) {d : Definition} :
    d ∈ g.definitions ↔ ∃ f ∈ p.functions, ∃ i, f.Overwrites d.name i ∧ d.function = f.name ∧ d.line = i.line := by
  simp only [definitions, Block.definitions, List.mem_flatMap, List.mem_filterMap, Option.map_eq_some_iff]
  constructor
  · intro given
    rcases given with ⟨b, block, i, member, v, written, rfl⟩
    obtain ⟨f, function, named, code⟩ := built.function_of_block block
    exact ⟨f, function, i, ⟨code i member, written⟩, named.symm, rfl⟩
  · intro given
    rcases given with ⟨f, function, i, ⟨body, written⟩, named, line⟩
    obtain ⟨b, here, member⟩ := (Function.mem_body_iff intrinsics).1 body
    refine ⟨b, built.mem_blocks_iff.2 ⟨f, function, here⟩, i, member, d.name, written, ?_⟩
    rw [Function.function_of_mem_blocks here, ← named, ← line]

theorem mem_kill_iff (built : g.BuiltFrom intrinsics p wires) {f : Function} {v : Bytes} {d : Instruction}
    (function : f ∈ p.functions) (writes : f.Overwrites v d) {b : Block} (block : b ∈ g.blocks) :
    d.line ∈ b.kill g.definitions ↔ (∃ j ∈ b.code, f.Overwrites v j) ∧ d.line ∉ b.gen := by
  rw [Block.mem_kill_iff]
  refine and_congr_left fun _ => ⟨?_, ?_⟩
  · intro given
    rcases given with ⟨e, member, killed, line⟩
    obtain ⟨h, other, i, ⟨body, written⟩, named, same⟩ := built.mem_definitions_iff.1 member
    have unique : i = d := built.distinct.instruction_eq (Program.mem_code_iff.2 ⟨h, other, body⟩)
      (Program.mem_code_iff.2 ⟨f, function, writes.1⟩) (same.symm.trans line)
    subst unique
    obtain rfl := built.distinct.owner_eq other function body writes.1
    obtain rfl := Option.some.inj (written.symm.trans writes.2)
    simp only [Block.writes, Bool.and_eq_true, decide_eq_true_eq, List.any_eq_true] at killed
    obtain ⟨owner, j, code, again⟩ := killed
    exact ⟨j, code, built.mem_body_of_block other block (owner.trans named) code, again⟩
  · intro given
    rcases given with ⟨j, code, body, again⟩
    refine ⟨⟨f.name, v, d.line⟩, built.mem_definitions_iff.2 ⟨f, function, d, writes, rfl, rfl⟩, ?_, rfl⟩
    simp only [Block.writes, Bool.and_eq_true, decide_eq_true_eq, List.any_eq_true]
    exact ⟨built.function_eq_of_block function body block code, j, code, again⟩

theorem closed_paths (built : g.BuiltFrom intrinsics p wires) :
    g.Closed
      (fun k n => ∃ f ∈ p.functions, ∃ v d, f.Overwrites v d ∧ d.line = n ∧
        ∀ b, g.blocks[k]? = some b → g.Flows f v d b.leader)
      (fun k n => ∃ f ∈ p.functions, ∃ v d, f.Overwrites v d ∧ d.line = n ∧
        ∃ b, g.blocks[k]? = some b ∧ g.Carries f v d b.last) := by
  have generated (k : Nat) (b : Block) (n : Int) (place : g.blocks[k]? = some b) (member : n ∈ b.gen) :
      ∃ f ∈ p.functions, ∃ v d, f.Overwrites v d ∧ d.line = n ∧
        ∃ b, g.blocks[k]? = some b ∧ g.Carries f v d b.last := by
    have block := List.mem_of_getElem? place
    obtain ⟨v, front, d, back, code, line, written, clear⟩ := Block.mem_gen_iff.1 member
    obtain ⟨f, function, _, bodies⟩ := built.function_of_block block
    refine ⟨f, function, v, d, ⟨bodies d (by simp [code]), written⟩, line, b, place, ?_⟩
    exact Carries.last .refl block code fun j inside again => clear j inside again.2
  refine ⟨?_, generated, ?_⟩
  · intro k l n edge given
    rcases given with ⟨f, function, v, d, writes, line, b, place, carries⟩
    refine ⟨f, function, v, d, writes, line, fun c target => ?_⟩
    exact carries.flows (.across place target (mem_succs_iff.2 edge))
  · intro k b n place given kept
    rcases given with ⟨f, function, v, d, writes, rfl, flows⟩
    have block := List.mem_of_getElem? place
    by_cases own : d.line ∈ b.gen
    · exact generated k b d.line place own
    · have clear : ∀ j ∈ b.code, ¬ f.Overwrites v j := by
        intro j code again
        exact kept ((built.mem_kill_iff function writes block).2 ⟨⟨j, code, again⟩, own⟩)
      have entered := (flows b place).carries (clear _ b.leader_mem)
      have start : b.code = [] ++ b.leader :: b.others := rfl
      refine ⟨f, function, v, d, writes, rfl, b, place, entered.last block start fun j inside => ?_⟩
      exact clear j (List.mem_cons_of_mem _ inside)

end Graph.BuiltFrom

/-- A definition holds after a stretch at the start of a block: it is the last write of the stretch, or reaches the
block and nothing in the stretch overwrites it. -/
def Graph.HoldsAfter (facts : List Facts) (f : Function) (v : Bytes) (d : Instruction) (k : Nat)
    (stretch : List Instruction) : Prop :=
  (∃ front back, stretch = front ++ d :: back ∧ ∀ j ∈ back, ¬ f.Overwrites v j) ∨
    d.line ∈ Equations.inOf facts k ∧ ∀ j ∈ stretch, ¬ f.Overwrites v j

theorem Graph.HoldsAfter.snoc {facts : List Facts} {f : Function} {v : Bytes} {d i : Instruction} {k : Nat}
    {stretch : List Instruction} (holds : Graph.HoldsAfter facts f v d k stretch) (clear : ¬ f.Overwrites v i) :
    Graph.HoldsAfter facts f v d k (stretch ++ [i]) := by
  rcases holds with ⟨front, back, rfl, behind⟩ | ⟨enters, before⟩
  · refine .inl ⟨front, back ++ [i], by simp, fun j member => ?_⟩
    rcases List.mem_append.1 member with member | member
    · exact behind j member
    · rwa [List.mem_singleton.1 member]
  · refine .inr ⟨enters, fun j member => ?_⟩
    rcases List.mem_append.1 member with member | member
    · exact before j member
    · rwa [List.mem_singleton.1 member]

namespace Graph.BuiltFrom

open Equations

variable {intrinsics : List Bytes} {p : Program} {wires : List Wire} {g : Graph} {limit : Nat} {solution : Solution}

theorem mem_outOf_of_holds (built : g.BuiltFrom intrinsics p wires) (solved : g.solve limit = .ok solution)
    {f : Function} {v : Bytes} {d : Instruction} (function : f ∈ p.functions) (writes : f.Overwrites v d) {k : Nat}
    {b : Block} (place : g.blocks[k]? = some b) (holds : HoldsAfter solution.facts f v d k b.code) :
    d.line ∈ outOf solution.facts k := by
  have block := List.mem_of_getElem? place
  rw [mem_outOf_iff solved place]
  rcases holds with ⟨front, back, code, clear⟩ | ⟨enters, clear⟩
  · refine .inl (Block.mem_gen_iff.2 ⟨v, front, d, back, code, rfl, writes.2, fun j member again => ?_⟩)
    have owner := built.function_eq_of_block function writes.1 block (by simp [code])
    exact clear j member ⟨built.mem_body_of_block function block owner (by simp [code, member]), again⟩
  · refine .inr ⟨enters, fun killed => ?_⟩
    obtain ⟨⟨j, member, again⟩, _⟩ := (built.mem_kill_iff function writes block).1 killed
    exact clear j member again

theorem holds_of_carries (built : g.BuiltFrom intrinsics p wires) (solved : g.solve limit = .ok solution)
    {f : Function} {v : Bytes} {d i : Instruction} (function : f ∈ p.functions) (writes : f.Overwrites v d)
    (carries : g.Carries f v d i) {k : Nat} {b : Block} {front back : List Instruction}
    (place : g.blocks[k]? = some b) (code : b.code = front ++ i :: back) :
    HoldsAfter solution.facts f v d k (front ++ [i]) := by
  induction carries generalizing k b front back with
  | refl => exact .inl ⟨front, [], rfl, by simp⟩
  | tail _ step ih =>
      obtain ⟨next, clear⟩ := step
      rcases built.next_cases next place code with ⟨before, rfl⟩ | ⟨rfl, l, c, source, rfl, pred⟩
      · rw [List.append_assoc] at code
        exact (ih place code).snoc clear
      · obtain ⟨before, ends⟩ := c.code_eq_append_last
        have leaves := built.mem_outOf_of_holds solved function writes source (ends ▸ ih source ends)
        refine .inr ⟨(mem_inOf_iff solved place).2 ⟨l, pred, leaves⟩, fun j member => ?_⟩
        rwa [List.mem_singleton.1 member]

theorem flows_iff_holds (built : g.BuiltFrom intrinsics p wires) (solved : g.solve limit = .ok solution)
    {f : Function} {v : Bytes} {d i : Instruction} (function : f ∈ p.functions) (writes : f.Overwrites v d) {k : Nat}
    {b : Block} {front back : List Instruction} (place : g.blocks[k]? = some b) (code : b.code = front ++ i :: back) :
    g.Flows f v d i ↔ HoldsAfter solution.facts f v d k front := by
  have block := List.mem_of_getElem? place
  constructor
  · intro flows
    obtain ⟨l, carries, next⟩ := flows_iff.1 flows
    rcases built.next_cases next place code with ⟨before, rfl⟩ | ⟨rfl, l, c, source, rfl, pred⟩
    · rw [List.append_assoc] at code
      exact built.holds_of_carries solved function writes carries place code
    · obtain ⟨before, ends⟩ := c.code_eq_append_last
      have holds := built.holds_of_carries solved function writes carries source ends
      have leaves := built.mem_outOf_of_holds solved function writes source (ends ▸ holds)
      exact .inr ⟨(mem_inOf_iff solved place).2 ⟨l, pred, leaves⟩, by simp⟩
  · intro given
    rcases given with ⟨before, after, rfl, clear⟩ | ⟨enters, clear⟩
    · have here : b.code = before ++ d :: (after ++ i :: back) := by simp [code]
      exact Carries.flows_within .refl block here clear
    · obtain ⟨h, other, w, e, ⟨body, written⟩, line, reaches⟩ :=
        (solve_least solved built.closed_paths k d.line).1 enters
      have unique : e = d := built.distinct.instruction_eq (Program.mem_code_iff.2 ⟨h, other, body⟩)
        (Program.mem_code_iff.2 ⟨f, function, writes.1⟩) line
      subst unique
      obtain rfl := built.distinct.owner_eq other function body writes.1
      obtain rfl := Option.some.inj (written.symm.trans writes.2)
      exact (reaches b place).enters block code clear

theorem takeWhile_line (built : g.BuiltFrom intrinsics p wires) {b : Block} {i : Instruction}
    {front back : List Instruction} (block : b ∈ g.blocks) (code : b.code = front ++ i :: back) :
    b.code.takeWhile (·.line ≠ i.line) = front := by
  have nodup := built.distinct.code_nodup_of_block (built.blocks ▸ block)
  rw [code] at nodup
  have absent := (List.nodup_cons.1 (List.perm_middle.nodup_iff.1 nodup)).1
  rw [code, List.takeWhile_append_of_pos, List.takeWhile_cons_of_neg (by simp), List.append_nil]
  intro j member
  rw [decide_eq_true_eq]
  intro same
  have unique : j = i := built.distinct.instruction_eq (built.mem_code block (by simp [code, member]))
    (built.mem_code block (by simp [code])) same
  exact absent (List.mem_append_left _ (unique ▸ member))

end Graph.BuiltFrom

theorem lastWrite_eq_some_iff {code : List Instruction} {v : Bytes} {n : Int} :
    ((code.reverse.find? (·.dest? = some v)).map (·.line)) = some n ↔
      ∃ front d back, code = front ++ d :: back ∧ d.line = n ∧ d.dest? = some v ∧ ∀ j ∈ back, j.dest? ≠ some v := by
  simp only [Option.map_eq_some_iff, List.find?_eq_some_iff_append, decide_eq_true_eq, List.reverse_eq_iff]
  constructor
  · intro given
    rcases given with ⟨d, ⟨written, later, earlier, rfl, clear⟩, line⟩
    refine ⟨earlier.reverse, d, later.reverse, by simp, line, written, fun j member => ?_⟩
    simpa using clear j (List.mem_reverse.1 member)
  · intro given
    rcases given with ⟨front, d, back, rfl, line, written, clear⟩
    refine ⟨d, ⟨written, back.reverse, front.reverse, by simp, fun j member => ?_⟩, line⟩
    simpa using clear j (List.mem_reverse.1 member)

theorem lastWrite_eq_none_iff {code : List Instruction} {v : Bytes} :
    ((code.reverse.find? (·.dest? = some v)).map (·.line)) = none ↔ ∀ j ∈ code, j.dest? ≠ some v := by
  simp [List.find?_eq_none]

namespace Graph.BuiltFrom

open Equations

variable {intrinsics : List Bytes} {p : Program} {wires : List Wire} {g : Graph}

theorem mem_inherited_iff (built : g.BuiltFrom intrinsics p wires) {f : Function} (function : f ∈ p.functions)
    {facts : List Facts} {k : Nat} {b : Block} (owner : b.function = f.name) {v : Bytes} {n : Int} :
    n ∈ (Solved.mk g facts).inherited k b v ↔ n ∈ inOf facts k ∧ ∃ d, f.Overwrites v d ∧ d.line = n := by
  simp only [Solved.inherited, List.mem_filter, List.any_eq_true, Bool.and_eq_true, decide_eq_true_eq,
    LineSet.mem_lines]
  refine and_congr_right fun _ => ⟨?_, ?_⟩
  · intro given
    rcases given with ⟨e, ⟨member, same, rfl⟩, rfl⟩
    obtain ⟨h, other, i, writes, named, line⟩ := built.mem_definitions_iff.1 member
    obtain rfl := built.distinct.function_eq other function (by rw [← named, same, owner])
    exact ⟨i, writes, line.symm⟩
  · intro given
    rcases given with ⟨d, writes, rfl⟩
    refine ⟨⟨f.name, v, d.line⟩, ⟨built.mem_definitions_iff.2 ⟨f, function, d, writes, rfl, rfl⟩, ?_⟩, rfl⟩
    exact ⟨owner.symm, rfl⟩

theorem mem_sources_iff (built : g.BuiltFrom intrinsics p wires) {f : Function} (function : f ∈ p.functions)
    {facts : List Facts} {k : Nat} {b : Block} {i : Instruction} {front back : List Instruction}
    (place : g.blocks[k]? = some b) (code : b.code = front ++ i :: back) (body : i ∈ f.body) {v : Bytes} {n : Int} :
    n ∈ (Solved.mk g facts).sources k b i.line v ↔
      ∃ d, f.Overwrites v d ∧ d.line = n ∧ HoldsAfter facts f v d k front := by
  have block := List.mem_of_getElem? place
  have owner := built.function_eq_of_block function body block (by simp [code])
  have overwrites (j : Instruction) (member : j ∈ front) : f.Overwrites v j ↔ j.dest? = some v :=
    and_iff_right (built.mem_body_of_block function block owner (by simp [code, member]))
  rw [Solved.sources, lastWriteBefore?, built.takeWhile_line block code]
  cases found : (front.reverse.find? (·.dest? = some v)).map (·.line) with
  | some m =>
      dsimp only
      rw [List.mem_singleton]
      constructor
      · intro same
        subst same
        obtain ⟨before, d, after, rfl, line, written, clear⟩ := lastWrite_eq_some_iff.1 found
        refine ⟨d, (overwrites d (by simp)).2 written, line, .inl ⟨before, after, rfl, fun j member again => ?_⟩⟩
        exact clear j member again.2
      · intro given
        rcases given with ⟨d, writes, line, ⟨before, after, rfl, clear⟩ | ⟨_, clear⟩⟩
        · have here := lastWrite_eq_some_iff.2 ⟨before, d, after, rfl, line, writes.2, fun j member again =>
            clear j member ((overwrites j (by simp [member])).2 again)⟩
          exact Option.some.inj (here.symm.trans found)
        · obtain ⟨before, e, after, rfl, _, written, _⟩ := lastWrite_eq_some_iff.1 found
          exact (clear e (by simp) ((overwrites e (by simp)).2 written)).elim
  | none =>
      have clear (j : Instruction) (member : j ∈ front) : ¬ f.Overwrites v j := fun again =>
        lastWrite_eq_none_iff.1 found j member again.2
      dsimp only
      rw [built.mem_inherited_iff function owner]
      constructor
      · intro given
        rcases given with ⟨enters, d, writes, rfl⟩
        exact ⟨d, writes, rfl, .inr ⟨enters, clear⟩⟩
      · intro given
        rcases given with ⟨d, writes, rfl, ⟨before, after, rfl, _⟩ | ⟨enters, _⟩⟩
        · exact (clear d (by simp) writes).elim
        · exact ⟨enters, d, writes, rfl⟩

theorem mem_feeding (built : g.BuiltFrom intrinsics p wires) {limit : Nat} {solution : Solution}
    (solved : g.solve limit = .ok solution) {f : Function} (function : f ∈ p.functions) {i : Instruction}
    (body : i ∈ f.body) {n : Int} :
    n ∈ (Solved.mk g solution.facts).feeding i ↔
      ∃ d ∈ f.body, d.line = n ∧ ∃ v ∈ i.reads, d.dest? = some v ∧ g.Flows f v d i := by
  obtain ⟨b, here, member⟩ := (Function.mem_body_iff intrinsics).1 body
  obtain ⟨k, place⟩ := List.getElem?_of_mem (built.mem_blocks_iff.2 ⟨f, function, here⟩)
  obtain ⟨front, back, code⟩ := List.append_of_mem member
  simp only [Solved.feeding, built.blockOf?_eq place member, place, LineSet.mem_ofList, List.mem_flatMap,
    built.mem_sources_iff function place code body]
  constructor
  · intro given
    rcases given with ⟨v, read, d, writes, line, holds⟩
    exact ⟨d, writes.1, line, v, read, writes.2, (built.flows_iff_holds solved function writes place code).2 holds⟩
  · intro given
    rcases given with ⟨d, present, line, v, read, written, flows⟩
    have writes : f.Overwrites v d := ⟨present, written⟩
    exact ⟨v, read, d, writes, line, (built.flows_iff_holds solved function writes place code).1 flows⟩

end Graph.BuiltFrom

namespace Solved

/-- The instructions that feed an instruction are those of its own function that write what it reads and from which a
path leads to it that does not overwrite the variable in between. -/
theorem feeding_iff_path {intrinsics : List Bytes} {entry : Bytes} {p : Program} {g : Graph} {limit : Nat}
    {solution : Equations.Solution} (built : Graph.build intrinsics entry p = .ok g)
    (solved : g.solve limit = .ok solution) {f : Function} (function : f ∈ p.functions) {i : Instruction}
    (body : i ∈ f.body) :
    (∀ n ∈ (Solved.mk g solution.facts).feeding i, ∃ d ∈ p.code, d.line = n) ∧
      ∀ d ∈ p.code, d.line ∈ (Solved.mk g solution.facts).feeding i ↔
        d ∈ f.body ∧ ∃ v ∈ i.reads, d.dest? = some v ∧ g.Flows f v d i := by
  obtain ⟨wires, built⟩ := Graph.exists_wires built
  constructor
  · intro n member
    obtain ⟨d, present, line, _⟩ := (built.mem_feeding solved function body).1 member
    exact ⟨d, Program.mem_code_iff.2 ⟨f, function, present⟩, line⟩
  · intro d code
    rw [built.mem_feeding solved function body]
    constructor
    · intro given
      rcases given with ⟨e, present, line, reaches⟩
      have same := built.distinct.instruction_eq (Program.mem_code_iff.2 ⟨f, function, present⟩) code line
      exact same ▸ ⟨present, reaches⟩
    · intro given
      rcases given with ⟨present, reaches⟩
      exact ⟨d, present, rfl, reaches⟩

def counter : Instruction := ⟨.compute .add, [⟨.variable, [120]⟩, ⟨.variable, [120]⟩, ⟨.constant, [49]⟩], 2⟩

def counting : Function where
  name := [109]
  body := [⟨.label, [⟨.label, [76]⟩], 1⟩, counter, ⟨.goto, [⟨.label, [76]⟩], 3⟩]

def counted : Graph where
  blocks := [⟨[109], ⟨.label, [⟨.label, [76]⟩], 1⟩, [counter, ⟨.goto, [⟨.label, [76]⟩], 3⟩]⟩]
  entry := 0
  edges := [(0, 0)]
  exits := [([109], 0)]

def countedFacts : List Facts := [⟨.singleton 2, .singleton 2⟩]

theorem counter_feeds_itself :
    Graph.build [] [109] ⟨[counting]⟩ = .ok counted ∧ counted.solve 0 = .ok ⟨countedFacts, 2⟩ ∧
      counted.Flows counting [120] counter counter := by
  have built : Graph.build [] [109] ⟨[counting]⟩ = .ok counted := by cbv
  have solved : counted.solve 0 = .ok ⟨countedFacts, 2⟩ := by cbv
  have lines : ((Solved.mk counted countedFacts).feeding counter).lines = [2] := by cbv
  have fed : 2 ∈ (Solved.mk counted countedFacts).feeding counter := by
    rw [← LineSet.mem_lines, lines]
    exact List.mem_singleton.2 rfl
  have paths := (feeding_iff_path built solved (f := counting) (by simp) (i := counter) (by simp [counting])).2
  obtain ⟨_, v, _, written, path⟩ := (paths counter (by simp [Program.code, counting])).1 fed
  have same : some [120] = some v := written
  exact ⟨built, solved, Option.some.inj same ▸ path⟩

end Solved

end Deadwood

import Deadwood.Flow.Wiring
import Mathlib.Data.List.Nodup
import Mathlib.Data.List.Pairwise

/-!
Blocks partition the code of a program. A body is the code of its blocks, one after the other; control is given away
only by the last instruction of a block, and labels stand only first. What the first look over a program accepts has
distinct lines, function names and labels, so every instruction has one place.
-/

namespace Deadwood

namespace Block

theorem getLast?_code (b : Block) : b.code.getLast? = some b.last := List.getLast?_cons

theorem code_eq_append_last (b : Block) : ∃ front, b.code = front ++ [b.last] :=
  List.getLast?_eq_some_iff.1 b.getLast?_code

theorem leader_mem (b : Block) : b.leader ∈ b.code := List.mem_cons_self

theorem last_mem (b : Block) : b.last ∈ b.code := List.mem_of_getLast? b.getLast?_code

theorem last_eq {b : Block} {front : List Instruction} {i : Instruction} (split : b.code = front ++ [i]) :
    b.last = i := by
  have found := b.getLast?_code
  rw [split, List.getLast?_append, List.getLast?_singleton] at found
  exact (Option.some.inj found).symm

theorem holds_iff {b : Block} {line : Int} : b.holds line = true ↔ ∃ i ∈ b.code, i.line = line := by
  simp [holds, lines]

end Block

theorem Instruction.call_of_userCall {intrinsics : List Bytes} {i : Instruction} {callee : Bytes}
    (calls : i.userCall? intrinsics = some callee) : i.op = .call ∨ i.op = .callr := by
  have named : i.callee?.isSome := by
    rw [userCall?, Option.filter_eq_some_iff] at calls
    simp [calls.1]
  cases op : i.op <;> simp [callee?, op] at named ⊢

def Instruction.Joins (intrinsics : List Bytes) (i j : Instruction) : Prop :=
  i.closes intrinsics = false ∧ j.op ≠ .label

section

variable {intrinsics : List Bytes}

theorem flatMap_runs (body : List Instruction) :
    (runs intrinsics body).flatMap (fun run => run.1 :: run.2) = body := by
  induction body with
  | nil => rfl
  | cons i rest ih =>
      rw [runs]
      cases found : runs intrinsics rest with
      | nil =>
          rw [found] at ih
          simp [← ih]
      | cons run later =>
          rw [found] at ih
          obtain ⟨j, others⟩ := run
          simp only [List.flatMap_cons] at ih
          dsimp only
          split <;> simp [← ih]

theorem runs_joined (body : List Instruction) :
    ∀ run ∈ runs intrinsics body, (run.1 :: run.2).IsChain (Instruction.Joins intrinsics) := by
  induction body with
  | nil => simp [runs]
  | cons i rest ih =>
      rw [runs]
      cases found : runs intrinsics rest with
      | nil => simp
      | cons run later =>
          rw [found] at ih
          obtain ⟨j, others⟩ := run
          have here := ih (j, others) List.mem_cons_self
          intro run member
          simp only [Bool.or_eq_true, decide_eq_true_eq] at member
          split at member
          · rcases List.mem_cons.1 member with rfl | member
            · exact .singleton i
            · exact ih run member
          · rename_i joins
            rw [not_or, Bool.not_eq_true] at joins
            rcases List.mem_cons.1 member with rfl | member
            · exact List.isChain_cons_cons.2 ⟨joins, here⟩
            · exact ih run (List.mem_cons_of_mem _ member)

namespace Function

theorem code_blocks (intrinsics : List Bytes) (f : Function) : (f.blocks intrinsics).flatMap Block.code = f.body := by
  rw [blocks, List.flatMap_map]
  exact flatMap_runs f.body

theorem function_of_mem_blocks {f : Function} {b : Block} (member : b ∈ f.blocks intrinsics) :
    b.function = f.name := by
  obtain ⟨run, _, rfl⟩ := List.mem_map.1 member
  rfl

theorem joined_of_mem_blocks {f : Function} {b : Block} (member : b ∈ f.blocks intrinsics) :
    b.code.IsChain (Instruction.Joins intrinsics) := by
  obtain ⟨run, present, rfl⟩ := List.mem_map.1 member
  exact runs_joined f.body run present

theorem last_of_final {f : Function} {earlier : List Block} {b : Block} {front : List Instruction} {i : Instruction}
    (blocks : f.blocks intrinsics = earlier ++ [b]) (body : f.body = front ++ [i]) : b.last = i := by
  obtain ⟨others, code⟩ := b.code_eq_append_last
  rw [← f.code_blocks intrinsics, blocks, List.flatMap_append, List.flatMap_singleton, code,
    ← List.append_assoc] at body
  exact List.singleton_inj.1 (List.append_inj_right' body rfl)

theorem mem_body_iff (intrinsics : List Bytes) {f : Function} {i : Instruction} :
    i ∈ f.body ↔ ∃ b ∈ f.blocks intrinsics, i ∈ b.code := by
  rw [← f.code_blocks intrinsics, List.mem_flatMap]

end Function

end

theorem neighbours_of_flatMap_code {blocks : List Block} {front back : List Instruction} {i j : Instruction}
    (flat : blocks.flatMap Block.code = front ++ i :: j :: back) :
    (∃ b ∈ blocks, ∃ before after, b.code = before ++ i :: j :: after) ∨
      ∃ earlier b c later, blocks = earlier ++ b :: c :: later ∧ b.last = i ∧ c.leader = j := by
  induction blocks generalizing front with
  | nil => simp at flat
  | cons b blocks ih =>
      -- The first block ends before the pair, between the two, or after both.
      have further {front : List Instruction} (flat : blocks.flatMap Block.code = front ++ i :: j :: back) :
          (∃ c ∈ b :: blocks, ∃ before after, c.code = before ++ i :: j :: after) ∨
            ∃ earlier c d later, b :: blocks = earlier ++ c :: d :: later ∧ c.last = i ∧ d.leader = j := by
        rcases ih flat with ⟨c, member, within⟩ | ⟨earlier, c, d, later, rfl, ends, begins⟩
        · exact .inl ⟨c, List.mem_cons_of_mem b member, within⟩
        · exact .inr ⟨b :: earlier, c, d, later, rfl, ends, begins⟩
      rw [List.flatMap_cons] at flat
      rcases List.append_eq_append_iff.1 flat with ⟨rest, _, after⟩ | ⟨rest, here, after⟩
      · exact further after
      · rcases rest with _ | ⟨first, _ | ⟨second, rest⟩⟩
        · exact @further [] after.symm
        · simp only [List.cons_append, List.nil_append, List.cons.injEq] at after
          obtain ⟨rfl, after⟩ := after
          cases blocks with
          | nil => simp at after
          | cons c blocks =>
              have begins : c.leader = j := by
                rw [List.flatMap_cons, Block.code, List.cons_append] at after
                exact (List.cons.inj after).1.symm
              exact .inr ⟨[], b, c, blocks, rfl, Block.last_eq here, begins⟩
        · simp only [List.cons_append, List.cons.injEq] at after
          obtain ⟨rfl, rfl, _⟩ := after
          exact .inl ⟨b, List.mem_cons_self, front, rest, here⟩

section

variable {intrinsics : List Bytes} {p : Program}

namespace Program

theorem mem_code_iff {i : Instruction} : i ∈ p.code ↔ ∃ f ∈ p.functions, i ∈ f.body := List.mem_flatMap

theorem mem_blocks_iff {b : Block} : b ∈ p.blocks intrinsics ↔ ∃ f ∈ p.functions, b ∈ f.blocks intrinsics :=
  List.mem_flatMap

theorem code_blocks (intrinsics : List Bytes) (p : Program) : (p.blocks intrinsics).flatMap Block.code = p.code := by
  simp only [blocks, code, List.flatMap_assoc, Function.code_blocks]

theorem blocks_split {before after : List Function} {f : Function} (split : p.functions = before ++ f :: after) :
    p.blocks intrinsics = before.flatMap (·.blocks intrinsics) ++ (f.blocks intrinsics ++
      after.flatMap (·.blocks intrinsics)) := by
  rw [blocks, split, List.flatMap_append, List.flatMap_cons]

end Program

end

/-- No line and no function name comes twice, nor a label within a function. -/
structure Program.Distinct (p : Program) : Prop where
  names : (p.functions.map (·.name)).Nodup
  lines : (p.code.map (·.line)).Nodup
  labels : ∀ f ∈ p.functions, ((f.body.filter (·.op = .label)).map (·.labelName)).Nodup

theorem scanBody_lines {labels : List (Bytes × Int)} {seen found : List Int} {body : List Instruction}
    (accepted : scanBody labels seen body = .ok found) :
    found = (body.map (·.line)).reverse ++ seen ∧ (seen.Nodup → found.Nodup) := by
  induction body generalizing labels seen with
  | nil =>
      rw [scanBody] at accepted
      cases accepted
      exact ⟨rfl, id⟩
  | cons i rest ih =>
      rw [scanBody] at accepted
      have further {labels : List (Bytes × Int)} (fresh : i.line ∉ seen)
          (accepted : scanBody labels (i.line :: seen) rest = .ok found) :
          found = ((i :: rest).map (·.line)).reverse ++ seen ∧ (seen.Nodup → found.Nodup) := by
        obtain ⟨shape, nodup⟩ := ih accepted
        refine ⟨by simp [shape], fun distinct => nodup ?_⟩
        exact List.nodup_cons.2 ⟨fresh, distinct⟩
      split at accepted
      · cases accepted
      · rename_i fresh
        split at accepted
        · split at accepted
          · cases accepted
          · exact further fresh accepted
        · exact further fresh accepted

theorem scanBody_labels {labels : List (Bytes × Int)} {seen found : List Int} {body : List Instruction}
    (accepted : scanBody labels seen body = .ok found) (distinct : (labels.map (·.1)).Nodup) :
    (labels.map (·.1) ++ (body.filter (·.op = .label)).map (·.labelName)).Nodup := by
  induction body generalizing labels seen with
  | nil => simpa using distinct
  | cons i rest ih =>
      rw [scanBody] at accepted
      split at accepted
      · cases accepted
      · split at accepted
        · rename_i label
          split at accepted
          · cases accepted
          · rename_i absent
            have fresh : i.labelName ∉ labels.map (·.1) := by
              intro member
              obtain ⟨entry, present, same⟩ := List.mem_map.1 member
              have differs := List.lookup_eq_none_iff.1 absent entry present
              simp [same] at differs
            have later := ih accepted (by simpa using ⟨by simpa using fresh, distinct⟩)
            simp only [List.filter_cons, label, decide_true, if_true, List.map_cons]
            exact (List.perm_middle.nodup_iff).2 later
        · rename_i other
          simpa [List.filter_cons, other] using ih accepted distinct

theorem scan_distinct {names : List Bytes} {seen : List Int} {functions : List Function}
    (accepted : scan names seen functions = .ok ()) (fresh : names.Nodup) (old : seen.Nodup) :
    (names ++ functions.map (·.name)).Nodup ∧ (seen ++ (functions.flatMap (·.body)).map (·.line)).Nodup ∧
      ∀ f ∈ functions, ((f.body.filter (·.op = .label)).map (·.labelName)).Nodup := by
  induction functions generalizing names seen with
  | nil => simpa using ⟨fresh, old⟩
  | cons f rest ih =>
      rw [scan] at accepted
      split at accepted
      · cases accepted
      · rename_i absent
        split at accepted
        · rename_i found body
          obtain ⟨shape, nodup⟩ := scanBody_lines body
          obtain ⟨later, lines, labels⟩ := ih accepted (List.nodup_cons.2 ⟨absent, fresh⟩) (nodup old)
          refine ⟨?_, ?_, ?_⟩
          · exact (List.perm_middle.nodup_iff).2 later
          · refine (List.Perm.nodup_iff ?_).2 lines
            rw [shape, List.flatMap_cons, List.map_append, ← List.append_assoc]
            refine List.Perm.append_right _ (List.perm_append_comm.trans ?_)
            exact List.Perm.append_right seen (List.reverse_perm _).symm
          · intro g member
            rcases List.mem_cons.1 member with rfl | member
            · simpa using scanBody_labels body List.nodup_nil
            · exact labels g member
        · cases accepted

theorem Program.distinct_of_scan {p : Program} (accepted : scan [] [] p.functions = .ok ()) : p.Distinct := by
  obtain ⟨names, lines, labels⟩ := scan_distinct accepted List.nodup_nil List.nodup_nil
  exact ⟨names, lines, labels⟩

namespace Program.Distinct

variable {p : Program}

theorem function_eq (distinct : p.Distinct) {f g : Function} (first : f ∈ p.functions) (second : g ∈ p.functions)
    (same : f.name = g.name) : f = g :=
  List.inj_on_of_nodup_map distinct.names first second same

theorem name_ne (distinct : p.Distinct) {before after : List Function} {f h : Function}
    (split : p.functions = before ++ f :: after) (other : h ∈ before ++ after) : h.name ≠ f.name := by
  have names := distinct.names
  rw [split, List.map_append, List.map_cons] at names
  have absent := (List.nodup_cons.1 (List.perm_middle.nodup_iff.1 names)).1
  rw [← List.map_append] at absent
  intro same
  exact absent (List.mem_map.2 ⟨h, other, same⟩)

theorem instruction_eq (distinct : p.Distinct) {i j : Instruction} (first : i ∈ p.code) (second : j ∈ p.code)
    (same : i.line = j.line) : i = j :=
  List.inj_on_of_nodup_map distinct.lines first second same

theorem code_nodup (distinct : p.Distinct) : p.code.Nodup := List.Nodup.of_map _ distinct.lines

theorem body_nodup (distinct : p.Distinct) {f : Function} (function : f ∈ p.functions) : f.body.Nodup :=
  (List.nodup_flatMap.1 distinct.code_nodup).1 f function

theorem owner_eq (distinct : p.Distinct) {f g : Function} {i : Instruction} (first : f ∈ p.functions)
    (second : g ∈ p.functions) (inFirst : i ∈ f.body) (inSecond : i ∈ g.body) : f = g := by
  by_contra different
  have apart := (List.nodup_flatMap.1 distinct.code_nodup).2
  have : Std.Symm (Function.onFun List.Disjoint fun f : Function => f.body) :=
    ⟨fun _ _ apart _ first second => apart second first⟩
  exact List.disjoint_left.1 (apart.forall first second different) inFirst inSecond

theorem label_eq (distinct : p.Distinct) {f : Function} {i j : Instruction} (function : f ∈ p.functions)
    (first : i ∈ f.body) (second : j ∈ f.body) (firstLabel : i.op = .label) (secondLabel : j.op = .label)
    (same : i.labelName = j.labelName) : i = j :=
  List.inj_on_of_nodup_map (distinct.labels f function) (List.mem_filter.2 ⟨first, by simp [firstLabel]⟩)
    (List.mem_filter.2 ⟨second, by simp [secondLabel]⟩) same

theorem function?_eq (distinct : p.Distinct) {f : Function} (member : f ∈ p.functions) :
    p.function? f.name = some f := by
  cases found : p.function? f.name with
  | none =>
      have absent := List.find?_eq_none.1 found f member
      simp at absent
  | some g =>
      have name := List.find?_some found
      rw [distinct.function_eq (List.mem_of_find?_eq_some found) member (by simpa using name)]

section

variable {intrinsics : List Bytes}

theorem block_eq (distinct : p.Distinct) {k l : Nat} {b c : Block} {i : Instruction}
    (first : (p.blocks intrinsics)[k]? = some b) (second : (p.blocks intrinsics)[l]? = some c)
    (inFirst : i ∈ b.code) (inSecond : i ∈ c.code) : k = l := by
  have nodup := distinct.code_nodup
  rw [← p.code_blocks intrinsics] at nodup
  have apart := List.pairwise_iff_getElem.1 (List.nodup_flatMap.1 nodup).2
  obtain ⟨kBound, rfl⟩ := List.getElem?_eq_some_iff.1 first
  obtain ⟨lBound, rfl⟩ := List.getElem?_eq_some_iff.1 second
  rcases Nat.lt_trichotomy k l with less | same | more
  · exact (List.disjoint_left.1 (apart k l kBound lBound less) inFirst inSecond).elim
  · exact same
  · exact (List.disjoint_left.1 (apart l k lBound kBound more) inSecond inFirst).elim

theorem code_nodup_of_block (distinct : p.Distinct) {b : Block} (member : b ∈ p.blocks intrinsics) :
    b.code.Nodup := by
  have nodup := distinct.code_nodup
  rw [← p.code_blocks intrinsics] at nodup
  exact (List.nodup_flatMap.1 nodup).1 b member

theorem function_eq_of_block (distinct : p.Distinct) {f : Function} {b : Block} {i : Instruction}
    (function : f ∈ p.functions) (body : i ∈ f.body) (block : b ∈ p.blocks intrinsics) (member : i ∈ b.code) :
    b.function = f.name := by
  obtain ⟨g, owner, here⟩ := mem_blocks_iff.1 block
  have inOwner : i ∈ g.body := (Function.mem_body_iff intrinsics).2 ⟨b, here, member⟩
  rw [distinct.owner_eq function owner body inOwner]
  exact Function.function_of_mem_blocks here

theorem exists_place (distinct : p.Distinct) {f : Function} (function : f ∈ p.functions) {earlier later : List Block}
    {b : Block} (split : f.blocks intrinsics = earlier ++ b :: later) :
    ∃ k, (p.blocks intrinsics)[k]? = some b ∧ (∀ c rest, later = c :: rest → (p.blocks intrinsics)[k + 1]? = some c) ∧
      Wiring.follower? (p.blocks intrinsics) k b = if later = [] then none else some (k + 1) := by
  rcases List.append_of_mem function with ⟨before, after, functions⟩
  have owner : b.function = f.name := Function.function_of_mem_blocks (by rw [split]; simp)
  have whole : p.blocks intrinsics = (before.flatMap (·.blocks intrinsics) ++ earlier) ++
      b :: (later ++ after.flatMap (·.blocks intrinsics)) := by
    rw [Program.blocks_split functions, split]
    simp
  generalize before.flatMap (·.blocks intrinsics) ++ earlier = front at whole
  have next : (p.blocks intrinsics)[front.length + 1]? = (later ++ after.flatMap (·.blocks intrinsics))[0]? := by
    rw [whole, List.getElem?_append_right (by omega)]
    simp
  refine ⟨front.length, by simp [whole], ?_, ?_⟩
  · intro c rest same
    subst same
    rw [next]
    rfl
  · rw [Wiring.follower?, next]
    cases later with
    | cons c rest =>
        have same : c.function = b.function :=
          (Function.function_of_mem_blocks (by rw [split]; simp)).trans owner.symm
        simp [same]
    | nil =>
        simp only [List.nil_append, if_true]
        split
        · rename_i c found
          -- The next function has another name, so its first block does not follow.
          have member : c ∈ after.flatMap (·.blocks intrinsics) := List.mem_of_getElem? found
          rcases List.mem_flatMap.1 member with ⟨h, present, here⟩
          rw [Function.function_of_mem_blocks here, owner, if_neg]
          exact distinct.name_ne functions (List.mem_append_right _ present)
        · rfl

theorem block_cases (distinct : p.Distinct) {k : Nat} {b : Block} (place : (p.blocks intrinsics)[k]? = some b) :
    ∃ f ∈ p.functions, b.function = f.name ∧ (∀ i ∈ b.code, i ∈ f.body) ∧
      ((Wiring.follower? (p.blocks intrinsics) k b = none ∧ f.body.getLast? = some b.last) ∨
        ∃ c front back, Wiring.follower? (p.blocks intrinsics) k b = some (k + 1) ∧
          (p.blocks intrinsics)[k + 1]? = some c ∧ f.body = front ++ b.last :: c.leader :: back) := by
  rcases mem_blocks_iff.1 (List.mem_of_getElem? place) with ⟨f, function, here⟩
  rcases List.append_of_mem here with ⟨earlier, later, split⟩
  rcases distinct.exists_place function split with ⟨l, place', next, following⟩
  obtain rfl := distinct.block_eq place place' b.leader_mem b.leader_mem
  rcases b.code_eq_append_last with ⟨front, code⟩
  have body : f.body = earlier.flatMap Block.code ++ (front ++ [b.last]) ++ later.flatMap Block.code := by
    rw [← f.code_blocks intrinsics, split, List.flatMap_append, List.flatMap_cons, ← code, List.append_assoc]
  refine ⟨f, function, Function.function_of_mem_blocks here, ?_, ?_⟩
  · intro i member
    exact (Function.mem_body_iff intrinsics).2 ⟨b, here, member⟩
  · cases later with
    | nil =>
        left
        refine ⟨by simpa using following, ?_⟩
        rw [body]
        simp
    | cons c rest =>
        right
        refine ⟨c, earlier.flatMap Block.code ++ front, c.others ++ rest.flatMap Block.code, by simpa using following,
          next c rest rfl, ?_⟩
        rw [body]
        simp [Block.code]

end

end Program.Distinct

theorem place_eq_of_nodup {α : Type} {front back front' back' : List α} {a : α}
    (nodup : (front ++ a :: back).Nodup) (same : front ++ a :: back = front' ++ a :: back') :
    front = front' ∧ back = back' := by
  have absent := (List.nodup_cons.1 (List.perm_middle.nodup_iff.1 nodup)).1
  rw [List.mem_append, not_or] at absent
  obtain ⟨fronts, -, backs⟩ := (List.append_cons_inj_of_notMem absent.1 absent.2).1 same
  exact ⟨fronts, backs⟩

theorem getLast?_ne_of_nodup {α : Type} {front back : List α} {a b : α} (nodup : (front ++ a :: b :: back).Nodup) :
    (front ++ a :: b :: back).getLast? ≠ some a := by
  intro final
  rw [List.getLast?_append_cons, List.getLast?_cons_cons] at final
  exact (List.nodup_cons.1 (List.nodup_append.1 nodup).2.1).1 (List.mem_of_getLast? final)

end Deadwood

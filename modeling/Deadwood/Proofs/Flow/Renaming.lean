import Deadwood.Flow.Walk
import Deadwood.Flow.Wiring
import Mathlib.Data.List.Forall2

/-!
Programs that differ in what their lines and their variables are called. Two such programs are cut into the same blocks
with the same edges, and a defect of the one is the defect of the other on the line that goes by the new name.
-/

namespace Deadwood

section

variable {α β : Type} {R : α → β → Prop} {list : List α} {list' : List β}

theorem map_eq_of_forall₂ {γ : Type} {f : α → γ} {f' : β → γ} (related : List.Forall₂ R list list')
    (same : ∀ a b, R a b → f a = f' b) : list.map f = list'.map f' := by
  induction related with
  | nil => rfl
  | cons first _ ih => rw [List.map_cons, List.map_cons, same _ _ first, ih]

theorem any_eq_of_forall₂ {test : α → Bool} {test' : β → Bool} (related : List.Forall₂ R list list')
    (same : ∀ a b, R a b → test a = test' b) : list.any test = list'.any test' := by
  induction related with
  | nil => rfl
  | cons first _ ih => rw [List.any_cons, List.any_cons, same _ _ first, ih]

theorem findIdx?_eq_of_forall₂ {test : α → Bool} {test' : β → Bool} (related : List.Forall₂ R list list')
    (same : ∀ a b, R a b → test a = test' b) : list.findIdx? test = list'.findIdx? test' := by
  induction related with
  | nil => rfl
  | cons first _ ih => rw [List.findIdx?_cons, List.findIdx?_cons, same _ _ first, ih]

theorem find?_of_forall₂ {test : α → Bool} {test' : β → Bool} (related : List.Forall₂ R list list')
    (same : ∀ a b, R a b → test a = test' b) : Option.Rel R (list.find? test) (list'.find? test') := by
  induction related with
  | nil => exact .none
  | @cons a b _ _ first _ ih =>
      rw [List.find?_cons, List.find?_cons, same a b first]
      cases test' b
      · exact ih
      · exact .some first

theorem takeWhile_of_forall₂ {test : α → Bool} {test' : β → Bool} (related : List.Forall₂ R list list')
    (same : ∀ a b, R a b → test a = test' b) : List.Forall₂ R (list.takeWhile test) (list'.takeWhile test') := by
  induction related with
  | nil => exact .nil
  | @cons a b _ _ first _ ih =>
      rw [List.takeWhile_cons, List.takeWhile_cons, same a b first]
      cases test' b
      · exact .nil
      · exact .cons first ih

theorem getElem?_of_forall₂ (related : List.Forall₂ R list list') (k : Nat) : Option.Rel R list[k]? list'[k]? := by
  induction related generalizing k with
  | nil => exact .none
  | cons first _ ih =>
      cases k with
      | zero => exact .some first
      | succ k => exact ih k

theorem exists_of_mem_left (related : List.Forall₂ R list list') {a : α} (member : a ∈ list) :
    ∃ b ∈ list', R a b := by
  rcases List.getElem?_of_mem member with ⟨k, found⟩
  have there := getElem?_of_forall₂ related k
  rw [found] at there
  cases found' : list'[k]? with
  | none =>
      rw [found'] at there
      cases there
  | some b =>
      rw [found'] at there
      cases there with
      | some same => exact ⟨b, List.mem_of_getElem? found', same⟩

theorem exists_of_mem_right (related : List.Forall₂ R list list') {b : β} (member : b ∈ list') :
    ∃ a ∈ list, R a b :=
  exists_of_mem_left (R := flip R) (List.Forall₂.flip related) member

theorem forall₂_mem (related : List.Forall₂ R list list') :
    List.Forall₂ (fun a b => a ∈ list ∧ b ∈ list' ∧ R a b) list list' := by
  induction related with
  | nil => exact .nil
  | cons first _ ih =>
      refine .cons ⟨List.mem_cons_self, List.mem_cons_self, first⟩ (ih.imp ?_)
      intro a b later
      exact ⟨List.mem_cons_of_mem _ later.1, List.mem_cons_of_mem _ later.2.1, later.2.2⟩

theorem getLast?_of_forall₂ (related : List.Forall₂ R list list') : Option.Rel R list.getLast? list'.getLast? := by
  rw [List.getLast?_eq_getElem?, List.getLast?_eq_getElem?, related.length_eq]
  exact getElem?_of_forall₂ related _

end

/-- New names for the lines of a program, and for the variables of each of its functions. -/
structure Renaming where
  line : Int → Int
  name : Bytes → Bytes → Bytes
  lines : Function.Injective line
  names : ∀ function, Function.Injective (name function)

namespace Renaming

def refl : Renaming := ⟨id, fun _ => id, fun _ _ same => same, fun _ _ _ same => same⟩

/-- An instruction of a function and its renamed form, as far as an analysis looks at them. -/
structure Takes (r : Renaming) (function : Bytes) (i j : Instruction) : Prop where
  op : j.op = i.op
  line : j.line = r.line i.line
  target : j.target? = i.target?
  callee : j.callee? = i.callee?
  dest : j.dest? = i.dest?.map (r.name function)
  reads : ∀ v, v ∈ j.reads ↔ v ∈ i.reads.map (r.name function)

structure TakesFunction (r : Renaming) (f g : Function) : Prop where
  name : g.name = f.name
  body : List.Forall₂ (r.Takes f.name) f.body g.body

def TakesProgram (r : Renaming) (p q : Program) : Prop := List.Forall₂ r.TakesFunction p.functions q.functions

structure TakesBlock (r : Renaming) (b c : Block) : Prop where
  function : c.function = b.function
  leader : r.Takes b.function b.leader c.leader
  others : List.Forall₂ (r.Takes b.function) b.others c.others

structure TakesGraph (r : Renaming) (g h : Graph) : Prop where
  blocks : List.Forall₂ r.TakesBlock g.blocks h.blocks
  entry : h.entry = g.entry
  edges : h.edges = g.edges
  exits : h.exits = g.exits

variable {r : Renaming} {function : Bytes} {intrinsics : List Bytes} {i j : Instruction}

namespace Takes

theorem labelName (takes : r.Takes function i j) : j.labelName = i.labelName := by
  rw [Instruction.labelName, Instruction.labelName, takes.target]

theorem userCall (takes : r.Takes function i j) (intrinsics : List Bytes) :
    j.userCall? intrinsics = i.userCall? intrinsics := by
  rw [Instruction.userCall?, Instruction.userCall?, takes.callee]

theorem closes (takes : r.Takes function i j) (intrinsics : List Bytes) :
    j.closes intrinsics = i.closes intrinsics := by
  rw [Instruction.closes, Instruction.closes, takes.op, takes.userCall]

end Takes

namespace TakesBlock

variable {b c : Block}

theorem code (takes : r.TakesBlock b c) : List.Forall₂ (r.Takes b.function) b.code c.code :=
  .cons takes.leader takes.others

theorem last (takes : r.TakesBlock b c) : r.Takes b.function b.last c.last := by
  have final := getLast?_of_forall₂ takes.others
  rw [Block.last, Block.last]
  revert final
  cases b.others.getLast? <;> cases c.others.getLast? <;> intro final <;> cases final
  · exact takes.leader
  · assumption

end TakesBlock

theorem takes_runs {body body' : List Instruction} (takes : List.Forall₂ (r.Takes function) body body') :
    List.Forall₂ (fun run run' => r.Takes function run.1 run'.1 ∧ List.Forall₂ (r.Takes function) run.2 run'.2)
      (runs intrinsics body) (runs intrinsics body') := by
  induction takes with
  | nil => exact .nil
  | @cons i j _ _ first _ ih =>
      rw [runs, runs]
      revert ih
      generalize runs intrinsics _ = cuts
      generalize runs intrinsics _ = cuts'
      intro ih
      cases ih with
      | nil => exact .cons ⟨first, .nil⟩ .nil
      | @cons run run' later later' head rest =>
          simp only [first.closes, head.1.op]
          split
          · exact .cons ⟨first, .nil⟩ (.cons head rest)
          · exact .cons ⟨first, .cons head.1 head.2⟩ rest

theorem TakesFunction.blocks {f g : Function} (takes : r.TakesFunction f g) :
    List.Forall₂ r.TakesBlock (f.blocks intrinsics) (g.blocks intrinsics) := by
  rw [Function.blocks, Function.blocks, List.forall₂_map_left_iff, List.forall₂_map_right_iff]
  refine (takes_runs takes.body).imp ?_
  intro run run' same
  exact ⟨takes.name, same.1, same.2⟩

theorem TakesProgram.blocks {p q : Program} (takes : r.TakesProgram p q) (intrinsics : List Bytes) :
    List.Forall₂ r.TakesBlock (p.blocks intrinsics) (q.blocks intrinsics) :=
  List.rel_flatMap takes fun _ _ function => function.blocks

end Renaming

def FlowError.renumbered (line : Int → Int) : FlowError → FlowError
  | .duplicateLine n => .duplicateLine (line n)
  | .duplicateLabel n name first => .duplicateLabel (line n) name (line first)
  | .dangling n reference => .dangling (line n) reference
  | e => e

namespace Renaming

theorem lookup_map (line : Int → Int) (labels : List (Bytes × Int)) (name : Bytes) :
    (labels.map (Prod.map id line)).lookup name = (labels.lookup name).map line := by
  induction labels with
  | nil => rfl
  | cons label labels ih =>
      rw [List.map_cons, List.lookup_cons, List.lookup_cons, ih]
      simp only [Prod.map, id]
      cases name == label.1 <;> rfl

theorem scanBody_takes {r : Renaming} {function : Bytes} {body body' : List Instruction}
    (takes : List.Forall₂ (r.Takes function) body body') (labels : List (Bytes × Int)) (seen : List Int) :
    scanBody (labels.map (Prod.map id r.line)) (seen.map r.line) body' =
      ((scanBody labels seen body).map (List.map r.line)).mapError (FlowError.renumbered r.line) := by
  induction takes generalizing labels seen with
  | nil => rfl
  | @cons i j _ _ first _ ih =>
      have known : j.line ∈ seen.map r.line ↔ i.line ∈ seen := by
        rw [first.line]
        exact List.mem_map_of_injective r.lines
      have next := ih labels (i.line :: seen)
      have labelled := ih ((i.labelName, i.line) :: labels) (i.line :: seen)
      simp only [List.map_cons, Prod.map, id, ← first.line] at next labelled
      simp only [scanBody, known, first.op, first.labelName, lookup_map, next]
      split
      · rw [first.line]
        rfl
      · split
        · cases labels.lookup i.labelName with
          | none => exact labelled
          | some n =>
              rw [first.line]
              rfl
        · rfl

theorem scan_takes {r : Renaming} {functions functions' : List Function}
    (takes : List.Forall₂ r.TakesFunction functions functions') (names : List Bytes) (seen : List Int) :
    scan names (seen.map r.line) functions' = (scan names seen functions).mapError (FlowError.renumbered r.line) := by
  induction takes generalizing names seen with
  | nil => rfl
  | @cons f g _ _ first _ ih =>
      have body := scanBody_takes first.body [] seen
      rw [List.map_nil] at body
      simp only [scan, first.name, body]
      split
      · rfl
      · cases scanBody [] seen f.body with
        | error e => rfl
        | ok found => exact ih (f.name :: names) found

end Renaming

namespace Wiring

variable {r : Renaming} {blocks blocks' : List Block} {b c : Block}

theorem follower?_takes (takes : List.Forall₂ r.TakesBlock blocks blocks') (block : r.TakesBlock b c) (id : Nat) :
    follower? blocks' id c = follower? blocks id b := by
  have next := getElem?_of_forall₂ takes (id + 1)
  rw [follower?, follower?]
  revert next
  cases blocks[id + 1]? <;> cases blocks'[id + 1]? <;> intro next <;> cases next
  · rfl
  · rename_i same
    simp only [same.function, block.function]

theorem target_takes (takes : List.Forall₂ r.TakesBlock blocks blocks') (block : r.TakesBlock b c) :
    target blocks' c = (target blocks b).mapError (FlowError.renumbered r.line) := by
  have label (name : Bytes) : labelBlock? blocks' c.function name = labelBlock? blocks b.function name := by
    symm
    apply findIdx?_eq_of_forall₂ takes
    intro a a' same
    rw [same.function, same.leader.op, same.leader.labelName, block.function]
  rw [target, target, block.last.target, block.last.line]
  cases b.last.target? with
  | none => rfl
  | some name =>
      simp only [label]
      cases labelBlock? blocks b.function name <;> rfl

theorem returns_takes (takes : List.Forall₂ r.TakesBlock blocks blocks') (function : Bytes) :
    returns blocks' function = returns blocks function := by
  symm
  apply any_eq_of_forall₂ takes
  intro a a' same
  rw [same.function, same.last.op]

theorem leave_takes (takes : List.Forall₂ r.TakesBlock blocks blocks') (block : r.TakesBlock b c)
    (intrinsics : List Bytes) (id : Nat) :
    leave intrinsics blocks' id c = (leave intrinsics blocks id b).mapError (FlowError.renumbered r.line) := by
  have entry (callee : Bytes) : blocks'.findIdx? (·.function = callee) = blocks.findIdx? (·.function = callee) := by
    symm
    apply findIdx?_eq_of_forall₂ takes
    intro a a' same
    rw [same.function]
  simp only [leave, follower?_takes takes block, target_takes takes block, returns_takes takes, block.last.op,
    block.last.userCall, block.last.line, block.function, entry]
  cases b.last.op with
  | goto =>
      cases target blocks b with
      | error e => rfl
      | ok label =>
          dsimp only [bind, Except.bind, Except.mapError]
          split <;> rfl
  | branch test =>
      cases target blocks b with
      | error e => rfl
      | ok label =>
          dsimp only [bind, Except.bind, Except.mapError]
          cases follower? blocks id b <;> rfl
  | ret => rfl
  | _ =>
      dsimp only
      cases b.last.userCall? intrinsics with
      | none => cases follower? blocks id b <;> rfl
      | some callee =>
          dsimp only
          cases blocks.findIdx? (·.function = callee) with
          | none => rfl
          | some start => cases follower? blocks id b <;> rfl

theorem wiresFrom_takes (takes : List.Forall₂ r.TakesBlock blocks blocks') {later later' : List Block}
    (rest : List.Forall₂ r.TakesBlock later later') (intrinsics : List Bytes) (id : Nat) :
    wiresFrom intrinsics blocks' id later' =
      (wiresFrom intrinsics blocks id later).mapError (FlowError.renumbered r.line) := by
  induction rest generalizing id with
  | nil => rfl
  | cons first _ ih =>
      rw [wiresFrom, wiresFrom, leave_takes takes first, ih]
      cases leave intrinsics blocks id _ with
      | error e => rfl
      | ok here =>
          cases wiresFrom intrinsics blocks (id + 1) _ <;> rfl

end Wiring

namespace Renaming

variable {r : Renaming} {p q : Program} {g h : Graph}

theorem takes_ofWires {blocks blocks' : List Block} (takes : List.Forall₂ r.TakesBlock blocks blocks') (entry : Nat)
    (wires : List Wire) : r.TakesGraph (Graph.ofWires blocks entry wires) (Graph.ofWires blocks' entry wires) := by
  have names : blocks'.map (·.function) = blocks.map (·.function) :=
    (map_eq_of_forall₂ takes fun _ _ same => same.function.symm).symm
  refine ⟨takes, rfl, ?_, rfl⟩
  simp only [Graph.ofWires, names]

theorem build_takes (takes : r.TakesProgram p q) (intrinsics : List Bytes) (entry : Bytes) :
    (∀ e, Graph.build intrinsics entry p = .error e → Graph.build intrinsics entry q = .error (e.renumbered r.line)) ∧
      ∀ g, Graph.build intrinsics entry p = .ok g → ∃ h, Graph.build intrinsics entry q = .ok h ∧ r.TakesGraph g h := by
  have empty : q.functions = [] ↔ p.functions = [] := by
    rw [← List.length_eq_zero_iff, ← List.length_eq_zero_iff, List.Forall₂.length_eq takes]
  have scanned : scan [] [] q.functions = (scan [] [] p.functions).mapError (FlowError.renumbered r.line) :=
    scan_takes takes [] []
  have blocks := takes.blocks intrinsics
  have wired := Wiring.wiresFrom_takes blocks blocks intrinsics 0
  have start : (q.blocks intrinsics).findIdx? (·.function = entry) =
      (p.blocks intrinsics).findIdx? (·.function = entry) := by
    symm
    apply findIdx?_eq_of_forall₂ blocks
    intro b c same
    rw [same.function]
  simp only [Graph.build, empty, scanned, wired, start]
  split
  · exact ⟨fun e same => by cases same; rfl, fun g same => by cases same⟩
  · cases scan [] [] p.functions with
    | error e => exact ⟨fun e' same => by cases same; rfl, fun g same => by cases same⟩
    | ok done =>
        cases Wiring.wiresFrom intrinsics (p.blocks intrinsics) 0 (p.blocks intrinsics) with
        | error e => exact ⟨fun e' same => by cases same; rfl, fun g same => by cases same⟩
        | ok wires =>
            cases (p.blocks intrinsics).findIdx? (·.function = entry) with
            | none => exact ⟨fun e' same => by cases same; rfl, fun g same => by cases same⟩
            | some first =>
                refine ⟨fun e same => (by cases same), fun g same => ?_⟩
                cases same
                exact ⟨_, rfl, takes_ofWires blocks first wires⟩

namespace TakesGraph

theorem size (takes : r.TakesGraph g h) : h.size = g.size := takes.blocks.length_eq.symm

theorem preds (takes : r.TakesGraph g h) : h.preds = g.preds := by
  funext id
  rw [Graph.preds, Graph.preds, takes.edges]

theorem order (takes : r.TakesGraph g h) : h.order = g.order := by
  have succs : h.succs = g.succs := by
    funext id
    rw [Graph.succs, Graph.succs, takes.edges]
  rw [Graph.order, Graph.order, Graph.ids, Graph.ids, takes.size, takes.entry, succs]

end TakesGraph

end Renaming

end Deadwood

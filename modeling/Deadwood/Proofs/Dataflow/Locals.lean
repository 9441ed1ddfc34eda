import Deadwood.Proofs.Dataflow.Numbering

/-!
What a function calls its variables is its own affair. Under other names in one function, even names that are taken in
another, a program has the same blocks with the same sets at them, and the same lines are critical.
-/

namespace Deadwood

namespace Operand

def renamed (name : Bytes → Bytes) (o : Operand) : Operand := if o.isStorage then { o with name := name o.name } else o

variable {name : Bytes → Bytes} {o : Operand}

theorem renamed_of_not_isStorage (other : o.isStorage = false) : o.renamed name = o := by
  simp [renamed, other]

theorem name_renamed (storage : o.isStorage = true) : (o.renamed name).name = name o.name := by
  rw [renamed, if_pos storage]

@[simp] theorem kind_renamed (name : Bytes → Bytes) (o : Operand) : (o.renamed name).kind = o.kind := by
  rw [renamed]
  split <;> rfl

@[simp] theorem isStorage_renamed (name : Bytes → Bytes) (o : Operand) : (o.renamed name).isStorage = o.isStorage := by
  rw [isStorage, isStorage, kind_renamed]

end Operand

namespace Instruction

def renamed (name : Bytes → Bytes) (i : Instruction) : Instruction :=
  { i with operands := i.operands.map (Operand.renamed name) }

def storage (i : Instruction) : List Bytes := (i.operands.filter (·.isStorage)).map (·.name)

variable {name name' : Bytes → Bytes} {i : Instruction}

@[simp] theorem op_renamed (name : Bytes → Bytes) (i : Instruction) : (i.renamed name).op = i.op := rfl

theorem renamed_congr (same : ∀ v ∈ i.storage, name v = name' v) : i.renamed name = i.renamed name' := by
  refine congrArg (Instruction.mk i.op · i.line) (List.map_congr_left fun o member => ?_)
  cases storage : o.isStorage with
  | false => rw [Operand.renamed_of_not_isStorage storage, Operand.renamed_of_not_isStorage storage]
  | true =>
      have stored : o.name ∈ i.storage := List.mem_map_of_mem (List.mem_filter.2 ⟨member, storage⟩)
      rw [Operand.renamed, Operand.renamed, same o.name stored]

theorem target?_renamed (name : Bytes → Bytes) (i : Instruction) : (i.renamed name).target? = i.target? := by
  rcases i with ⟨op, _ | ⟨⟨kind, text⟩, operands⟩, line⟩
  · rfl
  · by_cases label : kind = .label
    · subst label
      rfl
    · simp [target?, renamed, label]

theorem dest?_renamed (name : Bytes → Bytes) (i : Instruction) : (i.renamed name).dest? = i.dest?.map name := by
  rcases i with ⟨op, _ | ⟨o, operands⟩, line⟩
  · simp [dest?, renamed]
  · cases storage : o.isStorage with
    | false => simp [dest?, renamed, storage]
    | true =>
        simp only [dest?, renamed, List.map_cons, Operand.isStorage_renamed, storage, Operand.name_renamed storage]
        split <;> rfl

theorem reads_renamed (name : Bytes → Bytes) (i : Instruction) : (i.renamed name).reads = i.reads.map name := by
  have stored (operands : List Operand) : ((operands.map (Operand.renamed name)).filter (·.isStorage)).map (·.name) =
      ((operands.filter (·.isStorage)).map (·.name)).map name := by
    induction operands with
    | nil => rfl
    | cons o operands ih =>
        cases storage : o.isStorage with
        | false => simpa [storage] using ih
        | true => simpa [storage, Operand.name_renamed storage] using ih
  have taken : (if i.op.readsFirst then (i.renamed name).operands else (i.renamed name).operands.drop 1) =
      (if i.op.readsFirst then i.operands else i.operands.drop 1).map (Operand.renamed name) := by
    split
    · rfl
    · exact (List.map_drop ..).symm
  rw [reads, reads, op_renamed, taken, stored]

theorem Legible.callee?_renamed (legible : i.Legible) (name : Bytes → Bytes) : (i.renamed name).callee? = i.callee? := by
  cases legible with
  | label line named => rfl
  | @operation op names arrays line defined operates accepted items =>
      have kept (index : Nat) (call : op = .call ∧ index = 0 ∨ op = .callr ∧ index = 1) (text : Bytes) :
          (Operand.classify arrays op index text).renamed name = Operand.classify arrays op index text := by
        have still : ¬(index = 0 ∧ op.isJump = true) := by
          rcases call with ⟨rfl, _⟩ | ⟨rfl, _⟩ <;> simp [Opcode.isJump]
        rw [Operand.classify, if_neg still, if_pos call]
        rfl
      cases op <;> simp [callee?, renamed, kept, Function.comp_def]

theorem Legible.closes_renamed (legible : i.Legible) (name : Bytes → Bytes) (intrinsics : List Bytes) :
    (i.renamed name).closes intrinsics = i.closes intrinsics := by
  rw [closes, closes, op_renamed, userCall?, userCall?, legible.callee?_renamed]

end Instruction

def Block.renamedIn (function : Bytes) (name : Bytes → Bytes) (b : Block) : Block :=
  if b.function = function then ⟨b.function, b.leader.renamed name, b.others.map (·.renamed name)⟩ else b

namespace Function

def renamed (name : Bytes → Bytes) (f : Function) : Function := { f with body := f.body.map (·.renamed name) }

def storage (f : Function) : List Bytes := f.body.flatMap (·.storage)

variable {name name' : Bytes → Bytes} {f : Function}

theorem renamed_congr (same : ∀ v ∈ f.storage, name v = name' v) : f.renamed name = f.renamed name' := by
  refine congrArg (fun body => { f with body }) (List.map_congr_left fun i member => ?_)
  exact Instruction.renamed_congr fun v stored => same v (List.mem_flatMap.2 ⟨i, member, stored⟩)

end Function

theorem runs_map {intrinsics : List Bytes} {change : Instruction → Instruction} {body : List Instruction}
    (op : ∀ i ∈ body, (change i).op = i.op) (closes : ∀ i ∈ body, (change i).closes intrinsics = i.closes intrinsics) :
    runs intrinsics (body.map change) = (runs intrinsics body).map (Prod.map change (List.map change)) := by
  induction body with
  | nil => rfl
  | cons i rest ih =>
      rw [List.forall_mem_cons] at op closes
      rw [List.map_cons, runs, runs, ih op.2 closes.2, closes.1]
      cases cut : runs intrinsics rest with
      | nil => rfl
      | cons run later =>
          have member : run.1 ∈ rest := by
            rw [← flatMap_runs rest, cut]
            simp
          simp only [List.map_cons, Prod.map_fst, Prod.map_snd, op.2 _ member]
          split <;> rfl

section

variable {before after : List Function} {f : Function}

theorem name_ne_of_nodup (distinct : ((before ++ f :: after).map (·.name)).Nodup) :
    ∀ g ∈ before ++ after, g.name ≠ f.name := by
  rw [List.map_append, List.map_cons, List.nodup_middle, List.nodup_cons, ← List.map_append] at distinct
  intro g member same
  exact distinct.1 (same ▸ List.mem_map_of_mem member)

theorem Function.Legible.blocks_renamed (legible : f.Legible) (name : Bytes → Bytes) (intrinsics : List Bytes) :
    (f.renamed name).blocks intrinsics = (f.blocks intrinsics).map (Block.renamedIn f.name name) := by
  have cut : runs intrinsics (f.body.map (·.renamed name)) = (runs intrinsics f.body).map (Prod.map _ (List.map _)) :=
    runs_map (fun _ _ => rfl) fun i member => (legible.body i member).closes_renamed name intrinsics
  rw [Function.blocks, Function.blocks, renamed, cut, List.map_map, List.map_map]
  refine List.map_congr_left fun run _ => ?_
  simp [Block.renamedIn]

theorem Program.blocks_renamed (legible : f.Legible) (apart : ∀ g ∈ before ++ after, g.name ≠ f.name)
    (name : Bytes → Bytes) (intrinsics : List Bytes) :
    Program.blocks intrinsics ⟨before ++ f.renamed name :: after⟩ =
      (Program.blocks intrinsics ⟨before ++ f :: after⟩).map (Block.renamedIn f.name name) := by
  have kept {functions : List Function} (others : functions ⊆ before ++ after) :
      (functions.flatMap (·.blocks intrinsics)).map (Block.renamedIn f.name name) =
        functions.flatMap (·.blocks intrinsics) := by
    calc (functions.flatMap (·.blocks intrinsics)).map (Block.renamedIn f.name name)
        = (functions.flatMap (·.blocks intrinsics)).map id := by
          apply List.map_congr_left
          intro b member
          rcases List.mem_flatMap.1 member with ⟨g, function, block⟩
          apply if_neg
          rw [Function.function_of_mem_blocks block]
          exact apart g (others function)
      _ = functions.flatMap (·.blocks intrinsics) := List.map_id _
  simp only [Program.blocks, List.flatMap_append, List.flatMap_cons, List.map_append, legible.blocks_renamed,
    kept (List.subset_append_left before after), kept (List.subset_append_right before after)]

end

namespace LineSet

theorem map_id (s : LineSet) : s.map id = s := by
  apply ext
  intro n
  simp [mem_map]

end LineSet

theorem Facts.renumbered_id : Facts.renumbered id = id := by
  funext f
  simp only [renumbered, LineSet.map_id, id]

theorem Effect.renumbered_id : Effect.renumbered id = id := by
  funext e
  simp only [renumbered, LineSet.map_id, id]

theorem Equations.renumbered_id (e : Equations) : e.renumbered id = e := by
  rw [renumbered, Effect.renumbered_id, List.map_id]

namespace Renaming

def within (function : Bytes) (name : Bytes → Bytes) (injective : Function.Injective name) : Renaming where
  line := id
  name := fun other => if other = function then name else id
  lines := Function.injective_id
  names := by
    intro other
    split
    · exact injective
    · exact Function.injective_id

variable {function : Bytes} {name : Bytes → Bytes} {injective : Function.Injective name}

theorem takes_renamed {i : Instruction} (legible : i.Legible) :
    (within function name injective).Takes function i (i.renamed name) where
  op := rfl
  line := rfl
  target := i.target?_renamed name
  callee := legible.callee?_renamed name
  dest := by
    simp only [within, if_pos, i.dest?_renamed name]
  reads := by
    intro v
    simp only [within, if_pos, i.reads_renamed name]

theorem takes_same {other : Bytes} (different : other ≠ function) (i : Instruction) :
    (within function name injective).Takes other i i where
  op := rfl
  line := rfl
  target := rfl
  callee := rfl
  dest := by
    simp only [within, if_neg different, Option.map_id_apply]
  reads := by
    intro v
    simp only [within, if_neg different, List.map_id]

theorem takesProgram_renamed {before after : List Function} {f : Function} (legible : f.Legible)
    (apart : ∀ g ∈ before ++ after, g.name ≠ f.name) :
    (within f.name name injective).TakesProgram ⟨before ++ f :: after⟩ ⟨before ++ f.renamed name :: after⟩ := by
  have same {functions : List Function} (others : functions ⊆ before ++ after) :
      List.Forall₂ (within f.name name injective).TakesFunction functions functions := by
    rw [List.forall₂_same]
    intro g member
    exact ⟨rfl, List.forall₂_same.2 fun i _ => takes_same (apart g (others member)) i⟩
  have own : (within f.name name injective).TakesFunction f (f.renamed name) := by
    refine ⟨rfl, ?_⟩
    rw [Function.renamed, List.forall₂_map_right_iff, List.forall₂_same]
    exact fun i member => takes_renamed (legible.body i member)
  exact List.rel_append (same (List.subset_append_left before after))
    (.cons own (same (List.subset_append_right before after)))

/-- It is enough that the new names are different where the function uses them. -/
theorem exists_takesProgram_renamed {before after : List Function} {f : Function} (legible : f.Legible)
    (apart : ∀ g ∈ before ++ after, g.name ≠ f.name) (injOn : Set.InjOn name {v | v ∈ f.storage}) :
    ∃ r : Renaming, r.line = id ∧ r.TakesProgram ⟨before ++ f :: after⟩ ⟨before ++ f.renamed name :: after⟩ := by
  rcases exists_injective_of_injOn injOn with ⟨name', injective, agree⟩
  refine ⟨within f.name name' injective, rfl, ?_⟩
  rw [← Function.renamed_congr agree]
  exact takesProgram_renamed legible apart

end Renaming

namespace Analysis

structure SameUpTo (function : Bytes) (name : Bytes → Bytes) (a b : Analysis) : Prop where
  critical : b.critical = a.critical
  stats : b.stats = a.stats
  facts : b.solved.facts = a.solved.facts
  equations : b.solved.graph.equations = a.solved.graph.equations
  blocks : b.solved.graph.blocks = a.solved.graph.blocks.map (Block.renamedIn function name)
  entry : b.solved.graph.entry = a.solved.graph.entry
  edges : b.solved.graph.edges = a.solved.graph.edges
  exits : b.solved.graph.exits = a.solved.graph.exits

variable {s : Settings} {p : Program} {a : Analysis}

theorem blocks_eq (analysed : run s p = .ok a) : a.solved.graph.blocks = p.blocks s.intrinsics := by
  rcases exists_solution analysed with ⟨g, wires, solution, built, _, rfl⟩
  exact built.blocks

theorem names_nodup (analysed : run s p = .ok a) : (p.functions.map (·.name)).Nodup := by
  rcases exists_solution analysed with ⟨g, wires, solution, built, _, rfl⟩
  exact built.distinct.names

section

variable {before after : List Function} {f : Function} {name : Bytes → Bytes}

theorem run_renamed (legible : f.Legible) (apart : ∀ g ∈ before ++ after, g.name ≠ f.name)
    (injOn : Set.InjOn name {v | v ∈ f.storage}) (s : Settings) :
    (∀ e, run s ⟨before ++ f :: after⟩ = .error e →
      ∃ e', run s ⟨before ++ f.renamed name :: after⟩ = .error e') ∧
    ∀ a, run s ⟨before ++ f :: after⟩ = .ok a →
      ∃ b, run s ⟨before ++ f.renamed name :: after⟩ = .ok b ∧ SameUpTo f.name name a b := by
  rcases Renaming.exists_takesProgram_renamed legible apart injOn with ⟨r, line, takes⟩
  rcases Renaming.run_takes takes s with ⟨refused, accepted⟩
  refine ⟨fun e failed => ⟨_, refused e failed⟩, ?_⟩
  intro a analysed
  rcases accepted a analysed with ⟨b, analysed', related⟩
  refine ⟨b, analysed', ?_⟩
  constructor
  · rw [related.critical, line, LineSet.map_id]
  · exact related.stats
  · rw [related.facts, line, Facts.renumbered_id, List.map_id]
  · rw [related.graph.equations, line, Equations.renumbered_id]
  · rw [blocks_eq analysed, blocks_eq analysed', Program.blocks_renamed legible apart]
  · exact related.graph.entry
  · exact related.graph.edges
  · exact related.graph.exits

/-- Whatever a function of a text calls its variables, the program is analysed or refused, and if it is analysed, then
with the same blocks but for the names, the same edges and sets, the same critical lines and the same counts. -/
theorem local_names_immaterial {source : Bytes} (read : Program.read source = .ok ⟨before ++ f :: after⟩)
    (injOn : Set.InjOn name {v | v ∈ f.storage}) (s : Settings) :
    ((∃ a, run s ⟨before ++ f :: after⟩ = .ok a) ↔ ∃ b, run s ⟨before ++ f.renamed name :: after⟩ = .ok b) ∧
      ∀ a b, run s ⟨before ++ f :: after⟩ = .ok a → run s ⟨before ++ f.renamed name :: after⟩ = .ok b →
        SameUpTo f.name name a b := by
  have legible := Program.legible_of_read read f (List.mem_append_right before List.mem_cons_self)
  refine ⟨⟨?_, ?_⟩, ?_⟩
  · intro given
    rcases given with ⟨a, analysed⟩
    rcases (run_renamed legible (name_ne_of_nodup (names_nodup analysed)) injOn s).2 a analysed with ⟨b, analysed', _⟩
    exact ⟨b, analysed'⟩
  · intro given
    rcases given with ⟨b, analysed'⟩
    -- The names of functions are the same in both programs, so that here too no other function has that of this one.
    have apart : ∀ g ∈ before ++ after, g.name ≠ f.name := name_ne_of_nodup (f := f.renamed name) (names_nodup analysed')
    cases analysed : run s ⟨before ++ f :: after⟩ with
    | ok a => exact ⟨a, rfl⟩
    | error e =>
        rcases (run_renamed legible apart injOn s).1 e analysed with ⟨e', failed⟩
        rw [analysed'] at failed
        cases failed
  · intro a b analysed analysed'
    rcases (run_renamed legible (name_ne_of_nodup (names_nodup analysed)) injOn s).2 a analysed with ⟨c, other, same⟩
    rw [analysed'] at other
    cases other
    exact same

end

def callingText : Bytes :=
  bytes "#start_function\nvoid main():\nint-list: x\nassign, x, 1\ncall, f\ncall, puti, x\n#end_function\n" ++
    bytes "#start_function\nvoid f():\nint-list: y\nassign, y, 2\nreturn\n#end_function\n"

def caller : Function where
  name := bytes "main"
  returnType := bytes "void"
  ints := [bytes "x"]
  body := [
    ⟨.assign, [⟨.variable, bytes "x"⟩, ⟨.constant, bytes "1"⟩], 4⟩,
    ⟨.call, [⟨.function, bytes "f"⟩], 5⟩,
    ⟨.call, [⟨.function, bytes "puti"⟩, ⟨.variable, bytes "x"⟩], 6⟩]

def callee : Function where
  name := bytes "f"
  returnType := bytes "void"
  ints := [bytes "y"]
  body := [⟨.assign, [⟨.variable, bytes "y"⟩, ⟨.constant, bytes "2"⟩], 11⟩, ⟨.ret, [], 12⟩]

def swapped : Bytes → Bytes := Equiv.swap (bytes "x") (bytes "y")

/-- A callee that takes over the name of its caller's variable overwrites nothing. -/
theorem borrowed_name_overwrites_nothing :
    Program.read callingText = .ok ⟨[caller] ++ callee :: []⟩ ∧ (callee.renamed swapped).storage = caller.storage.tail ∧
      ∃ a b, run ⟨.all, [bytes "puti"], bytes "main", 0, 0⟩ ⟨[caller] ++ callee :: []⟩ = .ok a ∧
        run ⟨.all, [bytes "puti"], bytes "main", 0, 0⟩ ⟨[caller] ++ callee.renamed swapped :: []⟩ = .ok b ∧
        a.critical.lines = [4, 5, 6, 12] ∧ SameUpTo callee.name swapped a b := by
  have read : Program.read callingText = .ok ⟨[caller] ++ callee :: []⟩ := by decide +kernel
  have injOn : Set.InjOn swapped {v | v ∈ callee.storage} := (Equiv.injective _).injOn
  have evaluated : (run ⟨.all, [bytes "puti"], bytes "main", 0, 0⟩ ⟨[caller] ++ callee :: []⟩).map (·.critical.lines) =
      .ok [4, 5, 6, 12] := by
    have names : bytes "main" = [109, 97, 105, 110] ∧ bytes "f" = [102] ∧ bytes "puti" = [112, 117, 116, 105] ∧
        bytes "void" = [118, 111, 105, 100] ∧ bytes "x" = [120] ∧ bytes "y" = [121] ∧ bytes "1" = [49] ∧
        bytes "2" = [50] := by
      decide +kernel
    simp only [caller, callee, names]
    cbv
  rcases Except.map_eq_ok.1 evaluated with ⟨a, analysed, lines⟩
  rcases local_names_immaterial read injOn ⟨.all, [bytes "puti"], bytes "main", 0, 0⟩ with ⟨together, same⟩
  rcases together.1 ⟨a, analysed⟩ with ⟨b, analysed'⟩
  exact ⟨read, by decide, a, b, analysed, analysed', lines, same a b analysed analysed'⟩

end Analysis

end Deadwood

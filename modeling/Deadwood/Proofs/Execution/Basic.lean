import Deadwood.Proofs.Flow.Partition
import Mathlib.Data.List.TakeWhile
import Mathlib.Logic.Relation

/-!
Executions of programs. Every activation of a function has variables of its own, arguments are passed by value, and a
call is waited for at the call instruction, which writes its result when the callee leaves. What operations compute
and what intrinsics do to the world is a parameter. A run keeps the calls of intrinsics that it made, and every write
with the activation it happened in.
-/

namespace Deadwood

/-- What the operations of a program compute, and how intrinsics act on a world. -/
structure Meaning (Value World : Type) where
  initial : (function name : Bytes) → Value
  constant : Operand → Value
  compute : Opcode → List Value → Value
  test : Comparison → List Value → Bool
  intrinsic : Bytes → List Value → World → Value × World
  /-- What a call gives if the callee returns no value. -/
  void : Value

namespace Instruction

def inputs (i : Instruction) : List Operand :=
  match i.op with
  | .ret | .arrayStore => i.operands
  | .callr => i.operands.drop 2
  | .goto | .label | .unassigned _ => []
  | _ => i.operands.drop 1

def Reads (i : Instruction) (v : Bytes) : Prop := ∃ o ∈ i.inputs, o.isStorage = true ∧ o.name = v

/-- The variable that is different after an instruction, overwritten or, for an array, changed in place. -/
def changes? (i : Instruction) : Option Bytes :=
  match i.op, i.operands with
  | .assign, o :: _ | .compute _, o :: _ | .arrayLoad, o :: _ | .callr, o :: _ | .arrayStore, _ :: o :: _ =>
    if o.isStorage then some o.name else none
  | _, _ => none

def labels (name : Bytes) (i : Instruction) : Bool := i.op = .label && i.labelName = name

theorem changes?_eq_dest? {i : Instruction} (whole : i.op ≠ .arrayStore) : i.changes? = i.dest? := by
  obtain ⟨op, operands, line⟩ := i
  cases op <;> cases operands <;> simp_all [changes?, dest?, Opcode.defines]

theorem changes?_of_dest? {i : Instruction} {v : Bytes} (written : i.dest? = some v) : i.changes? = some v := by
  have whole : i.op ≠ .arrayStore := by
    intro op
    simp [dest?, op, Opcode.defines] at written
  rw [changes?_eq_dest? whole, written]

theorem Reads.mem_reads {i : Instruction} {v : Bytes} (reads : i.Reads v) : v ∈ i.reads := by
  obtain ⟨o, member, storage, rfl⟩ := reads
  have read : o ∈ if i.op.readsFirst then i.operands else i.operands.drop 1 := by
    cases op : i.op <;> simp only [inputs, op] at member <;> try exact member
    case callr =>
      -- A call with a result leaves out the function that it names as well.
      have member : o ∈ (i.operands.drop 1).drop 1 := by rwa [List.drop_drop]
      exact List.mem_of_mem_drop member
    all_goals cases member
  exact List.mem_map.2 ⟨o, List.mem_filter.2 ⟨read, storage⟩, rfl⟩

theorem Reads.op_ne_label {i : Instruction} {v : Bytes} (reads : i.Reads v) : i.op ≠ .label := by
  intro op
  obtain ⟨o, member, _⟩ := reads
  simp [inputs, op] at member

theorem callr_of_dest? {intrinsics : List Bytes} {i : Instruction} {callee v : Bytes}
    (calls : i.userCall? intrinsics = some callee) (written : i.dest? = some v) : i.op = .callr := by
  rcases call_of_userCall calls with op | op
  · simp [dest?, op, Opcode.defines] at written
  · exact op

end Instruction

def Function.landing? (f : Function) (jump : Instruction) : Option (List Instruction) :=
  match jump.target? with
  | none => none
  | some name =>
    match f.body.dropWhile fun i => !i.labels name with
    | [] => none
    | label :: rest => some (label :: rest)

theorem Function.landing?_eq_some {f : Function} {jump : Instruction} {after : List Instruction}
    (found : f.landing? jump = some after) :
    ∃ front label rest, f.body = front ++ label :: rest ∧ after = label :: rest ∧ label.op = .label ∧
      jump.target? = some label.labelName := by
  rw [landing?] at found
  split at found
  · cases found
  · rename_i name named
    split at found
    · cases found
    · rename_i label rest reached
      cases found
      have whole := @List.takeWhile_append_dropWhile _ (fun i => !i.labels name) f.body
      have here := List.head?_dropWhile_not (fun i => !i.labels name) f.body
      rw [reached] at whole here
      simp only [List.head?_cons, Instruction.labels, Bool.not_eq_false', Bool.and_eq_true, decide_eq_true_eq] at here
      exact ⟨_, label, rest, whole.symm, rfl, here.1, by rw [named, here.2]⟩

theorem Function.exists_landing {f : Function} {jump label : Instruction} (present : label ∈ f.body)
    (op : label.op = .label) (named : jump.target? = some label.labelName) : ∃ after, f.landing? jump = some after := by
  have stops : f.body.dropWhile (fun i => !i.labels label.labelName) ≠ [] := by
    intro none
    have passed := List.dropWhile_eq_nil_iff.1 none label present
    simp [Instruction.labels, op] at passed
  rw [landing?, named]
  dsimp only
  split
  · rename_i none
    exact (stops none).elim
  · exact ⟨_, rfl⟩

/-- An activation of a function: what is left to do, beginning with the call it waits for if it is not running. -/
structure Frame (Value : Type) where
  id : Nat
  function : Function
  rest : List Instruction
  store : Bytes → Value

namespace Frame

variable {Value : Type}

def after (frame : Frame Value) (i : Instruction) (rest : List Instruction) (value : Value) : Frame Value :=
  { frame with rest, store := fun v => if i.changes? = some v then value else frame.store v }

@[simp] theorem after_id (frame : Frame Value) (i : Instruction) (rest : List Instruction) (value : Value) :
    (frame.after i rest value).id = frame.id := rfl

@[simp] theorem after_function (frame : Frame Value) (i : Instruction) (rest : List Instruction) (value : Value) :
    (frame.after i rest value).function = frame.function := rfl

@[simp] theorem after_rest (frame : Frame Value) (i : Instruction) (rest : List Instruction) (value : Value) :
    (frame.after i rest value).rest = rest := rfl

end Frame

structure Write where
  activation : Nat
  function : Bytes
  name : Bytes
  source : Instruction
  deriving DecidableEq

/-- A run under way. The running activation is first, the latest write is first, the latest call is last. -/
structure Execution (Value World : Type) where
  frames : List (Frame Value)
  world : World
  calls : List (Bytes × List Value) := []
  writes : List Write := []
  started : Nat := 1

/-- What the running activation does next: it goes on after an instruction, enters a function, or leaves its own. -/
inductive Move (Value World : Type)
  | advance (source : Instruction) (rest : List Instruction) (value : Value) (world : World)
      (calls : List (Bytes × List Value))
  | enter (function : Function) (store : Bytes → Value)
  | leave (value : Value)

namespace Meaning

variable {Value World : Type} (m : Meaning Value World)

def operand (store : Bytes → Value) (o : Operand) : Value := if o.isStorage then store o.name else m.constant o

def values (i : Instruction) (store : Bytes → Value) : List Value := i.inputs.map (m.operand store)

/-- The variables of a new activation: parameters hold the arguments, all others what they hold at first. -/
def bind (f : Function) (arguments : List Value) : Bytes → Value := fun v =>
  (((f.params.map (·.name)).zip arguments).lookup v).getD (m.initial f.name v)

def move (intrinsics : List Bytes) (p : Program) (frame : Frame Value) (world : World) : Option (Move Value World) :=
  match frame.rest with
  | [] => some (.leave m.void)
  | i :: rest =>
    let values := m.values i frame.store
    match i.op with
    | .ret => some (.leave (values.headD m.void))
    | .goto => (frame.function.landing? i).map fun rest => .advance i rest m.void world []
    | .branch test =>
      if m.test test values then (frame.function.landing? i).map fun rest => .advance i rest m.void world []
      else some (.advance i rest m.void world [])
    | op =>
      match i.userCall? intrinsics with
      | some callee => (p.function? callee).map fun f => .enter f (m.bind f values)
      | none =>
        match i.callee? with
        | some name =>
          let result := m.intrinsic name values world
          some (.advance i rest result.1 result.2 [(name, values)])
        | none => some (.advance i rest (m.compute op values) world [])

end Meaning

def Frame.Goes {Value : Type} (intrinsics : List Bytes) (frame : Frame Value) (i : Instruction)
    (after : List Instruction) : Prop :=
  ∃ rest, frame.rest = i :: rest ∧
    (after = rest ∧ (i.closes intrinsics = false ∨ ∃ test, i.op = .branch test) ∨
      i.op.isJump = true ∧ frame.function.landing? i = some after)

def Frame.Ends {Value : Type} (frame : Frame Value) : Prop :=
  frame.rest = [] ∨ ∃ i rest, frame.rest = i :: rest ∧ i.op = .ret

inductive Move.Fits {Value World : Type} (intrinsics : List Bytes) (p : Program) (frame : Frame Value) :
    Move Value World → Prop
  | advance {i : Instruction} {after : List Instruction} {value : Value} {world : World}
      {calls : List (Bytes × List Value)} :
      frame.Goes intrinsics i after → Fits intrinsics p frame (.advance i after value world calls)
  | enter {i : Instruction} {rest : List Instruction} {callee : Bytes} {f : Function} {store : Bytes → Value} :
      frame.rest = i :: rest → i.userCall? intrinsics = some callee → p.function? callee = some f →
        Fits intrinsics p frame (.enter f store)
  | leave {value : Value} : frame.Ends → Fits intrinsics p frame (.leave value)

theorem Meaning.fits_of_move {Value World : Type} {m : Meaning Value World} {intrinsics : List Bytes} {p : Program}
    {frame : Frame Value} {world : World} {action : Move Value World}
    (moved : m.move intrinsics p frame world = some action) : action.Fits intrinsics p frame := by
  rw [move] at moved
  cases left : frame.rest with
  | nil =>
      rw [left] at moved
      cases moved
      exact .leave (.inl left)
  | cons i rest =>
      rw [left] at moved
      dsimp only at moved
      split at moved
      · rename_i op
        cases moved
        exact .leave (.inr ⟨i, rest, left, op⟩)
      · rename_i op
        obtain ⟨after, lands, rfl⟩ := Option.map_eq_some_iff.1 moved
        exact .advance ⟨rest, left, .inr ⟨by rw [op]; rfl, lands⟩⟩
      · rename_i test op
        split at moved
        · obtain ⟨after, lands, rfl⟩ := Option.map_eq_some_iff.1 moved
          exact .advance ⟨rest, left, .inr ⟨by rw [op]; rfl, lands⟩⟩
        · cases moved
          exact .advance ⟨rest, left, .inl ⟨rfl, .inr ⟨test, op⟩⟩⟩
      · rename_i returns goes branches
        cases call : i.userCall? intrinsics with
        | some callee =>
            rw [call] at moved
            obtain ⟨f, called, rfl⟩ := Option.map_eq_some_iff.1 moved
            exact .enter left call called
        | none =>
            have plain : i.closes intrinsics = false := by
              cases op : i.op <;> simp_all [Instruction.closes, Opcode.isJump]
            rw [call] at moved
            dsimp only at moved
            split at moved <;> cases moved <;> exact .advance ⟨rest, left, .inl ⟨rfl, .inl plain⟩⟩

namespace Execution

variable {Value World : Type}

def resume (s : Execution Value World) (frame : Frame Value) (below : List (Frame Value)) (i : Instruction)
    (rest : List Instruction) (value : Value) : Execution Value World :=
  { s with
    frames := frame.after i rest value :: below
    writes := (i.changes?.map fun v => ⟨frame.id, frame.function.name, v, i⟩).toList ++ s.writes }

def apply (s : Execution Value World) (top : Frame Value) (below : List (Frame Value)) :
    Move Value World → Execution Value World
  | .advance i rest value world calls => { s with world, calls := s.calls ++ calls }.resume top below i rest value
  | .enter f store =>
    { s with frames := ⟨s.started, f, f.body, store⟩ :: top :: below, started := s.started + 1 }
  | .leave value =>
    match below with
    | [] => { s with frames := [] }
    | caller :: deeper =>
      match caller.rest with
      | [] => { s with frames := caller :: deeper }
      | call :: rest => s.resume caller deeper call rest value

def step (m : Meaning Value World) (intrinsics : List Bytes) (p : Program) (s : Execution Value World) :
    Option (Execution Value World) :=
  match s.frames with
  | [] => none
  | top :: below => (m.move intrinsics p top s.world).map (s.apply top below)

theorem exists_move {m : Meaning Value World} {intrinsics : List Bytes} {p : Program} {s t : Execution Value World}
    (stepped : s.step m intrinsics p = some t) :
    ∃ top below action, s.frames = top :: below ∧ m.move intrinsics p top s.world = some action ∧
      t = s.apply top below action := by
  rw [step] at stepped
  split at stepped
  · cases stepped
  · rename_i top below stack
    obtain ⟨action, moved, rfl⟩ := Option.map_eq_some_iff.1 stepped
    exact ⟨top, below, action, stack, moved, rfl⟩

def start (m : Meaning Value World) (p : Program) (entry : Bytes) (world : World) : Execution Value World where
  frames := (p.function? entry).toList.map fun f => ⟨0, f, f.body, m.bind f []⟩
  world

def Reached (m : Meaning Value World) (intrinsics : List Bytes) (p : Program) (entry : Bytes) (world : World) :
    Execution Value World → Prop :=
  Relation.ReflTransGen (fun s t => s.step m intrinsics p = some t) (start m p entry world)

end Execution

end Deadwood

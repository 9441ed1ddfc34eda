import Deadwood.Proofs.Flow.Partition
import Mathlib.Data.List.Flatten

/-!
Leaders and the blocks they begin. A scan marks the instructions that begin a block; a second walk puts every
instruction into the block it begins or the one it is in. The walk could meet an instruction outside any block, or a
number without a block. It never does, because the two agree on which instructions give control away, and it arrives
at the blocks that a body is cut into.
-/

namespace Deadwood

/-- The instructions of a body that begin a block: labels, and those that stand first or after one that gives control
away. -/
def leadersFrom (intrinsics : List Bytes) : (starts : Bool) → List Instruction → List Instruction
  | _, [] => []
  | starts, i :: rest =>
    if starts || i.op = .label then i :: leadersFrom intrinsics (i.closes intrinsics) rest
    else leadersFrom intrinsics (i.closes intrinsics) rest

def Function.leaders (intrinsics : List Bytes) (f : Function) : List Instruction := leadersFrom intrinsics true f.body

def Program.leaders (intrinsics : List Bytes) (p : Program) : List Instruction :=
  p.functions.flatMap (·.leaders intrinsics)

def Block.ofRun (function : Bytes) (run : Instruction × List Instruction) : Block := ⟨function, run.1, run.2⟩

/-- Blocks by number while they are filled, and the number of the one that control is in. -/
structure Assembly where
  blocks : List Block
  current : Option Nat

inductive Misplaced
  | outside (line : Int)
  | beyond (id : Nat)

namespace Assembly

def enter (leaders : List Int) (a : Assembly) (i : Instruction) : Except Misplaced Assembly :=
  match leaders.findIdx? (· = i.line) with
  | some id => if id < a.blocks.length then .ok ⟨a.blocks, some id⟩ else .error (.beyond id)
  | none =>
    match a.current with
    | none => .error (.outside i.line)
    | some id =>
      match a.blocks[id]? with
      | none => .error (.beyond id)
      | some b => .ok ⟨a.blocks.set id { b with others := b.others ++ [i] }, some id⟩

def leave (intrinsics : List Bytes) (a : Assembly) (i : Instruction) : Assembly :=
  match i.op with
  | .goto | .branch _ | .ret => { a with current := none }
  | _ => if (i.userCall? intrinsics).isSome then { a with current := none } else a

def place (intrinsics : List Bytes) (leaders : List Int) (a : Assembly) (i : Instruction) :
    Except Misplaced Assembly :=
  (a.enter leaders i).map (·.leave intrinsics i)

end Assembly

def Program.assemble (intrinsics : List Bytes) (p : Program) : Except Misplaced Assembly :=
  p.functions.foldlM
    (fun a f => f.body.foldlM
      (Assembly.place intrinsics ((p.leaders intrinsics).map (·.line))) { a with current := none })
    ⟨p.functions.flatMap fun f => (f.leaders intrinsics).map fun i => ⟨f.name, i, []⟩, none⟩

section

variable {intrinsics : List Bytes} {starts : Bool} {body : List Instruction} {i : Instruction}

theorem leadersFrom_sublist (intrinsics : List Bytes) (starts : Bool) (body : List Instruction) :
    (leadersFrom intrinsics starts body).Sublist body := by
  induction body generalizing starts with
  | nil => exact List.Sublist.slnil
  | cons i rest ih =>
      rw [leadersFrom]
      split
      · exact (ih _).cons_cons i
      · exact (ih _).cons i

/-- The runs after an open run, the first of them added to it unless it begins a run of its own. -/
def joined (current : Option (Instruction × List Instruction)) (starts : Bool) :
    List (Instruction × List Instruction) → List (Instruction × List Instruction)
  | [] => current.toList
  | (j, others) :: later =>
    match current with
    | none => (j, others) :: later
    | some (leader, before) =>
      if starts || j.op = .label then (leader, before) :: (j, others) :: later
      else (leader, before ++ j :: others) :: later

theorem runs_cons (i : Instruction) (rest : List Instruction) :
    runs intrinsics (i :: rest) = joined (some (i, [])) (i.closes intrinsics) (runs intrinsics rest) := by
  rw [runs]
  cases runs intrinsics rest with
  | nil => rfl
  | cons run later => rfl

theorem joined_of_starts {current : Option (Instruction × List Instruction)}
    (later : List (Instruction × List Instruction)) : joined current true later = current.toList ++ later := by
  rcases later with _ | ⟨⟨j, others⟩, later⟩
  · simp [joined]
  · cases current <;> simp [joined]

theorem runs_cons_head (intrinsics : List Bytes) (i : Instruction) (rest : List Instruction) :
    ∃ others later, runs intrinsics (i :: rest) = (i, others) :: later := by
  rw [runs_cons]
  rcases runs intrinsics rest with _ | ⟨⟨j, others⟩, later⟩
  · exact ⟨[], [], rfl⟩
  · simp only [joined]
    split <;> exact ⟨_, _, rfl⟩

theorem joined_of_begins {current : Option (Instruction × List Instruction)} {rest : List Instruction}
    (begins : (starts || i.op = .label) = true) :
    joined current starts (runs intrinsics (i :: rest)) = current.toList ++ runs intrinsics (i :: rest) := by
  rcases runs_cons_head intrinsics i rest with ⟨others, later, runs⟩
  rw [runs]
  cases current <;> simp [joined, begins]

theorem joined_of_stays {leader : Instruction} {before rest : List Instruction} (stays : i.op ≠ .label) :
    joined (some (leader, before)) false (runs intrinsics (i :: rest)) =
      joined (some (leader, before ++ [i])) (i.closes intrinsics) (runs intrinsics rest) := by
  rw [runs_cons]
  rcases runs intrinsics rest with _ | ⟨⟨j, others⟩, later⟩
  · simp [joined, stays]
  · by_cases begins : (i.closes intrinsics || j.op = .label) = true <;> simp [joined, begins, stays]

theorem map_runs (body : List Instruction) :
    (runs intrinsics body).map (·.1) = leadersFrom intrinsics true body := by
  induction body with
  | nil => rfl
  | cons i rest ih =>
      rw [runs_cons, leadersFrom]
      cases rest with
      | nil => simp [joined, runs, leadersFrom]
      | cons j rest =>
          rw [leadersFrom] at ih ⊢
          rcases found : runs intrinsics (j :: rest) with _ | ⟨⟨head, others⟩, later⟩
          · simp [found] at ih
          · simp only [found, Bool.true_or, if_true, List.map_cons, List.cons.injEq] at ih ⊢
            rcases ih with ⟨rfl, ih⟩
            simp only [joined]
            split <;> simp [ih]

namespace Assembly

theorem leave_eq (a : Assembly) (i : Instruction) :
    a.leave intrinsics i = if i.closes intrinsics then { a with current := none } else a := by
  cases op : i.op <;> simp [leave, Instruction.closes, Opcode.isJump, op]

theorem place_leader {leaders front back : List Int} {a : Assembly} (numbered : leaders = front ++ i.line :: back)
    (absent : i.line ∉ front) (bound : front.length < a.blocks.length) :
    a.place intrinsics leaders i = .ok (leave intrinsics ⟨a.blocks, some front.length⟩ i) := by
  have found : leaders.findIdx? (· = i.line) = some front.length := by
    rw [numbered, List.findIdx?_append, List.findIdx?_eq_none_iff.2]
    · simp [List.findIdx?_cons]
    · intro line member
      rw [decide_eq_false_iff_not]
      intro same
      exact absent (same ▸ member)
  simp [place, enter, found, bound, Except.map]

theorem place_current {leaders : List Int} {done after : List Block} {b : Block} (absent : i.line ∉ leaders) :
    place intrinsics leaders ⟨done ++ b :: after, some done.length⟩ i =
      .ok (leave intrinsics ⟨done ++ { b with others := b.others ++ [i] } :: after, some done.length⟩ i) := by
  have none : leaders.findIdx? (· = i.line) = none := by
    rw [List.findIdx?_eq_none_iff]
    intro line member
    rw [decide_eq_false_iff_not]
    intro same
    exact absent (same ▸ member)
  simp [place, enter, none, Except.map]

theorem place_body (function : Bytes) {front back : List Int} {done after : List Block}
    {current : Option (Instruction × List Instruction)} (fresh : (front ++ (body.map (·.line) ++ back)).Nodup)
    (counted : front.length = done.length + current.toList.length) (opened : current = none → starts = true) :
    ∃ last, body.foldlM (place intrinsics (front ++ ((leadersFrom intrinsics starts body).map (·.line) ++ back)))
      ⟨done ++ ((current.toList ++ (leadersFrom intrinsics starts body).map (·, [])).map (Block.ofRun function) ++
          after),
        current.map fun _ => done.length⟩ =
      .ok ⟨done ++ ((joined current starts (runs intrinsics body)).map (Block.ofRun function) ++ after), last⟩ := by
  induction body generalizing front done current starts with
  | nil =>
      refine ⟨current.map fun _ => done.length, ?_⟩
      simp [joined, runs, leadersFrom, pure, Except.pure]
  | cons i rest ih =>
      -- Once the instruction is in its block, that block is closed or stays open for the rest.
      have further {front : List Int} {done : List Block} (run : Instruction × List Instruction)
          (fresh : (front ++ (rest.map (·.line) ++ back)).Nodup) (counted : front.length = done.length + 1) :
          ∃ last, rest.foldlM
            (place intrinsics (front ++ ((leadersFrom intrinsics (i.closes intrinsics) rest).map (·.line) ++ back)))
            (leave intrinsics ⟨done ++ (Block.ofRun function run :: ((leadersFrom intrinsics (i.closes intrinsics)
              rest).map (·, [])).map (Block.ofRun function) ++ after), some done.length⟩ i) =
            .ok ⟨done ++ ((joined (some run) (i.closes intrinsics) (runs intrinsics rest)).map
              (Block.ofRun function) ++ after), last⟩ := by
        rw [leave_eq]
        cases closes : i.closes intrinsics with
        | true =>
            have found := @ih true front (done ++ [Block.ofRun function run]) none fresh (by simpa using counted)
              (fun _ => rfl)
            simpa [joined_of_starts] using found
        | false =>
            have found := @ih false front done (some run) fresh (by simpa using counted) (by simp)
            simpa using found
      rcases List.nodup_cons.1 (List.perm_middle.nodup_iff.1 fresh) with ⟨absent, others⟩
      rw [List.foldlM_cons]
      by_cases begins : (starts || i.op = .label) = true
      · rw [leadersFrom, if_pos begins, joined_of_begins begins, runs_cons]
        simp only [List.map_cons, List.cons_append]
        rw [place_leader rfl (fun member => absent (List.mem_append_left _ member)) (by simp; omega)]
        have found := @further (front ++ [i.line]) (done ++ current.toList.map (Block.ofRun function)) (i, [])
          (by simpa using fresh) (by simp [counted])
        simpa [counted, bind, Except.bind] using found
      · rw [leadersFrom, if_neg begins]
        simp only [Bool.or_eq_true, decide_eq_true_eq, not_or, Bool.not_eq_true] at begins
        rcases begins with ⟨rfl, stays⟩
        rcases current with _ | ⟨leader, before⟩
        · cases opened rfl
        have unmarked : i.line ∉ front ++
            ((leadersFrom intrinsics (i.closes intrinsics) rest).map (·.line) ++ back) := by
          intro member
          apply absent
          refine List.Sublist.subset ?_ member
          exact (((leadersFrom_sublist intrinsics _ rest).map _).append_right back).append_left front
        rw [joined_of_stays stays]
        simp only [Option.toList_some, List.map_cons, List.cons_append, Option.map_some]
        rw [place_current unmarked]
        simpa [bind, Except.bind, Block.ofRun] using further (leader, before ++ [i]) others counted

theorem place_functions {front : List Int} {done : List Block} {start : Option Nat} {functions : List Function}
    (fresh : (front ++ (functions.flatMap (·.body)).map (·.line)).Nodup) (counted : front.length = done.length) :
    ∃ last, functions.foldlM
      (fun a f => f.body.foldlM
        (place intrinsics (front ++ (functions.flatMap (·.leaders intrinsics)).map (·.line)))
        { a with current := none })
      ⟨done ++ functions.flatMap fun f => (f.leaders intrinsics).map fun i => ⟨f.name, i, []⟩, start⟩ =
      .ok ⟨done ++ functions.flatMap (·.blocks intrinsics), last⟩ := by
  induction functions generalizing front done start with
  | nil => exact ⟨start, by simp [pure, Except.pure]⟩
  | cons f rest ih =>
      have size : (f.blocks intrinsics).length = (f.leaders intrinsics).length := by
        rw [Function.leaders, ← map_runs, Function.blocks, List.length_map, List.length_map]
      have lines : (front ++ (f.body.map (·.line) ++ (rest.flatMap (·.body)).map (·.line))).Nodup := by
        simpa using fresh
      have leaders : (rest.flatMap (·.leaders intrinsics)).Sublist (rest.flatMap (·.body)) :=
        List.Sublist.flatMap_right _ fun h _ => leadersFrom_sublist intrinsics true h.body
      have fresh' : (front ++ (f.body.map (·.line) ++ (rest.flatMap (·.leaders intrinsics)).map (·.line))).Nodup :=
        lines.sublist (((leaders.map _).append_left _).append_left _)
      have others : (front ++ (f.leaders intrinsics).map (·.line) ++ (rest.flatMap (·.body)).map (·.line)).Nodup := by
        refine lines.sublist ?_
        rw [List.append_assoc]
        exact (((leadersFrom_sublist intrinsics true f.body).map _).append_right _).append_left front
      rcases @place_body intrinsics true f.body f.name front _ done
        (rest.flatMap fun f => (f.leaders intrinsics).map fun i => ⟨f.name, i, []⟩) none fresh'
        (by simpa using counted) (fun _ => rfl) with ⟨last, here⟩
      rcases @ih _ (done ++ f.blocks intrinsics) last others (by simp [counted, size]) with ⟨final, later⟩
      refine ⟨final, ?_⟩
      simp only [joined_of_starts, Option.toList_none, List.nil_append, List.map_map, Option.map_none] at here
      simp only [List.append_assoc] at later
      simp only [List.foldlM_cons, List.flatMap_cons, List.map_append]
      exact (congrArg (· >>= _) here).trans later

end Assembly

theorem Program.Distinct.assemble_eq {p : Program} (distinct : p.Distinct) (intrinsics : List Bytes) :
    ∃ last, p.assemble intrinsics = .ok ⟨p.blocks intrinsics, last⟩ :=
  @Assembly.place_functions intrinsics [] [] none p.functions distinct.lines rfl

def Instruction.Diverts (intrinsics : List Bytes) (i : Instruction) : Prop :=
  i.op = .goto ∨ (∃ test, i.op = .branch test) ∨ i.op = .ret ∨ ∃ callee, i.userCall? intrinsics = some callee

theorem Instruction.closes_iff : i.closes intrinsics = true ↔ i.Diverts intrinsics := by
  simp only [closes, Bool.or_eq_true, decide_eq_true_eq, Option.isSome_iff_exists, Diverts]
  cases op : i.op <;> simp [Opcode.isJump]

def Function.Begins (intrinsics : List Bytes) (f : Function) (i : Instruction) : Prop :=
  ∃ front back, f.body = front ++ i :: back ∧
    (front = [] ∨ i.op = .label ∨ ∃ j, front.getLast? = some j ∧ j.Diverts intrinsics)

theorem mem_leadersFrom :
    i ∈ leadersFrom intrinsics starts body ↔ ∃ front back, body = front ++ i :: back ∧
      (front = [] ∧ starts = true ∨ i.op = .label ∨ ∃ j, front.getLast? = some j ∧ j.Diverts intrinsics) := by
  induction body generalizing starts with
  | nil => simp [leadersFrom]
  | cons first rest ih =>
      have head : i ∈ leadersFrom intrinsics starts (first :: rest) ↔
          i = first ∧ (starts = true ∨ first.op = .label) ∨
            i ∈ leadersFrom intrinsics (first.closes intrinsics) rest := by
        rw [leadersFrom]
        by_cases begins : starts = true ∨ first.op = .label <;> simp [begins]
      have previous (front : List Instruction) :
          (∃ j, (first :: front).getLast? = some j ∧ j.Diverts intrinsics) ↔
            front = [] ∧ first.closes intrinsics = true ∨ ∃ j, front.getLast? = some j ∧ j.Diverts intrinsics := by
        rw [Instruction.closes_iff]
        cases front <;> simp [List.getLast?_cons_cons]
      rw [head, ih]
      constructor
      · intro given
        rcases given with ⟨rfl, starts | label⟩ | ⟨front, back, rfl, reason⟩
        · exact ⟨[], rest, rfl, .inl ⟨rfl, starts⟩⟩
        · exact ⟨[], rest, rfl, .inr (.inl label)⟩
        · refine ⟨first :: front, back, rfl, .inr ?_⟩
          rw [previous]
          tauto
      · intro given
        rcases given with ⟨front, back, split, reason⟩
        cases front with
        | nil =>
            rcases List.cons.inj split with ⟨rfl, rfl⟩
            exact .inl ⟨rfl, by simpa using reason⟩
        | cons other front =>
            rcases List.cons.inj split with ⟨rfl, rfl⟩
            rw [previous] at reason
            exact .inr ⟨front, back, rfl, by simpa [or_left_comm] using reason⟩

theorem Function.mem_leaders_iff {f : Function} : i ∈ f.leaders intrinsics ↔ f.Begins intrinsics i := by
  simp [leaders, mem_leadersFrom, Begins]

end

end Deadwood

import Deadwood.Proofs.Flow.Placement

/-!
The edges of a graph are the control flow of its program. `Program.Leads` says from the instructions alone when control
goes from one block to another. A graph has these edges and no others, each of them once at both of its ends, in
whatever order calls and returns are met.
-/

namespace Deadwood

def Program.TailCalls (intrinsics : List Bytes) (p : Program) (caller callee : Bytes) : Prop :=
  ∃ f ∈ p.functions, f.name = caller ∧
    ∃ call, f.body.getLast? = some call ∧ call.userCall? intrinsics = some callee

/-- Control leaves a function by the blocks that end in a return, and by the block of its final instruction unless that
is a call or, where the function has a return, a jump. -/
def Function.LeftBy (intrinsics : List Bytes) (f : Function) (b : Block) : Prop :=
  (b.last ∈ f.body ∧ b.last.op = .ret) ∨
    ∃ i ∈ b.code, f.body.getLast? = some i ∧ i.userCall? intrinsics = none ∧
      ¬(i.op = .goto ∧ ∃ j ∈ f.body, j.op = .ret)

inductive Program.Leads (intrinsics : List Bytes) (p : Program) (b c : Block) : Prop
  | falls {f : Function} {front back : List Instruction} {j : Instruction} :
      f ∈ p.functions → f.body = front ++ b.last :: j :: back → ¬b.last.Diverts intrinsics → j ∈ c.code →
        Leads intrinsics p b c
  | jumps {f : Function} {label : Instruction} :
      f ∈ p.functions → b.last ∈ f.body → b.last.op = .goto ∨ (∃ test, b.last.op = .branch test) →
        label ∈ f.body → label.op = .label → b.last.target? = some label.labelName → label ∈ c.code →
          Leads intrinsics p b c
  | passes {f : Function} {front back : List Instruction} {j : Instruction} {test : Comparison} :
      f ∈ p.functions → f.body = front ++ b.last :: j :: back → b.last.op = .branch test → j ∈ c.code →
        Leads intrinsics p b c
  | calls {h : Function} {j : Instruction} {rest : List Instruction} :
      h ∈ p.functions → b.last.userCall? intrinsics = some h.name → h.body = j :: rest → j ∈ c.code →
        Leads intrinsics p b c
  | returns {f h : Function} {front back : List Instruction} {call : Instruction} {callee : Bytes} :
      f ∈ p.functions → f.body = front ++ call :: c.leader :: back → call.userCall? intrinsics = some callee →
        h ∈ p.functions → Relation.ReflTransGen (p.TailCalls intrinsics) callee h.name → h.LeftBy intrinsics b →
          Leads intrinsics p b c

theorem distinct_nodup {α : Type} [DecidableEq α] (list : List α) : (distinct list).Nodup := by
  induction list with
  | nil => exact List.nodup_nil
  | cons a rest ih =>
      rw [distinct, List.nodup_cons]
      refine ⟨?_, ih.filter _⟩
      simp

theorem ends_nodup {edges : List (Nat × Nat)} (nodup : edges.Nodup) {near far : Nat × Nat → Nat}
    (ends : ∀ e e', near e = near e' → far e = far e' → e = e') (id : Nat) :
    ((edges.filter (near · = id)).map far).Nodup := by
  refine List.Nodup.map_on ?_ (nodup.filter _)
  intro e first e' second same
  simp only [List.mem_filter, decide_eq_true_eq] at first second
  exact ends e e' (first.2.trans second.2.symm) same

namespace Graph.BuiltFrom

variable {intrinsics : List Bytes} {p : Program} {wires : List Wire} {g : Graph} {k l : Nat} {b c : Block}

theorem edges_nodup (built : g.BuiltFrom intrinsics p wires) : g.edges.Nodup := by
  rw [built.edges]
  exact distinct_nodup _

theorem succs_nodup (built : g.BuiltFrom intrinsics p wires) (k : Nat) : (g.succs k).Nodup :=
  ends_nodup built.edges_nodup (fun _ _ source target => Prod.ext source target) k

theorem preds_nodup (built : g.BuiltFrom intrinsics p wires) (l : Nat) : (g.preds l).Nodup :=
  ends_nodup built.edges_nodup (fun _ _ target source => Prod.ext source target) l

theorem owner (built : g.BuiltFrom intrinsics p wires) {f : Function} (function : f ∈ p.functions)
    (block : b ∈ g.blocks) {i : Instruction} (body : i ∈ f.body) (member : i ∈ b.code) :
    b.function = f.name ∧ ∀ j ∈ b.code, j ∈ f.body := by
  rcases built.function_of_block block with ⟨h, other, named, code⟩
  rw [built.distinct.owner_eq function other body (code i member)]
  exact ⟨named.symm, code⟩

theorem body_of_follower? (built : g.BuiltFrom intrinsics p wires) (place : g.blocks[k]? = some b)
    (place' : g.blocks[l]? = some c) (following : Wiring.follower? g.blocks k b = some l) :
    ∃ f ∈ p.functions, ∃ front back, f.body = front ++ b.last :: c.leader :: back := by
  rcases built.block_cases place with ⟨f, function, _, _, ⟨none, _⟩ | ⟨d, front, back, next, after, body⟩⟩
  · rw [following] at none
    cases none
  · rw [following] at next
    cases next
    rw [place'] at after
    cases after
    exact ⟨f, function, front, back, body⟩

theorem follower?_of_body (built : g.BuiltFrom intrinsics p wires) (place : g.blocks[k]? = some b)
    (place' : g.blocks[l]? = some c) {f : Function} (function : f ∈ p.functions) {front back : List Instruction}
    {j : Instruction} (body : f.body = front ++ b.last :: j :: back) (member : j ∈ c.code) :
    Wiring.follower? g.blocks k b = some l := by
  have nodup : (front ++ b.last :: j :: back).Nodup := body ▸ built.distinct.body_nodup function
  have here : b.last ∈ f.body := by simp [body]
  rcases built.block_cases place with ⟨h, other, _, code, position⟩
  obtain rfl := built.distinct.owner_eq function other here (code _ b.last_mem)
  rcases position with ⟨_, final⟩ | ⟨d, front', back', following, after, body'⟩
  · -- The body does not end with the block, since another instruction comes after.
    rw [body] at final
    exact (getLast?_ne_of_nodup nodup final).elim
  · rcases place_eq_of_nodup nodup (body.symm.trans body') with ⟨_, same⟩
    rw [(List.cons.inj same).1] at member
    rwa [built.block_eq place' after member d.leader_mem]

theorem follower?_of_final (built : g.BuiltFrom intrinsics p wires) (place : g.blocks[k]? = some b) {f : Function}
    (function : f ∈ p.functions) {i : Instruction} (final : f.body.getLast? = some i) (member : i ∈ b.code) :
    Wiring.follower? g.blocks k b = none ∧ b.last = i := by
  rcases List.getLast?_eq_some_iff.1 final with ⟨front, body⟩
  rcases built.final_block function body with ⟨k', b', place', _, rfl, none⟩
  obtain rfl := built.block_eq place place' member b'.last_mem
  rw [place] at place'
  cases place'
  exact ⟨none, rfl⟩

theorem mem_own_wires (built : g.BuiltFrom intrinsics p wires) (place : g.blocks[k]? = some b) {here : List Wire}
    (leaves : Wiring.leave intrinsics g.blocks k b = .ok here) {wire : Wire}
    (starts : (∃ l, wire = .jump k l) ∨ ∃ name, wire = .exit name k) : wire ∈ wires ↔ wire ∈ here := by
  constructor
  · intro member
    rcases built.mem_wires_iff.1 member with ⟨k', b', here', place', leaves', present⟩
    have spot : k' = k := by
      rcases starts with ⟨l, rfl⟩ | ⟨name, rfl⟩ <;>
        rcases Wiring.wire_cases leaves' present with ⟨_, same⟩ | same | ⟨_, _, _, _, ⟨_, _, same⟩ | ⟨_, same⟩⟩ <;>
          cases same <;> rfl
    subst spot
    rw [place] at place'
    cases place'
    rw [leaves] at leaves'
    cases leaves'
    exact present
  · intro member
    exact built.mem_wires_iff.2 ⟨k, b, here, place, leaves, member⟩

theorem returns_iff (built : g.BuiltFrom intrinsics p wires) {f : Function} (function : f ∈ p.functions) :
    Wiring.returns g.blocks f.name = true ↔ ∃ i ∈ f.body, i.op = .ret := by
  simp only [Wiring.returns, List.any_eq_true, Bool.and_eq_true, decide_eq_true_eq]
  constructor
  · intro given
    rcases given with ⟨b, block, named, op⟩
    rcases built.function_of_block block with ⟨h, other, named', code⟩
    obtain rfl := built.distinct.function_eq function other (named.symm.trans named'.symm)
    exact ⟨b.last, code _ b.last_mem, op⟩
  · intro given
    rcases given with ⟨i, member, op⟩
    have closes : i.closes intrinsics = true := by simp [Instruction.closes, op]
    rcases built.closing_block function member closes with ⟨k, b, place, named, rfl⟩
    exact ⟨b, List.mem_of_getElem? place, named, op⟩

theorem leftBy_of_exit (built : g.BuiltFrom intrinsics p wires) (place : g.blocks[k]? = some b) {f : Function}
    (function : f ∈ p.functions) (named : b.function = f.name) (body : ∀ i ∈ b.code, i ∈ f.body) {here : List Wire}
    (leaves : Wiring.leave intrinsics g.blocks k b = .ok here) {name : Bytes} (member : .exit name k ∈ here) :
    f.LeftBy intrinsics b := by
  have final (none : Wiring.follower? g.blocks k b = none) := built.final_of_follower? function place named none
  rcases Wiring.ending_cases intrinsics b.last with op | ⟨test, op⟩ | op | ⟨callee, call⟩ | plain
  · rcases Wiring.leave_goto op leaves with ⟨label, _, rfl⟩
    split at member
    · rename_i leaving
      rw [named, Bool.and_eq_true, Option.isNone_iff_eq_none, Bool.not_eq_true', ← Bool.not_eq_true,
        built.returns_iff function] at leaving
      refine .inr ⟨b.last, b.last_mem, final leaving.1, ?_, fun given => leaving.2 given.2⟩
      simp [Instruction.userCall?, Instruction.callee?, op]
    · simp at member
  · rcases Wiring.leave_branch op leaves with ⟨label, next, _, _, rfl⟩
    simp at member
  · exact .inl ⟨body _ b.last_mem, op⟩
  · rcases Wiring.leave_call call leaves with ⟨entry, _, rfl⟩
    split at member <;> simp at member
  · rw [Wiring.leave_plain plain leaves] at member
    split at member
    · simp at member
    · rename_i none
      have diverts : ¬b.last.Diverts intrinsics := by simp [← Instruction.closes_iff, plain]
      refine .inr ⟨b.last, b.last_mem, final none, ?_, fun given => diverts (.inl given.1)⟩
      rw [Option.eq_none_iff_forall_ne_some]
      intro callee call
      exact diverts (.inr (.inr (.inr ⟨callee, call⟩)))

theorem exit_of_leftBy (built : g.BuiltFrom intrinsics p wires) (place : g.blocks[k]? = some b) {f : Function}
    (function : f ∈ p.functions) (left : f.LeftBy intrinsics b) {here : List Wire}
    (leaves : Wiring.leave intrinsics g.blocks k b = .ok here) : .exit f.name k ∈ here := by
  rcases left with ⟨body, op⟩ | ⟨i, member, final, call, goto⟩
  · rw [Wiring.leave_ret op leaves, (built.owner function (List.mem_of_getElem? place) body b.last_mem).1]
    exact List.mem_singleton_self _
  · have named := (built.owner function (List.mem_of_getElem? place) (List.mem_of_getLast? final) member).1
    rcases built.follower?_of_final place function final member with ⟨none, rfl⟩
    rcases Wiring.ending_cases intrinsics b.last with op | ⟨test, op⟩ | op | ⟨callee, call'⟩ | plain
    · rcases Wiring.leave_goto op leaves with ⟨label, _, rfl⟩
      have returns : Wiring.returns g.blocks f.name = false := by
        rw [← Bool.not_eq_true, built.returns_iff function]
        exact fun given => goto ⟨op, given⟩
      simp [none, named, returns]
    · rcases Wiring.leave_branch op leaves with ⟨label, next, _, following, _⟩
      rw [none] at following
      cases following
    · rw [Wiring.leave_ret op leaves, named]
      exact List.mem_singleton_self _
    · rw [call] at call'
      cases call'
    · rw [Wiring.leave_plain plain leaves, none, named]
      exact List.mem_singleton_self _

theorem exit_iff (built : g.BuiltFrom intrinsics p wires) (place : g.blocks[k]? = some b) {name : Bytes} :
    .exit name k ∈ wires ↔ ∃ f ∈ p.functions, f.name = name ∧ f.LeftBy intrinsics b := by
  rcases built.leaves place with ⟨here, leaves, _⟩
  rw [built.mem_own_wires place leaves (.inr ⟨_, rfl⟩)]
  constructor
  · intro member
    have named : b.function = name := by
      rcases Wiring.wire_cases leaves member with ⟨_, same⟩ | same | ⟨_, _, _, _, ⟨_, _, same⟩ | ⟨_, same⟩⟩
      · cases same
      · exact (Wire.exit.inj same).1.symm
      · cases same
      · cases same
    rcases built.function_of_block (List.mem_of_getElem? place) with ⟨f, function, named', body⟩
    exact ⟨f, function, named'.trans named, built.leftBy_of_exit place function named'.symm body leaves member⟩
  · intro given
    rcases given with ⟨f, function, rfl, left⟩
    exact built.exit_of_leftBy place function left leaves

theorem resume_iff (built : g.BuiltFrom intrinsics p wires) (place : g.blocks[l]? = some c) {callee : Bytes} :
    .resume callee l ∈ wires ↔ ∃ f ∈ p.functions, ∃ front call back, f.body = front ++ call :: c.leader :: back ∧
      call.userCall? intrinsics = some callee := by
  constructor
  · intro member
    rcases built.mem_wires_iff.1 member with ⟨k, b, here, place', leaves, present⟩
    rcases Wiring.resume_of_leave leaves present with ⟨call, following, _⟩
    rcases built.body_of_follower? place' place following with ⟨f, function, front, back, body⟩
    exact ⟨f, function, front, b.last, back, body, call⟩
  · intro given
    rcases given with ⟨f, function, front, call, back, body, calls⟩
    rcases built.neighbours function body with ⟨_, plain⟩ | ⟨k, b, d, place', after, _, rfl, begins, following⟩
    · simp [Instruction.closes, calls] at plain
    rcases built.leaves place' with ⟨here, leaves, wired⟩
    rcases Wiring.leave_call calls leaves with ⟨entry, _, rfl⟩
    obtain rfl := built.block_eq place after c.leader_mem (begins ▸ d.leader_mem)
    rw [following] at wired
    exact wired _ (by simp)

theorem tailStep_iff (built : g.BuiltFrom intrinsics p wires) {caller callee : Bytes} :
    Wiring.TailStep wires caller callee ↔ p.TailCalls intrinsics caller callee := by
  constructor
  · intro step
    rcases built.mem_wires_iff.1 step.mem with ⟨k, b, here, place, leaves, present⟩
    rcases Wiring.tail_of_leave leaves present with ⟨rfl, call, none, _⟩
    rcases built.function_of_block (List.mem_of_getElem? place) with ⟨f, function, named, _⟩
    exact ⟨f, function, named, b.last, built.final_of_follower? function place named.symm none, call⟩
  · intro given
    rcases given with ⟨f, function, rfl, call, final, calls⟩
    rcases List.getLast?_eq_some_iff.1 final with ⟨front, body⟩
    exact built.tailStep_of_final function body calls

theorem leads_of_target (built : g.BuiltFrom intrinsics p wires) (place : g.blocks[k]? = some b)
    (place' : g.blocks[l]? = some c) (jumps : b.last.op = .goto ∨ ∃ test, b.last.op = .branch test)
    (target : Wiring.target g.blocks b = .ok l) : p.Leads intrinsics b c := by
  rcases built.function_of_block (List.mem_of_getElem? place) with ⟨f, function, owner, body⟩
  rcases built.target_begins function owner.symm target with ⟨d, there, label, op, named⟩
  rw [place'] at there
  cases there
  exact .jumps function (body _ b.last_mem) jumps label op named c.leader_mem

theorem leads_of_jump (built : g.BuiltFrom intrinsics p wires) (place : g.blocks[k]? = some b)
    (place' : g.blocks[l]? = some c) (wire : .jump k l ∈ wires) : p.Leads intrinsics b c := by
  rcases built.leaves place with ⟨here, leaves, _⟩
  rw [built.mem_own_wires place leaves (.inl ⟨_, rfl⟩)] at wire
  rcases Wiring.ending_cases intrinsics b.last with op | ⟨test, op⟩ | op | ⟨callee, call⟩ | plain
  · rcases Wiring.leave_goto op leaves with ⟨label, target, rfl⟩
    have same : l = label := by
      split at wire <;> simpa using wire
    subst same
    exact built.leads_of_target place place' (.inl op) target
  · rcases Wiring.leave_branch op leaves with ⟨label, next, target, following, rfl⟩
    have same : l = label ∨ l = next := by simpa using wire
    rcases same with rfl | rfl
    · exact built.leads_of_target place place' (.inr ⟨test, op⟩) target
    · rcases built.body_of_follower? place place' following with ⟨f, function, front, back, body⟩
      exact .passes function body op c.leader_mem
  · rw [Wiring.leave_ret op leaves] at wire
    simp at wire
  · rcases Wiring.leave_call call leaves with ⟨entry, found, rfl⟩
    have same : l = entry := by
      split at wire <;> simpa using wire
    subst same
    rcases built.entry_block found with ⟨h, function, rfl, d, rest, there, body⟩
    rw [place'] at there
    cases there
    exact .calls function call body c.leader_mem
  · rw [Wiring.leave_plain plain leaves] at wire
    split at wire
    · rename_i next following
      have same : l = next := by simpa using wire
      subst same
      rcases built.body_of_follower? place place' following with ⟨f, function, front, back, body⟩
      exact .falls function body (by simp [← Instruction.closes_iff, plain]) c.leader_mem
    · simp at wire

theorem jump_of_label (built : g.BuiltFrom intrinsics p wires) (place : g.blocks[k]? = some b)
    (place' : g.blocks[l]? = some c) {f : Function} (function : f ∈ p.functions) (body : b.last ∈ f.body)
    (jumps : b.last.op = .goto ∨ ∃ test, b.last.op = .branch test) {label : Instruction} (present : label ∈ f.body)
    (op : label.op = .label) (named : b.last.target? = some label.labelName) (member : label ∈ c.code) :
    .jump k l ∈ wires := by
  rcases built.jump_wire place (Opcode.isJump_iff.2 jumps) with ⟨l', target, wire⟩
  have owner := (built.owner function (List.mem_of_getElem? place) body b.last_mem).1
  rcases built.target_begins function owner target with ⟨d, there, present', begins, named'⟩
  rw [named, Option.some.injEq] at named'
  have unique : label = d.leader := built.distinct.label_eq function present present' op begins named'
  rwa [built.block_eq place' there member (unique ▸ d.leader_mem)]

theorem mem_edges_iff_leads (built : g.BuiltFrom intrinsics p wires) (place : g.blocks[k]? = some b)
    (place' : g.blocks[l]? = some c) : (k, l) ∈ g.edges ↔ p.Leads intrinsics b c := by
  rw [built.mem_edges_iff]
  -- The chains of tail calls are the same on both sides; then each kind of wire has its way to lead.
  have steps : Wiring.TailStep wires = p.TailCalls intrinsics := by
    funext caller callee
    exact propext built.tailStep_iff
  rw [steps]
  constructor
  · intro given
    rcases given with wire | ⟨callee, name, reaches, exit, resume⟩
    · exact built.leads_of_jump place place' wire
    · rcases (built.resume_iff place').1 resume with ⟨f, function, front, call, back, body, calls⟩
      rcases (built.exit_iff place).1 exit with ⟨h, other, rfl, left⟩
      exact .returns function body calls other reaches left
  · intro leads
    rcases built.leaves place with ⟨here, leaves, wired⟩
    cases leads with
    | falls function body stays member =>
        have following := built.follower?_of_body place place' function body member
        rw [← Instruction.closes_iff, Bool.not_eq_true] at stays
        rw [Wiring.leave_plain stays leaves, following] at wired
        exact .inl (wired _ (by simp))
    | jumps function body jumps present op named member =>
        exact .inl (built.jump_of_label place place' function body jumps present op named member)
    | passes function body op member =>
        have following := built.follower?_of_body place place' function body member
        rcases Wiring.leave_branch op leaves with ⟨label, next, _, follows, rfl⟩
        rw [following] at follows
        cases follows
        exact .inl (wired _ (by simp))
    | @calls h j rest function call body member =>
        rcases Wiring.leave_call call leaves with ⟨entry, found, rfl⟩
        rcases built.entry_block found with ⟨h', function', same, d, rest', there, body'⟩
        obtain rfl := built.distinct.function_eq function' function same
        rw [body, List.cons.injEq] at body'
        obtain rfl := built.block_eq place' there member (body'.1 ▸ d.leader_mem)
        exact .inl (wired _ (by split <;> simp))
    | returns function body calls function' reaches left =>
        exact .inr ⟨_, _, reaches, (built.exit_iff place).2 ⟨_, function', rfl, left⟩,
          (built.resume_iff place').2 ⟨_, function, _, _, _, body, calls⟩⟩

end Graph.BuiltFrom

namespace Graph

variable {intrinsics : List Bytes} {entry : Bytes} {p : Program} {g : Graph}

/-- The edges of a graph are exactly the ways control goes from block to block, each of them once among the successors
of the one and once among the predecessors of the other. -/
theorem edges_are_control_flow (built : build intrinsics entry p = .ok g) :
    (∀ k l, l ∈ g.succs k ∨ k ∈ g.preds l → k < g.size ∧ l < g.size) ∧
      (∀ k b, g.blocks[k]? = some b → ∀ f ∈ p.functions, k ∈ g.exitsOf f.name ↔ f.LeftBy intrinsics b) ∧
      ∀ k l b c, g.blocks[k]? = some b → g.blocks[l]? = some c →
        (l ∈ g.succs k ↔ p.Leads intrinsics b c) ∧ (k ∈ g.preds l ↔ p.Leads intrinsics b c) ∧
          (p.Leads intrinsics b c → (g.succs k).count l = 1 ∧ (g.preds l).count k = 1) := by
  rcases exists_wires built with ⟨wires, built⟩
  refine ⟨?_, ?_, ?_⟩
  · intro k l given
    rw [mem_succs_iff, mem_preds_iff, or_self] at given
    exact built.edge_bounds given
  · intro k b place f function
    have listed : k ∈ g.exitsOf f.name ↔ .exit f.name k ∈ wires := by
      rw [← Wiring.mem_exits, ← built.exits]
      exact Wiring.mem_blocksOf
    rw [listed, built.exit_iff place]
    constructor
    · intro given
      rcases given with ⟨h, other, same, left⟩
      rwa [built.distinct.function_eq function other same.symm]
    · exact fun left => ⟨f, function, rfl, left⟩
  · intro k l b c place place'
    have edge := built.mem_edges_iff_leads place place'
    rw [mem_succs_iff, mem_preds_iff]
    refine ⟨edge, edge, ?_⟩
    intro leads
    have member := edge.2 leads
    exact ⟨List.count_eq_one_of_mem (built.succs_nodup k) (mem_succs_iff.2 member),
      List.count_eq_one_of_mem (built.preds_nodup l) (mem_preds_iff.2 member)⟩

def relaying : Program := ⟨[
  { name := [103]
    body := [⟨.call, [⟨.function, [104]⟩], 1⟩] },
  { name := [109]
    body := [⟨.call, [⟨.function, [103]⟩], 2⟩, ⟨.call, [⟨.function, [112]⟩, ⟨.variable, [120]⟩], 3⟩] },
  { name := [104]
    body := [⟨.ret, [], 4⟩] }]⟩

def relayed : Graph where
  blocks := [
    ⟨[103], ⟨.call, [⟨.function, [104]⟩], 1⟩, []⟩,
    ⟨[109], ⟨.call, [⟨.function, [103]⟩], 2⟩, []⟩,
    ⟨[109], ⟨.call, [⟨.function, [112]⟩, ⟨.variable, [120]⟩], 3⟩, []⟩,
    ⟨[104], ⟨.ret, [], 4⟩, []⟩]
  entry := 1
  edges := [(0, 3), (1, 0), (3, 2)]
  exits := [([109], 2), ([104], 3)]

theorem relayed_return_passes_tail_call :
    build [[112]] [109] relaying = .ok relayed ∧
      relaying.Leads [[112]] ⟨[104], ⟨.ret, [], 4⟩, []⟩
        ⟨[109], ⟨.call, [⟨.function, [112]⟩, ⟨.variable, [120]⟩], 3⟩, []⟩ ∧
      (relayed.succs 3).count 2 = 1 ∧ (relayed.preds 2).count 3 = 1 := by
  have built : build [[112]] [109] relaying = .ok relayed := by cbv
  rcases (edges_are_control_flow built).2.2 3 2 _ _ rfl rfl with ⟨edge, _, once⟩
  have leads := edge.1 (by decide)
  exact ⟨built, leads, once leads⟩

end Graph

end Deadwood

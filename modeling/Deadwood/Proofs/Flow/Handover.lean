import Deadwood.Proofs.Flow.Succession

/-!
Control flow between points of bodies. A point of a function is what is left of its body there, and nothing is left at
its end. A call in tail position needs no words of its own then: nothing is left after it, so the end of the function
that was called is an end of its caller as well.
-/

namespace Deadwood

/-- An instruction hands control over to a point of a function. A final jump back in a function without a return counts
as a way to its end. -/
inductive Program.Hands (intrinsics : List Bytes) (p : Program) (i : Instruction) :
    Function → List Instruction → Prop
  | falls {f : Function} {front rest : List Instruction} :
      f ∈ p.functions → f.body = front ++ i :: rest → ¬i.Diverts intrinsics ∨ (∃ test, i.op = .branch test) →
        Hands intrinsics p i f rest
  | jumps {f : Function} {front rest : List Instruction} {label : Instruction} :
      f ∈ p.functions → i ∈ f.body → i.op.isJump = true → f.body = front ++ label :: rest → label.op = .label →
        i.target? = some label.labelName → Hands intrinsics p i f (label :: rest)
  | calls {f h : Function} :
      f ∈ p.functions → i ∈ f.body → h ∈ p.functions → i.userCall? intrinsics = some h.name →
        Hands intrinsics p i h h.body
  | leaves {f : Function} : f ∈ p.functions → i ∈ f.body → i.op = .ret → Hands intrinsics p i f []
  | stops {f : Function} {front : List Instruction} :
      f ∈ p.functions → f.body = front ++ [i] → i.op = .goto → (∀ j ∈ f.body, j.op ≠ .ret) →
        Hands intrinsics p i f []
  | returns {f h : Function} {front rest : List Instruction} {call : Instruction} :
      Hands intrinsics p i h [] → f ∈ p.functions → f.body = front ++ call :: rest →
        call.userCall? intrinsics = some h.name → Hands intrinsics p i f rest

def Graph.Offers (wires : List Wire) (g : Graph) (i : Instruction) (f : Function) : List Instruction → Prop
  | [] => g.ExitsBy wires f.name i
  | j :: _ => g.Next i j

theorem Program.Hands.point {intrinsics : List Bytes} {p : Program} {i : Instruction} {f : Function}
    {rest : List Instruction} (hands : p.Hands intrinsics i f rest) :
    f ∈ p.functions ∧ ∃ front, f.body = front ++ rest := by
  cases hands with
  | falls function body _ => exact ⟨function, _, by rw [body, List.append_cons]⟩
  | jumps function _ _ body _ _ => exact ⟨function, _, body⟩
  | calls _ _ function _ => exact ⟨function, [], rfl⟩
  | leaves function _ _ => exact ⟨function, f.body, by simp⟩
  | stops function _ _ _ => exact ⟨function, f.body, by simp⟩
  | returns _ function body _ => exact ⟨function, _, by rw [body, List.append_cons]⟩

namespace Graph.BuiltFrom

variable {intrinsics : List Bytes} {p : Program} {wires : List Wire} {g : Graph} {i j : Instruction}

theorem exits_of_goto (built : g.BuiltFrom intrinsics p wires) {f : Function} (function : f ∈ p.functions)
    {front : List Instruction} (body : f.body = front ++ [i]) (op : i.op = .goto)
    (endless : ∀ j ∈ f.body, j.op ≠ .ret) : g.ExitsBy wires f.name i := by
  rcases built.final_block function body with ⟨k, b, place, _, rfl, _⟩
  have left : f.LeftBy intrinsics b := by
    refine .inr ⟨b.last, b.last_mem, by simp [body], ?_, ?_⟩
    · simp [Instruction.userCall?, Instruction.callee?, op]
    · rintro ⟨_, j, member, returns⟩
      exact endless j member returns
  exact ⟨f.name, k, b, .refl, (built.exit_iff place).2 ⟨f, function, rfl, left⟩, place, rfl⟩

theorem offers_of_hands (built : g.BuiltFrom intrinsics p wires) {f : Function} {rest : List Instruction}
    (hands : p.Hands intrinsics i f rest) : g.Offers wires i f rest := by
  induction hands with
  | @falls f front rest function body falls =>
      rw [← Instruction.closes_iff, Bool.not_eq_true] at falls
      cases rest with
      | nil =>
          rcases falls with plain | ⟨test, op⟩
          · exact built.exits_of_final function body plain
          · exact (built.branch_not_final function body test op).elim
      | cons j rest => exact built.next_of_fall function body falls
  | jumps function member jumps body op named =>
      exact built.next_of_jump function member jumps (by simp [body]) op named
  | @calls f h function member other call =>
      rcases built.next_of_call function member call with ⟨h', other', named, j, rest, body, next⟩
      obtain rfl := built.distinct.function_eq other' other named
      rw [body]
      exact next
  | leaves function member op => exact built.exits_of_ret function member op
  | stops function body op endless => exact built.exits_of_goto function body op endless
  | @returns f h front rest call _ function body calls exits =>
      cases rest with
      | nil => exact built.exits_of_tail function body calls exits
      | cons j rest => exact built.next_of_return function body calls exits

theorem leader_of_begins (built : g.BuiltFrom intrinsics p wires) {c : Block} (block : c ∈ g.blocks) {f : Function}
    (function : f ∈ p.functions) (begins : f.Begins intrinsics j) (member : j ∈ c.code) : j = c.leader := by
  have body : j ∈ f.body := by
    rcases begins with ⟨front, back, body, _⟩
    simp [body]
  rcases List.mem_cons.1 member with same | other
  · exact same
  · have leads := (built.distinct.mem_leaders_iff function body).2 begins
    exact (built.not_leader_of_mem_others block other leads).elim

theorem hands_of_tailCalls (built : g.BuiltFrom intrinsics p wires) {f h : Function} (function : f ∈ p.functions)
    (reaches : Relation.ReflTransGen (p.TailCalls intrinsics) f.name h.name) (hands : p.Hands intrinsics i h []) :
    p.Hands intrinsics i f [] := by
  generalize named : f.name = name at reaches
  induction reaches using Relation.ReflTransGen.head_induction_on generalizing f with
  | refl =>
      rw [built.distinct.function_eq function hands.point.1 named]
      exact hands
  | head step _ ih =>
      rcases step with ⟨caller, present, rfl, call, final, calls⟩
      obtain rfl := built.distinct.function_eq present function named.symm
      rcases List.getLast?_eq_some_iff.1 final with ⟨front, body⟩
      rcases built.next_of_call function (by simp [body]) calls with ⟨callee, other, rfl, _⟩
      exact .returns (ih other rfl) function body calls

theorem hands_of_leftBy (built : g.BuiltFrom intrinsics p wires) {k : Nat} {b : Block} (place : g.blocks[k]? = some b)
    {h : Function} (function : h ∈ p.functions) (left : h.LeftBy intrinsics b) : p.Hands intrinsics b.last h [] := by
  rcases left with ⟨member, op⟩ | ⟨i, member, final, call, goto⟩
  · exact .leaves function member op
  · rcases built.follower?_of_final place function final member with ⟨_, rfl⟩
    rcases List.getLast?_eq_some_iff.1 final with ⟨front, body⟩
    rcases Wiring.ending_cases intrinsics b.last with op | ⟨test, op⟩ | op | ⟨callee, call'⟩ | plain
    · refine .stops function body op ?_
      intro j inside returns
      exact goto ⟨op, j, inside, returns⟩
    · exact (built.branch_not_final function body test op).elim
    · exact .leaves function (by simp [body]) op
    · rw [call] at call'
      cases call'
    · exact .falls function body (.inl (by simp [← Instruction.closes_iff, plain]))

theorem hands_of_leads (built : g.BuiltFrom intrinsics p wires) {k l : Nat} {b c : Block}
    (place : g.blocks[k]? = some b) (place' : g.blocks[l]? = some c) (leads : p.Leads intrinsics b c) :
    ∃ f rest, p.Hands intrinsics b.last f (c.leader :: rest) := by
  have block := List.mem_of_getElem? place'
  cases leads with
  | falls function body stays member =>
      have following := built.follower?_of_body place place' function body member
      rcases built.body_of_follower? place place' following with ⟨f, function, front, back, body⟩
      exact ⟨f, back, .falls function body (.inl stays)⟩
  | @jumps f label function member jumps present op named inside =>
      rcases List.append_of_mem present with ⟨front, back, body⟩
      have begins : f.Begins intrinsics label := ⟨front, back, body, .inr (.inl op)⟩
      obtain rfl := built.leader_of_begins block function begins inside
      exact ⟨f, back, .jumps function member (Opcode.isJump_iff.2 jumps) body op named⟩
  | @passes f front back j test function body op member =>
      have following := built.follower?_of_body place place' function body member
      rcases built.body_of_follower? place place' following with ⟨f, function, front, back, body⟩
      exact ⟨f, back, .falls function body (.inr ⟨test, op⟩)⟩
  | @calls h j rest function call body member =>
      have begins : h.Begins intrinsics j := ⟨[], rest, body, .inl rfl⟩
      obtain rfl := built.leader_of_begins block function begins member
      rcases built.function_of_block (List.mem_of_getElem? place) with ⟨f, owner, _, code⟩
      exact ⟨h, rest, body ▸ .calls owner (code _ b.last_mem) function call⟩
  | @returns f h front back call _ function body calls other reaches left =>
      -- The block need not lie in the function that was called, but in one it reaches by calls in tail position.
      rcases built.next_of_call function (by simp [body]) calls with ⟨callee, present, rfl, _⟩
      have ends := built.hands_of_tailCalls present reaches (built.hands_of_leftBy place other left)
      exact ⟨f, back, .returns ends function body calls⟩

theorem next_iff_hands (built : g.BuiltFrom intrinsics p wires) :
    g.Next i j ↔ ∃ f rest, p.Hands intrinsics i f (j :: rest) := by
  constructor
  · intro next
    cases next with
    | @within b front back _ _ block code =>
        rcases built.mem_blocks_iff.1 block with ⟨f, function, here⟩
        rcases List.append_of_mem here with ⟨earlier, later, split⟩
        have body : f.body = (earlier.flatMap Block.code ++ front) ++ i :: j :: (back ++ later.flatMap Block.code) := by
          rw [← f.code_blocks intrinsics, split, List.flatMap_append, List.flatMap_cons, code]
          simp
        have joined := Function.joined_of_mem_blocks here
        rw [code] at joined
        have stays := (List.isChain_append_cons_cons.1 joined).2.1.1
        exact ⟨f, _, .falls function body (.inl (by simp [← Instruction.closes_iff, stays]))⟩
    | across place place' edge =>
        exact built.hands_of_leads place place' ((built.mem_edges_iff_leads place place').1 (mem_succs_iff.1 edge))
  · rintro ⟨f, rest, hands⟩
    exact built.offers_of_hands hands

end Graph.BuiltFrom

end Deadwood

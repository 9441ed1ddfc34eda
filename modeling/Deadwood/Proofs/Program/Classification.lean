import Deadwood.Proofs.Program.Numbering

/-!
What the operands of a program are taken for once it is written and read again. A name is an array if it has been
declared as one so far, while the text that is written declares what the last list of each kind did, and in front of all
code. The two agree on every program whose lists stand in front of its code, one of each kind.
-/

namespace Deadwood

open Bytes Reader ProgramText

namespace Operand

def kindUnder (arrays : List Bytes) (o : Operand) : OperandKind :=
  if o.isStorage then if arrays.contains o.name then .array else .variable else o.kind

theorem kindUnder_eq_iff {arrays : List Bytes} {o : Operand} :
    o.kindUnder arrays = o.kind ↔ (o.isStorage = true → (o.kind = .array ↔ o.name ∈ arrays)) := by
  rcases o with ⟨kind, name⟩
  by_cases declared : name ∈ arrays <;> cases kind <;> simp [kindUnder, isStorage, declared]

theorem kindUnder_congr {arrays arrays' : List Bytes} (same : ∀ v, v ∈ arrays ↔ v ∈ arrays') (o : Operand) :
    o.kindUnder arrays = o.kindUnder arrays' := by
  simp only [kindUnder, List.contains_iff_mem, same]

theorem kindUnder_classify (arrays arrays' : List Bytes) (op : Opcode) (index : Nat) (name : Bytes) :
    (classify arrays' op index name).kindUnder arrays = (classify arrays op index name).kind := by
  rw [classify, classify]
  split
  · rfl
  · split
    · rfl
    · split
      · rfl
      · split <;> split <;> simp_all [kindUnder, isStorage]

theorem map_kindUnder_classify (arrays arrays' : List Bytes) (op : Opcode) (names : List Bytes) :
    (names.mapIdx (classify arrays' op)).map (kindUnder arrays) = (names.mapIdx (classify arrays op)).map (·.kind) := by
  apply List.ext_getElem
  · simp
  · intro k _ _
    simp only [List.getElem_map, List.getElem_mapIdx, kindUnder_classify]

end Operand

def Program.kinds (p : Program) : List (List (List OperandKind)) :=
  p.functions.map fun f => f.body.map fun i => i.operands.map (·.kind)

namespace Function

/-- An operand is an array exactly if the parameters or the lists of the function declare it as one. -/
def Declared (f : Function) : Prop :=
  ∀ i ∈ f.body, ∀ o ∈ i.operands, o.isStorage = true → (o.kind = .array ↔ o.name ∈ f.arrays)

theorem declared_iff {f : Function} :
    f.Declared ↔ ∀ i ∈ f.body, i.operands.map (Operand.kindUnder f.arrays) = i.operands.map (·.kind) := by
  simp only [Declared, List.map_inj_left, Operand.kindUnder_eq_iff]

theorem declared_renumbered {f : Function} {line : Int → Int} : (f.renumbered line).Declared ↔ f.Declared := by
  simp [Declared, renumbered, Instruction.renumbered, arrays]

end Function

theorem Instruction.Legible.kinds_reread {i : Instruction} (legible : i.Legible) (arrays : List Bytes) (line : Nat) :
    (i.reread arrays line).operands.map (·.kind) = i.operands.map (Operand.kindUnder arrays) := by
  cases legible with
  | label => rfl
  | @operation op names arrays' _ _ operates _ _ =>
      simp only [reread, if_neg operates, map_name_classify, Operand.map_kindUnder_classify]

namespace Program

theorem kinds_rereadFrom {functions : List Function} (legible : ∀ f ∈ functions, f.Legible) (before : Nat) :
    Program.kinds ⟨rereadFrom before functions⟩ =
      functions.map fun f => f.body.map fun i => i.operands.map (Operand.kindUnder f.arrays) := by
  induction functions generalizing before with
  | nil => rfl
  | cons f rest ih =>
      have here : (f.reread before).body.map (fun i => i.operands.map (·.kind)) =
          f.body.map fun i => i.operands.map (Operand.kindUnder f.arrays) := by
        apply List.ext_getElem
        · simp [Function.reread]
        · intro k _ inside
          simp only [Function.reread, List.getElem_map, List.getElem_mapIdx]
          exact ((legible f List.mem_cons_self).body _ (List.getElem_mem _)).kinds_reread _ _
      have later := ih (fun g member => legible g (List.mem_cons_of_mem f member)) (before + f.textLines.length + 1)
      rw [rereadFrom, kinds, List.map_cons, List.map_cons, here]
      exact congrArg (List.cons _) later

end Program

namespace ProgramText

def Apart (line line' : Bytes) : Prop :=
  ¬(Marker.ints <+: line ∧ Marker.ints <+: line') ∧ ¬(Marker.floats <+: line ∧ Marker.floats <+: line')

/-- Functions one after the other, in each the lists in front of the code and at most one of each kind. -/
inductive ListsFirst : List Bytes → Prop
  | nil : ListsFirst []
  | cons {header : Bytes} {lists code rest : List Bytes} (opens : IsHeader header)
      (declares : ∀ line ∈ lists, IsDeclaration line) (once : lists.Pairwise Apart)
      (each : ∀ line ∈ code, IsBodyLine line ∧ ¬IsDeclaration line) (further : ListsFirst rest) :
      ListsFirst (Marker.start :: header :: (lists ++ (code ++ Marker.finish :: rest)))

theorem Counts.ink {line : Bytes} (counts : Counts line) (start : line ≠ Marker.start) (finish : line ≠ Marker.finish) :
    line ≠ [] ∧ line.head? ≠ some 35 := (counts.resolve_left start).resolve_left finish

end ProgramText

namespace Reader

/-- The arrays known are those that the lists of the function declare, and its code took them for such. -/
structure Current (f : Function) (arrays : List Bytes) : Prop where
  known : ∀ v, v ∈ arrays ↔ v ∈ f.arrays
  declared : f.Declared

variable {f : Function} {arrays : List Bytes} {number : Nat} {line : Bytes}

theorem step_header (counts : Counts line) (opens : IsHeader line) (finished : List Function) (number : Nat) :
    ∃ f, step ⟨.beforeHeader, finished⟩ number line = .ok ⟨.inside f (arrayParams f.params), finished⟩ ∧
      f.ints = [] ∧ f.floats = [] ∧ f.body = [] := by
  have ink := counts.ink (fun same => not_isHeader_marker (.inl same) opens)
    fun same => not_isHeader_marker (.inr same) opens
  rcases (exists_function_iff line).2 opens with ⟨f, read⟩
  refine ⟨f, ?_, ?_⟩
  · rw [step_ink _ _ ink.1 ink.2]
    simp only [read]
    rfl
  · rw [function] at read
    split at read
    · cases read
    · rcases Except.bind_eq_ok.1 read with ⟨params, _, opened⟩
      cases opened
      exact ⟨rfl, rfl, rfl⟩

theorem step_body (counts : Counts line) (body : IsBodyLine line) (finished : List Function) :
    step ⟨.inside f arrays, finished⟩ number line =
      (bodyLine f arrays number line).map fun place => ⟨place, finished⟩ := by
  have ink := counts.ink (fun same => not_isBodyLine_marker (.inl same) body)
    fun same => not_isBodyLine_marker (.inr same) body
  exact step_ink _ _ ink.1 ink.2

theorem kinds_of_instruction {i : Instruction} (read : instruction arrays number line = .ok i) :
    i.operands.map (Operand.kindUnder arrays) = i.operands.map (·.kind) := by
  rw [instruction] at read
  split at read
  · cases read
  · split at read
    · rcases Except.map_eq_ok.1 read with ⟨found, taken, rfl⟩
      rcases operands_eq_ok_iff.1 taken with ⟨_, rfl⟩
      simp only [Nat.zero_add]
      exact Operand.map_kindUnder_classify arrays arrays _ _
    · cases read

theorem after_eq_none_of_not_isPrefix {marker : Bytes} (other : ¬marker <+: line) : after? marker line = none := by
  cases found : after? marker line with
  | none => rfl
  | some rest => exact (other ⟨rest, (after_eq_some found).symm⟩).elim

theorem Current.add (current : Current f arrays) {i : Instruction}
    (kinds : i.operands.map (Operand.kindUnder arrays) = i.operands.map (·.kind)) :
    Current { f with body := f.body ++ [i] } arrays := by
  refine ⟨current.known, Function.declared_iff.2 ?_⟩
  intro j member
  rcases List.mem_append.1 member with before | last
  · exact Function.declared_iff.1 current.declared j before
  · rw [List.mem_singleton.1 last, ← kinds]
    exact List.map_congr_left fun o _ => (Operand.kindUnder_congr current.known o).symm

theorem bodyLine_code (current : Current f arrays) (body : IsBodyLine line) (code : ¬IsDeclaration line) :
    ∃ f', bodyLine f arrays number line = .ok (.inside f' arrays) ∧ Current f' arrays := by
  have ints : after? Marker.ints line = none := after_eq_none_of_not_isPrefix fun start => code (.inl start)
  have floats : after? Marker.floats line = none := after_eq_none_of_not_isPrefix fun start => code (.inr start)
  rcases (exists_bodyLine_iff f arrays number line).2 body with ⟨place, taken⟩
  simp only [bodyLine, ints, floats] at taken ⊢
  split at taken
  · exact ⟨_, rfl, current.add rfl⟩
  · rcases Except.map_eq_ok.1 taken with ⟨i, read, rfl⟩
    exact ⟨_, by rw [read]; rfl, current.add (kinds_of_instruction read)⟩

theorem mem_arrays {v : Bytes} : v ∈ f.arrays ↔
    v ∈ arrayParams f.params ∨ v ∈ f.ints.filterMap arrayName? ∨ v ∈ f.floats.filterMap arrayName? := by
  rw [Function.arrays, List.append_assoc, List.mem_append, List.mem_append]

theorem bodyLine_list (current : Current f arrays) (empty : f.body = []) (declares : IsDeclaration line)
    (ints : Marker.ints <+: line → f.ints = []) (floats : Marker.floats <+: line → f.floats = []) :
    ∃ f' arrays', bodyLine f arrays number line = .ok (.inside f' arrays') ∧ Current f' arrays' ∧ f'.body = [] ∧
      (¬Marker.ints <+: line → f'.ints = f.ints) ∧ (¬Marker.floats <+: line → f'.floats = f.floats) := by
  have idle {g : Function} (same : g.body = []) : g.Declared := by
    intro i member
    rw [same] at member
    cases member
  rcases declares with ⟨rest, rfl⟩ | ⟨rest, rfl⟩
  · have taken : bodyLine f arrays number (Marker.ints ++ rest) =
        .ok (.inside { f with ints := items rest } (arrays ++ (items rest).filterMap arrayName?)) := by
      rw [bodyLine, after_append]
    have first := ints (List.prefix_append _ _)
    refine ⟨_, _, taken, ⟨?_, idle empty⟩, empty, fun other => (other (List.prefix_append _ _)).elim, fun _ => rfl⟩
    intro v
    simp only [List.mem_append, current.known, mem_arrays, first, List.filterMap_nil, List.not_mem_nil, false_or]
    tauto
  · have taken : bodyLine f arrays number (Marker.floats ++ rest) =
        .ok (.inside { f with floats := items rest } (arrays ++ (items rest).filterMap arrayName?)) := by
      have other : after? Marker.ints (Marker.floats ++ rest) = none := rfl
      rw [bodyLine, other, after_append]
    have first := floats (List.prefix_append _ _)
    refine ⟨_, _, taken, ⟨?_, idle empty⟩, empty, fun _ => rfl, fun other => (other (List.prefix_append _ _)).elim⟩
    intro v
    simp only [List.mem_append, current.known, mem_arrays, first, List.filterMap_nil, List.not_mem_nil, or_false]
    tauto

theorem foldlM_lists {lists : List Bytes} (counts : ∀ line ∈ lists, Counts line)
    (declares : ∀ line ∈ lists, IsDeclaration line) (once : lists.Pairwise Apart) (current : Current f arrays)
    (empty : f.body = []) (ints : ∀ line ∈ lists, Marker.ints <+: line → f.ints = [])
    (floats : ∀ line ∈ lists, Marker.floats <+: line → f.floats = []) (finished : List Function) :
    ∃ f' arrays', lists.foldlM (fun s line => step s 0 line) ⟨.inside f arrays, finished⟩ =
      .ok ⟨.inside f' arrays', finished⟩ ∧ Current f' arrays' := by
  induction lists generalizing f arrays with
  | nil => exact ⟨f, arrays, rfl, current⟩
  | cons line lists ih =>
      rw [List.forall_mem_cons] at counts declares ints floats
      rw [List.pairwise_cons] at once
      rcases bodyLine_list current empty declares.1 ints.1 floats.1 with
        ⟨f', arrays', taken, current', empty', sameInts, sameFloats⟩
      have first : step ⟨.inside f arrays, finished⟩ 0 line = .ok ⟨.inside f' arrays', finished⟩ := by
        rw [step_body counts.1 (.inl declares.1), taken]
        rfl
      -- A later list of one kind finds that list empty: the one here, by `once`, is of the other kind.
      have laterInts : ∀ other ∈ lists, Marker.ints <+: other → f'.ints = [] := by
        intro other member start
        rw [sameInts fun here => (once.1 other member).1 ⟨here, start⟩]
        exact ints.2 other member start
      have laterFloats : ∀ other ∈ lists, Marker.floats <+: other → f'.floats = [] := by
        intro other member start
        rw [sameFloats fun here => (once.1 other member).2 ⟨here, start⟩]
        exact floats.2 other member start
      rw [List.foldlM_cons, first]
      exact ih counts.2 declares.2 once.2 current' empty' laterInts laterFloats

theorem foldlM_code {code : List Bytes} (counts : ∀ line ∈ code, Counts line)
    (each : ∀ line ∈ code, IsBodyLine line ∧ ¬IsDeclaration line) (current : Current f arrays)
    (finished : List Function) :
    ∃ f', code.foldlM (fun s line => step s 0 line) ⟨.inside f arrays, finished⟩ = .ok ⟨.inside f' arrays, finished⟩ ∧
      Current f' arrays := by
  induction code generalizing f with
  | nil => exact ⟨f, rfl, current⟩
  | cons line code ih =>
      rw [List.forall_mem_cons] at counts each
      rcases bodyLine_code current each.1.1 each.1.2 with ⟨f', taken, current'⟩
      have first : step ⟨.inside f arrays, finished⟩ 0 line = .ok ⟨.inside f' arrays, finished⟩ := by
        rw [step_body counts.1 each.1.1, taken]
        rfl
      rw [List.foldlM_cons, first]
      exact ih counts.2 each.2 current'

theorem foldlM_function {header : Bytes} {lists code : List Bytes} (opens : IsHeader header) (headed : Counts header)
    (declares : ∀ line ∈ lists, IsDeclaration line) (once : lists.Pairwise Apart)
    (listed : ∀ line ∈ lists, Counts line) (each : ∀ line ∈ code, IsBodyLine line ∧ ¬IsDeclaration line)
    (coded : ∀ line ∈ code, Counts line) (finished : List Function) (rest : List Bytes) :
    ∃ f : Function, f.Declared ∧
      (Marker.start :: header :: (lists ++ (code ++ Marker.finish :: rest))).foldlM (fun s line => step s 0 line)
          ⟨.outside, finished⟩ =
        rest.foldlM (fun s line => step s 0 line) ⟨.outside, finished ++ [f]⟩ := by
  rcases step_header headed opens finished 0 with ⟨f, opened, ints, floats, empty⟩
  have current : Current f (arrayParams f.params) := by
    constructor
    · intro v
      simp [mem_arrays, ints, floats]
    · simp [Function.Declared, empty]
  rcases foldlM_lists listed declares once current empty (fun _ _ _ => ints) (fun _ _ _ => floats) finished with
    ⟨f', arrays, declared, current'⟩
  rcases foldlM_code coded each current' finished with ⟨f'', grown, current''⟩
  have started : step ⟨.outside, finished⟩ 0 Marker.start = .ok ⟨.beforeHeader, finished⟩ := rfl
  have closed : step ⟨.inside f'' arrays, finished⟩ 0 Marker.finish = .ok ⟨.outside, finished ++ [f'']⟩ := rfl
  refine ⟨f'', current''.declared, ?_⟩
  simp only [List.foldlM_cons, List.foldlM_append, started, opened, declared, grown, closed, bind, Except.bind]

theorem declared_of_listsFirst {lines : List Bytes} {finished functions : List Function} (first : ListsFirst lines)
    (counts : ∀ line ∈ lines, Counts line) (before : ∀ f ∈ finished, f.Declared)
    (read : lines.foldlM (fun s line => step s 0 line) ⟨.outside, finished⟩ = .ok ⟨.outside, functions⟩) :
    ∀ f ∈ functions, f.Declared := by
  induction first generalizing finished with
  | nil =>
      cases read
      exact before
  | @cons header lists code rest opens declares once each further ih =>
      simp only [List.forall_mem_cons, List.forall_mem_append] at counts
      rcases counts with ⟨_, headed, listed, coded, _, later⟩
      rcases foldlM_function opens headed declares once listed each coded finished rest with ⟨f, declared, taken⟩
      have all : ∀ g ∈ finished ++ [f], g.Declared := by
        rw [List.forall_mem_append, List.forall_mem_singleton]
        exact ⟨before, declared⟩
      exact ih later all (taken.symm.trans read)

end Reader

namespace Program

theorem declared_of_read {source : Bytes} {p : Program} (read : Program.read source = .ok p)
    (first : ListsFirst (counting source.lines)) : ∀ f ∈ p.functions, f.Declared := by
  intro f function
  have counts : ∀ line ∈ counting source.lines, Counts line := by
    intro line member
    exact of_decide_eq_true (List.mem_filter.1 member).2
  have all := declared_of_listsFirst first counts (by simp) (foldlM_counting read)
  exact Function.declared_renumbered.1 (all _ (List.mem_map_of_mem function))

/-- A program that was read, written and read again has operands of the same kinds but for its variables and arrays: of
these, the ones that its parameters and last lists declare as arrays are such. Hence all kinds are the same exactly if
no name was used as an array that they do not declare, or used as none that they do. That is so wherever the lists stand
in front of the code, one of each kind. -/
theorem kinds_reread_iff {source : Bytes} {p : Program} (read : Program.read source = .ok p)
    (short : ∀ line ∈ p.text.lines, line.length ≤ lineLimit) :
    ∃ p', Program.read p.text = .ok p' ∧
      p'.kinds = (p.functions.map fun f => f.body.map fun i => i.operands.map (Operand.kindUnder f.arrays)) ∧
      (p'.kinds = p.kinds ↔ ∀ f ∈ p.functions, f.Declared) ∧
      (ListsFirst (counting source.lines) → p'.kinds = p.kinds) := by
  have again := kinds_rereadFrom (legible_of_read read) 0
  have same : Program.kinds ⟨rereadFrom 0 p.functions⟩ = p.kinds ↔ ∀ f ∈ p.functions, f.Declared := by
    rw [again, kinds, List.map_inj_left]
    simp only [List.map_inj_left, Function.declared_iff]
  refine ⟨_, read_text read short, again, same, ?_⟩
  intro first
  exact same.2 (declared_of_read read first)

def replaced : Bytes :=
  bytes "#start_function\nvoid main():\nint-list: c[10]\nassign, c, 10, 0\nint-list: a\n#end_function\n"

def filled (kind : OperandKind) (line : Int) : Program := ⟨[
  { name := bytes "main"
    returnType := bytes "void"
    ints := [bytes "a"]
    body := [⟨.assign, [⟨kind, bytes "c"⟩, ⟨.constant, bytes "10"⟩, ⟨.constant, bytes "0"⟩], line⟩] }]⟩

theorem replaced_array_lost :
    Program.read replaced = .ok (filled .array 4) ∧ Program.read (filled .array 4).text = .ok (filled .variable 5) ∧
      (filled .variable 5).kinds ≠ (filled .array 4).kinds ∧ ¬∀ f ∈ (filled .array 4).functions, f.Declared := by
  have read : Program.read replaced = .ok (filled .array 4) := by decide +kernel
  have short : ∀ line ∈ (filled .array 4).text.lines, line.length ≤ lineLimit := by decide +kernel
  have lost : (filled .variable 5).kinds ≠ (filled .array 4).kinds := by decide
  have again : Program.read (filled .array 4).text = .ok (filled .variable 5) := by decide +kernel
  rcases kinds_reread_iff read short with ⟨p', other, _, same, _⟩
  cases again.symm.trans other
  exact ⟨read, again, lost, fun declared => lost (same.2 declared)⟩

end Program

end Deadwood

import Deadwood.Proofs.Program.Canonical
import Deadwood.Proofs.Program.Refusal
import Mathlib.Data.List.GetD
import Mathlib.Data.Set.Function

/-!
Programs under other line numbers. Empty lines and comments of a text change the numbers of a program that is read from
it and nothing else, and so does writing it and reading it again, but for what is an array. As the numbers of a program
that was read ascend, the one numbering is a renaming of the other.
-/

namespace Deadwood

open Bytes Reader ProgramText

namespace Operand

@[simp] theorem name_blurred (o : Operand) : o.blurred.name = o.name := rfl

@[simp] theorem kind_blurred_label (o : Operand) : o.blurred.kind = .label ↔ o.kind = .label := by
  rcases o with ⟨kind, name⟩
  cases kind <;> simp [blurred]

end Operand

namespace Instruction

@[simp] theorem op_blurred (i : Instruction) : i.blurred.op = i.op := rfl

@[simp] theorem line_blurred (i : Instruction) : i.blurred.line = i.line := rfl

@[simp] theorem target?_blurred (i : Instruction) : i.blurred.target? = i.target? := by
  rcases i with ⟨op, operands, line⟩
  cases operands <;> simp [target?, blurred]

@[simp] theorem text_blurred (i : Instruction) : i.blurred.text = i.text := by
  have names : i.blurred.operands.map (·.name) = i.operands.map (·.name) := by
    simp [blurred]
  rw [text, text, op_blurred, target?_blurred, names]

def renumbered (line : Int → Int) (i : Instruction) : Instruction := { i with line := line i.line }

end Instruction

namespace Function

def renumbered (line : Int → Int) (f : Function) : Function := { f with body := f.body.map (·.renumbered line) }

theorem textLines_blurred (f : Function) : f.blurred.textLines = f.textLines := by
  have body : f.blurred.body.map instructionLine = f.body.map instructionLine := by
    rw [blurred, List.map_map]
    refine List.map_congr_left fun i _ => ?_
    rw [Function.comp_apply, instructionLine, instructionLine, Instruction.text_blurred, Instruction.op_blurred]
  rw [textLines, textLines, body]
  rfl

theorem textLines_renumbered (line : Int → Int) (f : Function) : (f.renumbered line).textLines = f.textLines := by
  have body : (f.renumbered line).body.map instructionLine = f.body.map instructionLine := List.map_map
  rw [textLines, textLines, body]
  rfl

end Function

namespace Program

def renumbered (line : Int → Int) (p : Program) : Program := ⟨p.functions.map (·.renumbered line)⟩

def unnumbered (p : Program) : Program := p.renumbered fun _ => 0

theorem text_blurred (p : Program) : p.blurred.text = p.text := by
  simp only [text, blurred, List.map_map, Function.comp_def, Function.textLines_blurred]

theorem text_renumbered (line : Int → Int) (p : Program) : (p.renumbered line).text = p.text := by
  simp only [text, renumbered, List.map_map, Function.comp_def, Function.textLines_renumbered]

theorem renumbered_id (p : Program) : p.renumbered id = p := by
  have same (f : Function) : f.renumbered id = f :=
    congrArg (fun body => { f with body }) (List.map_id' f.body)
  rw [renumbered, List.map_congr_left fun f _ => same f, List.map_id']

theorem blurred_filter (p : Program) {keep : Instruction → Bool} (same : ∀ i, keep i.blurred = keep i) :
    (p.filter keep).blurred = p.blurred.filter keep := by
  have kept (body : List Instruction) : (body.filter keep).map (·.blurred) = (body.map (·.blurred)).filter keep := by
    rw [List.filter_map, show keep ∘ Instruction.blurred = keep from funext same]
  simp only [blurred, filter, List.map_map, Function.comp_def, Function.blurred, kept]

theorem renumbered_filter (line : Int → Int) (p : Program) {keep keep' : Instruction → Bool}
    (same : ∀ i, keep' (i.renumbered line) = keep i) :
    (p.filter keep).renumbered line = (p.renumbered line).filter keep' := by
  have kept (body : List Instruction) :
      (body.filter keep).map (·.renumbered line) = (body.map (·.renumbered line)).filter keep' := by
    rw [List.filter_map, show keep' ∘ (·.renumbered line) = keep from funext same]
  simp only [renumbered, filter, List.map_map, Function.comp_def, Function.renumbered, kept]

/-- The second program is the first one with its lines renamed, and perhaps with variables for arrays or arrays for
variables. -/
def AlikeUnder (line : Int → Int) (p q : Program) : Prop := q.blurred = (p.renumbered line).blurred

instance (line : Int → Int) (p q : Program) : Decidable (AlikeUnder line p q) := inferInstanceAs (Decidable (_ = _))

theorem AlikeUnder.text_eq {line : Int → Int} {p q : Program} (alike : AlikeUnder line p q) : q.text = p.text := by
  rw [← text_blurred q, alike, text_blurred, text_renumbered]

end Program

namespace Reader

def Place.renumbered (line : Int → Int) : Place → Place
  | .inside f arrays => .inside (f.renumbered line) arrays
  | place => place

def State.renumbered (line : Int → Int) (s : State) : State :=
  ⟨s.place.renumbered line, s.finished.map (·.renumbered line)⟩

theorem body_of_header {text : Bytes} {f : Function} (opens : function text = .ok f) : f.body = [] := by
  rw [function] at opens
  split at opens
  · cases opens
  · rcases Except.bind_eq_ok.1 opens with ⟨params, _, opened⟩
    cases opened
    rfl

section

variable {line : Int → Int} {number number' : Nat} (same : line number = number')

include same

theorem instruction_renumbered (arrays : List Bytes) (text : Bytes) :
    instruction arrays number' text = (instruction arrays number text).map (·.renumbered line) := by
  rw [instruction, instruction]
  split
  · rfl
  · split
    · cases operands arrays _ 0 (parts text).tail with
      | error fault => rfl
      | ok found => simp only [Except.map, Instruction.renumbered, same]
    · rfl

theorem bodyLine_renumbered (f : Function) (arrays : List Bytes) (text : Bytes) :
    bodyLine (f.renumbered line) arrays number' text =
      (bodyLine f arrays number text).map (Place.renumbered line) := by
  rw [bodyLine, bodyLine]
  split
  · rfl
  · split
    · rfl
    · split
      · simp only [Except.map, Place.renumbered, Function.renumbered, Instruction.renumbered, List.map_append,
          List.map_cons, List.map_nil, same]
      · rw [instruction_renumbered same]
        cases instruction arrays number text with
        | error fault => rfl
        | ok i =>
            simp only [Except.map, Place.renumbered, Function.renumbered, List.map_append, List.map_cons, List.map_nil]

theorem step_renumbered (s : State) (text : Bytes) :
    step (s.renumbered line) number' text = (step s number text).map (State.renumbered line) := by
  rcases s with ⟨place, finished⟩
  rw [step, step]
  split
  · rfl
  · split
    · cases place <;> rfl
    · split
      · cases place with
        | inside f arrays => simp only [State.renumbered, Place.renumbered, Except.map, List.map_append, List.map_cons,
            List.map_nil]
        | _ => rfl
      · split
        · rfl
        · cases place with
          | outside => rfl
          | beforeHeader =>
              show (function text).map _ = ((function text).map _).map _
              cases opens : function text with
              | error fault => rfl
              | ok f =>
                  have unchanged : f.renumbered line = f := by
                    rw [Function.renumbered, body_of_header opens, List.map_nil, ← body_of_header opens]
                  simp only [Except.map, State.renumbered, Place.renumbered, unchanged]
          | inside f arrays =>
              show (bodyLine (f.renumbered line) arrays number' text).map _ =
                ((bodyLine f arrays number text).map _).map _
              rw [bodyLine_renumbered same]
              cases bodyLine f arrays number text <;> rfl

end

theorem foldlM_counting {s : State} {number : Nat} {lines : List Bytes} {p : Program}
    (read : run s number lines = .ok p) :
    (counting lines).foldlM (fun s line => step s 0 line) (s.renumbered fun _ => 0) =
      .ok ⟨.outside, p.unnumbered.functions⟩ := by
  induction lines generalizing s number with
  | nil =>
      rcases s with ⟨place, finished⟩
      rw [run] at read
      cases place with
      | outside =>
          cases read
          rfl
      | _ => cases read
  | cons line lines ih =>
      rw [run] at read
      split at read
      · cases read
      · rw [trim_withoutReturn] at read
        by_cases counts : Counts line.trim
        · cases taken : step s (number + 1) line.trim with
          | error fault =>
              rw [taken] at read
              cases read
          | ok t =>
              have first : step (s.renumbered fun _ => 0) 0 line.trim = (step s (number + 1) line.trim).map _ :=
                step_renumbered rfl s line.trim
              rw [taken] at read first
              rw [counting_cons_of_counts counts, List.foldlM_cons, first]
              exact ih read
        · rw [step_of_not_counts counts] at read
          rw [counting_cons_of_not_counts counts]
          exact ih read

def Place.lines : Place → List Int
  | .inside f _ => f.body.map (·.line)
  | _ => []

def State.lines (s : State) : List Int := (s.finished.flatMap (·.body)).map (·.line) ++ s.place.lines

theorem step_lines {s t : State} {number : Nat} {line : Bytes} (taken : step s number line = .ok t) :
    t.lines = s.lines ∨ t.lines = s.lines ++ [(number : Int)] := by
  rcases s with ⟨place, finished⟩
  rcases step_cases taken with rfl | ⟨outside, rfl⟩ | ⟨f, arrays, inside, rfl⟩ | ⟨_, _, further⟩
  · exact .inl rfl
  · cases outside
    exact .inl rfl
  · cases inside
    left
    simp [State.lines, Place.lines]
  · rcases further with ⟨f, before, opens, rfl⟩ | ⟨f, arrays, after, inside, grows, rfl⟩
    · cases before
      left
      simp only [State.lines, Place.lines, body_of_header opens, List.map_nil]
    · cases inside
      rcases bodyLine_cases grows with ⟨f', arrays', rfl, same | ⟨i, line, more⟩⟩
      · left
        simp only [State.lines, Place.lines, same]
      · right
        simp only [State.lines, Place.lines, more, List.map_append, List.map_cons, List.map_nil, line,
          List.append_assoc]

theorem run_lines {s : State} {number : Nat} {lines : List Bytes} {p : Program} (read : run s number lines = .ok p) :
    ∃ later, p.code.map (·.line) = s.lines ++ later ∧ later.Pairwise (· < ·) ∧ ∀ n ∈ later, (number : Int) < n := by
  induction lines generalizing s number with
  | nil =>
      rcases s with ⟨place, finished⟩
      rw [run] at read
      cases place with
      | outside =>
          cases read
          exact ⟨[], by simp [State.lines, Place.lines, Program.code], .nil, by simp⟩
      | _ => cases read
  | cons line lines ih =>
      rw [run] at read
      split at read
      · cases read
      · split at read
        · rename_i t taken
          rcases ih read with ⟨later, whole, ascending, above⟩
          have beyond : ∀ n ∈ later, (number : Int) < n := by
            intro n member
            have := above n member
            omega
          rcases step_lines taken with same | more
          · exact ⟨later, same ▸ whole, ascending, beyond⟩
          · refine ⟨(number + 1 : Nat) :: later, ?_, List.pairwise_cons.2 ⟨above, ascending⟩, ?_⟩
            · rw [whole, more, List.append_assoc, List.singleton_append]
            · intro n member
              rcases List.mem_cons.1 member with rfl | member
              · omega
              · exact beyond n member
        · cases read

end Reader

namespace Program

theorem ascending_of_read {source : Bytes} {p : Program} (read : Program.read source = .ok p) :
    (p.code.map (·.line)).Pairwise (· < ·) ∧ ∀ i ∈ p.code, 0 < i.line := by
  rcases run_lines read with ⟨later, whole, ascending, above⟩
  rw [whole]
  refine ⟨ascending, ?_⟩
  intro i code
  have member : i.line ∈ p.code.map (·.line) := List.mem_map_of_mem code
  rw [whole] at member
  exact above i.line member

theorem nodup_of_read {source : Bytes} {p : Program} (read : Program.read source = .ok p) :
    (p.code.map (·.line)).Nodup := (ascending_of_read read).1.imp fun less => Int.ne_of_lt less

theorem unnumbered_eq_of_counting {source source' : Bytes} {p q : Program} (read : Program.read source = .ok p)
    (read' : Program.read source' = .ok q) (same : counting source.lines = counting source'.lines) :
    p.unnumbered = q.unnumbered := by
  have first := foldlM_counting read
  rw [same, foldlM_counting read'] at first
  exact congrArg Program.mk (Reader.State.mk.inj (Except.ok.inj first.symm)).2

theorem lines_blurred (p : Program) : p.blurred.code.map (·.line) = p.code.map (·.line) := by
  simp only [code, blurred, Function.blurred, List.flatMap_map, List.map_flatMap, List.map_map]
  rfl

theorem lines_renumbered (line : Int → Int) (p : Program) :
    (p.renumbered line).code.map (·.line) = (p.code.map (·.line)).map line := by
  simp only [code, renumbered, Function.renumbered, List.flatMap_map, List.map_flatMap, List.map_map]
  rfl

theorem body_eq_of_lines {body body' : List Instruction}
    (same : body.map (·.renumbered fun _ => 0) = body'.map (·.renumbered fun _ => 0))
    (lines : body.map (·.line) = body'.map (·.line)) : body = body' := by
  induction body generalizing body' with
  | nil => exact (List.map_eq_nil_iff.1 same.symm).symm
  | cons i body ih =>
      cases body' with
      | nil => cases same
      | cons j body' =>
          rcases List.cons.inj same with ⟨first, rest⟩
          rcases List.cons.inj lines with ⟨line, lines⟩
          have equal : i = j := by
            cases i
            cases j
            cases first
            cases line
            rfl
          rw [equal, ih rest lines]

theorem functions_eq_of_lines {functions functions' : List Function}
    (same : functions.map (·.renumbered fun _ => 0) = functions'.map (·.renumbered fun _ => 0))
    (lines : (functions.flatMap (·.body)).map (·.line) = (functions'.flatMap (·.body)).map (·.line)) :
    functions = functions' := by
  induction functions generalizing functions' with
  | nil => exact (List.map_eq_nil_iff.1 same.symm).symm
  | cons f functions ih =>
      cases functions' with
      | nil => cases same
      | cons g functions' =>
          rcases List.cons.inj same with ⟨first, rest⟩
          have bodies := congrArg Function.body first
          have lengths := congrArg List.length bodies
          simp only [Function.renumbered, List.length_map] at lengths
          rw [List.flatMap_cons, List.flatMap_cons, List.map_append, List.map_append] at lines
          rcases List.append_inj lines (by simpa using lengths) with ⟨here, later⟩
          have body := body_eq_of_lines bodies here
          have equal : f = g := by
            cases f
            cases g
            cases body
            cases first
            rfl
          rw [equal, ih rest later]

theorem eq_of_lines {p q : Program} (same : p.unnumbered = q.unnumbered)
    (lines : p.code.map (·.line) = q.code.map (·.line)) : p = q := by
  cases p
  cases q
  exact congrArg Program.mk (functions_eq_of_lines (congrArg functions same) lines)

theorem exists_map_eq {lines lines' : List Int} (nodup : lines.Nodup) (length : lines.length = lines'.length) :
    ∃ line : Int → Int, lines.map line = lines' := by
  refine ⟨fun n => lines'.getD (lines.idxOf n) 0, ?_⟩
  apply List.ext_getElem
  · rw [List.length_map, length]
  · intro k inside inside'
    rw [List.getElem_map, nodup.idxOf_getElem, List.getD_eq_getElem _ _ inside']

theorem exists_alike {p q : Program} (same : p.blurred.unnumbered = q.blurred.unnumbered)
    (nodup : (p.code.map (·.line)).Nodup) (nodup' : (q.code.map (·.line)).Nodup) :
    ∃ line, Set.InjOn line {n | ∃ i ∈ p.code, i.line = n} ∧ AlikeUnder line p q := by
  have forgotten (line : Int → Int) : (p.renumbered line).blurred.unnumbered = p.blurred.unnumbered := by
    simp only [unnumbered, renumbered, blurred, List.map_map, Function.comp_def, Function.renumbered, Function.blurred]
    rfl
  have length : (p.code.map (·.line)).length = (q.code.map (·.line)).length := by
    rw [← lines_blurred p, ← lines_blurred q]
    have codes := congrArg List.length (congrArg (fun p : Program => p.code.map (·.line)) same)
    simpa only [unnumbered, lines_renumbered, List.length_map] using codes
  rcases exists_map_eq nodup length with ⟨line, moved⟩
  refine ⟨line, ?_, ?_⟩
  · rintro n ⟨i, code, rfl⟩ m ⟨j, code', rfl⟩ equal
    rw [← moved] at nodup'
    exact List.inj_on_of_nodup_map nodup' (List.mem_map_of_mem code) (List.mem_map_of_mem code') equal
  · apply eq_of_lines
    · rw [forgotten, same]
    · rw [lines_blurred, lines_blurred, lines_renumbered, moved]

end Program

theorem Instruction.Legible.unnumbered_reread {i : Instruction} (legible : i.Legible) (arrays : List Bytes) (n : Nat) :
    (i.reread arrays n).blurred.renumbered (fun _ => 0) = i.blurred.renumbered fun _ => 0 := by
  rcases legible.line with ⟨m, line⟩
  have moved : (i.reread arrays n).blurred = i.reread [] n := by
    cases legible with
    | label => rfl
    | @operation op names others _ _ operates _ _ =>
        simp only [blurred, reread, if_neg operates, map_name_classify, Operand.map_blurred_classify]
  rw [moved, legible.blurred_eq line]
  rfl

namespace Function

theorem unnumbered_reread {f : Function} (legible : f.Legible) (before : Nat) :
    (f.reread before).blurred.renumbered (fun _ => 0) = f.blurred.renumbered fun _ => 0 := by
  have body : (((f.reread before).body.map (·.blurred)).map (·.renumbered fun _ => 0)) =
      (f.body.map (·.blurred)).map (·.renumbered fun _ => 0) := by
    apply List.ext_getElem
    · simp [reread]
    · intro k inside inside'
      simp only [reread, List.getElem_map, List.getElem_mapIdx]
      exact (legible.body _ (List.getElem_mem _)).unnumbered_reread _ _
  exact congrArg (fun body => { f with body }) body

end Function

namespace Program

theorem unnumbered_rereadFrom {functions : List Function} (legible : ∀ f ∈ functions, f.Legible) (before : Nat) :
    (Program.mk (rereadFrom before functions)).blurred.unnumbered = (Program.mk functions).blurred.unnumbered := by
  have lists : ((rereadFrom before functions).map (·.blurred)).map (·.renumbered fun _ => 0) =
      (functions.map (·.blurred)).map (·.renumbered fun _ => 0) := by
    induction functions generalizing before with
    | nil => rfl
    | cons f rest ih =>
        have first := Function.unnumbered_reread (legible f List.mem_cons_self) before
        have later := ih (fun g member => legible g (List.mem_cons_of_mem f member)) (before + f.textLines.length + 1)
        simp only [rereadFrom, List.map_cons, first, later]
  exact congrArg Program.mk lists

theorem exists_alike_of_counting {source source' : Bytes} {p : Program} (read : Program.read source = .ok p)
    (same : counting source.lines = counting source'.lines) (short : ∀ line ∈ source'.lines, line.length < 65536) :
    ∃ q, Program.read source' = .ok q ∧
      ∃ line, Set.InjOn line {n | ∃ i ∈ p.code, i.line = n} ∧ AlikeUnder line p q := by
  have accepts : Accepts Reader.Place.outside.Completes source.lines := (exists_run_iff {} 0 _).1 ⟨p, read⟩
  have accepts' : Accepts Reader.Place.outside.Completes source'.lines := ⟨short, same ▸ accepts.counted⟩
  rcases (exists_run_iff {} 0 _).2 accepts' with ⟨q, read'⟩
  have unnumbered := unnumbered_eq_of_counting read read' same
  have blurred : p.blurred.unnumbered = q.blurred.unnumbered := by
    have swap (p : Program) : p.blurred.unnumbered = p.unnumbered.blurred := by
      simp only [Program.unnumbered, renumbered, Program.blurred, List.map_map, Function.comp_def,
        Function.renumbered, Function.blurred]
      rfl
    rw [swap, swap, unnumbered]
  exact ⟨q, read', exists_alike blurred (nodup_of_read read) (nodup_of_read read')⟩

theorem exists_alike_of_text {source : Bytes} {p : Program} (read : Program.read source = .ok p)
    (short : ∀ line ∈ p.text.lines, line.length < 65536) :
    ∃ q, Program.read p.text = .ok q ∧
      ∃ line, Set.InjOn line {n | ∃ i ∈ p.code, i.line = n} ∧ AlikeUnder line p q := by
  have read' := read_text read fun line member => Nat.le_of_lt_succ (short line member)
  exact ⟨_, read', exists_alike (unnumbered_rereadFrom (legible_of_read read) 0).symm (nodup_of_read read)
    (nodup_of_read read')⟩

end Program

end Deadwood

import Deadwood.Proofs.Program.Legible

/-!
Program text that was written reads as the program it was written from: the same functions with the same words, every
instruction on the line where it stands.
-/

namespace Deadwood

open Bytes Reader

namespace Instruction

theorem reread_text {i : Instruction} (legible : i.Legible) (arrays : List Bytes) (line : Nat) :
    (i.reread arrays line).text = i.text := by
  cases legible with
  | label => rfl
  | operation _ _ _ operates =>
      rw [text_of_ne_label operates, text_of_ne_label operates, map_name_classify]
      simp only [reread, if_neg operates, map_name_classify]

theorem reread_names {i : Instruction} (arrays : List Bytes) (line : Nat) :
    (i.reread arrays line).operands.map (·.name) = i.operands.map (·.name) := by
  rw [reread]
  split
  · rfl
  · exact map_name_classify arrays i.op _

end Instruction

namespace Function

theorem instructionLine_reread {i : Instruction} (legible : i.Legible) (arrays : List Bytes) (line : Nat) :
    instructionLine (i.reread arrays line) = instructionLine i := by
  rw [instructionLine, instructionLine, i.reread_text legible]
  rfl

theorem newline_not_mem_instructionLine {i : Instruction} (legible : i.Legible) : newline ∉ instructionLine i := by
  rw [instructionLine]
  split
  · exact legible.spoken.newline
  · simp only [List.mem_append, not_or]
    exact ⟨by decide, legible.spoken.newline⟩

theorem trim_instructionLine {i : Instruction} (legible : i.Legible) :
    trim (withoutReturn (instructionLine i)) = i.text := by
  have telling := legible.spoken.toTelling
  have finish : ¬Blank.Ends (bytes "    " ++ i.text) := by
    intro ends
    exact telling.finish (Blank.ends_of_append (s := bytes "   ") (by decide) telling.ink ends)
  rw [instructionLine]
  split
  · rw [withoutReturn_of_not_ends telling.finish, telling.trim_eq]
  · rw [withoutReturn_of_not_ends finish]
    show trim (space :: space :: space :: space :: i.text) = i.text
    simp only [trim_space, telling.trim_eq]

def arrays (f : Function) : List Bytes :=
  arrayParams f.params ++ f.ints.filterMap arrayName? ++ f.floats.filterMap arrayName?

def reread (before : Nat) (f : Function) : Function :=
  { f with body := f.body.mapIdx fun k i => i.reread f.arrays (before + 5 + k) }

theorem textLines_reread {f : Function} (legible : f.Legible) (before : Nat) :
    (f.reread before).textLines = f.textLines := by
  have body : (f.reread before).body.map instructionLine = f.body.map instructionLine := by
    apply List.ext_getElem
    · simp [reread]
    · intro k _ inside
      simp only [reread, List.getElem_map, List.getElem_mapIdx]
      exact instructionLine_reread (legible.body _ (List.getElem_mem _)) _ _
  rw [textLines, textLines, body]
  rfl

theorem newline_not_mem_textLines {f : Function} (legible : f.Legible) : ∀ line ∈ f.textLines, newline ∉ line := by
  intro line member
  simp only [textLines, declarations, List.mem_append, List.mem_cons, List.not_mem_nil, or_false,
    List.mem_map] at member
  rcases member with (((rfl | rfl) | rfl | rfl) | ⟨i, inside, rfl⟩) | rfl
  · decide
  · exact legible.telling_header.newline
  · exact (telling_declaration (.inl rfl) legible.ints).newline
  · exact (telling_declaration (.inr rfl) legible.floats).newline
  · exact newline_not_mem_instructionLine (legible.body i inside)
  · decide

end Function

namespace Reader

theorem run_cons {s t : State} {number : Nat} {line : Bytes} {rest : List Bytes} (short : line.length ≤ lineLimit)
    (taken : step s (number + 1) (withoutReturn line).trim = .ok t) :
    run s number (line :: rest) = run t (number + 1) rest := by
  rw [run, if_neg (by omega), taken]

theorem seen_eq {line : Bytes} (trimmed : line.Trimmed) : (withoutReturn line).trim = line := by
  rw [withoutReturn_of_not_ends trimmed.finish, trimmed.trim_eq]

theorem run_body {body : List Instruction} (legible : ∀ i ∈ body, i.Legible)
    (short : ∀ i ∈ body, (Function.instructionLine i).length ≤ lineLimit) (f : Function) (arrays : List Bytes)
    (finished : List Function) (number : Nat) (rest : List Bytes) :
    run ⟨.inside f arrays, finished⟩ number (body.map Function.instructionLine ++ rest) =
      run ⟨.inside { f with body := f.body ++ body.mapIdx fun k i => i.reread arrays (number + 1 + k) } arrays,
        finished⟩ (number + body.length) rest := by
  induction body generalizing f number with
  | nil => simp
  | cons i body ih =>
      have here := legible i List.mem_cons_self
      have taken : step ⟨.inside f arrays, finished⟩ (number + 1) (withoutReturn (Function.instructionLine i)).trim =
          .ok ⟨.inside { f with body := f.body ++ [i.reread arrays (number + 1)] } arrays, finished⟩ := by
        rw [Function.trim_instructionLine here, step_ink _ _ here.spoken.ink here.spoken.code]
        dsimp only
        rw [here.bodyLine]
        rfl
      have later : ∀ j ∈ body, j.Legible := fun j member => legible j (List.mem_cons_of_mem i member)
      rw [List.map_cons, List.cons_append, run_cons (short i List.mem_cons_self) taken,
        ih later fun j member => short j (List.mem_cons_of_mem i member)]
      have shift (k : Nat) : number + 1 + 1 + k = number + 1 + (k + 1) := by omega
      simp only [List.mapIdx_cons, List.append_assoc, List.cons_append, List.nil_append, List.length_cons, shift,
        Nat.add_zero]
      congr 1
      omega

theorem run_start (finished : List Function) (number : Nat) (rest : List Bytes) :
    run ⟨.outside, finished⟩ number (Marker.start :: rest) = run ⟨.beforeHeader, finished⟩ (number + 1) rest := by
  have trimmed : Marker.start.Trimmed :=
    ⟨Blank.not_begins_cons (by decide), Blank.not_ends_concat (s := bytes "#start_functio") (b := 110) (by decide)⟩
  apply run_cons (by decide)
  rw [seen_eq trimmed, step, if_neg (by decide), if_pos rfl]

theorem run_finish (f : Function) (arrays : List Bytes) (finished : List Function) (number : Nat) (rest : List Bytes) :
    run ⟨.inside f arrays, finished⟩ number (Marker.finish :: rest) =
      run ⟨.outside, finished ++ [f]⟩ (number + 1) rest := by
  have trimmed : Marker.finish.Trimmed :=
    ⟨Blank.not_begins_cons (by decide), Blank.not_ends_concat (s := bytes "#end_functio") (b := 110) (by decide)⟩
  apply run_cons (by decide)
  rw [seen_eq trimmed, step, if_neg (by decide), if_neg (by decide), if_pos rfl]

theorem run_header {f : Function} (legible : f.Legible)
    (short : ∀ line ∈ f.header :: f.declarations, line.length ≤ lineLimit) (finished : List Function) (number : Nat)
    (rest : List Bytes) :
    run ⟨.beforeHeader, finished⟩ number (f.header :: f.declarations ++ rest) =
      run ⟨.inside { f with body := [] } f.arrays, finished⟩ (number + 3) rest := by
  have headed := legible.telling_header
  have ints := Function.telling_declaration (.inl rfl) legible.ints
  have floats := Function.telling_declaration (.inr rfl) legible.floats
  simp only [Function.declarations, List.forall_mem_cons] at short
  rcases short with ⟨first, second, third, _⟩
  calc
    _ = run ⟨.inside { name := f.name, returnType := f.returnType, params := f.params } (arrayParams f.params),
          finished⟩ (number + 1) (f.declarations ++ rest) := by
      apply run_cons first
      rw [seen_eq headed.toTrimmed, step_ink _ _ headed.ink headed.code]
      dsimp only
      rw [legible.function_header]
      rfl
    _ = run ⟨.inside { name := f.name, returnType := f.returnType, params := f.params, ints := f.ints }
          (arrayParams f.params ++ f.ints.filterMap arrayName?), finished⟩ (number + 2)
        (Function.declaration Marker.floats f.floats :: rest) := by
      apply run_cons second
      rw [seen_eq ints.toTrimmed, step_ink _ _ ints.ink ints.code]
      dsimp only
      rw [Function.bodyLine_ints legible.ints]
      rfl
    _ = _ := by
      apply run_cons third
      rw [seen_eq floats.toTrimmed, step_ink _ _ floats.ink floats.code]
      dsimp only
      rw [Function.bodyLine_floats legible.floats]
      rfl

theorem run_textLines {f : Function} (legible : f.Legible) (short : ∀ line ∈ f.textLines, line.length ≤ lineLimit)
    (finished : List Function) (number : Nat) (rest : List Bytes) :
    run ⟨.outside, finished⟩ number (f.textLines ++ rest) =
      run ⟨.outside, finished ++ [f.reread number]⟩ (number + f.textLines.length) rest := by
  have lines : f.textLines ++ rest = Marker.start ::
      (f.header :: f.declarations ++ (f.body.map Function.instructionLine ++ Marker.finish :: rest)) := by
    simp [Function.textLines]
  have length : f.textLines.length = f.body.length + 5 := by
    simp [Function.textLines, Function.declarations]
  have front : ∀ line ∈ f.header :: f.declarations, line.length ≤ lineLimit := by
    intro line member
    apply short
    simp only [Function.textLines, List.mem_append, List.mem_cons] at member ⊢
    tauto
  have middle : ∀ i ∈ f.body, (Function.instructionLine i).length ≤ lineLimit := by
    intro i member
    apply short
    simp only [Function.textLines, List.mem_append]
    exact .inl (.inr (List.mem_map_of_mem member))
  rw [lines, run_start, run_header legible front, run_body legible.body middle, run_finish, length]
  have last : number + 1 + 3 + f.body.length + 1 = number + (f.body.length + 5) := by omega
  rw [last]
  rfl

end Reader

namespace Program

theorem unlines_append (front back : List Bytes) : unlines (front ++ back) = unlines front ++ unlines back :=
  List.flatMap_append

theorem split_unlines {lines : List Bytes} (flat : ∀ line ∈ lines, newline ∉ line) :
    split newline (unlines lines) = lines ++ [[]] := by
  induction lines with
  | nil => rfl
  | cons line lines ih =>
      have first := flat line List.mem_cons_self
      have rest := ih fun other member => flat other (List.mem_cons_of_mem line member)
      have cut : unlines (line :: lines) = line ++ newline :: unlines lines := by
        simp [unlines]
      rw [cut, split_append_cons, split_of_not_mem first, rest]
      rfl

theorem lines_unlines {lines : List Bytes} (flat : ∀ line ∈ lines, newline ∉ line) : (unlines lines).lines = lines := by
  rw [Bytes.lines, split_unlines flat, if_pos (by simp), List.dropLast_concat]

def linesOf (functions : List Function) : List Bytes := List.intercalate [[]] (functions.map (·.textLines))

theorem linesOf_cons (f : Function) {rest : List Function} (more : rest ≠ []) :
    linesOf (f :: rest) = f.textLines ++ [] :: linesOf rest := by
  rw [linesOf, List.map_cons, List.intercalate_cons_of_ne_nil (by simpa using more), List.append_assoc]
  rfl

theorem linesOf_singleton (f : Function) : linesOf [f] = f.textLines := List.intercalate_singleton

theorem exists_linesOf_cons (f : Function) (rest : List Function) :
    ∃ tail, linesOf (f :: rest) = f.textLines ++ tail := by
  cases rest with
  | nil => exact ⟨[], by rw [linesOf_singleton, List.append_nil]⟩
  | cons g rest => exact ⟨_, linesOf_cons f (List.cons_ne_nil g rest)⟩

theorem text_eq (functions : List Function) : text ⟨functions⟩ = unlines (linesOf functions) := by
  induction functions with
  | nil => rfl
  | cons f rest ih =>
      cases rest with
      | nil => rw [linesOf_singleton, text, List.map_singleton, join, List.intercalate_singleton]
      | cons g rest =>
          rw [linesOf_cons f (List.cons_ne_nil g rest), unlines_append, text, List.map_cons, List.map_cons, join,
            List.intercalate_cons_cons, List.append_assoc]
          exact congrArg (fun later => unlines f.textLines ++ newline :: later) ih

theorem newline_not_mem_linesOf {functions : List Function} (legible : ∀ f ∈ functions, f.Legible) :
    ∀ line ∈ linesOf functions, newline ∉ line := by
  induction functions with
  | nil => simp [linesOf]
  | cons f rest ih =>
      have first := Function.newline_not_mem_textLines (legible f List.mem_cons_self)
      cases rest with
      | nil => rwa [linesOf_singleton]
      | cons g rest =>
          intro line member
          rw [linesOf_cons f (List.cons_ne_nil g rest)] at member
          rcases List.mem_append.1 member with here | later
          · exact first line here
          · rcases List.mem_cons.1 later with rfl | further
            · simp
            · exact ih (fun h present => legible h (List.mem_cons_of_mem f present)) line further

def rereadFrom : (before : Nat) → List Function → List Function
  | _, [] => []
  | before, f :: rest => f.reread before :: rereadFrom (before + f.textLines.length + 1) rest

theorem run_linesOf {functions : List Function} (legible : ∀ f ∈ functions, f.Legible)
    (short : ∀ line ∈ linesOf functions, line.length ≤ lineLimit) (finished : List Function) (number : Nat) :
    run ⟨.outside, finished⟩ number (linesOf functions) = .ok ⟨finished ++ rereadFrom number functions⟩ := by
  induction functions generalizing finished number with
  | nil => simp [linesOf, run, rereadFrom]
  | cons f rest ih =>
      have here := legible f List.mem_cons_self
      have others : ∀ g ∈ rest, g.Legible := fun g member => legible g (List.mem_cons_of_mem f member)
      cases rest with
      | nil =>
          rw [linesOf_singleton] at short ⊢
          rw [← List.append_nil f.textLines, run_textLines here short]
          rfl
      | cons g rest =>
          rw [linesOf_cons f (List.cons_ne_nil g rest)] at short ⊢
          have first : ∀ line ∈ f.textLines, line.length ≤ lineLimit :=
            fun line member => short line (List.mem_append_left _ member)
          have later : ∀ line ∈ linesOf (g :: rest), line.length ≤ lineLimit :=
            fun line member => short line (List.mem_append_right _ (List.mem_cons_of_mem [] member))
          have empty : step ⟨.outside, finished ++ [f.reread number]⟩ (number + f.textLines.length + 1)
              (withoutReturn []).trim = .ok ⟨.outside, finished ++ [f.reread number]⟩ := by
            rw [seen_eq trimmed_nil, step, if_pos rfl]
          rw [run_textLines here first, run_cons (by decide) empty, ih others later, List.append_assoc]
          rfl

theorem read_text {source : Bytes} {p : Program} (read : Program.read source = .ok p)
    (short : ∀ line ∈ p.text.lines, line.length ≤ lineLimit) :
    Program.read p.text = .ok ⟨rereadFrom 0 p.functions⟩ := by
  have legible := legible_of_read read
  have lines : p.text.lines = linesOf p.functions := by
    rw [text_eq, lines_unlines (newline_not_mem_linesOf legible)]
  rw [lines] at short
  rw [Program.read, lines]
  exact run_linesOf legible short [] 0

def linesBefore (before : List Function) (f : Function) (front : List Instruction) : List Bytes :=
  before.flatMap (fun g => g.textLines ++ [[]]) ++ Marker.start :: f.header :: f.declarations ++
    front.map Function.instructionLine

theorem linesOf_eq (before after : List Function) {f : Function} {front back : List Instruction} {i : Instruction}
    (body : f.body = front ++ i :: back) :
    ∃ rest, linesOf (before ++ f :: after) = linesBefore before f front ++ Function.instructionLine i :: rest := by
  induction before with
  | nil =>
      rcases exists_linesOf_cons f after with ⟨tail, lines⟩
      refine ⟨back.map Function.instructionLine ++ Marker.finish :: tail, ?_⟩
      rw [List.nil_append, lines]
      simp [Function.textLines, linesBefore, body]
  | cons g before ih =>
      rcases ih with ⟨rest, lines⟩
      refine ⟨rest, ?_⟩
      rw [List.cons_append, linesOf_cons g (by simp), lines]
      simp [linesBefore]

theorem linesOf_rereadFrom {functions : List Function} (legible : ∀ f ∈ functions, f.Legible) (number : Nat) :
    linesOf (rereadFrom number functions) = linesOf functions := by
  induction functions generalizing number with
  | nil => rfl
  | cons f rest ih =>
      have same := Function.textLines_reread (legible f List.mem_cons_self) number
      have later := ih fun g member => legible g (List.mem_cons_of_mem f member)
      cases rest with
      | nil => rw [rereadFrom, rereadFrom, linesOf_singleton, linesOf_singleton, same]
      | cons g rest =>
          rw [rereadFrom, linesOf_cons _ (by simp [rereadFrom]), linesOf_cons f (List.cons_ne_nil g rest), same, later]

theorem exists_reread {functions before after : List Function} {g : Function} {number : Nat}
    (legible : ∀ f ∈ functions, f.Legible) (split : rereadFrom number functions = before ++ g :: after) :
    ∃ f : Function, g = f.reread (number + (before.flatMap fun h => h.textLines ++ [[]]).length) := by
  induction functions generalizing number before with
  | nil => simp [rereadFrom] at split
  | cons f rest ih =>
      rw [rereadFrom] at split
      cases before with
      | nil =>
          exact ⟨f, (List.cons.inj split).1.symm⟩
      | cons h before =>
          rcases List.cons.inj split with ⟨rfl, later⟩
          rcases ih (fun g member => legible g (List.mem_cons_of_mem f member)) later with ⟨found, rfl⟩
          refine ⟨found, ?_⟩
          have same := Function.textLines_reread (legible f List.mem_cons_self) number
          congr 1
          simp only [List.flatMap_cons, List.length_append, List.length_singleton, same]
          omega

theorem line_of_reread {f : Function} {number : Nat} {front back : List Instruction} {i : Instruction}
    (body : (f.reread number).body = front ++ i :: back) : i.line = (number + 5 + front.length : Nat) := by
  have placed : (f.reread number).body[front.length]? = some i := by
    rw [body]
    simp
  simp only [Function.reread, List.getElem?_mapIdx, Option.map_eq_some_iff] at placed
  rcases placed with ⟨_, _, rfl⟩
  rfl

end Program

namespace Function

structure Agrees (f g : Function) : Prop where
  name : f.name = g.name
  returnType : f.returnType = g.returnType
  params : f.params = g.params
  ints : f.ints = g.ints
  floats : f.floats = g.floats
  body : List.Forall₂ (fun i j => i.op = j.op ∧ i.operands.map (·.name) = j.operands.map (·.name)) f.body g.body

theorem agrees_reread (f : Function) (number : Nat) : f.Agrees (f.reread number) := by
  refine ⟨rfl, rfl, rfl, rfl, rfl, ?_⟩
  rw [List.forall₂_iff_get]
  refine ⟨by simp [reread], ?_⟩
  intro k _ _
  simp only [reread, List.get_eq_getElem, List.getElem_mapIdx]
  exact ⟨rfl, (Instruction.reread_names _ _).symm⟩

end Function

namespace Program

theorem agrees_rereadFrom (functions : List Function) (number : Nat) :
    List.Forall₂ Function.Agrees functions (rereadFrom number functions) := by
  induction functions generalizing number with
  | nil => exact .nil
  | cons f rest ih => exact .cons (f.agrees_reread number) (ih _)

def NumberedBy (p : Program) (text : Bytes) : Prop :=
  ∀ before f after front i back, p.functions = before ++ f :: after → f.body = front ++ i :: back →
    ∃ rest, text.lines = linesBefore before f front ++ Function.instructionLine i :: rest ∧
      i.line = (linesBefore before f front).length + 1

/-- A program that was read can be written and read again, and nothing is lost. -/
theorem text_reads_back {source : Bytes} {p : Program} (read : Program.read source = .ok p)
    (short : ∀ line ∈ p.text.lines, line.length ≤ Reader.lineLimit) :
    ∃ p', Program.read p.text = .ok p' ∧ List.Forall₂ Function.Agrees p.functions p'.functions ∧
      p'.NumberedBy p.text ∧ p'.text = p.text := by
  have legible := legible_of_read read
  have lines : p.text.lines = linesOf p.functions := by
    rw [text_eq, lines_unlines (newline_not_mem_linesOf legible)]
  have same := linesOf_rereadFrom legible 0
  refine ⟨⟨rereadFrom 0 p.functions⟩, ?_, agrees_rereadFrom p.functions 0, ?_, ?_⟩
  · rw [lines] at short
    rw [Program.read, lines]
    exact run_linesOf legible short [] 0
  -- The lines in front of an instruction are counted in the text of the second program, which is that of the first.
  · intro before f after front i back functions body
    rcases linesOf_eq before after body with ⟨rest, written⟩
    refine ⟨rest, ?_, ?_⟩
    · rw [lines, ← same, ← written]
      exact congrArg linesOf functions
    · rcases exists_reread legible functions with ⟨f, rfl⟩
      rw [line_of_reread body]
      simp [linesBefore, Function.declarations]
      omega
  · rw [text_eq, text_eq, same]

/-- A return type that looks like a numbered line, a parameter with a bracket in its name, an operand that is no UTF-8,
a comma too many, and an array that is used before it is declared. -/
def crowdedText : Bytes :=
  bytes "#start_function\n 5:add, f (int a):b , int[] c#) :\n array_load, x, m, " ++ [255] ++
    bytes ",\r\nint-list: m[9], #x\n\u00a0L :\n goto, L\n#end_function"

def crowded : Program := ⟨[
  { name := bytes "f"
    returnType := bytes "5:add,"
    params := [⟨bytes "int", bytes "a):b"⟩, ⟨bytes "int[]", bytes "c#"⟩]
    ints := [bytes "m[9]", bytes "#x"]
    body := [
      ⟨.arrayLoad, [⟨.variable, bytes "x"⟩, ⟨.variable, bytes "m"⟩, ⟨.variable, [255]⟩], 3⟩,
      ⟨.label, [⟨.label, bytes "L"⟩], 5⟩,
      ⟨.goto, [⟨.label, bytes "L"⟩], 6⟩] }]⟩

theorem crowded_reads_back :
    Program.read crowdedText = .ok crowded ∧ (∀ line ∈ crowded.text.lines, line.length ≤ Reader.lineLimit) ∧
      ∃ p', Program.read crowded.text = .ok p' ∧ List.Forall₂ Function.Agrees crowded.functions p'.functions ∧
        p'.NumberedBy crowded.text ∧ p'.text = crowded.text := by
  have read : Program.read crowdedText = .ok crowded := by decide +kernel
  have short : ∀ line ∈ crowded.text.lines, line.length ≤ Reader.lineLimit := by decide +kernel
  exact ⟨read, short, text_reads_back read short⟩

end Program

end Deadwood

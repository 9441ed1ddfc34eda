import Deadwood.Proofs.Program.RoundTrip
import Deadwood.Proofs.Text.Decimal

/-!
The canonical text of a program determines the number of each instruction and how it is written, and of a program that
was read it determines all but which operands are arrays. A line may look like a header and like a numbered instruction
at once. What tells the two is that a header is followed by a line of integers and a line of floats, which neither
another instruction nor another header can look like together.
-/

namespace Deadwood

open Bytes Reader

namespace Operand

def blurred (o : Operand) : Operand := { o with kind := if o.kind = .array then .variable else o.kind }

theorem blurred_classify (arrays : List Bytes) (op : Opcode) (index : Nat) (name : Bytes) :
    (classify arrays op index name).blurred = classify [] op index name := by
  have none : ([] : List Bytes).contains name = false := rfl
  rw [classify, classify, none]
  split
  · rfl
  · split
    · rfl
    · split
      · rfl
      · split <;> rfl

theorem map_blurred_classify (arrays : List Bytes) (op : Opcode) (names : List Bytes) :
    (names.mapIdx (classify arrays op)).map blurred = names.mapIdx (classify [] op) := by
  apply List.ext_getElem
  · simp
  · simp [blurred_classify]

end Operand

def Instruction.blurred (i : Instruction) : Instruction := { i with operands := i.operands.map Operand.blurred }

def Function.blurred (f : Function) : Function := { f with body := f.body.map Instruction.blurred }

def Program.blurred (p : Program) : Program := ⟨p.functions.map Function.blurred⟩

namespace Instruction

def numbered (i : Instruction) : Bytes := ofInt i.line ++ bytes ":" ++ i.text

theorem numbered_eq (i : Instruction) : i.numbered = ofInt i.line ++ 58 :: i.text := by
  rw [numbered, List.append_assoc]
  rfl

theorem eq_of_numbered {i j : Instruction} (same : i.numbered = j.numbered) : i.line = j.line ∧ i.text = j.text := by
  have colon (n : Int) : 58 ∉ ofInt n := by
    intro member
    rcases (ofInt_cases n).2 58 member with digit | sign
    · cases digit
    · exact absurd sign (by decide)
  rw [numbered_eq, numbered_eq] at same
  rcases append_cons_inj (colon i.line) (colon j.line) same with ⟨lines, texts⟩
  exact ⟨ofInt_injective lines, texts⟩

theorem head_numbered (i : Instruction) : ∃ b ∈ i.numbered.head?, isDigit b = true ∨ b = 45 := by
  rcases (ofInt_cases i.line).1 with ⟨b, head, number⟩
  refine ⟨b, ?_, number⟩
  rw [numbered_eq, List.head?_append, Option.mem_def.1 head]
  rfl

theorem Legible.line {i : Instruction} (legible : i.Legible) : ∃ n : Nat, i.line = n := by
  cases legible with
  | label line => exact ⟨line, rfl⟩
  | operation _ line => exact ⟨line, rfl⟩

theorem Legible.blurred_eq {i : Instruction} {n : Nat} (legible : i.Legible) (line : i.line = n) :
    i.blurred = i.reread [] n := by
  cases legible with
  | label =>
      simp only [blurred, reread, ← line]
      rfl
  | @operation op names arrays _ _ operates _ _ =>
      simp only [blurred, reread, if_neg operates, map_name_classify, Operand.map_blurred_classify, ← line]

theorem Legible.reread_eq {i j : Instruction} (legible : i.Legible) (legible' : j.Legible) (same : i.text = j.text)
    (n : Nat) : i.reread [] n = j.reread [] n := by
  have first := legible.bodyLine {} [] n
  have second := legible'.bodyLine {} [] n
  rw [same, second] at first
  simp only [Except.ok.injEq, Place.inside.injEq, Function.mk.injEq, List.nil_append, List.cons.injEq] at first
  exact first.1.2.2.2.2.2.1.symm

theorem Legible.blurred_eq_of_text {i j : Instruction} (legible : i.Legible) (legible' : j.Legible)
    (line : i.line = j.line) (text : i.text = j.text) : i.blurred = j.blurred := by
  rcases legible.line with ⟨n, number⟩
  rw [legible.blurred_eq number, legible'.blurred_eq (line ▸ number), legible.reread_eq legible' text]

theorem Legible.newline_not_mem_numbered {i : Instruction} (legible : i.Legible) : newline ∉ i.numbered := by
  rw [numbered_eq]
  simp only [List.mem_append, List.mem_cons, not_or]
  refine ⟨?_, by decide, legible.spoken.newline⟩
  intro member
  rcases (ofInt_cases i.line).2 newline member with digit | sign
  · cases digit
  · exact absurd sign (by decide)

end Instruction

namespace Function

theorem marker_isPrefix {marker : Bytes} (declares : marker = Marker.ints ∨ marker = Marker.floats)
    (names : List Bytes) : marker <+: declaration marker names := by
  have ends : ∃ front, marker = front ++ [58] := by
    rcases declares with rfl | rfl
    · exact ⟨bytes "int-list", rfl⟩
    · exact ⟨bytes "float-list", rfl⟩
  rcases ends with ⟨front, rfl⟩
  rw [declaration, List.append_assoc, dropEndWhile, List.reverse_append]
  have stays : (front ++ [58]).reverse.dropWhile (· == space) = (front ++ [58]).reverse := by
    rw [List.reverse_append]
    exact List.dropWhile_cons_of_neg (by decide)
  rw [List.dropWhile_append, stays]
  split
  · rw [List.reverse_reverse]
  · rw [List.reverse_append, List.reverse_reverse]
    exact List.prefix_append _ _

theorem head_declaration {marker : Bytes} (declares : marker = Marker.ints ∨ marker = Marker.floats)
    (names : List Bytes) : (declaration marker names).head? = marker.head? := by
  rcases marker_isPrefix declares names with ⟨tail, line⟩
  rw [← line, List.head?_append_of_ne_nil marker (telling_marker declares).1.ink]

theorem names_eq_of_declaration {marker : Bytes} {names names' : List Bytes}
    (declares : marker = Marker.ints ∨ marker = Marker.floats) (items : ∀ name ∈ names, name.Item)
    (items' : ∀ name ∈ names', name.Item) (same : declaration marker names = declaration marker names') :
    names = names' := by
  rcases declaration_eq declares items with ⟨tail, line, read, _⟩
  rcases declaration_eq declares items' with ⟨tail', line', read', _⟩
  rw [line, line'] at same
  rw [← read, ← read', List.append_cancel_left same]

def canonicalLines (f : Function) : List Bytes := f.header :: f.declarations ++ f.body.map Instruction.numbered

theorem newline_not_mem_canonicalLines {f : Function} (legible : f.Legible) :
    ∀ line ∈ f.canonicalLines, newline ∉ line := by
  intro line member
  simp only [canonicalLines, declarations, List.mem_append, List.mem_cons, List.not_mem_nil, or_false,
    List.mem_map] at member
  rcases member with (rfl | rfl | rfl) | ⟨i, inside, rfl⟩
  · exact legible.telling_header.newline
  · exact (telling_declaration (.inl rfl) legible.ints).newline
  · exact (telling_declaration (.inr rfl) legible.floats).newline
  · exact (legible.body i inside).newline_not_mem_numbered

structure WrittenAlike (f g : Function) : Prop where
  header : f.header = g.header
  ints : declaration Marker.ints f.ints = declaration Marker.ints g.ints
  floats : declaration Marker.floats f.floats = declaration Marker.floats g.floats
  body : List.Forall₂ (fun i j => i.line = j.line ∧ i.text = j.text) f.body g.body

theorem blurred_body_eq {body body' : List Instruction}
    (alike : List.Forall₂ (fun i j => i.line = j.line ∧ i.text = j.text) body body')
    (legible : ∀ i ∈ body, i.Legible) (legible' : ∀ i ∈ body', i.Legible) :
    body.map Instruction.blurred = body'.map Instruction.blurred := by
  induction alike with
  | nil => rfl
  | cons same _ ih =>
      rcases List.forall_mem_cons.1 legible with ⟨first, rest⟩
      rcases List.forall_mem_cons.1 legible' with ⟨first', rest'⟩
      rw [List.map_cons, List.map_cons, first.blurred_eq_of_text first' same.1 same.2, ih rest rest']

theorem WrittenAlike.blurred_eq {f g : Function} (alike : f.WrittenAlike g) (legible : f.Legible)
    (legible' : g.Legible) : f.blurred = g.blurred := by
  have opened := legible.function_header
  rw [alike.header, legible'.function_header] at opened
  simp only [Except.ok.injEq, mk.injEq, and_true] at opened
  simp only [blurred, mk.injEq]
  exact ⟨opened.1.symm, opened.2.1.symm, opened.2.2.symm,
    names_eq_of_declaration (.inl rfl) legible.ints legible'.ints alike.ints,
    names_eq_of_declaration (.inr rfl) legible.floats legible'.floats alike.floats,
    blurred_body_eq alike.body legible.body legible'.body⟩

end Function

namespace Program

theorem not_numbered (functions functions' : List Function) (i : Instruction) (body : List Instruction) :
    functions.flatMap Function.canonicalLines ≠
      i.numbered :: (body.map Instruction.numbered ++ functions'.flatMap Function.canonicalLines) := by
  intro same
  cases functions with
  | nil => cases same
  | cons f functions =>
      have ints := Function.head_declaration (.inl rfl) f.ints
      have floats := Function.head_declaration (.inr rfl) f.floats
      simp only [List.flatMap_cons, Function.canonicalLines, Function.declarations, List.cons_append, List.nil_append,
        List.cons.injEq] at same
      cases body with
      -- Where the line of integers is due, another instruction would have a number in front.
      | cons j body =>
          rcases j.head_numbered with ⟨b, head, number⟩
          simp only [List.map_cons, List.cons_append, List.cons.injEq] at same
          rw [← same.2.1, ints] at head
          cases head
          exact absurd number (by decide)
      | nil =>
          cases functions' with
          | nil => simp at same
          -- The next header may pass for the line of integers, but not its own line of integers for that of floats.
          | cons g functions' =>
              have ints' := Function.head_declaration (.inl rfl) g.ints
              simp only [List.flatMap_cons, Function.canonicalLines, Function.declarations, List.cons_append,
                List.nil_append, List.map_nil, List.cons.injEq] at same
              rw [← same.2.2.1, floats] at ints'
              exact absurd ints' (by decide)

theorem bodies_eq {functions functions' : List Function} {body body' : List Instruction}
    (same : body.map Instruction.numbered ++ functions.flatMap Function.canonicalLines =
      body'.map Instruction.numbered ++ functions'.flatMap Function.canonicalLines) :
    List.Forall₂ (fun i j => i.line = j.line ∧ i.text = j.text) body body' ∧
      functions.flatMap Function.canonicalLines = functions'.flatMap Function.canonicalLines := by
  induction body generalizing body' with
  | nil =>
      cases body' with
      | nil => exact ⟨.nil, same⟩
      | cons j body' => exact absurd same (not_numbered functions functions' j body')
  | cons i body ih =>
      cases body' with
      | nil => exact absurd same.symm (not_numbered functions' functions i body)
      | cons j body' =>
          rcases List.cons.inj same with ⟨first, rest⟩
          rcases ih rest with ⟨further, later⟩
          exact ⟨.cons (Instruction.eq_of_numbered first) further, later⟩

theorem writtenAlike_of_lines {functions functions' : List Function}
    (same : functions.flatMap Function.canonicalLines = functions'.flatMap Function.canonicalLines) :
    List.Forall₂ Function.WrittenAlike functions functions' := by
  induction functions generalizing functions' with
  | nil =>
      cases functions' with
      | nil => exact .nil
      | cons g functions' => cases same
  | cons f functions ih =>
      cases functions' with
      | nil => cases same
      | cons g functions' =>
          simp only [List.flatMap_cons, Function.canonicalLines, Function.declarations, List.cons_append,
            List.nil_append, List.cons.injEq] at same
          rcases same with ⟨header, ints, floats, rest⟩
          rcases bodies_eq rest with ⟨body, later⟩
          exact .cons ⟨header, ints, floats, body⟩ (ih later)

def Unbroken (p : Program) : Prop := ∀ f ∈ p.functions, ∀ line ∈ f.canonicalLines, newline ∉ line

instance (p : Program) : Decidable p.Unbroken := inferInstanceAs (Decidable (∀ f ∈ p.functions, _))

theorem writtenAlike_of_canonical {p q : Program} (unbroken : p.Unbroken) (unbroken' : q.Unbroken)
    (same : p.canonical = q.canonical) : List.Forall₂ Function.WrittenAlike p.functions q.functions := by
  have flat {p : Program} (unbroken : p.Unbroken) :
      ∀ line ∈ p.functions.flatMap Function.canonicalLines, newline ∉ line := by
    intro line member
    rcases List.mem_flatMap.1 member with ⟨f, function, inside⟩
    exact unbroken f function line inside
  have lines := congrArg Bytes.lines same
  have written : ∀ p : Program, p.canonical = unlines (p.functions.flatMap Function.canonicalLines) := fun _ => rfl
  rw [written, written, lines_unlines (flat unbroken), lines_unlines (flat unbroken')] at lines
  exact writtenAlike_of_lines lines

theorem unbroken_of_read {source : Bytes} {p : Program} (read : Program.read source = .ok p) : p.Unbroken :=
  fun f function => Function.newline_not_mem_canonicalLines (legible_of_read read f function)

theorem blurred_functions_eq {functions functions' : List Function}
    (alike : List.Forall₂ Function.WrittenAlike functions functions') (legible : ∀ f ∈ functions, f.Legible)
    (legible' : ∀ f ∈ functions', f.Legible) :
    functions.map Function.blurred = functions'.map Function.blurred := by
  induction alike with
  | nil => rfl
  | cons same _ ih =>
      rcases List.forall_mem_cons.1 legible with ⟨first, rest⟩
      rcases List.forall_mem_cons.1 legible' with ⟨first', rest'⟩
      rw [List.map_cons, List.map_cons, same.blurred_eq first first', ih rest rest']

theorem blurred_eq_of_canonical {source source' : Bytes} {p q : Program} (read : Program.read source = .ok p)
    (read' : Program.read source' = .ok q) (same : p.canonical = q.canonical) : p.blurred = q.blurred := by
  have alike := writtenAlike_of_canonical (unbroken_of_read read) (unbroken_of_read read') same
  exact congrArg Program.mk (blurred_functions_eq alike (legible_of_read read) (legible_of_read read'))

end Program

end Deadwood

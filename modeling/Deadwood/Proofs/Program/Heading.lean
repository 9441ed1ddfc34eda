import Deadwood.Proofs.Program.Grammar

/-!
A header has one reading. Types and parameters may hold brackets, colons and letters of any alphabet, but the type ends
at the first blank, the name at the first character that is none of a word, and the parameters at the last bracket. The
parts of a header are thus told by the line, and what is read from it is written as a header that reads alike.
-/

namespace Deadwood

open Bytes

namespace ProgramText

@[ext] structure HeaderParts where
  type : Bytes
  gap : Bytes
  name : Bytes
  left : Bytes
  params : Bytes
  right : Bytes
  typed : type ≠ []
  ink : ∀ b ∈ type, isAsciiBlank b = false
  apart : gap ≠ []
  blank : Blanks gap
  named : name.IsName
  spaced : Blanks left
  loose : Blanks right

namespace HeaderParts

def line (h : HeaderParts) : Bytes :=
  h.type ++ (h.gap ++ (h.name ++ (h.left ++ (bytes "(" ++ (h.params ++ (bytes ")" ++ (h.right ++ bytes ":")))))))

def Paired (h : HeaderParts) : Prop := ∀ item ∈ h.params.items, item.words.length = 2

/-- The function that a header opens has its type, its name and the two words of each item, and nothing else yet. -/
structure Opens (h : HeaderParts) (f : Function) : Prop where
  returnType : f.returnType = h.type
  name : f.name = h.name
  params : List.Forall₂ (fun item p => item.words = [p.type, p.name]) h.params.items f.params
  ints : f.ints = []
  floats : f.floats = []
  body : f.body = []

theorem heading (h : HeaderParts) : Heading h.line h.type h.name h.params :=
  .of h.typed h.ink h.apart h.blank h.named h.spaced h.loose

theorem exists_of_heading {line type name params : Bytes} (heading : Heading line type name params) :
    ∃ h : HeaderParts, h.line = line ∧ h.type = type ∧ h.name = name ∧ h.params = params := by
  cases heading with
  | @of _ gap _ left _ right typed ink apart blank named spaced loose =>
      exact ⟨⟨type, gap, name, left, params, right, typed, ink, apart, blank, named, spaced, loose⟩, rfl, rfl, rfl, rfl⟩

theorem head_name (h : HeaderParts) (s : Bytes) : ∀ b ∈ (h.name ++ s).head?, isAsciiBlank b = false := by
  rcases h.named with ⟨first, rest, named, letter, _⟩
  rw [named]
  rintro b ⟨⟩
  exact isAsciiBlank_of_isLetter letter

theorem line_injective {h h' : HeaderParts} (same : h.line = h'.line) : h = h' := by
  have heading := header_eq_some_iff.2 h'.heading
  rw [← same, header_eq_some_iff.2 h.heading, Option.some.injEq, Prod.mk.injEq, Prod.mk.injEq] at heading
  rcases heading with ⟨type, name, params⟩
  rw [line, line, type] at same
  rcases span_inj h.blank h'.blank (h.head_name _) (h'.head_name _) (List.append_cancel_left same) with ⟨gap, same⟩
  rw [name] at same
  rcases span_inj h.spaced h'.spaced (by rintro b ⟨⟩; rfl) (by rintro b ⟨⟩; rfl) (List.append_cancel_left same)
    with ⟨left, same⟩
  rw [params] at same
  have right : h.right = h'.right := by simpa only [List.append_cancel_left_eq, List.append_cancel_right_eq] using same
  exact HeaderParts.ext type gap name left params right

end HeaderParts

end ProgramText

namespace Reader

open ProgramText

theorem function_line_eq_ok_iff {h : HeaderParts} {f : Function} : function h.line = .ok f ↔ h.Opens f := by
  rw [function, header_eq_some_iff.2 h.heading]
  dsimp only
  rw [Except.bind_eq_ok]
  simp only [Except.mapM_eq_ok, param_eq_ok_iff]
  constructor
  · rintro ⟨params, each, ⟨⟩⟩
    exact ⟨rfl, rfl, each, rfl, rfl, rfl⟩
  · rintro ⟨returnType, name, params, ints, floats, body⟩
    refine ⟨f.params, params, ?_⟩
    rw [← returnType, ← name]
    cases f
    cases ints
    cases floats
    cases body
    rfl

theorem function_header_of_line {h : HeaderParts} {f : Function} (read : function h.line = .ok f) :
    function f.header = .ok f := by
  have opens := function_line_eq_ok_iff.1 read
  have each : h.params.items.mapM param = .ok f.params := by
    simpa only [Except.mapM_eq_ok, param_eq_ok_iff] using opens.params
  rw [Function.read_header (opens.returnType ▸ h.typed) (opens.returnType ▸ h.ink) (opens.name ▸ h.named)
    (params_legible each)]
  cases f
  cases opens.ints
  cases opens.floats
  cases opens.body
  rfl

/-- A line is a header exactly if it can be taken apart as one with two words to each item. There is one way to do so;
the type, the name and the words are those of the function that is read; and its header reads as the same function. -/
theorem header_has_one_reading (line : Bytes) :
    ((∃ f, function line = .ok f) ↔ ∃ h : HeaderParts, h.line = line ∧ h.Paired) ∧
      (∀ h h' : HeaderParts, h.line = line → h'.line = line → h = h') ∧
      ∀ f, function line = .ok f → (∃ h : HeaderParts, h.line = line ∧ h.Opens f) ∧ function f.header = .ok f := by
  have parted : (∃ f, function line = .ok f) → ∃ h : HeaderParts, h.line = line ∧ h.Paired := by
    intro read
    rcases (exists_function_iff line).1 read with ⟨type, name, params, heading, paired⟩
    rcases HeaderParts.exists_of_heading heading with ⟨h, same, -, -, rfl⟩
    exact ⟨h, same, paired⟩
  refine ⟨⟨parted, ?_⟩, ?_, ?_⟩
  · rintro ⟨h, rfl, paired⟩
    exact (exists_function_iff h.line).2 ⟨h.type, h.name, h.params, h.heading, paired⟩
  · rintro h h' rfl same
    exact HeaderParts.line_injective same.symm
  · intro f read
    rcases parted ⟨f, read⟩ with ⟨h, rfl, -⟩
    exact ⟨⟨h, rfl, function_line_eq_ok_iff.1 read⟩, function_header_of_line read⟩

def bracketedLine : Bytes := bytes "f(x):y  g\t( int[] a ,, \u00a0list(int)\u2003x) ) :"

def bracketedFunction : Function :=
  { name := bytes "g"
    returnType := bytes "f(x):y"
    params := [⟨bytes "int[]", bytes "a"⟩, ⟨bytes "list(int)", bytes "x)"⟩] }

theorem bracketed_line_read :
    function bracketedLine = .ok bracketedFunction ∧
      (∃ h : HeaderParts, h.line = bracketedLine ∧ h.Opens bracketedFunction) ∧
      bracketedFunction.header = bytes "f(x):y g(int[] a, list(int) x)):" ∧
      function bracketedFunction.header = .ok bracketedFunction := by
  have read : function bracketedLine = .ok bracketedFunction := by decide +kernel
  have reading := (header_has_one_reading bracketedLine).2.2 bracketedFunction read
  exact ⟨read, reading.1, by decide +kernel, reading.2⟩

end Reader

end Deadwood

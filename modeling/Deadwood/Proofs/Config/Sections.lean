import Deadwood.Proofs.Config.Numbers

/-!
How a file of one section is read: a heading and below it lines of a key and a value each. Reading stops at the first
line whose value is refused, so that the file is not read to its end.
-/

namespace Deadwood.Toml

namespace Syntax

open Grammar

/-- A text at the end of a line that is read as a value. -/
structure Stands (text : Bytes) (v : Value) : Prop where
  unindented : ∀ b ∈ text.head?, isBlank b = false
  read : ∀ rest, ∃ term, Reads anyValue (text ++ 10 :: rest) term (10 :: rest) ∧ Means term v

/-- A text at the end of a line that is not read as any value. -/
structure Breaks (text : Bytes) : Prop where
  unindented : ∀ b ∈ text.head?, isBlank b = false
  refused : ∀ rest, Refuses anyValue (text ++ 10 :: rest)

theorem unindented_quote (s : Bytes) : ∀ b ∈ s.quote.head?, isBlank b = false := by
  intro b head
  cases head
  rfl

theorem unindented_written (names : List Bytes) : ∀ b ∈ (written names).head?, isBlank b = false := by
  intro b head
  cases head
  rfl

theorem reads_anyValue {s rest : Bytes} {term : Term} (read : Reads (value (s.length + 1)) s term rest) :
    Reads anyValue s term rest := (reads_left s).bind read

theorem refuses_anyValue {s : Bytes} (refused : Refuses (value (s.length + 1)) s) : Refuses anyValue s :=
  (reads_left s).bind_refuses refused

theorem stands_quote {s : Bytes} (portable : s.isPortable = true) : Stands s.quote (.text s) := by
  refine ⟨unindented_quote s, fun rest => ?_⟩
  obtain ⟨term, read, means⟩ := @exists_reads_quote s (10 :: rest) portable (by simp) _
  exact ⟨term, reads_anyValue read, means⟩

theorem breaks_quote {s : Bytes} (portable : s.isPortable = false) : Breaks s.quote :=
  ⟨unindented_quote s, fun _ => refuses_anyValue (refuses_quote portable (by simp) _)⟩

theorem stands_written {names : List Bytes} (portable : ∀ name ∈ names, name.isPortable = true) :
    Stands (written names) (.array (names.map .text)) := by
  refine ⟨unindented_written names, fun rest => ?_⟩
  obtain ⟨term, read, means⟩ := exists_reads_written portable _ (10 :: rest)
  exact ⟨term, reads_anyValue read, means⟩

theorem breaks_written {names : List Bytes} (portable : ¬∀ name ∈ names, name.isPortable = true) :
    Breaks (written names) :=
  ⟨unindented_written names, fun rest => refuses_anyValue (refuses_written portable _ (10 :: rest))⟩

theorem stands_ofInt (n : Int) : Stands (Bytes.ofInt n) (.integer (Bytes.ofInt n)) := by
  refine ⟨fun b head => ?_, fun rest => ?_⟩
  · rcases (Bytes.ofInt_cases n).2 b (List.mem_of_mem_head? head) with digit | rfl
    · simp only [Bytes.isDigit, Bool.and_eq_true, decide_eq_true_eq] at digit
      grind [isBlank]
    · rfl
  · exact ⟨_, reads_anyValue (reads_ofInt n _ rest), fun _ _ _ _ => by rw [placeTerm]⟩

def entryLine : Grammar Entry := do
  gap
  let e ← entry anyValue
  lineEnd
  return e

def Sets (e : Entry) (setting : Bytes × Value) : Prop :=
  ∃ term left, e = .mk (.bare setting.1) term left ∧ Means term setting.2

theorem reads_someBytes {p : UInt8 → Bool} {s rest : Bytes} (present : s ≠ []) (each : ∀ b ∈ s, p b = true)
    (stop : ∀ b ∈ rest.head?, p b = false) : Reads (someBytes p) (s ++ rest) s rest := by
  refine (reads_bytes each stop).bind ?_
  split
  · exact absurd rfl present
  · exact reads_pure _ rest

theorem reads_key {name rest : Bytes} (present : name ≠ []) (bare : ∀ b ∈ name, isBare b = true)
    (stop : ∀ b ∈ rest.head?, isBare b = false) : Reads key (name ++ rest) (.bare name) rest := by
  have text := (reads_someBytes present bare stop).text
  refine (Reads.orElse (Reads.rule ?_) _).rule
  exact text.bind (reads_pure _ rest)

theorem reads_lineEnd (rest : Bytes) : Reads lineEnd (10 :: rest) () (10 :: rest) := by
  have blank : Reads blanks (10 :: rest) () (10 :: rest) := reads_blanks [] (by simp) (by simp [isBlank])
  have none := (refuses_comment (s := 10 :: rest) (by simp)).optional
  exact blank.bind (none.bind (reads_pure () _))

def lineText (name text : Bytes) : Bytes := name ++ bytes " = " ++ text

structure IsBareName (name : Bytes) : Prop where
  present : name ≠ []
  bare : ∀ b ∈ name, isBare b = true

variable {name text rest : Bytes} {v : Value}

theorem IsBareName.ink (bareName : IsBareName name) (rest : Bytes) : Ink (name ++ rest) := by
  rcases List.exists_cons_of_ne_nil bareName.present with ⟨b, tail, rfl⟩
  have bare := bareName.bare b List.mem_cons_self
  intro a head
  cases head
  simp only [isBare, Bytes.isWord, Bytes.isLetter, Bytes.isDigit] at bare
  grind [isBlank, isBreak]

theorem reads_front (bareName : IsBareName name) (unindented : ∀ b ∈ text.head?, isBlank b = false) (rest : Bytes) :
    ∃ s t u, Reads key (lineText name text ++ 10 :: rest) (.bare name) s ∧ Reads blanks s () t ∧
      Reads (char 61) t () u ∧ Reads blanks u () (text ++ 10 :: rest) := by
  have line : lineText name text ++ 10 :: rest = name ++ 32 :: 61 :: 32 :: (text ++ 10 :: rest) := by
    simp [lineText, show bytes " = " = [32, 61, 32] from rfl]
  rw [line]
  refine ⟨32 :: 61 :: 32 :: (text ++ 10 :: rest), 61 :: 32 :: (text ++ 10 :: rest), 32 :: (text ++ 10 :: rest), ?_, ?_,
    ?_, ?_⟩
  · exact reads_key bareName.present bareName.bare (by simp [isBare, Bytes.isWord, Bytes.isLetter, Bytes.isDigit])
  · exact reads_blanks [32] (by decide +kernel) (by simp [isBlank])
  · exact reads_char 61 _
  · refine reads_blanks [32] (by decide +kernel) fun b head => ?_
    cases text with
    | nil =>
        cases head
        rfl
    | cons => exact unindented b head

theorem exists_reads_entry (bareName : IsBareName name) (stands : Stands text v) (rest : Bytes) :
    ∃ e, Reads (entry anyValue) (lineText name text ++ 10 :: rest) e (10 :: rest) ∧ Sets e (name, v) := by
  obtain ⟨term, read, means⟩ := stands.read rest
  obtain ⟨s, t, u, named, before, equals, after⟩ := reads_front bareName stands.unindented rest
  refine ⟨.mk (.bare name) term (10 :: rest).length, Reads.rule ?_, term, _, rfl, means⟩
  refine named.bind (before.bind (equals.bind (after.bind (read.bind ?_))))
  exact (reads_left _).bind (reads_pure _ _)

theorem refuses_entry (bareName : IsBareName name) (breaks : Breaks text) (rest : Bytes) :
    Refuses (entry anyValue) (lineText name text ++ 10 :: rest) := by
  obtain ⟨s, t, u, named, before, equals, after⟩ := reads_front bareName breaks.unindented rest
  refine Refuses.rule (named.bind_refuses (before.bind_refuses (equals.bind_refuses (after.bind_refuses ?_))))
  exact (breaks.refused rest).bind _

theorem ink_lineText (bareName : IsBareName name) (text rest : Bytes) : Ink (lineText name text ++ rest) := by
  rw [lineText, List.append_assoc, List.append_assoc]
  exact bareName.ink _

theorem exists_reads_entryLine (bareName : IsBareName name) (stands : Stands text v) (rest : Bytes) :
    ∃ e, Reads entryLine (10 :: (lineText name text ++ 10 :: rest)) e (10 :: rest) ∧ Sets e (name, v) := by
  obtain ⟨e, read, sets⟩ := exists_reads_entry bareName stands rest
  refine ⟨e, ?_, sets⟩
  have below := reads_gap [10] (by decide +kernel) fun b head => (ink_lineText bareName text (10 :: rest) b head).1
  exact below.bind (read.bind ((reads_lineEnd rest).bind (reads_pure e _)))

/-- The place behind the lines that can be read: the end of the file, or a line that is not read. -/
structure Unfit (rest : Bytes) : Prop where
  ink : Ink rest
  noEntry : Refuses (entry anyValue) rest
  noHeading : Refuses anyHeading rest

theorem unfit_nil : Unfit [] where
  ink := by simp [Ink]
  noEntry := fun _ => ⟨_, rfl⟩
  noHeading := fun _ => ⟨_, rfl⟩

theorem unfit_line (bareName : IsBareName name) (breaks : Breaks text) (rest : Bytes) :
    Unfit (lineText name text ++ 10 :: rest) where
  ink := ink_lineText bareName text (10 :: rest)
  noEntry := refuses_entry bareName breaks rest
  noHeading := by
    have differs (opening : Bytes) : Bytes.after? (91 :: opening) (lineText name text ++ 10 :: rest) = none := by
      rcases List.exists_cons_of_ne_nil bareName.present with ⟨b, tail, rfl⟩
      have other : 91 ≠ b := by
        rintro rfl
        cases bareName.bare 91 List.mem_cons_self
      rw [lineText, List.cons_append, List.cons_append, List.cons_append, Bytes.after?, if_neg other]
    exact (((refuses_literal (differs [])).bind _).rule.orElse ((refuses_literal (differs [91])).bind _).rule).rule

theorem Unfit.refuses_entryLine {rest : Bytes} (unfit : Unfit rest) : Refuses entryLine (10 :: rest) := by
  have below := reads_gap [10] (by decide +kernel) fun b head => (unfit.ink b head).1
  exact below.bind_refuses (unfit.noEntry.bind _)

def linesText (lines : List (Bytes × Bytes)) : Bytes := lines.flatMap fun (name, text) => 10 :: lineText name text

theorem exists_linesText_append (lines : List (Bytes × Bytes)) (rest : Bytes) :
    ∃ more, linesText lines ++ 10 :: rest = 10 :: more := by
  cases lines with
  | nil => exact ⟨rest, rfl⟩
  | cons line lines => exact ⟨_, rfl⟩

def Assigns (line : Bytes × Bytes) (setting : Bytes × Value) : Prop :=
  line.1 = setting.1 ∧ IsBareName line.1 ∧ Stands line.2 setting.2

theorem exists_repeats_lines {lines : List (Bytes × Bytes)} {settings : List (Bytes × Value)} {rest : Bytes}
    (assigned : List.Forall₂ Assigns lines settings) (unfit : Unfit rest) :
    ∃ entries, Repeats entryLine (linesText lines ++ 10 :: rest) entries (10 :: rest) ∧
      List.Forall₂ Sets entries settings := by
  induction assigned with
  | nil => exact ⟨[], .stop unfit.refuses_entryLine, .nil⟩
  | @cons line setting lines settings assigns _ ih =>
      obtain ⟨entries, later, sets⟩ := ih
      obtain ⟨same, bareName, stands⟩ := assigns
      obtain ⟨more, text⟩ := exists_linesText_append lines rest
      obtain ⟨e, read, set⟩ := exists_reads_entryLine bareName stands more
      rw [← text] at read
      have front : linesText (line :: lines) ++ 10 :: rest =
          10 :: (lineText line.1 line.2 ++ (linesText lines ++ 10 :: rest)) := by
        simp [linesText]
      rw [front]
      rw [same] at set
      have shorter : (linesText lines ++ 10 :: rest).length <
          (10 :: (lineText line.1 line.2 ++ (linesText lines ++ 10 :: rest))).length := by
        simp only [List.length_append, List.length_cons]
        omega
      exact ⟨e :: entries, .again read shorter later, .cons set sets⟩

def sectionText (name : Bytes) (lines : List (Bytes × Bytes)) : Bytes :=
  bytes "[" ++ name ++ bytes "]" ++ linesText lines

def headingOf (name : Bytes) (left : Nat) : Heading := ⟨false, name, [.bare name], left⟩

theorem sectionText_append (name : Bytes) (front : List (Bytes × Bytes)) (key text : Bytes)
    (back : List (Bytes × Bytes)) :
    ∃ rest, sectionText name (front ++ (key, text) :: back) ++ [10] =
      sectionText name front ++ 10 :: (lineText key text ++ 10 :: rest) := by
  obtain ⟨rest, behind⟩ := exists_linesText_append back []
  refine ⟨rest, ?_⟩
  rw [← behind]
  simp [sectionText, linesText]

theorem reads_path (bareName : IsBareName name) (rest : Bytes) :
    Reads path (name ++ 93 :: rest) [.bare name] (93 :: rest) := by
  have stop : Reads (rule key) (name ++ 93 :: rest) (.bare name) (93 :: rest) :=
    (reads_key bareName.present bareName.bare (by simp [isBare, Bytes.isWord, Bytes.isLetter, Bytes.isDigit])).rule
  have noDot : Refuses (rule do blanks; char 46; blanks) (93 :: rest) := by
    refine (Reads.bind_refuses (reads_blanks [] (by simp) (by simp [isBlank])) ?_).rule
    exact (refuses_char (by simp)).bind _
  have others : Repeats (do rule do blanks; char 46; blanks
                            rule key) (93 :: rest) [] (93 :: rest) := .stop (noDot.bind _)
  refine (stop.bind ?_).rule
  exact others.many.bind (reads_pure _ _)

theorem exists_reads_heading (bareName : IsBareName name) (rest : Bytes) :
    ∃ left, Reads anyHeading (91 :: (name ++ 93 :: rest)) (headingOf name left) rest := by
  have ink := bareName.ink (93 :: rest)
  have unblank : Reads blanks (name ++ 93 :: rest) () (name ++ 93 :: rest) :=
    reads_blanks [] (by simp) fun b head => (Bool.or_eq_false_iff.1 (ink b head).1).1
  have closing : Reads blanks (93 :: rest) () (93 :: rest) := reads_blanks [] (by simp) (by simp [isBlank])
  have source : (name ++ 93 :: rest).take ((name ++ 93 :: rest).length - (93 :: rest).length) = name := by simp
  refine ⟨rest.length, (Reads.orElse (Reads.rule ?_) _).rule⟩
  refine (reads_literal [91] _).bind (unblank.bind ((reads_get _).bind ((reads_path bareName rest).rule.bind ?_)))
  refine (reads_left _).bind ?_
  rw [source]
  exact closing.bind ((reads_literal [93] rest).bind ((reads_left rest).bind (reads_pure _ rest)))

theorem exists_reads_expression {lines : List (Bytes × Bytes)} {settings : List (Bytes × Value)}
    (bareName : IsBareName name) (assigned : List.Forall₂ Assigns lines settings) (unfit : Unfit rest) :
    ∃ left entries, Reads expression (sectionText name lines ++ 10 :: rest)
      (.heading (headingOf name left) :: entries.map .entry) (10 :: rest) ∧ List.Forall₂ Sets entries settings := by
  obtain ⟨more, text⟩ := exists_linesText_append lines rest
  obtain ⟨left, heading⟩ := exists_reads_heading bareName (linesText lines ++ 10 :: rest)
  obtain ⟨entries, repeats, sets⟩ := exists_repeats_lines assigned unfit
  have whole : sectionText name lines ++ 10 :: rest = 91 :: (name ++ 93 :: (linesText lines ++ 10 :: rest)) := by
    simp [sectionText, show bytes "[" = [91] from rfl, show bytes "]" = [93] from rfl]
  refine ⟨left, entries, ?_, sets⟩
  rw [whole]
  refine (Reads.orElse (Reads.rule ?_) _).rule
  refine Reads.bind (reads_blanks [] (by simp) (by simp [isBlank])) (heading.bind ?_)
  refine Reads.bind (a := ()) (t := linesText lines ++ 10 :: rest) ?_ (repeats.many.bind (reads_pure _ _))
  rw [text]
  exact reads_lineEnd more

theorem Unfit.reads_expression {rest : Bytes} (unfit : Unfit rest) : Reads expression rest [] rest := by
  have blank : Reads blanks rest () rest :=
    reads_blanks [] (by simp) fun b head => (Bool.or_eq_false_iff.1 (unfit.ink b head).1).1
  have none := (refuses_comment fun b head => (unfit.ink b head).2).optional
  refine (Refuses.orElse_reads ?_ (Refuses.orElse_reads ?_ ?_)).rule
  · exact (blank.bind_refuses (unfit.noHeading.bind _)).rule
  · exact blank.bind_refuses (unfit.noEntry.bind _)
  · exact Reads.bind (blank.bind (none.bind (reads_pure () rest))) (reads_pure [] rest)

theorem Unfit.noBreak {rest : Bytes} (unfit : Unfit rest) : Refuses newline rest := by
  have stop : ∀ b ∈ rest.head?, isBreak b = false := fun b head => (Bool.or_eq_false_iff.1 (unfit.ink b head).1).2
  refine Refuses.rule (Refuses.bind ?_ _)
  exact (reads_bytes (s := []) (by simp) stop).bind_refuses (refuses_failure _)

theorem Unfit.reads_others {rest : Bytes} (unfit : Unfit rest) :
    Reads (many do newline; expression) (10 :: rest) [[]] rest := by
  have stop : ∀ b ∈ rest.head?, isBreak b = false := fun b head => (Bool.or_eq_false_iff.1 (unfit.ink b head).1).2
  have line : Reads newline (10 :: rest) () rest := by
    have broken := reads_someBytes (s := [10]) (by simp) (by decide +kernel) stop
    exact (broken.bind (reads_pure () rest)).rule
  exact Repeats.many (.again (line.bind unfit.reads_expression) (Nat.lt_succ_self _) (.stop (unfit.noBreak.bind _)))

variable {lines : List (Bytes × Bytes)} {settings : List (Bytes × Value)}

theorem exists_reads_document (bareName : IsBareName name) (assigned : List.Forall₂ Assigns lines settings) :
    ∃ left entries, Reads document (sectionText name lines ++ [10])
      (.heading (headingOf name left) :: entries.map .entry) [] ∧ List.Forall₂ Sets entries settings := by
  obtain ⟨left, entries, read, sets⟩ := exists_reads_expression bareName assigned unfit_nil
  refine ⟨left, entries, Reads.rule ?_, sets⟩
  refine read.bind (unfit_nil.reads_others.bind (unfit_nil.noBreak.optional.bind (reads_atEnd.bind ?_)))
  have all : (.heading (headingOf name left) :: entries.map .entry) ++ [([] : List Statement)].flatten =
      .heading (headingOf name left) :: entries.map .entry := List.append_nil _
  rw [all]
  exact reads_pure _ []

theorem refuses_document {key text : Bytes} (bareName : IsBareName name)
    (assigned : List.Forall₂ Assigns lines settings)
    (bareKey : IsBareName key) (breaks : Breaks text) (rest : Bytes) :
    Refuses document (sectionText name lines ++ 10 :: (lineText key text ++ 10 :: rest)) := by
  have unfit := unfit_line bareKey breaks rest
  obtain ⟨left, entries, read, -⟩ := exists_reads_expression bareName assigned unfit
  refine Refuses.rule (read.bind_refuses (unfit.reads_others.bind_refuses (unfit.noBreak.optional.bind_refuses ?_)))
  exact (refuses_atEnd (by simp)).bind _

end Syntax

end Deadwood.Toml

import Deadwood.Proofs.Program.Legible

/-!
Which texts are programs. The lines that count form sections, and each line can be told by itself: header, declaration,
label or instruction. The reader takes a line for a header or for a line of a body exactly if it is one.
-/

namespace Deadwood

open Bytes

namespace ProgramText

def Blanks (s : Bytes) : Prop := ∀ b ∈ s, isAsciiBlank b = true

/-- A line that reads `type name(params):`, with blanks around the name and in front of the colon. -/
inductive Heading : Bytes → Bytes → Bytes → Bytes → Prop
  | of {type gap name left params right : Bytes} (typed : type ≠ []) (ink : ∀ b ∈ type, isAsciiBlank b = false)
      (apart : gap ≠ []) (blank : Blanks gap) (named : name.IsName) (spaced : Blanks left) (loose : Blanks right) :
      Heading (type ++ (gap ++ (name ++ (left ++ (bytes "(" ++ (params ++ (bytes ")" ++ (right ++ bytes ":"))))))))
        type name params

def IsHeader (line : Bytes) : Prop :=
  ∃ type name params, Heading line type name params ∧ ∀ item ∈ params.items, item.words.length = 2

def IsDeclaration (line : Bytes) : Prop := Marker.ints <+: line ∨ Marker.floats <+: line

def IsLabel (line : Bytes) : Prop :=
  ∃ name blanks, name.IsName ∧ Blanks blanks ∧ line = name ++ (blanks ++ bytes ":")

/-- An operation other than a label with operands it takes, none of them empty, and perhaps a comma after the last. -/
def IsInstruction (line : Bytes) : Prop :=
  ∃ op names, op ∈ Opcode.defined ∧ op ≠ .label ∧ op.accepts names.length = true ∧ (∀ name ∈ names, name ≠ []) ∧
    ((split comma line).map trim = op.mnemonic :: names ∨ (split comma line).map trim = op.mnemonic :: names ++ [[]])

def IsBodyLine (line : Bytes) : Prop := IsDeclaration line ∨ IsLabel line ∨ IsInstruction line

inductive Sections : List Bytes → Prop
  | nil : Sections []
  | cons {header : Bytes} {body rest : List Bytes} (opens : IsHeader header) (each : ∀ line ∈ body, IsBodyLine line)
      (further : Sections rest) : Sections (Marker.start :: header :: (body ++ Marker.finish :: rest))

/-- Whether a line is looked at: it is neither empty nor a comment. The markers begin like comments and are none. -/
def Counts (line : Bytes) : Prop :=
  line = Marker.start ∨ line = Marker.finish ∨ line ≠ [] ∧ line.head? ≠ some 35

instance (line : Bytes) : Decidable (Counts line) := inferInstanceAs (Decidable (_ ∨ _))

def counting (lines : List Bytes) : List Bytes := (lines.map trim).filter (Counts ·)

structure Accepts (language : List Bytes → Prop) (lines : List Bytes) : Prop where
  short : ∀ line ∈ lines, line.length < 65536
  counted : language (counting lines)

def Proceeds (language : List Bytes → Prop) (lines : List Bytes) : Prop := ∃ more, Accepts language (lines ++ more)

/-- The first line after which no more lines would do, and the lines in front of it. -/
structure Stops (language : List Bytes → Prop) (lines front : List Bytes) (line : Bytes) : Prop where
  here : front ++ [line] <+: lines
  before : Proceeds language front
  after : ¬Proceeds language (front ++ [line])

section

variable {language : List Bytes → Prop} {lines front front' : List Bytes} {line line' : Bytes}

theorem counting_cons_of_counts (counts : Counts line.trim) :
    counting (line :: lines) = line.trim :: counting lines := by
  simp [counting, counts]

theorem counting_cons_of_not_counts (skipped : ¬Counts line.trim) : counting (line :: lines) = counting lines := by
  simp [counting, skipped]

theorem Proceeds.of_isPrefix (proceeds : Proceeds language lines) (start : front <+: lines) :
    Proceeds language front := by
  rcases start with ⟨back, rfl⟩
  rcases proceeds with ⟨more, accepts⟩
  exact ⟨back ++ more, List.append_assoc front back more ▸ accepts⟩

theorem Stops.not_proceeds (stops : Stops language lines front line) : ¬Proceeds language lines :=
  fun proceeds => stops.after (proceeds.of_isPrefix stops.here)

theorem Stops.length_le (stops : Stops language lines front line) (stops' : Stops language lines front' line') :
    front'.length ≤ front.length := by
  by_contra longer
  have fits : (front ++ [line]).length ≤ front'.length := by
    rw [List.length_append]
    exact Nat.lt_of_not_le longer
  have start' : front' <+: lines := (List.prefix_append front' [line']).trans stops'.here
  exact stops.after (stops'.before.of_isPrefix (List.prefix_of_prefix_length_le stops.here start' fits))

theorem Stops.unique (stops : Stops language lines front line) (stops' : Stops language lines front' line') :
    front = front' ∧ line = line' := by
  have length : front.length = front'.length := Nat.le_antisymm (stops'.length_le stops) (stops.length_le stops')
  have lengths : (front ++ [line]).length = (front' ++ [line']).length := by
    rw [List.length_append, List.length_append, length]
    rfl
  have same := (List.prefix_of_prefix_length_le stops.here stops'.here lengths.le).eq_of_length lengths
  rcases List.append_inj same length with ⟨fronts, last⟩
  exact ⟨fronts, (List.cons.inj last).1⟩

end

theorem isWord_of_isAsciiBlank {b : UInt8} (blank : isAsciiBlank b = true) : isWord b = false := by
  simp only [isAsciiBlank, Bool.or_eq_true, beq_iff_eq] at blank
  rcases blank with (((rfl | rfl) | rfl) | rfl) | rfl <;> rfl

theorem blanks_takeWhile (s : Bytes) : Blanks (s.takeWhile isAsciiBlank) := List.all_eq_true.1 List.all_takeWhile

theorem isWord_head_append {blanks s : Bytes} (blank : Blanks blanks) (ends : ∀ b ∈ s.head?, isWord b = false) :
    ∀ b ∈ (blanks ++ s).head?, isWord b = false := by
  cases blanks with
  | nil => exact ends
  | cons first rest =>
      intro b head
      cases head
      exact isWord_of_isAsciiBlank (blank first List.mem_cons_self)

theorem dropWhile_blanks {blanks s : Bytes} (blank : Blanks blanks) (ink : ∀ b ∈ s.head?, isAsciiBlank b = false) :
    (blanks ++ s).dropWhile isAsciiBlank = s := by
  rw [List.dropWhile_append_of_pos blank]
  cases s with
  | nil => rfl
  | cons b s => exact List.dropWhile_cons_of_neg (by simp [ink b rfl])

theorem exists_dropEndWhile (s : Bytes) : ∃ right, Blanks right ∧ s = dropEndWhile isAsciiBlank s ++ right := by
  refine ⟨(s.reverse.takeWhile isAsciiBlank).reverse, ?_, ?_⟩
  · intro b member
    exact blanks_takeWhile _ b (List.mem_reverse.1 member)
  · rw [dropEndWhile, ← List.reverse_append, List.takeWhile_append_dropWhile, List.reverse_reverse]

theorem dropEndWhile_blanks {s right : Bytes} (blank : Blanks right) :
    dropEndWhile isAsciiBlank (s ++ right) = dropEndWhile isAsciiBlank s := by
  have blank' : ∀ b ∈ right.reverse, isAsciiBlank b = true := fun b member => blank b (List.mem_reverse.1 member)
  rw [dropEndWhile, List.reverse_append, List.dropWhile_append_of_pos blank', dropEndWhile]

theorem bracketed_eq_some_iff {rest params : Bytes} :
    Reader.bracketed? rest = some params ↔
      ∃ right, Blanks right ∧ rest = bytes "(" ++ (params ++ (bytes ")" ++ (right ++ bytes ":"))) := by
  constructor
  · intro found
    rw [Reader.bracketed?] at found
    rcases Option.bind_eq_some_iff.1 found with ⟨inner, opens, found⟩
    rcases Option.bind_eq_some_iff.1 found with ⟨front, colon, closes⟩
    rcases exists_dropEndWhile front with ⟨right, blank, split⟩
    rw [before_eq_some closes, List.append_assoc] at split
    refine ⟨right, blank, ?_⟩
    rw [after_eq_some opens, before_eq_some colon, split, List.append_assoc, List.append_assoc]
  · intro given
    rcases given with ⟨right, blank, rfl⟩
    have inner : params ++ (bytes ")" ++ (right ++ bytes ":")) = (params ++ bytes ")" ++ right) ++ bytes ":" := by
      simp only [List.append_assoc]
    have closing : dropEndWhile isAsciiBlank (params ++ bytes ")") = params ++ bytes ")" := dropEndWhile_concat rfl
    rw [Reader.bracketed?, after_append, Option.bind_eq_bind, Option.bind_some, inner, before_append, Option.bind_some,
      dropEndWhile_blanks blank, closing, before_append]

theorem header_eq_some_iff {line type name params : Bytes} :
    Reader.header? line = some (type, name, params) ↔ Heading line type name params := by
  constructor
  · intro found
    rw [Reader.header?] at found
    split at found
    · cases found
    · rename_i present
      split at found
      · cases found
      · rename_i name rest named
        rcases Option.map_eq_some_iff.1 found with ⟨inner, bracket, same⟩
        cases same
        rcases Reader.name_eq_some named with ⟨isName, after⟩
        rcases bracketed_eq_some_iff.1 bracket with ⟨right, loose, closed⟩
        have ink : ∀ b ∈ line.takeWhile (fun b => !isAsciiBlank b), isAsciiBlank b = false := by
          intro b member
          simpa using List.all_eq_true.1 List.all_takeWhile b member
        have apart : (line.dropWhile fun b => !isAsciiBlank b).takeWhile isAsciiBlank ≠ [] := by
          cases gap : line.dropWhile fun b => !isAsciiBlank b with
          | nil => exact absurd (.inr gap) present
          | cons b rest =>
              have blank := List.head?_dropWhile_not (fun b => !isAsciiBlank b) line
              rw [gap] at blank
              simp only [List.head?_cons, Bool.not_eq_false'] at blank
              rw [List.takeWhile_cons_of_pos blank]
              exact List.cons_ne_nil b _
        have heading := @Heading.of _ _ _ _ params _ (fun empty => present (.inl empty)) ink apart (blanks_takeWhile _)
          isName (blanks_takeWhile rest) loose
        rwa [← closed, List.takeWhile_append_dropWhile, ← after, List.takeWhile_append_dropWhile,
          List.takeWhile_append_dropWhile] at heading
  · intro heading
    cases heading with
    | @of _ gap _ left _ right typed ink apart blank named spaced loose =>
        have bracket : Reader.bracketed? (bytes "(" ++ (params ++ (bytes ")" ++ (right ++ bytes ":")))) = some params :=
          bracketed_eq_some_iff.2 ⟨right, loose, rfl⟩
        have opening : ∀ b ∈ (bytes "(" ++ (params ++ (bytes ")" ++ (right ++ bytes ":")))).head?,
            isWord b = false ∧ isAsciiBlank b = false := by
          intro b head
          cases head
          decide
        have letter : ∀ rest : Bytes, ∀ b ∈ (name ++ rest).head?, isAsciiBlank b = false := by
          intro rest b head
          rcases named with ⟨first, word, rfl, letter, _⟩
          cases head
          exact isAsciiBlank_of_isLetter letter
        have inked : ∀ b ∈ type, (!isAsciiBlank b) = true := by
          intro b member
          rw [ink b member]
          rfl
        rcases List.exists_cons_of_ne_nil apart with ⟨first, others, rfl⟩
        have stop : ¬(!isAsciiBlank first) = true := by
          rw [blank first List.mem_cons_self]
          decide
        rw [Reader.header?, List.takeWhile_append_of_pos inked, List.dropWhile_append_of_pos inked, List.cons_append,
          List.takeWhile_cons_of_neg (p := fun b => !isAsciiBlank b) stop,
          List.dropWhile_cons_of_neg (p := fun b => !isAsciiBlank b) stop, List.append_nil, if_neg,
          ← List.cons_append, dropWhile_blanks blank (letter _),
          Reader.name_append named (isWord_head_append spaced fun b head => (opening b head).1)]
        · show (Reader.bracketed? _).map _ = _
          rw [dropWhile_blanks spaced fun b head => (opening b head).2, bracket]
          rfl
        · rintro (empty | empty)
          · exact typed empty
          · cases empty

theorem label_eq_some_iff {line name : Bytes} :
    Reader.label? line = some name ↔ name.IsName ∧ ∃ blanks, Blanks blanks ∧ line = name ++ (blanks ++ bytes ":") := by
  constructor
  · intro found
    rw [Reader.label?] at found
    split at found
    · rename_i word rest named
      split at found
      · rename_i colon
        cases found
        rcases Reader.name_eq_some named with ⟨isName, after⟩
        refine ⟨isName, rest.takeWhile isAsciiBlank, blanks_takeWhile rest, ?_⟩
        rw [after, ← colon, List.takeWhile_append_dropWhile]
      · cases found
    · cases found
  · intro given
    rcases given with ⟨named, blanks, blank, rfl⟩
    have colon : ∀ b ∈ (bytes ":").head?, isWord b = false ∧ isAsciiBlank b = false := by
      intro b head
      cases head
      decide
    rw [Reader.label?, Reader.name_append named (isWord_head_append blank fun b head => (colon b head).1)]
    exact if_pos (dropWhile_blanks blank fun b head => (colon b head).2)

theorem exists_label_iff {line : Bytes} : (∃ name, Reader.label? line = some name) ↔ IsLabel line := by
  simp only [label_eq_some_iff, IsLabel, exists_and_left]

theorem exists_mapM_iff {ε α β : Type} {step : α → Except ε β} {list : List α} :
    (∃ found, list.mapM step = .ok found) ↔ ∀ a ∈ list, ∃ b, step a = .ok b := by
  simp only [Except.mapM_eq_ok]
  constructor
  · rintro ⟨found, related⟩ a member
    rcases (List.forall₂_iff_get.1 related) with ⟨length, each⟩
    rcases List.get_of_mem member with ⟨k, rfl⟩
    exact ⟨_, each k k.2 (length ▸ k.2)⟩
  · intro each
    induction list with
    | nil => exact ⟨[], .nil⟩
    | cons a list ih =>
        rcases each a List.mem_cons_self with ⟨b, first⟩
        rcases ih fun c member => each c (List.mem_cons_of_mem a member) with ⟨found, rest⟩
        exact ⟨b :: found, .cons first rest⟩

theorem exists_param_iff {item : Bytes} : (∃ p, Reader.param item = .ok p) ↔ item.words.length = 2 := by
  simp only [Reader.param_eq_ok_iff]
  rw [List.length_eq_two]
  constructor
  · rintro ⟨p, words⟩
    exact ⟨p.type, p.name, words⟩
  · rintro ⟨type, name, words⟩
    exact ⟨⟨type, name⟩, words⟩

theorem exists_function_iff (line : Bytes) : (∃ f, Reader.function line = .ok f) ↔ IsHeader line := by
  constructor
  · rintro ⟨f, read⟩
    rw [Reader.function] at read
    split at read
    · cases read
    · rename_i type name params found
      rcases Except.bind_eq_ok.1 read with ⟨taken, each, _⟩
      refine ⟨type, name, params, header_eq_some_iff.1 found, ?_⟩
      intro item member
      exact exists_param_iff.1 (exists_mapM_iff.1 ⟨taken, each⟩ item member)
  · rintro ⟨type, name, params, heading, each⟩
    rcases exists_mapM_iff.2 fun item member => exists_param_iff.2 (each item member) with ⟨taken, mapped⟩
    rw [Reader.function, header_eq_some_iff.2 heading]
    dsimp only
    rw [mapped]
    exact ⟨_, rfl⟩

theorem parts_eq_iff {line word : Bytes} {names : List Bytes} (present : ∀ name ∈ names, name ≠ []) :
    Reader.parts line = word :: names ↔
      (split comma line).map trim = word :: names ∨ (split comma line).map trim = word :: names ++ [[]] := by
  rw [Reader.parts]
  generalize (split comma line).map trim = pieces
  split
  · rename_i loose
    rcases List.getLast?_eq_some_iff.1 loose.2 with ⟨front, rfl⟩
    rw [List.dropLast_concat]
    constructor
    · rintro rfl
      exact .inr rfl
    · rintro (whole | whole)
      -- The last of several pieces would be an empty name.
      · cases front with
        | nil => exact absurd loose.1 (by decide)
        | cons first front =>
            rw [List.cons_append, List.cons.injEq] at whole
            exact absurd rfl (present [] (whole.2 ▸ List.mem_concat_self))
      · exact (List.append_inj_left' whole rfl)
  · rename_i tight
    constructor
    · exact .inl
    · rintro (whole | rfl)
      · exact whole
      · refine absurd ⟨?_, List.getLast?_concat⟩ tight
        simp

theorem exists_instruction_iff {arrays : List Bytes} {number : Nat} {line : Bytes} :
    (∃ i, Reader.instruction arrays number line = .ok i) ↔ IsInstruction line := by
  constructor
  · rintro ⟨i, read⟩
    rw [Reader.instruction] at read
    split at read
    · cases read
    · rename_i op found
      split at read
      · rename_i accepted
        rcases Except.map_eq_ok.1 read with ⟨taken, given, _⟩
        rcases Option.filter_eq_some_iff.1 found with ⟨known, operates⟩
        have word : op.mnemonic = (Reader.parts line).headD [] := by simpa using List.find?_some known
        have defined := List.mem_of_find?_eq_some known
        have present := (Reader.operands_eq_ok_iff.1 given).1
        have parted : Reader.parts line = op.mnemonic :: (Reader.parts line).tail := by
          cases parts : Reader.parts line with
          | nil =>
              rw [parts] at word
              exact absurd word (Opcode.mnemonic_isName defined).ne_nil
          | cons first rest =>
              rw [parts] at word
              rw [word]
              rfl
        exact ⟨op, _, defined, by simpa using operates, accepted, present,
          (parts_eq_iff present).1 parted⟩
      · cases read
  · rintro ⟨op, names, defined, operates, accepted, present, written⟩
    have parted := (parts_eq_iff present).2 written
    have known : (Opcode.ofMnemonic? op.mnemonic).filter (· ≠ .label) = some op := by
      rw [Opcode.ofMnemonic_mnemonic defined]
      simp [operates]
    have taken : Reader.operands arrays op 0 names = .ok _ := Reader.operands_eq_ok_iff.2 ⟨present, rfl⟩
    simp only [Reader.instruction, parted, List.headD_cons, List.tail_cons, known, accepted, if_true, taken]
    exact ⟨_, rfl⟩

theorem exists_bodyLine_iff (f : Function) (arrays : List Bytes) (number : Nat) (line : Bytes) :
    (∃ place, Reader.bodyLine f arrays number line = .ok place) ↔ IsBodyLine line := by
  have declared {marker rest : Bytes} (found : after? marker line = some rest) : marker <+: line :=
    ⟨rest, (after_eq_some found).symm⟩
  have undeclared {marker : Bytes} (missing : after? marker line = none) : ¬marker <+: line := by
    rintro ⟨rest, rfl⟩
    rw [after_append] at missing
    cases missing
  rw [Reader.bodyLine]
  split
  · rename_i rest ints
    exact iff_of_true ⟨_, rfl⟩ (.inl (.inl (declared ints)))
  · rename_i noInts
    split
    · rename_i rest floats
      exact iff_of_true ⟨_, rfl⟩ (.inl (.inr (declared floats)))
    · rename_i noFloats
      split
      · rename_i name label
        exact iff_of_true ⟨_, rfl⟩ (.inr (.inl (exists_label_iff.1 ⟨name, label⟩)))
      · rename_i noLabel
        have unlabelled : ¬IsLabel line := by
          intro label
          rcases exists_label_iff.2 label with ⟨name, found⟩
          rw [noLabel] at found
          cases found
        have undeclared : ¬IsDeclaration line := not_or.2 ⟨undeclared noInts, undeclared noFloats⟩
        rw [IsBodyLine, or_iff_right undeclared, or_iff_right unlabelled, ← exists_instruction_iff]
        constructor
        · rintro ⟨place, read⟩
          rcases Except.map_eq_ok.1 read with ⟨i, taken, _⟩
          exact ⟨i, taken⟩
        · rintro ⟨i, taken⟩
          exact ⟨_, Except.map_eq_ok.2 ⟨i, taken, rfl⟩⟩

def Inside (lines : List Bytes) : Prop :=
  ∃ body rest, (∀ line ∈ body, IsBodyLine line) ∧ Sections rest ∧ lines = body ++ Marker.finish :: rest

def Opened (lines : List Bytes) : Prop := ∃ header rest, IsHeader header ∧ Inside rest ∧ lines = header :: rest

theorem sections_cons_iff {line : Bytes} {rest : List Bytes} :
    Sections (line :: rest) ↔ line = Marker.start ∧ Opened rest := by
  constructor
  · intro sections
    cases sections with
    | cons opens each further => exact ⟨rfl, _, _, opens, ⟨_, _, each, further, rfl⟩, rfl⟩
  · rintro ⟨rfl, header, _, opens, ⟨body, rest, each, further, rfl⟩, rfl⟩
    exact .cons opens each further

theorem opened_cons_iff {line : Bytes} {rest : List Bytes} : Opened (line :: rest) ↔ IsHeader line ∧ Inside rest := by
  constructor
  · rintro ⟨header, _, opens, inside, same⟩
    cases same
    exact ⟨opens, inside⟩
  · rintro ⟨opens, inside⟩
    exact ⟨line, rest, opens, inside, rfl⟩

theorem inside_cons_iff {line : Bytes} {rest : List Bytes} :
    Inside (line :: rest) ↔ IsBodyLine line ∧ Inside rest ∨ line = Marker.finish ∧ Sections rest := by
  constructor
  · rintro ⟨body, later, each, further, same⟩
    cases body with
    | nil =>
        cases same
        exact .inr ⟨rfl, further⟩
    | cons first body =>
        cases same
        exact .inl ⟨each line List.mem_cons_self, body, later,
          fun other member => each other (List.mem_cons_of_mem line member), further, rfl⟩
  · rintro (⟨first, body, later, each, further, rfl⟩ | ⟨rfl, further⟩)
    · exact ⟨line :: body, later, List.forall_mem_cons.2 ⟨first, each⟩, further, rfl⟩
    · exact ⟨[], rest, by simp, further, rfl⟩

theorem not_opened_nil : ¬Opened [] := by
  rintro ⟨header, rest, _, _, same⟩
  cases same

theorem not_inside_nil : ¬Inside [] := by
  rintro ⟨body, rest, _, _, same⟩
  exact List.append_ne_nil_of_right_ne_nil body (List.cons_ne_nil _ rest) same.symm

section

variable {marker : Bytes} (marks : marker = Marker.start ∨ marker = Marker.finish)

include marks

theorem not_isHeader_marker : ¬IsHeader marker := by
  rintro ⟨type, name, params, heading, _⟩
  have solid : marker.all (fun b => !isAsciiBlank b) = true := by
    rcases marks with rfl | rfl <;> decide
  cases heading with
  | @of _ gap _ _ _ _ _ _ apart blank _ _ _ =>
      rcases List.exists_mem_of_ne_nil gap apart with ⟨b, member⟩
      have ink := List.all_eq_true.1 solid b (by simp [member])
      rw [blank b member] at ink
      cases ink

theorem not_isBodyLine_marker : ¬IsBodyLine marker := by
  rintro ((ints | floats) | ⟨name, blanks, named, _, rfl⟩ | ⟨op, names, defined, _, _, _, written⟩)
  · rcases marks with rfl | rfl <;> exact absurd ints (by decide)
  · rcases marks with rfl | rfl <;> exact absurd floats (by decide)
  · rcases named with ⟨first, rest, rfl, letter, _⟩
    have head : first = 35 := by
      rcases marks with same | same <;> exact (List.cons.inj same).1
    rw [head] at letter
    cases letter
  · have pieces : (split comma marker).map trim = [marker] := by
      rcases marks with rfl | rfl <;> decide +kernel
    have other : ∀ op ∈ Opcode.defined, op.mnemonic ≠ Marker.start ∧ op.mnemonic ≠ Marker.finish := by decide
    rw [pieces] at written
    rcases written with whole | whole
    · rcases marks with rfl | rfl
      · exact (other op defined).1 (List.cons.inj whole).1.symm
      · exact (other op defined).2 (List.cons.inj whole).1.symm
    · cases names <;> cases whole

end

end ProgramText

end Deadwood

import Deadwood.Proofs.Program.Reading

/-!
The words of a program that was read from text, and how a line made of them reads. A return type may be any ink, a
parameter may hold brackets, an operand may hold colons: no line is taken for a line of another sort all the same.
-/

namespace Deadwood

theorem Except.mapM_eq_ok {ε α β : Type} {step : α → Except ε β} {list : List α} {found : List β} :
    list.mapM step = .ok found ↔ List.Forall₂ (fun a b => step a = .ok b) list found := by
  induction list generalizing found with
  | nil =>
      rw [List.mapM_nil, List.forall₂_nil_left_iff]
      exact ⟨fun same => (Except.ok.inj same).symm, fun same => congrArg Except.ok same.symm⟩
  | cons a list ih =>
      rw [List.mapM_cons, List.forall₂_cons_left_iff]
      simp only [Except.bind_eq_ok, ih]
      constructor
      · rintro ⟨b, first, rest, later, same⟩
        exact ⟨b, rest, first, later, (Except.ok.inj same).symm⟩
      · rintro ⟨b, rest, first, later, rfl⟩
        exact ⟨b, first, rest, later, rfl⟩

theorem Except.exists_of_mapM {ε α β : Type} {step : α → Except ε β} {list : List α} {found : List β}
    (mapped : list.mapM step = .ok found) : ∀ b ∈ found, ∃ a ∈ list, step a = .ok b := by
  have related := Except.mapM_eq_ok.1 mapped
  clear mapped
  induction related with
  | nil => simp
  | cons first _ ih =>
      intro b member
      rcases List.mem_cons.1 member with rfl | later
      · exact ⟨_, List.mem_cons_self, first⟩
      · rcases ih b later with ⟨a, present, found⟩
        exact ⟨a, List.mem_cons_of_mem _ present, found⟩

namespace Bytes

open Blank

def IsName (s : Bytes) : Prop :=
  ∃ first rest, s = first :: rest ∧ isLetter first = true ∧ ∀ b ∈ rest, isWord b = true

theorem isAsciiBlank_of_isLetter {b : UInt8} (letter : isLetter b = true) : isAsciiBlank b = false := by
  cases blank : isAsciiBlank b with
  | false => rfl
  | true =>
      simp only [isAsciiBlank, Bool.or_eq_true, beq_iff_eq] at blank
      rcases blank with (((rfl | rfl) | rfl) | rfl) | rfl <;> cases letter

theorem IsName.isWord {s : Bytes} (name : s.IsName) : ∀ b ∈ s, isWord b = true := by
  rcases name with ⟨first, rest, rfl, letter, words⟩
  intro b member
  rcases List.mem_cons.1 member with rfl | later
  · rw [Bytes.isWord, letter, Bool.true_or]
  · exact words b later

theorem IsName.not_mem {s : Bytes} {b : UInt8} (name : s.IsName) (other : Bytes.isWord b = false) : b ∉ s := by
  intro member
  rw [name.isWord b member] at other
  contradiction

theorem IsName.ne_nil {s : Bytes} (name : s.IsName) : s ≠ [] := by
  rcases name with ⟨first, rest, rfl, _⟩
  exact List.cons_ne_nil first rest

theorem IsName.not_begins {s : Bytes} (name : s.IsName) (t : Bytes) : ¬Begins (s ++ t) := by
  rcases name with ⟨first, rest, rfl, letter, _⟩
  have ink : ∀ code ∈ codes, code.head?.all (fun b => !isLetter b) = true := by decide
  apply not_begins_cons
  intro code blank head
  have other := ink code blank
  simp [head, letter] at other

/-- No blank has only letters and digits, so a name has none at its ends. -/
theorem IsName.item {s : Bytes} (name : s.IsName) : s.Item := by
  have other : ∀ code ∈ codes, ∃ b ∈ code, Bytes.isWord b = false := by decide
  refine ⟨⟨?_, ?_⟩, name.ne_nil, name.not_mem rfl, name.not_mem rfl⟩
  · simpa using name.not_begins []
  · rintro ⟨code, blank, finish⟩
    rcases other code blank with ⟨b, member, ink⟩
    exact name.not_mem ink (finish.subset member)

theorem after_eq_none_of_mem {start s : Bytes} {b : UInt8} (needed : b ∈ start) (missing : b ∉ s) :
    after? start s = none := by
  cases found : after? start s with
  | none => rfl
  | some rest =>
      rw [after_eq_some found] at missing
      exact absurd (List.mem_append_left rest needed) missing

theorem after_eq_none_of_head {start s : Bytes} (needed : start ≠ []) (other : start.head? ≠ s.head?) :
    after? start s = none := by
  cases found : after? start s with
  | none => rfl
  | some rest =>
      rw [after_eq_some found, List.head?_append_of_ne_nil start needed] at other
      contradiction

theorem dropEndWhile_concat {test : UInt8 → Bool} {s : Bytes} {b : UInt8} (stops : test b = false) :
    dropEndWhile test (s ++ [b]) = s ++ [b] := by
  simp [dropEndWhile, stops]

theorem dropEndWhile_space (s : Bytes) : dropEndWhile (· == space) (s ++ [space]) = dropEndWhile (· == space) s := by
  simp [dropEndWhile]

theorem dropEndWhile_of_not_ends {s : Bytes} (finish : ¬Ends s) : dropEndWhile (· == space) s = s := by
  rcases List.eq_nil_or_concat s with rfl | ⟨front, b, rfl⟩
  · rfl
  · rw [List.concat_eq_append] at finish ⊢
    apply dropEndWhile_concat
    simp only [beq_eq_false_iff_ne]
    rintro rfl
    exact finish ⟨[space], by decide, List.suffix_append front _⟩

end Bytes

namespace Reader

open Bytes Blank

theorem name_eq_some {s name rest : Bytes} (found : name? s = some (name, rest)) : name.IsName ∧ s = name ++ rest := by
  cases s with
  | nil => cases found
  | cons b s =>
      rw [name?] at found
      split at found
      · rename_i letter
        cases found
        refine ⟨⟨b, s.takeWhile Bytes.isWord, rfl, letter, ?_⟩, ?_⟩
        · exact List.all_eq_true.1 List.all_takeWhile
        · rw [List.cons_append, List.takeWhile_append_dropWhile]
      · cases found

theorem name_append {name rest : Bytes} (named : name.IsName) (ends : ∀ b ∈ rest.head?, Bytes.isWord b = false) :
    name? (name ++ rest) = some (name, rest) := by
  rcases named with ⟨first, word, rfl, letter, words⟩
  rw [List.cons_append, name?, if_pos letter, List.takeWhile_append_of_pos words, List.dropWhile_append_of_pos words]
  cases rest with
  | nil => simp
  | cons b rest =>
      have stop := ends b rfl
      simp [stop]

theorem bracketed_append (params : Bytes) : bracketed? (bytes "(" ++ (params ++ bytes "):")) = some params := by
  have colon : params ++ bytes "):" = (params ++ bytes ")") ++ bytes ":" := by
    rw [List.append_assoc]
    rfl
  have closing : dropEndWhile isAsciiBlank (params ++ bytes ")") = params ++ bytes ")" := dropEndWhile_concat rfl
  rw [bracketed?, after_append, Option.bind_eq_bind, Option.bind_some, colon, before_append,
    Option.bind_some, closing, before_append]

theorem header_eq_some {line returnType name params : Bytes} (found : header? line = some (returnType, name, params)) :
    returnType ≠ [] ∧ (∀ b ∈ returnType, isAsciiBlank b = false) ∧ name.IsName ∧ returnType <+: line := by
  rw [header?] at found
  split at found
  · cases found
  · rename_i present
    split at found
    · cases found
    · rename_i named
      rcases Option.map_eq_some_iff.1 found with ⟨inner, bracket, same⟩
      cases same
      refine ⟨fun empty => present (.inl empty), ?_, (name_eq_some named).1, List.takeWhile_prefix _⟩
      intro b member
      have ink := List.all_eq_true.1 List.all_takeWhile b member
      simpa using ink

theorem header_append {returnType name params : Bytes} (present : returnType ≠ [])
    (ink : ∀ b ∈ returnType, isAsciiBlank b = false) (named : name.IsName) :
    header? (returnType ++ space :: (name ++ (bytes "(" ++ (params ++ bytes "):")))) =
      some (returnType, name, params) := by
  have inked : ∀ b ∈ returnType, (!isAsciiBlank b) = true := by
    intro b member
    rw [ink b member]
    rfl
  have gap : (space :: (name ++ (bytes "(" ++ (params ++ bytes "):")))).dropWhile isAsciiBlank =
      name ++ (bytes "(" ++ (params ++ bytes "):")) := by
    rcases named with ⟨first, rest, rfl, letter, _⟩
    rw [List.dropWhile_cons_of_pos rfl, List.cons_append, List.dropWhile_cons_of_neg]
    rw [isAsciiBlank_of_isLetter letter]
    exact Bool.false_ne_true
  have ends : ∀ b ∈ (bytes "(" ++ (params ++ bytes "):")).head?, isWord b = false := by
    intro b head
    cases head
    decide
  have bracket : (bytes "(" ++ (params ++ bytes "):")).dropWhile isAsciiBlank =
      bytes "(" ++ (params ++ bytes "):") := rfl
  rw [header?, List.takeWhile_append_of_pos inked, List.dropWhile_append_of_pos inked,
    List.takeWhile_cons_of_neg (by decide), List.dropWhile_cons_of_neg (by decide), List.append_nil, if_neg, gap,
    name_append named ends]
  · show (bracketed? _).map _ = _
    rw [bracket, bracketed_append]
    rfl
  · rintro (empty | empty)
    · exact present empty
    · cases empty

theorem name_classify (arrays : List Bytes) (op : Opcode) (index : Nat) (name : Bytes) :
    (Operand.classify arrays op index name).name = name := by
  rw [Operand.classify]
  split
  · rfl
  · split
    · rfl
    · split
      · rfl
      · split <;> rfl

theorem operands_eq_ok_iff {arrays : List Bytes} {op : Opcode} {index : Nat} {names : List Bytes}
    {found : List Operand} :
    operands arrays op index names = .ok found ↔
      (∀ name ∈ names, name ≠ []) ∧ found = names.mapIdx fun k name => Operand.classify arrays op (index + k) name := by
  induction names generalizing index found with
  | nil =>
      rw [operands]
      constructor
      · intro same
        exact ⟨by simp, (Except.ok.inj same).symm⟩
      · rintro ⟨_, rfl⟩
        rfl
  | cons name names ih =>
      rw [operands]
      split
      · rename_i empty
        simp [empty]
      · rename_i present
        rw [Except.map_eq_ok]
        simp only [ih, List.mapIdx_cons, List.forall_mem_cons, Nat.add_zero]
        have shift (k : Nat) : index + 1 + k = index + (k + 1) := by omega
        simp only [shift]
        constructor
        · rintro ⟨others, ⟨rest, rfl⟩, rfl⟩
          exact ⟨⟨present, rest⟩, rfl⟩
        · rintro ⟨⟨_, rest⟩, rfl⟩
          exact ⟨_, ⟨rest, rfl⟩, rfl⟩

theorem parts_separated {line part : Bytes} (flat : newline ∉ line) (found : part ∈ parts line) :
    part.Trimmed ∧ comma ∉ part ∧ newline ∉ part := by
  rw [parts] at found
  split at found
  · exact trim_piece_separated flat (List.mem_of_mem_dropLast found)
  · exact trim_piece_separated flat found

theorem parts_join {first : Bytes} {rest : List Bytes} (item : first.Item) (others : ∀ piece ∈ rest, piece.Item) :
    parts (join (bytes ", ") (first :: rest)) = first :: rest := by
  rw [parts, map_trim_split_join item others, if_neg]
  rintro ⟨_, last⟩
  rcases List.mem_cons.1 (List.mem_of_getLast? last) with empty | member
  · exact item.nonempty empty.symm
  · exact (others [] member).nonempty rfl

end Reader

structure Param.Legible (p : Param) : Prop where
  type : p.type.Solid
  name : p.name.Solid
  comma : Bytes.comma ∉ p.type ++ p.name

/-- An instruction as some line gives it: a label, or an operation with as many operands as it takes. -/
inductive Instruction.Legible : Instruction → Prop
  | label {name : Bytes} (line : Nat) (named : name.IsName) : Legible ⟨.label, [⟨.label, name⟩], line⟩
  | operation {op : Opcode} {names : List Bytes} (arrays : List Bytes) (line : Nat) (defined : op ∈ Opcode.defined)
      (operates : op ≠ .label) (accepted : op.accepts names.length = true) (items : ∀ name ∈ names, name.Item) :
      Legible ⟨op, names.mapIdx (Operand.classify arrays op), line⟩

structure Function.Legible (f : Function) : Prop where
  name : f.name.IsName
  typed : f.returnType ≠ []
  ink : ∀ b ∈ f.returnType, Bytes.isAsciiBlank b = false
  start : ¬Blank.Begins f.returnType
  code : f.returnType.head? ≠ some 35
  params : ∀ p ∈ f.params, p.Legible
  ints : ∀ name ∈ f.ints, name.Item
  floats : ∀ name ∈ f.floats, name.Item
  body : ∀ i ∈ f.body, i.Legible

namespace Reader

open Bytes

theorem param_eq_ok_iff {item : Bytes} {p : Param} : param item = .ok p ↔ item.words = [p.type, p.name] := by
  rw [param]
  split
  · rename_i type name words
    rw [words]
    cases p
    simp
  · rename_i other
    exact iff_of_false (fun read => by cases read) (other _ _)

theorem param_legible {item : Bytes} {p : Param} (whole : comma ∉ item) (read : param item = .ok p) : p.Legible := by
  have words := param_eq_ok_iff.1 read
  have first := solid_of_mem_words (words ▸ List.mem_cons_self : p.type ∈ item.words)
  have second := solid_of_mem_words (words ▸ List.mem_cons_of_mem p.type List.mem_cons_self : p.name ∈ item.words)
  refine ⟨first.1, second.1, ?_⟩
  intro member
  rcases List.mem_append.1 member with inType | inName
  · exact whole (first.2 inType)
  · exact whole (second.2 inName)

theorem params_legible {list : Bytes} {params : List Param} (each : list.items.mapM param = .ok params) :
    ∀ p ∈ params, p.Legible := by
  intro p member
  rcases Except.exists_of_mapM each p member with ⟨item, listed, read⟩
  exact param_legible (comma_not_mem_of_mem_items listed) read

theorem function_legible {line : Bytes} {f : Function} (telling : Telling line) (read : function line = .ok f) :
    f.Legible := by
  rw [function] at read
  split at read
  · cases read
  · rename_i returnType name text found
    obtain ⟨params, each, opened⟩ := Except.bind_eq_ok.1 read
    cases opened
    have header := header_eq_some found
    rcases header with ⟨typed, ink, named, start⟩
    have head : returnType.head? = line.head? := by
      rcases start with ⟨rest, rfl⟩
      exact (List.head?_append_of_ne_nil returnType typed).symm
    have begins : ¬Blank.Begins returnType := fun begins => telling.start (begins.of_isPrefix start)
    refine ⟨named, typed, ink, begins, head ▸ telling.code, params_legible each, ?_, ?_, ?_⟩
    all_goals
      intro _ member
      cases member

theorem instruction_legible {arrays : List Bytes} {number : Nat} {line : Bytes} {i : Instruction}
    (flat : newline ∉ line) (read : instruction arrays number line = .ok i) : i.Legible := by
  rw [instruction] at read
  split at read
  · cases read
  · rename_i op found
    split at read
    · rename_i accepted
      obtain ⟨taken, given, rfl⟩ := Except.map_eq_ok.1 read
      have named := Option.filter_eq_some_iff.1 found
      rcases operands_eq_ok_iff.1 given with ⟨present, rfl⟩
      simp only [Nat.zero_add]
      refine .operation arrays number (List.mem_of_find?_eq_some named.1) (by simpa using named.2) accepted ?_
      intro name member
      have part := parts_separated flat (List.mem_of_mem_tail member)
      exact ⟨part.1, present name member, part.2.1, part.2.2⟩
    · cases read

theorem bodyLine_legible {f : Function} {arrays : List Bytes} {number : Nat} {line : Bytes} {place : Place}
    (telling : Telling line) (legible : f.Legible) (read : bodyLine f arrays number line = .ok place) :
    place.All Function.Legible := by
  have declared {marker rest : Bytes} (found : after? marker line = some rest) : ∀ name ∈ rest.items, name.Item := by
    intro name member
    refine item_of_mem_items (fun inside => telling.newline ?_) member
    rw [after_eq_some found]
    exact List.mem_append_right marker inside
  have grown {i : Instruction} (next : i.Legible) : Function.Legible { f with body := f.body ++ [i] } := by
    refine { legible with body := ?_ }
    intro j member
    rcases List.mem_append.1 member with before | last
    · exact legible.body j before
    · rwa [List.mem_singleton.1 last]
  rw [bodyLine] at read
  split at read
  · rename_i rest found
    cases read
    exact { legible with ints := declared found }
  · split at read
    · rename_i rest found
      cases read
      exact { legible with floats := declared found }
    · split at read
      · rename_i name found
        cases read
        apply grown
        rw [label?] at found
        split at found
        · rename_i taken
          split at found
          · cases found
            exact .label number (name_eq_some taken).1
          · cases found
        · cases found
      · obtain ⟨i, taken, rfl⟩ := Except.map_eq_ok.1 read
        exact grown (instruction_legible telling.newline taken)

end Reader

theorem Program.legible_of_read {text : Bytes} {p : Program} (read : Program.read text = .ok p) :
    ∀ f ∈ p.functions, f.Legible :=
  Reader.all_of_read (fun _ _ telling opens => Reader.function_legible telling opens)
    (fun _ _ _ _ _ telling legible taken => Reader.bodyLine_legible telling legible taken) read

theorem Instruction.Legible.target_ne_nil {i : Instruction} (legible : i.Legible) : i.target? ≠ some [] := by
  intro empty
  cases legible with
  | label line named => exact named.ne_nil (Option.some.inj empty)
  | @operation op names arrays line defined operates accepted items =>
      rw [target?] at empty
      split at empty
      · cases names with
        | nil => cases empty
        | cons name names =>
            rw [List.mapIdx_cons] at empty
            dsimp only at empty
            split at empty
            · rw [Reader.name_classify] at empty
              exact (items name List.mem_cons_self).nonempty (Option.some.inj empty)
            · cases empty
      · cases empty

def Function.JumpsNamed (f : Function) : Prop := ∀ i ∈ f.body, i.op.isJump = true → i.target? ≠ some []

theorem Program.jumpsNamed_of_read {text : Bytes} {p : Program} (read : Program.read text = .ok p) :
    ∀ f ∈ p.functions, f.JumpsNamed :=
  fun f function i body _ => ((legible_of_read read f function).body i body).target_ne_nil

namespace Param

def text (p : Param) : Bytes := p.type ++ Bytes.space :: p.name

theorem Legible.item {p : Param} (legible : p.Legible) : p.text.Item := by
  have comma := legible.comma
  simp only [List.mem_append, not_or] at comma
  rw [text]
  constructor
  · exact Bytes.trimmed_append (by decide) legible.type.nonempty legible.name.nonempty legible.type.not_begins
      legible.name.not_ends
  · simp
  · simp only [List.mem_append, List.mem_cons, not_or]
    exact ⟨comma.1, by decide, comma.2⟩
  · simp only [List.mem_append, List.mem_cons, not_or]
    exact ⟨legible.type.newline_not_mem, by decide, legible.name.newline_not_mem⟩

theorem Legible.read {p : Param} (legible : p.Legible) : Reader.param p.text = .ok p :=
  Reader.param_eq_ok_iff.2 (Bytes.words_pair legible.type legible.name)

end Param

namespace Function

open Bytes Reader

theorem header_eq (f : Function) : f.header = f.returnType ++ space :: (f.name ++ (bytes "(" ++
    (join (bytes ", ") (f.params.map Param.text) ++ bytes "):"))) := by
  rw [header]
  simp only [List.append_assoc]
  rfl

theorem read_header {f : Function} (typed : f.returnType ≠ []) (ink : ∀ b ∈ f.returnType, isAsciiBlank b = false)
    (named : f.name.IsName) (legible : ∀ p ∈ f.params, p.Legible) :
    Reader.function f.header = .ok { name := f.name, returnType := f.returnType, params := f.params } := by
  have items : (join (bytes ", ") (f.params.map Param.text)).items = f.params.map Param.text := by
    apply items_join
    intro piece member
    rcases List.mem_map.1 member with ⟨p, present, rfl⟩
    exact (legible p present).item
  have params : (f.params.map Param.text).mapM param = .ok f.params := by
    rw [Except.mapM_eq_ok, List.forall₂_map_left_iff, List.forall₂_same]
    exact fun p present => (legible p present).read
  rw [Reader.function, header_eq, header_append typed ink named]
  dsimp only
  rw [items, params]
  rfl

theorem Legible.function_header {f : Function} (legible : f.Legible) :
    Reader.function f.header = .ok { name := f.name, returnType := f.returnType, params := f.params } :=
  read_header legible.typed legible.ink legible.name legible.params

theorem Legible.telling_header {f : Function} (legible : f.Legible) : Telling f.header := by
  have flat : ∀ piece ∈ f.params.map Param.text, newline ∉ piece := by
    intro piece member
    rcases List.mem_map.1 member with ⟨p, present, rfl⟩
    exact (legible.params p present).item.newline
  have last : f.name ++ (bytes "(" ++ (join (bytes ", ") (f.params.map Param.text) ++ bytes "):")) =
      f.name ++ (bytes "(" ++ (join (bytes ", ") (f.params.map Param.text) ++ bytes ")")) ++ [58] := by
    simp only [List.append_assoc]
    rfl
  rw [header_eq]
  constructor
  · rw [last]
    exact trimmed_append (by decide) legible.typed (by simp) legible.start (Blank.not_ends_concat (by decide))
  · simp only [List.mem_append, List.mem_cons, not_or]
    refine ⟨?_, by decide, legible.name.not_mem (by decide), by decide, newline_not_mem_join flat, by decide⟩
    intro member
    have blank := legible.ink newline member
    cases blank
  · simp
  · rw [List.head?_append_of_ne_nil _ legible.typed]
    exact legible.code

theorem telling_marker {marker : Bytes} (declares : marker = Marker.ints ∨ marker = Marker.floats) :
    Telling marker ∧ ∀ tail, ¬Blank.Begins (marker ++ tail) := by
  have start : ∀ tail, ¬Blank.Begins (marker ++ tail) := by
    rcases declares with rfl | rfl
    · exact fun tail => Blank.not_begins_cons (by decide)
    · exact fun tail => Blank.not_begins_cons (by decide)
  have finish : ¬Blank.Ends marker := by
    rcases declares with rfl | rfl
    · exact Blank.not_ends_concat (s := bytes "int-list") (b := 58) (by decide)
    · exact Blank.not_ends_concat (s := bytes "float-list") (b := 58) (by decide)
  refine ⟨⟨⟨by simpa using start [], finish⟩, ?_, ?_, ?_⟩, start⟩ <;> rcases declares with rfl | rfl <;> decide

theorem declaration_eq {marker : Bytes} {names : List Bytes} (declares : marker = Marker.ints ∨ marker = Marker.floats)
    (items : ∀ name ∈ names, name.Item) :
    ∃ tail, declaration marker names = marker ++ tail ∧ tail.items = names ∧ Telling (marker ++ tail) := by
  have telling := telling_marker declares
  cases names with
  | nil =>
      refine ⟨[], ?_, items_join items, by simpa using telling.1⟩
      have blank : marker ++ bytes " " ++ join (bytes ", ") [] = marker ++ [space] := List.append_nil _
      rw [declaration, blank, dropEndWhile_space, dropEndWhile_of_not_ends telling.1.finish, List.append_nil]
  | cons first rest =>
      have item := items first List.mem_cons_self
      have others : ∀ name ∈ rest, name.Item := fun name member => items name (List.mem_cons_of_mem first member)
      have finish : ¬Blank.Ends (marker ++ space :: join (bytes ", ") (first :: rest)) := by
        intro ends
        exact (trimmed_join item others).finish (Blank.ends_of_append (by decide) (join_ne_nil item.nonempty) ends)
      refine ⟨space :: join (bytes ", ") (first :: rest), ?_, ?_, ⟨telling.2 _, finish⟩, ?_, ?_, ?_⟩
      · rw [declaration, List.append_assoc]
        exact dropEndWhile_of_not_ends finish
      · rw [items_space, items_join items]
      · simp only [List.mem_append, List.mem_cons, not_or]
        exact ⟨telling.1.newline, by decide, newline_not_mem_join fun name member => (items name member).newline⟩
      · simp
      · rw [List.head?_append_of_ne_nil marker telling.1.ink]
        exact telling.1.code

theorem telling_declaration {marker : Bytes} {names : List Bytes}
    (declares : marker = Marker.ints ∨ marker = Marker.floats) (items : ∀ name ∈ names, name.Item) :
    Telling (declaration marker names) := by
  rcases declaration_eq declares items with ⟨tail, line, _, telling⟩
  rwa [line]

theorem bodyLine_ints {f : Function} {names : List Bytes} (items : ∀ name ∈ names, name.Item) (arrays : List Bytes)
    (number : Nat) :
    bodyLine f arrays number (declaration Marker.ints names) =
      .ok (.inside { f with ints := names } (arrays ++ names.filterMap arrayName?)) := by
  rcases declaration_eq (.inl rfl) items with ⟨tail, line, read, _⟩
  rw [bodyLine, line, after_append]
  dsimp only
  rw [read]

theorem bodyLine_floats {f : Function} {names : List Bytes} (items : ∀ name ∈ names, name.Item) (arrays : List Bytes)
    (number : Nat) :
    bodyLine f arrays number (declaration Marker.floats names) =
      .ok (.inside { f with floats := names } (arrays ++ names.filterMap arrayName?)) := by
  rcases declaration_eq (.inr rfl) items with ⟨tail, line, read, _⟩
  have other : after? Marker.ints (Marker.floats ++ tail) = none := rfl
  rw [bodyLine, line, other, after_append]
  dsimp only
  rw [read]

end Function

namespace Opcode

open Bytes

theorem mnemonic_isName {op : Opcode} (defined : op ∈ Opcode.defined) : op.mnemonic.IsName := by
  have all : ∀ op ∈ Opcode.defined, isLetter (op.mnemonic.headD 0) = true ∧ op.mnemonic ≠ [] ∧
      op.mnemonic.tail.all isWord = true := by decide
  rcases all op defined with ⟨letter, present, words⟩
  rcases List.exists_cons_of_ne_nil present with ⟨first, rest, spelled⟩
  rw [spelled] at letter words
  exact ⟨first, rest, spelled, letter, List.all_eq_true.1 words⟩

theorem ofMnemonic_mnemonic {op : Opcode} (defined : op ∈ Opcode.defined) : ofMnemonic? op.mnemonic = some op := by
  revert op
  decide

end Opcode

namespace Instruction

open Bytes Reader

/-- The instruction as its text reads on another line, where other arrays are declared. -/
def reread (arrays : List Bytes) (line : Nat) (i : Instruction) : Instruction where
  op := i.op
  operands := if i.op = .label then i.operands else (i.operands.map (·.name)).mapIdx (Operand.classify arrays i.op)
  line := line

theorem text_of_ne_label {i : Instruction} (operates : i.op ≠ .label) :
    i.text = join (bytes ", ") (i.op.mnemonic :: i.operands.map (·.name)) := by
  rw [text]
  split
  · contradiction
  · rfl

theorem map_name_classify (arrays : List Bytes) (op : Opcode) (names : List Bytes) :
    (names.mapIdx (Operand.classify arrays op)).map (·.name) = names := by
  apply List.ext_getElem
  · simp
  · simp [name_classify]

structure Spoken (line : Bytes) : Prop extends Telling line where
  ints : after? Marker.ints line = none
  floats : after? Marker.floats line = none

theorem Legible.spoken {i : Instruction} (legible : i.Legible) : Spoken i.text := by
  cases legible with
  | @label name line named =>
      have text : text ⟨.label, [⟨.label, name⟩], line⟩ = name ++ [58] := rfl
      -- Both markers have a dash, and a name has none.
      have dash : (45 : UInt8) ∉ name ++ [58] := by
        simp only [List.mem_append, List.mem_singleton, not_or]
        exact ⟨named.not_mem rfl, by decide⟩
      rw [text]
      refine ⟨⟨⟨named.not_begins _, Blank.not_ends_concat (by decide)⟩, ?_, by simp, ?_⟩, ?_, ?_⟩
      · simp only [List.mem_append, List.mem_singleton, not_or]
        exact ⟨named.not_mem rfl, by decide⟩
      · rw [List.head?_append_of_ne_nil name named.ne_nil]
        intro head
        exact named.not_mem rfl (List.mem_of_head? head)
      · exact after_eq_none_of_mem (by decide) dash
      · exact after_eq_none_of_mem (by decide) dash
  | @operation op names arrays line defined operates accepted items =>
      have name := Opcode.mnemonic_isName defined
      have item := name.item
      have head : (join (bytes ", ") (op.mnemonic :: names)).head? = op.mnemonic.head? := by
        rcases join_eq_append op.mnemonic names with ⟨tail, joined, _⟩
        rw [joined, List.head?_append_of_ne_nil _ name.ne_nil]
      -- Operands may hold anything, but no operation has the first letter of a marker.
      have others : ∀ op ∈ Opcode.defined,
          Marker.ints.head? ≠ op.mnemonic.head? ∧ Marker.floats.head? ≠ op.mnemonic.head? := by decide
      rw [text_of_ne_label operates, map_name_classify]
      refine ⟨⟨trimmed_join item items, ?_, join_ne_nil name.ne_nil, ?_⟩, ?_, ?_⟩
      · apply newline_not_mem_join
        intro piece member
        rcases List.mem_cons.1 member with rfl | later
        · exact item.newline
        · exact (items piece later).newline
      · rw [head]
        intro first
        exact name.not_mem rfl (List.mem_of_head? first)
      · exact after_eq_none_of_head (by decide) (head ▸ (others op defined).1)
      · exact after_eq_none_of_head (by decide) (head ▸ (others op defined).2)

theorem Legible.bodyLine {i : Instruction} (legible : i.Legible) (f : Function) (arrays : List Bytes) (number : Nat) :
    Reader.bodyLine f arrays number i.text =
      .ok (.inside { f with body := f.body ++ [i.reread arrays number] } arrays) := by
  have spoken := legible.spoken
  rw [Reader.bodyLine, spoken.ints, spoken.floats]
  dsimp only
  cases legible with
  | @label name line named =>
      have text : text ⟨.label, [⟨.label, name⟩], line⟩ = name ++ [58] := rfl
      have label : label? (name ++ [58]) = some name := by
        have ends : ∀ b ∈ ([58] : Bytes).head?, isWord b = false := by
          intro b head
          cases head
          rfl
        rw [label?, name_append named ends]
        rfl
      rw [text, label]
      rfl
  | @operation op names others line defined operates accepted items =>
      rw [text_of_ne_label operates, map_name_classify]
      have label : label? (join (bytes ", ") (op.mnemonic :: names)) = none := by
        rcases join_eq_append op.mnemonic names with ⟨tail, joined, separated⟩
        have ends : ∀ b ∈ tail.head?, isWord b = false := by
          intro b head
          rw [separated b head]
          rfl
        -- The separator stands where a label would have its colon.
        have other : tail.dropWhile isAsciiBlank ≠ bytes ":" := by
          cases tail with
          | nil => decide
          | cons b tail =>
              rw [separated b rfl, List.dropWhile_cons_of_neg (by decide)]
              intro colon
              cases colon
        rw [joined, label?, name_append (Opcode.mnemonic_isName defined) ends]
        dsimp only
        rw [if_neg other]
      have read : instruction arrays number (join (bytes ", ") (op.mnemonic :: names)) =
          .ok ⟨op, names.mapIdx (Operand.classify arrays op), number⟩ := by
        have taken : Reader.operands arrays op 0 names = .ok (names.mapIdx (Operand.classify arrays op)) := by
          rw [operands_eq_ok_iff]
          exact ⟨fun name member => (items name member).nonempty, by simp⟩
        rw [instruction, parts_join (Opcode.mnemonic_isName defined).item items, List.headD_cons, List.tail_cons,
          Opcode.ofMnemonic_mnemonic defined, Option.filter_some_pos (by simpa using operates)]
        dsimp only
        rw [if_pos accepted, taken]
        rfl
      rw [label, read]
      simp only [Except.map, reread, if_neg operates, map_name_classify]

end Instruction

end Deadwood

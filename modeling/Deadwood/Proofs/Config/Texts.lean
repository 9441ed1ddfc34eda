import Deadwood.Proofs.Program.Canonical
import Deadwood.Proofs.Text.Grammar
import Deadwood.Proofs.Text.Quoted

/-!
How files of tables read quoted texts and lists of them. A text whose characters are all portable is read back, and at
one with another character, alone or in a list, nothing is read at all.
-/

namespace Deadwood

theorem exists_front_of_all_eq_false {α : Type} {p : α → Bool} {items : List α} (fails : items.all p = false) :
    ∃ front bad back, items = front ++ bad :: back ∧ (∀ item ∈ front, p item = true) ∧ p bad = false := by
  obtain ⟨item, member, failed⟩ := List.all_eq_false.1 fails
  have among : (items.find? (!p ·)).isSome := List.find?_isSome.2 ⟨item, member, by simpa using failed⟩
  obtain ⟨bad, found⟩ := Option.isSome_iff_exists.1 among
  obtain ⟨failed', front, back, split, before⟩ := List.find?_eq_some_iff_append.1 found
  exact ⟨front, bad, back, split, fun item among => by simpa using before item among, by simpa using failed'⟩

namespace Toml

def Means (term : Term) (v : Value) : Prop :=
  ∀ lineOf inList key t, placeTerm lineOf inList key t term = .ok (t, some v)

namespace Syntax

open Grammar

theorem reads_char (b : UInt8) (s : Bytes) : Reads (char b) (b :: s) () s :=
  (reads_byte (p := (· == b)) (beq_self_eq_true b) s).bind (reads_pure () s)

theorem refuses_char {b : UInt8} {s : Bytes} (differs : ∀ a ∈ s.head?, a ≠ b) : Refuses (char b) s :=
  (refuses_byte fun a head => beq_false_of_ne (differs a head)).bind _

theorem reads_basicChar {b : UInt8} (plain : 32 ≤ b ∧ b ≠ 34 ∧ b ≠ 92) (s : Bytes) : Reads basicChar (b :: s) () s := by
  have fits : (32 ≤ b && b != 34 && b != 92) = true := by simpa [and_assoc] using plain
  exact (((reads_byte fits s).bind (reads_pure () s)).rule.orElse _).rule

theorem reads_hexDigit {b : UInt8} (hex : isHex b = true) (s : Bytes) : Reads hexDigit (b :: s) () s :=
  ((reads_byte hex s).bind (reads_pure () s)).rule

theorem reads_hexQuad {a b c d : UInt8} (hex : ∀ digit ∈ [a, b, c, d], isHex digit = true) (s : Bytes) :
    Reads hexQuad (a :: b :: c :: d :: s) () s := by
  simp only [List.forall_mem_cons] at hex
  obtain ⟨first, second, third, fourth, -⟩ := hex
  refine ((reads_hexDigit first _).bind ?_).rule
  exact (reads_hexDigit second _).bind ((reads_hexDigit third _).bind (reads_hexDigit fourth s))

theorem reads_escape {s t : Bytes} (read : Reads escaped (92 :: s) () t) : Reads basicChar (92 :: s) () t := by
  have refused : Refuses (rule (do let _ ← byte fun b => 32 ≤ b && b != 34 && b != 92)) (92 :: s) :=
    ((refuses_byte (by simp)).bind _).rule
  exact (refused.orElse_reads read).rule

theorem refuses_basicChar_quote (s : Bytes) : Refuses basicChar (34 :: s) := fun _ => ⟨_, rfl⟩

theorem refuses_basicChar {letter : UInt8} (unknown : letter ∈ [97, 118, 120]) (s : Bytes) :
    Refuses basicChar (92 :: letter :: s) := by
  have other : ∀ letter ∈ ([97, 118, 120] : Bytes),
      [98, 116, 110, 102, 114, 34, 47, 92].contains letter = false ∧ letter ≠ 117 ∧ letter ≠ 85 := by decide +kernel
  have ⟨unlisted, short, long⟩ := other letter unknown
  have refused : Refuses escaped (92 :: letter :: s) := by
    refine ((reads_char 92 _).rule.bind_refuses (Refuses.orElse ?_ (Refuses.orElse ?_ ?_))).rule
    · exact (refuses_byte (by simpa using unlisted)).bind _
    · exact (refuses_char (by simpa using short)).bind _
    · exact (refuses_char (by simpa using long)).bind _
  exact ((((refuses_byte (by simp)).bind _).rule).orElse refused).rule

theorem reads_basicChar_letter {letter b : UInt8} (known : unescape letter = some b) (s : Bytes) :
    Reads basicChar (92 :: letter :: s) () s := by
  have listed : [98, 116, 110, 102, 114, 34, 47, 92].contains letter = true := by
    unfold unescape at known
    split at known <;> first | rfl | cases known
  refine reads_escape ?_
  exact ((reads_char 92 _).rule.bind (((reads_byte listed s).bind (reads_pure () s)).orElse _)).rule

theorem reads_basicChar_short {a b c d : UInt8} (hex : ∀ digit ∈ [a, b, c, d], isHex digit = true) (s : Bytes) :
    Reads basicChar (92 :: 117 :: a :: b :: c :: d :: s) () s := by
  refine reads_escape ?_
  refine ((reads_char 92 _).rule.bind (Refuses.orElse_reads ?_ (Reads.orElse ?_ _))).rule
  · exact fun _ => ⟨_, rfl⟩
  · exact (reads_char 117 _).bind (reads_hexQuad hex s)

theorem reads_basicChar_long {a b c d e f g h : UInt8}
    (hex : ∀ digit ∈ [a, b, c, d, e, f, g, h], isHex digit = true) (s : Bytes) :
    Reads basicChar (92 :: 85 :: a :: b :: c :: d :: e :: f :: g :: h :: s) () s := by
  refine reads_escape ?_
  refine ((reads_char 92 _).rule.bind (Refuses.orElse_reads ?_ (Refuses.orElse_reads ?_ ?_))).rule
  · exact fun _ => ⟨_, rfl⟩
  · exact fun _ => ⟨_, rfl⟩
  · refine (reads_char 85 _).bind ((reads_hexQuad ?_ _).bind (reads_hexQuad ?_ s))
    · exact fun digit member => hex digit (List.mem_append_left [e, f, g, h] member)
    · exact fun digit member => hex digit (List.mem_append_right [a, b, c, d] member)

theorem exists_repeats_spells {spelling text s t : Bytes} {units : List Unit} (spells : Spells spelling text)
    (later : Repeats basicChar s units t) : ∃ units, Repeats basicChar (spelling ++ s) units t := by
  cases spells with
  | plain each =>
      induction spelling with
      | nil => exact ⟨units, later⟩
      | cons b spelling ih =>
          obtain ⟨units', rest⟩ := ih fun b member => each b (List.mem_cons_of_mem _ member)
          exact ⟨() :: units', .again (reads_basicChar (each b List.mem_cons_self) _) (Nat.lt_succ_self _) rest⟩
  | letter known => exact ⟨() :: units, later.cons (List.cons_ne_nil _ _) (reads_basicChar_letter known s)⟩
  | short hex => exact ⟨() :: units, later.cons (List.cons_ne_nil _ _) (reads_basicChar_short hex s)⟩
  | long hex => exact ⟨() :: units, later.cons (List.cons_ne_nil _ _) (reads_basicChar_long hex s)⟩

theorem exists_repeats_escapes {runes : List Rune} {s t : Bytes} {units : List Unit}
    (each : ∀ r ∈ runes, Spells (Quoted.escape r) r.raw) (later : Repeats basicChar s units t) :
    ∃ units, Repeats basicChar (runes.flatMap Quoted.escape ++ s) units t := by
  induction runes with
  | nil => exact ⟨units, later⟩
  | cons r runes ih =>
      obtain ⟨units', rest⟩ := ih fun r member => each r (List.mem_cons_of_mem _ member)
      rw [List.flatMap_cons, List.append_assoc]
      exact exists_repeats_spells (each r List.mem_cons_self) rest

/-- Two quotes in a row stand only at an empty text, so that none is taken for one over several lines. -/
theorem refuses_longBasic {s rest : Bytes} (stop : rest.head? ≠ some 34) : Refuses longBasic (s.quote ++ rest) := by
  have differs : Bytes.after? doubleQuotes (s.quote ++ rest) = none := by
    rw [Bytes.quote_append]
    cases present : s.runes with
    | nil =>
        cases rest with
        | nil => rfl
        | cons b rest =>
            have other : 34 ≠ b := fun same => stop (congrArg some same.symm)
            simp [Bytes.after?, doubleQuotes, other]
    | cons r runes =>
        obtain ⟨b, tail, written, other⟩ := (Quoted.written_escape (present ▸ List.mem_cons_self : r ∈ s.runes)).head
        simp [Bytes.after?, doubleQuotes, written, other.symm]
  exact ((refuses_literal differs).bind _).rule

theorem exists_reads_string {s rest : Bytes} (portable : s.isPortable = true) (stop : rest.head? ≠ some 34) :
    ∃ term, Reads string (s.quote ++ rest) term rest ∧ Means term (.text s) := by
  have spells : ∀ r ∈ s.runes, Spells (Quoted.escape r) r.raw := fun r member =>
    spells_escape member (List.all_eq_true.1 portable r member)
  obtain ⟨units, body⟩ := exists_repeats_escapes spells (.stop (refuses_basicChar_quote rest))
  have quoted : Reads (do char 34; let _ ← many basicChar; char 34) (s.quote ++ rest) () rest := by
    rw [Bytes.quote_append]
    exact (reads_char 34 _).bind (body.many.bind (reads_char 34 rest))
  refine ⟨.quoted ⟨(s.quote.drop 1).dropLast, rest.length⟩, ?_, ?_⟩
  · refine (Refuses.orElse_reads ?_ (Refuses.orElse_reads ?_ (Refuses.orElse_reads (refuses_longBasic stop) ?_))).rule
    · rw [Bytes.quote_append]
      exact fun _ => ⟨_, rfl⟩
    · rw [Bytes.quote_append]
      exact fun _ => ⟨_, rfl⟩
    · refine (quoted.text.bind ?_).rule
      exact (reads_left rest).bind (reads_pure _ rest)
  · intro lineOf inList key t
    have inner : (s.quote.drop 1).dropLast = s.runes.flatMap Quoted.escape := by simp [Bytes.quote]
    have resolved := resolve_flatMap_escape spells
    rw [Bytes.flatMap_raw_runes] at resolved
    simp only [placeTerm, Quoted.text, inner, resolved]
    rfl

theorem refuses_string {s rest : Bytes} (portable : s.isPortable = false) (stop : rest.head? ≠ some 34) :
    Refuses string (s.quote ++ rest) := by
  obtain ⟨front, r, back, split, before, bad⟩ := exists_front_of_all_eq_false portable
  have member (r : Rune) (among : r ∈ front) : r ∈ s.runes := split ▸ List.mem_append_left _ among
  obtain ⟨letter, unknown, tail, written⟩ :=
    escape_of_not_portable (split ▸ List.mem_append_right front List.mem_cons_self) bad
  obtain ⟨units, body⟩ := exists_repeats_escapes
    (fun r among => spells_escape (member r among) (before r among))
    (.stop (refuses_basicChar unknown (tail ++ back.flatMap Quoted.escape ++ 34 :: rest)))
  have text : s.quote ++ rest = 34 :: (front.flatMap Quoted.escape ++
      92 :: letter :: (tail ++ back.flatMap Quoted.escape ++ 34 :: rest)) := by
    rw [Bytes.quote_append, split, List.flatMap_append, List.flatMap_cons, written]
    simp
  have unquoted : Refuses (do char 34; let _ ← many basicChar; char 34) (s.quote ++ rest) := by
    rw [text]
    exact (reads_char 34 _).bind_refuses (body.many.bind_refuses (refuses_char (by simp)))
  refine Refuses.rule (Refuses.orElse ?_ (Refuses.orElse ?_ ?_))
  · rw [text]
    exact fun _ => ⟨_, rfl⟩
  · rw [text]
    exact fun _ => ⟨_, rfl⟩
  · exact (refuses_longBasic stop).orElse (unquoted.text.bind _).rule

theorem refuses_at_quote (fuel : Nat) (s : Bytes) :
    (Refuses (Term.datetime <$> Grammar.text datetime) (34 :: s) ∧
      Refuses (Term.float <$> Grammar.text float) (34 :: s) ∧
      Refuses (Term.integer <$> Grammar.text integer) (34 :: s)) ∧
    Refuses boolean (34 :: s) ∧ Refuses (array (value fuel)) (34 :: s) ∧ Refuses (inlineTable (value fuel)) (34 :: s) :=
  ⟨⟨fun _ => ⟨_, rfl⟩, fun _ => ⟨_, rfl⟩, fun _ => ⟨_, rfl⟩⟩, fun _ => ⟨_, rfl⟩, fun _ => ⟨_, rfl⟩, fun _ => ⟨_, rfl⟩⟩

theorem exists_reads_quote {s rest : Bytes} (portable : s.isPortable = true) (stop : rest.head? ≠ some 34)
    (fuel : Nat) :
    ∃ term, Reads (value (fuel + 1)) (s.quote ++ rest) term rest ∧ Means term (.text s) := by
  obtain ⟨term, read, means⟩ := exists_reads_string portable stop
  refine ⟨term, ?_, means⟩
  rw [Bytes.quote_append] at read ⊢
  obtain ⟨⟨date, real, number⟩, -⟩ := refuses_at_quote fuel (s.runes.flatMap Quoted.escape ++ 34 :: rest)
  exact (date.orElse_reads (real.orElse_reads (number.orElse_reads (read.orElse _)))).rule

theorem refuses_quote {s rest : Bytes} (portable : s.isPortable = false) (stop : rest.head? ≠ some 34) (fuel : Nat) :
    Refuses (value (fuel + 1)) (s.quote ++ rest) := by
  have text := refuses_string portable stop
  rw [Bytes.quote_append] at text ⊢
  obtain ⟨⟨date, real, number⟩, truth, list, table⟩ :=
    refuses_at_quote fuel (s.runes.flatMap Quoted.escape ++ 34 :: rest)
  exact (date.orElse (real.orElse (number.orElse (text.orElse (truth.orElse (list.orElse table)))))).rule

theorem reads_gap (front : Bytes) {s : Bytes} (each : ∀ b ∈ front, (isBlank b || isBreak b) = true)
    (stop : ∀ b ∈ s.head?, (isBlank b || isBreak b) = false) : Reads gap (front ++ s) () s := by
  refine Reads.rule ?_
  exact (reads_bytes each stop).bind (reads_pure () s)

theorem reads_blanks (front : Bytes) {s : Bytes} (each : ∀ b ∈ front, isBlank b = true)
    (stop : ∀ b ∈ s.head?, isBlank b = false) :
    Reads blanks (front ++ s) () s := by
  refine Reads.rule ?_
  exact (reads_bytes each stop).bind (reads_pure () s)

theorem refuses_comment {s : Bytes} (stop : ∀ b ∈ s.head?, b ≠ 35) : Refuses comment s :=
  ((refuses_char stop).bind _).rule

/-- Where neither a blank nor a line break nor a comment begins. -/
def Ink (s : Bytes) : Prop := ∀ b ∈ s.head?, (isBlank b || isBreak b) = false ∧ b ≠ 35

theorem Ink.reads_gapAndComment {s : Bytes} (ink : Ink s) (front : Bytes)
    (each : ∀ b ∈ front, (isBlank b || isBreak b) = true) :
    Reads gapAndComment (front ++ s) () s := by
  have none := (refuses_comment fun b head => (ink b head).2).optional
  exact (reads_gap front each fun b head => (ink b head).1).bind (none.bind (reads_pure () s))

theorem Ink.reads_gap {s : Bytes} (ink : Ink s) : Reads gap s () s :=
  Syntax.reads_gap [] (by simp) fun b head => (ink b head).1

def nextItem (value : Grammar Term) : Grammar Term := do gapAndComment; gap; comma; gapAndComment; gap; value

theorem reads_nextItem {item : Grammar Term} {s rest : Bytes} {term : Term} (read : Reads item s term rest)
    (ink : Ink s) :
    Reads (nextItem item) (44 :: 32 :: s) term rest := by
  have front : Ink (44 :: 32 :: s) := by simp [Ink, isBlank, isBreak]
  refine (front.reads_gapAndComment [] (by simp)).bind ?_
  refine front.reads_gap.bind ((reads_char 44 _).rule.bind ?_)
  exact (ink.reads_gapAndComment [32] (by decide +kernel)).bind (ink.reads_gap.bind read)

theorem refuses_nextItem {item : Grammar Term} {s : Bytes} (refused : Refuses item s) (ink : Ink s) :
    Refuses (nextItem item) (44 :: 32 :: s) := by
  have front : Ink (44 :: 32 :: s) := by simp [Ink, isBlank, isBreak]
  refine (front.reads_gapAndComment [] (by simp)).bind_refuses ?_
  refine front.reads_gap.bind_refuses ((reads_char 44 _).rule.bind_refuses ?_)
  exact (ink.reads_gapAndComment [32] (by decide +kernel)).bind_refuses (ink.reads_gap.bind_refuses refused)

theorem refuses_nextItem_end (item : Grammar Term) (rest : Bytes) : Refuses (nextItem item) (93 :: rest) := by
  have front : Ink (93 :: rest) := by simp [Ink, isBlank, isBreak]
  refine (front.reads_gapAndComment [] (by simp)).bind_refuses (front.reads_gap.bind_refuses ?_)
  exact ((refuses_char (by simp)).rule).bind _

theorem ink_quote (s rest : Bytes) : Ink (s.quote ++ rest) := by
  rw [Bytes.quote_append]
  simp [Ink, isBlank, isBreak]

def listed (names : List Bytes) : Bytes := names.flatMap fun name => 44 :: 32 :: name.quote

theorem exists_repeats_items {names : List Bytes} {rest : Bytes} (portable : ∀ name ∈ names, name.isPortable = true)
    (fuel : Nat) (stop : rest.head? ≠ some 34) (refused : Refuses (nextItem (value (fuel + 1))) rest) :
    ∃ terms, Repeats (nextItem (value (fuel + 1))) (listed names ++ rest) terms rest ∧
      List.Forall₂ Means terms (names.map .text) := by
  induction names with
  | nil => exact ⟨[], .stop refused, .nil⟩
  | cons name names ih =>
      obtain ⟨terms, later, meanings⟩ := ih fun name member => portable name (List.mem_cons_of_mem _ member)
      have stop' : (listed names ++ rest).head? ≠ some 34 := by
        cases names with
        | nil => exact stop
        | cons => simp [listed]
      obtain ⟨term, read, means⟩ := exists_reads_quote (portable name List.mem_cons_self) stop' fuel
      have text : listed (name :: names) ++ rest = 44 :: 32 :: (name.quote ++ (listed names ++ rest)) := by
        simp [listed]
      rw [text]
      have next := reads_nextItem read (ink_quote name (listed names ++ rest))
      rw [← List.cons_append, ← List.cons_append] at next ⊢
      exact ⟨term :: terms, later.cons (List.cons_ne_nil _ _) next, .cons means meanings⟩

theorem join_quotes (first : Bytes) (names : List Bytes) :
    Bytes.join (bytes ", ") ((first :: names).map Bytes.quote) = first.quote ++ listed names := by
  induction names generalizing first with
  | nil => simp [listed, Bytes.join_singleton]
  | cons second names ih =>
      rw [List.map_cons, List.map_cons, Bytes.join_cons_cons, ← List.map_cons, ih]
      simp [listed, Bytes.comma, Bytes.space]

theorem refuses_at_bracket (s : Bytes) :
    (Refuses (Term.datetime <$> Grammar.text datetime) (91 :: s) ∧
      Refuses (Term.float <$> Grammar.text float) (91 :: s) ∧
      Refuses (Term.integer <$> Grammar.text integer) (91 :: s)) ∧
    Refuses string (91 :: s) ∧ Refuses boolean (91 :: s) :=
  ⟨⟨fun _ => ⟨_, rfl⟩, fun _ => ⟨_, rfl⟩, fun _ => ⟨_, rfl⟩⟩, fun _ => ⟨_, rfl⟩, fun _ => ⟨_, rfl⟩⟩

theorem reads_value_of_array {fuel : Nat} {s rest : Bytes} {term : Term}
    (read : Reads (array (value fuel)) (91 :: s) term rest) : Reads (value (fuel + 1)) (91 :: s) term rest := by
  obtain ⟨⟨date, real, number⟩, text, truth⟩ := refuses_at_bracket s
  have last := truth.orElse_reads (read.orElse (inlineTable (value fuel)))
  exact (date.orElse_reads (real.orElse_reads (number.orElse_reads (text.orElse_reads last)))).rule

theorem refuses_value_of_array {fuel : Nat} {s : Bytes} (refused : Refuses (array (value fuel)) (91 :: s)) :
    Refuses (value (fuel + 1)) (91 :: s) := by
  obtain ⟨⟨date, real, number⟩, text, truth⟩ := refuses_at_bracket s
  have table : Refuses (inlineTable (value fuel)) (91 :: s) := fun _ => ⟨_, rfl⟩
  exact (date.orElse (real.orElse (number.orElse (text.orElse (truth.orElse (refused.orElse table)))))).rule

def written (names : List Bytes) : Bytes := bytes "[" ++ Bytes.join (bytes ", ") (names.map Bytes.quote) ++ bytes "]"

theorem written_cons (first : Bytes) (names : List Bytes) (rest : Bytes) :
    written (first :: names) ++ rest = 91 :: (first.quote ++ (listed names ++ 93 :: rest)) := by
  rw [written, join_quotes]
  simp [show bytes "[" = [91] from rfl, show bytes "]" = [93] from rfl]

theorem means_array {terms : List Term} {values : List Value} (meanings : List.Forall₂ Means terms values) :
    Means (.array terms) (.array values) := by
  intro lineOf inList key t
  have placed : placeItems lineOf key t terms = .ok (t, some values) := by
    induction meanings with
    | nil => rfl
    | cons means _ ih =>
        rw [placeItems, means]
        show (placeItems lineOf key t _ >>= _) = _
        rw [ih]
        rfl
  simp only [placeTerm, placed]
  rfl

theorem exists_reads_written {names : List Bytes} (portable : ∀ name ∈ names, name.isPortable = true) (fuel : Nat)
    (rest : Bytes) :
    ∃ term, Reads (value (fuel + 2)) (written names ++ rest) term rest ∧ Means term (.array (names.map .text)) := by
  have closing : Ink (93 :: rest) := by simp [Ink, isBlank, isBreak]
  cases names with
  | nil =>
      refine ⟨.array [], reads_value_of_array ?_, means_array .nil⟩
      have empty : Refuses (items (value (fuel + 1))) (93 :: rest) := fun _ => ⟨_, rfl⟩
      refine ((reads_char 91 _).bind (closing.reads_gap.bind (empty.optional.bind (closing.reads_gap.bind ?_)))).rule
      exact (reads_char 93 rest).bind (reads_pure _ rest)
  | cons first names =>
      have others := exists_repeats_items (fun name member => portable name (List.mem_cons_of_mem _ member)) fuel
        (by simp) (refuses_nextItem_end (value (fuel + 1)) rest)
      obtain ⟨terms, repeats, meanings⟩ := others
      have stop : (listed names ++ 93 :: rest).head? ≠ some 34 := by
        cases names <;> simp [listed]
      obtain ⟨term, read, means⟩ := exists_reads_quote (portable first List.mem_cons_self) stop fuel
      refine ⟨.array (term :: terms), ?_, means_array (.cons means meanings)⟩
      have found : Reads (items (value (fuel + 1))) (first.quote ++ (listed names ++ 93 :: rest)) (term :: terms)
          (93 :: rest) := by
        refine (read.bind (repeats.many.bind (closing.reads_gap.bind ?_))).rule
        have none := (refuses_char (b := 44) (s := 93 :: rest) (by simp)).rule.optional
        exact none.bind ((closing.reads_gapAndComment [] (by simp)).bind (reads_pure _ _))
      rw [written_cons]
      apply reads_value_of_array
      refine ((reads_char 91 _).bind ((ink_quote _ _).reads_gap.bind (found.optional.bind ?_))).rule
      exact closing.reads_gap.bind ((reads_char 93 rest).bind (reads_pure _ rest))

theorem refuses_written {names : List Bytes} (portable : ¬∀ name ∈ names, name.isPortable = true) (fuel : Nat)
    (rest : Bytes) : Refuses (value (fuel + 2)) (written names ++ rest) := by
  rw [← List.all_eq_true, Bool.not_eq_true] at portable
  obtain ⟨good, bad, others, rfl, before, unportable⟩ := exists_front_of_all_eq_false portable
  have stop : (listed others ++ 93 :: rest).head? ≠ some 34 := by
    cases others <;> simp [listed]
  have refused := refuses_quote unportable stop fuel
  have ink := ink_quote bad (listed others ++ 93 :: rest)
  -- What is left when the items that can be read have been read.
  have stuck : ∃ inner found, written (good ++ bad :: others) ++ rest = 91 :: inner ∧ Ink inner ∧
      Reads (optional (items (value (fuel + 1)))) inner found (bad.quote ++ (listed others ++ 93 :: rest)) := by
    cases good with
    | nil =>
        exact ⟨_, none, written_cons bad others rest, ink, ((refused.bind _).rule).optional⟩
    | cons first good =>
        obtain ⟨terms, repeats, -⟩ := exists_repeats_items
          (fun name member => before name (List.mem_cons_of_mem _ member)) fuel (by simp) (refuses_nextItem refused ink)
        have next : Ink (44 :: 32 :: (bad.quote ++ (listed others ++ 93 :: rest))) := by simp [Ink, isBlank, isBreak]
        have stop' : (listed good ++ 44 :: 32 :: (bad.quote ++ (listed others ++ 93 :: rest))).head? ≠ some 34 := by
          cases good <;> simp [listed]
        obtain ⟨term, read, -⟩ := exists_reads_quote (before first List.mem_cons_self) stop' fuel
        refine ⟨first.quote ++ (listed good ++ 44 :: 32 :: (bad.quote ++ (listed others ++ 93 :: rest))),
          some (term :: terms), ?_, ink_quote first _, Reads.optional ?_⟩
        · rw [List.cons_append, written_cons, listed, List.flatMap_append, List.flatMap_cons]
          simp [listed]
        refine (read.bind (repeats.many.bind (next.reads_gap.bind ?_))).rule
        refine ((reads_char 44 _).rule.optional).bind ?_
        exact (ink.reads_gapAndComment [32] (by decide +kernel)).bind (reads_pure _ _)
  obtain ⟨inner, found, text, start, read⟩ := stuck
  rw [text]
  apply refuses_value_of_array
  refine ((reads_char 91 _).bind_refuses (start.reads_gap.bind_refuses (read.bind_refuses ?_))).rule
  refine ink.reads_gap.bind_refuses (Refuses.bind ?_ _)
  rw [Bytes.quote_append]
  exact refuses_char (by simp)

end Syntax
end Toml

end Deadwood

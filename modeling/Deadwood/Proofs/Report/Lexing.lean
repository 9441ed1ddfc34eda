import Mathlib.Algebra.Group.Nat.Even
import Deadwood.Proofs.Program.Canonical
import Deadwood.Report.Dot

/-!
How a drawing is read: words, quoted texts and marks, and the statements that they make up. Within quotes a backslash
takes the byte after it along, whatever that is, so a quote behind it does not close the text. Comments and texts in
angle brackets are left out, as drawings have none.
-/

namespace Deadwood.Dot

inductive Token
  | word (s : Bytes)
  | text (s : Bytes)
  | mark (b : UInt8)
  deriving DecidableEq, Repr

/-- Where a reader stands: outside of quotes with the word begun so far, or within quotes with the text so far, there
perhaps right behind a backslash that takes the next byte. -/
inductive Reading
  | outside (word : Bytes)
  | inside (text : Bytes)
  | escaped (text : Bytes)
  deriving DecidableEq, Repr

def isInk (b : UInt8) : Bool := Bytes.isWord b || 128 ≤ b

def flush (word : Bytes) : List Token := if word = [] then [] else [.word word]

namespace Reading

def step : Reading → UInt8 → Reading × List Token
  | .outside word, b =>
    if b = 34 then (.inside [], flush word)
    else if isInk b then (.outside (word ++ [b]), [])
    else if Bytes.isAsciiBlank b then (.outside [], flush word)
    else (.outside [], flush word ++ [.mark b])
  | .inside text, b =>
    if b = 34 then (.outside [], [.text text])
    else if b = 92 then (.escaped (text ++ [b]), [])
    else (.inside (text ++ [b]), [])
  | .escaped text, b => (.inside (text ++ [b]), [])

def run : Reading → Bytes → Reading × List Token
  | here, [] => (here, [])
  | here, b :: s => ((run (here.step b).1 s).1, (here.step b).2 ++ (run (here.step b).1 s).2)

variable {here there onward : Reading} {s t : Bytes} {found more : List Token}

theorem run_append (here : Reading) (s t : Bytes) :
    here.run (s ++ t) = (((here.run s).1.run t).1, (here.run s).2 ++ ((here.run s).1.run t).2) := by
  induction s generalizing here with
  | nil => rfl
  | cons b s ih => simp only [List.cons_append, run, ih, List.append_assoc]

theorem run_trans (first : here.run s = (there, found)) (second : there.run t = (onward, more)) :
    here.run (s ++ t) = (onward, found ++ more) := by
  rw [run_append, first, second]

theorem run_ink {s : Bytes} (ink : ∀ b ∈ s, isInk b = true) (word : Bytes) :
    (outside word).run s = (.outside (word ++ s), []) := by
  induction s generalizing word with
  | nil => rw [List.append_nil, run]
  | cons b s ih =>
      obtain ⟨first, rest⟩ := List.forall_mem_cons.1 ink
      have differs : b ≠ 34 := by
        rintro rfl
        cases first
      rw [run, step, if_neg differs, if_pos first, ih rest, List.append_assoc]
      rfl

end Reading

/-- The tokens of a text. A text whose last quotes stay open has none. -/
def lex (s : Bytes) : Option (List Token) :=
  match (Reading.outside []).run s with
  | (.outside word, found) => some (found ++ flush word)
  | _ => none

namespace Token

def ends : Token → Bool
  | .mark b => b = 59 || b = 123 || b = 125
  | _ => false

def keywords : List Bytes :=
  [bytes "node", bytes "edge", bytes "graph", bytes "digraph", bytes "subgraph", bytes "strict"]

def text? : Token → Option Bytes
  | .text s => some s
  | .word _ | .mark _ => none

def name? : Token → Option Bytes
  | .word s => if keywords.contains s.lower then none else some s
  | .text s => some s
  | .mark _ => none

end Token

def statements (tokens : List Token) : List (List Token) := tokens.splitOnP Token.ends

def statements? (s : Bytes) : Option (List (List Token)) := (lex s).map statements

def node? : List Token → Option Bytes
  | [t] => t.name?
  | t :: .mark 91 :: _ => t.name?
  | _ => none

def edge? : List Token → Option (Bytes × Bytes)
  | t :: .mark 45 :: .mark 62 :: u :: _ => do return (← t.name?, ← u.name?)
  | _ => none

/-- The text is closed by the quote behind it, and by no quote of its own. -/
def Closes (s : Bytes) : Prop := (Reading.inside []).run (escape s ++ [34]) = (.outside [], [.text (escape s)])

def backslashes (s : Bytes) : Nat := (s.takeEndWhile (· == 92)).length

def EvenQuotes (s : Bytes) : Prop := ∀ front back, s = front ++ 34 :: back → Even (backslashes front)

theorem backslashes_concat (s : Bytes) (b : UInt8) :
    backslashes (s ++ [b]) = if b = 92 then backslashes s + 1 else 0 := by
  by_cases same : b = 92
  · simp [backslashes, Bytes.takeEndWhile, same]
  · simp [backslashes, Bytes.takeEndWhile, same]

theorem backslashes_of_getLast? {s : Bytes} {b : UInt8} (last : s.getLast? = some b) (differs : b ≠ 92) :
    backslashes s = 0 := by
  obtain ⟨front, rfl⟩ := List.getLast?_eq_some_iff.1 last
  rw [backslashes_concat, if_neg differs]

theorem backslashes_append {s : Bytes} (ends : backslashes s = 0) (t : Bytes) :
    backslashes (s ++ t) = backslashes t := by
  induction t using List.reverseRecOn with
  | nil => rw [List.append_nil, ends]; rfl
  | append_singleton t b ih => rw [← List.append_assoc, backslashes_concat, backslashes_concat, ih]

namespace EvenQuotes

theorem of_not_mem {s : Bytes} (plain : 34 ∉ s) : EvenQuotes s := by
  rintro front back rfl
  exact absurd (List.mem_append_right front List.mem_cons_self) plain

theorem left {s t : Bytes} (even : EvenQuotes (s ++ t)) : EvenQuotes s := by
  rintro front back rfl
  exact even front (back ++ t) (by rw [List.append_assoc, List.cons_append])

end EvenQuotes

theorem evenQuotes_concat {s : Bytes} {b : UInt8} :
    EvenQuotes (s ++ [b]) ↔ EvenQuotes s ∧ (b = 34 → Even (backslashes s)) := by
  constructor
  · intro even
    refine ⟨even.left, ?_⟩
    rintro rfl
    exact even s [] rfl
  · rintro ⟨even, behind⟩ front back split
    rcases List.eq_nil_or_concat back with rfl | ⟨back, c, rfl⟩
    · obtain ⟨rfl, last⟩ := List.append_inj' split rfl
      exact behind (List.cons.inj last).1
    · rw [List.concat_eq_append, ← List.cons_append, ← List.append_assoc] at split
      obtain ⟨same, _⟩ := List.append_inj' split rfl
      exact even front back same

theorem evenQuotes_append {s t : Bytes} (ends : backslashes s = 0) :
    EvenQuotes (s ++ t) ↔ EvenQuotes s ∧ EvenQuotes t := by
  induction t using List.reverseRecOn with
  | nil => simp [EvenQuotes.of_not_mem]
  | append_singleton t b ih =>
      rw [← List.append_assoc, evenQuotes_concat, evenQuotes_concat, ih, backslashes_append ends, and_assoc]

theorem evenQuotes_append_plain {s t : Bytes} (plain : 34 ∉ t) : EvenQuotes (s ++ t) ↔ EvenQuotes s := by
  induction t using List.reverseRecOn with
  | nil => rw [List.append_nil]
  | append_singleton t b ih =>
      rw [List.mem_append, List.mem_singleton, not_or] at plain
      rw [← List.append_assoc, evenQuotes_concat, ih plain.1]
      exact and_iff_left fun same => absurd same.symm plain.2

section

variable {α : Type} {list : List α} {text : α → Bytes}

theorem backslashes_flatMap (ends : ∀ a ∈ list, backslashes (text a) = 0) : backslashes (list.flatMap text) = 0 := by
  induction list with
  | nil => rfl
  | cons a list ih =>
      obtain ⟨first, rest⟩ := List.forall_mem_cons.1 ends
      rw [List.flatMap_cons, backslashes_append first, ih rest]

theorem evenQuotes_flatMap (ends : ∀ a ∈ list, backslashes (text a) = 0) :
    EvenQuotes (list.flatMap text) ↔ ∀ a ∈ list, EvenQuotes (text a) := by
  induction list with
  | nil => simp [EvenQuotes.of_not_mem]
  | cons a list ih =>
      obtain ⟨first, rest⟩ := List.forall_mem_cons.1 ends
      rw [List.flatMap_cons, evenQuotes_append first, ih rest, List.forall_mem_cons]

end

theorem evenQuotes_join {pieces : List Bytes} :
    EvenQuotes (Bytes.join (bytes ", ") pieces) ↔ ∀ piece ∈ pieces, EvenQuotes piece := by
  cases pieces with
  | nil => simp [Bytes.join, EvenQuotes.of_not_mem]
  | cons first rest =>
      induction rest generalizing first with
      | nil => simp [Bytes.join_singleton]
      | cons second rest ih =>
          have separated : backslashes (first ++ bytes ", ") = 0 :=
            backslashes_of_getLast? (b := 32) (List.getLast?_append_of_ne_nil first (by decide)) (by decide)
          have split : first ++ Bytes.comma :: Bytes.space :: Bytes.join (bytes ", ") (second :: rest) =
              first ++ bytes ", " ++ Bytes.join (bytes ", ") (second :: rest) := by
            rw [List.append_assoc]
            rfl
          rw [Bytes.join_cons_cons, split, evenQuotes_append separated, evenQuotes_append_plain (by decide), ih]
          exact (List.forall_mem_cons (p := EvenQuotes)).symm

theorem escape_append (s t : Bytes) : escape (s ++ t) = escape s ++ escape t := List.flatMap_append

def behind (s : Bytes) : Reading := if Even (backslashes s) then .inside (escape s) else .escaped (escape s)

theorem run_escape_singleton {s : Bytes} {b : UInt8} (even : EvenQuotes (s ++ [b])) :
    (behind s).run (escape [b]) = (behind (s ++ [b]), []) := by
  rw [behind, behind, escape_append, backslashes_concat]
  by_cases quote : b = 34
  · subst quote
    rw [if_pos ((evenQuotes_concat.1 even).2 rfl)]
    simp [escape, Reading.run, Reading.step]
  · by_cases broken : b = Bytes.newline
    · subst broken
      split <;> simp [escape, Reading.run, Reading.step, Bytes.newline]
    · by_cases slash : b = 92
      · subst slash
        split <;> rename_i parity <;>
          simp [escape, Reading.run, Reading.step, Bytes.newline, Nat.even_add_one, parity]
      · split <;> simp [escape, Reading.run, Reading.step, quote, broken, slash]

theorem run_escape {s : Bytes} (even : EvenQuotes s) : (Reading.inside []).run (escape s) = (behind s, []) := by
  induction s using List.reverseRecOn with
  | nil => rfl
  | append_singleton s b ih =>
      rw [escape_append]
      exact Reading.run_trans (ih even.left) (run_escape_singleton even)

/-- The first quote behind an odd number of backslashes closes the text, since the backslash put in front of it is
taken along by the one before. -/
theorem exists_closing {s : Bytes} (odd : ¬EvenQuotes s) :
    ∃ front back, s = front ++ 34 :: back ∧
      (Reading.inside []).run (escape (front ++ [34])) = (.outside [], [.text (escape front ++ [92])]) := by
  induction s using List.reverseRecOn with
  | nil => exact absurd (EvenQuotes.of_not_mem List.not_mem_nil) odd
  | append_singleton s b ih =>
      by_cases before : EvenQuotes s
      · rw [evenQuotes_concat, not_and, Classical.not_imp] at odd
        obtain ⟨rfl, uneven⟩ := odd before
        refine ⟨s, [], rfl, ?_⟩
        have stops : (behind s).run (escape [34]) = (.outside [], [.text (escape s ++ [92])]) := by
          simp [behind, uneven, escape, Reading.run, Reading.step]
        rw [escape_append]
        exact Reading.run_trans (run_escape before) stops
      · obtain ⟨front, back, rfl, closed⟩ := ih before
        exact ⟨front, back ++ [b], by simp, closed⟩

theorem closes_iff {s : Bytes} : Closes s ↔ EvenQuotes s ∧ Even (backslashes s) := by
  constructor
  · intro closes
    have even : EvenQuotes s := by
      by_contra odd
      obtain ⟨front, back, rfl, closed⟩ := exists_closing odd
      have split : escape (front ++ 34 :: back) ++ [34] = escape (front ++ [34]) ++ (escape back ++ [34]) := by
        simp [escape]
      rw [Closes, split, Reading.run_append, closed] at closes
      have first := congrArg List.head? (Prod.mk.inj closes).2
      simp [escape] at first
    refine ⟨even, ?_⟩
    by_contra uneven
    have open' : (behind s).run [34] = (.inside (escape s ++ [34]), []) := by
      simp [behind, uneven, Reading.run, Reading.step]
    rw [Closes, Reading.run_trans (run_escape even) open'] at closes
    cases closes
  · rintro ⟨even, finish⟩
    have closed : (behind s).run [34] = (.outside [], [.text (escape s)]) := by
      simp [behind, finish, Reading.run, Reading.step]
    exact Reading.run_trans (run_escape even) closed

end Deadwood.Dot

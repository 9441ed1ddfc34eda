import Deadwood.Log.Terminal
import Deadwood.Proofs.Text.Decimal
import Deadwood.Proofs.Text.Pieces
import Deadwood.Proofs.Text.Quoted

/-!
What a line at a terminal tells about its record. A text without quotes holds neither the space before the next
attribute nor the newline, and a quoted one ends itself, so that the attributes can be read off the line.
-/

namespace Deadwood.Log

open Bytes

namespace Terminal

def Ends (rest : Bytes) : Prop := ∃ b ∈ rest.head?, b = space ∨ b = newline

theorem not_needsQuotes {s : Bytes} (bare : needsQuotes s = false) :
    s ≠ [] ∧ ∀ b ∈ s, b ≠ space ∧ b ≠ newline ∧ b ≠ 34 := by
  simp only [needsQuotes, Bool.or_eq_false_iff, List.isEmpty_eq_false_iff, List.any_eq_false] at bare
  refine ⟨bare.1, fun b member => ?_⟩
  have other := bare.2 b member
  simp only [Bool.or_eq_true, beq_iff_eq, not_or] at other
  exact ⟨other.1.1.1.1, other.2, other.1.1.2⟩

theorem newline_not_mem_quoteIfNeeded (s : Bytes) : newline ∉ quoteIfNeeded s := by
  rw [quoteIfNeeded]
  split
  · exact newline_not_mem_quote s
  next bare => exact fun member => ((not_needsQuotes (Bool.eq_false_of_not_eq_true bare)).2 newline member).2.1 rfl

theorem bare_append_ne {s : Bytes} (bare : needsQuotes s = false) (rest t rest' : Bytes) :
    s ++ rest ≠ t.quote ++ rest' := by
  have clear := not_needsQuotes bare
  rcases List.exists_cons_of_ne_nil clear.1 with ⟨b, tail, rfl⟩
  rw [quote_append]
  exact fun same => (clear.2 b List.mem_cons_self).2.2 (List.cons.inj same).1

theorem bare_append_inj {s t rest rest' : Bytes} (bare : needsQuotes s = false) (bare' : needsQuotes t = false)
    (ends : Ends rest) (ends' : Ends rest') (same : s ++ rest = t ++ rest') : s = t ∧ rest = rest' := by
  have passes {s : Bytes} (bare : needsQuotes s = false) : ∀ b ∈ s, (b != space && b != newline) = true := by
    intro b member
    have other := (not_needsQuotes bare).2 b member
    simpa using ⟨other.1, other.2.1⟩
  have stops {rest : Bytes} (ends : Ends rest) : ∀ b ∈ rest.head?, (b != space && b != newline) = false := by
    intro b first
    obtain ⟨c, first', last⟩ := ends
    rw [Option.mem_unique first first']
    rcases last with rfl | rfl <;> rfl
  exact span_inj (passes bare) (passes bare') (stops ends) (stops ends') same

theorem quoteIfNeeded_append_inj {s t rest rest' : Bytes} (ends : Ends rest) (ends' : Ends rest')
    (same : quoteIfNeeded s ++ rest = quoteIfNeeded t ++ rest') : s = t ∧ rest = rest' := by
  cases bare : needsQuotes s <;> cases bare' : needsQuotes t <;>
    simp only [quoteIfNeeded, bare, bare', if_true, Bool.false_eq_true, if_false] at same
  · exact bare_append_inj bare bare' ends ends' same
  · exact absurd same (bare_append_ne bare _ _ _)
  · exact absurd same.symm (bare_append_ne bare' _ _ _)
  · exact quote_append_inj same

def field (a : Attribute) : Bytes := bytes " " ++ a.key ++ bytes "=" ++ value a.value

def front (r : Record) : Bytes :=
  r.level.aligned ++ bytes " [" ++ clock r.time ++ bytes "] " ++ r.message

def behind (length : Nat) (as : List Attribute) : Bytes :=
  (if as = [] then [] else List.replicate (messageWidth - length) space) ++ (as.flatMap field ++ [newline])

theorem line_eq (r : Record) : line false r = front r ++ behind r.message.length r.attributes := by
  have last : bytes "\n" = [newline] := by decide +kernel
  have fields : (r.attributes.flatMap fun a => bytes " " ++ paint false r.level a.key ++ bytes "=" ++ value a.value) =
      r.attributes.flatMap field := rfl
  rw [line, last, fields, front, behind]
  split_ifs with none <;> simp [paint, padEnd, space, none]

theorem field_append {a : Attribute} {s : Bytes} (text : a.value = .text s) (rest : Bytes) :
    field a ++ rest = space :: (a.key ++ 61 :: (quoteIfNeeded s ++ rest)) := by
  have parts : bytes " " = [space] ∧ bytes "=" = [61] := by decide +kernel
  rw [field, text, value, parts.1, parts.2]
  simp

structure Legible (a : Attribute) : Prop where
  newline : newline ∉ a.key
  sign : 61 ∉ a.key
  text : ∃ s, a.value = .text s

theorem field_append_inj {a b : Attribute} {rest rest' : Bytes} (legible : Legible a) (legible' : Legible b)
    (ends : Ends rest) (ends' : Ends rest') (same : field a ++ rest = field b ++ rest') : a = b ∧ rest = rest' := by
  obtain ⟨key, read⟩ := a
  obtain ⟨key', read'⟩ := b
  obtain ⟨s, rfl⟩ : ∃ s, read = .text s := legible.text
  obtain ⟨t, rfl⟩ : ∃ t, read' = .text t := legible'.text
  rw [field_append rfl, field_append rfl] at same
  have keys := append_cons_inj legible.sign legible'.sign (List.cons.inj same).2
  have values := quoteIfNeeded_append_inj ends ends' keys.2
  have key : key = key' := keys.1
  exact ⟨by rw [key, values.1], values.2⟩

theorem fields_inj {as bs : List Attribute} (legible : ∀ a ∈ as, Legible a) (legible' : ∀ b ∈ bs, Legible b)
    (same : as.flatMap field ++ [newline] = bs.flatMap field ++ [newline]) : as = bs := by
  have differs (a : Attribute) (s t : Bytes) (legible : Legible a) (last : t = [newline]) : field a ++ s ≠ t := by
    obtain ⟨text, valued⟩ := legible.text
    rw [field_append valued, last]
    exact fun same => absurd (List.cons.inj same).1 (by decide)
  have continues (as : List Attribute) (t : Bytes) (last : t = [newline]) : Ends (as.flatMap field ++ t) := by
    rw [last]
    cases as with
    | nil => exact ⟨newline, rfl, .inr rfl⟩
    | cons a as => exact ⟨space, rfl, .inl rfl⟩
  exact (flatMap_append_inj (fun _ _ _ _ => field_append_inj) differs continues legible legible' rfl rfl same).1

theorem behind_inj {length : Nat} {as bs : List Attribute} (legible : ∀ a ∈ as, Legible a)
    (legible' : ∀ b ∈ bs, Legible b) (same : behind length as = behind length bs) : as = bs := by
  have column {a : Attribute} {as : List Attribute} (legible : Legible a) : behind length (a :: as) ≠ [newline] := by
    obtain ⟨s, text⟩ := legible.text
    rw [behind, if_neg (List.cons_ne_nil a as), List.flatMap_cons, List.append_assoc, field_append text]
    cases messageWidth - length with
    | zero => exact fun same => absurd (List.cons.inj same).1 (by decide)
    | succ n => exact fun same => absurd (List.cons.inj same).1 (by decide)
  cases as with
  | nil =>
      cases bs with
      | nil => rfl
      | cons b bs => exact absurd same.symm (column (legible' b List.mem_cons_self))
  | cons a as =>
      cases bs with
      | nil => exact absurd same (column (legible a List.mem_cons_self))
      | cons b bs =>
          rw [behind, behind, if_neg (List.cons_ne_nil a as), if_neg (List.cons_ne_nil b bs)] at same
          exact fields_inj legible legible' (List.append_cancel_left same)

/-! The newline at the end of a line is its only one. -/

theorem newline_not_mem_field {a : Attribute} (legible : Legible a) : newline ∉ field a := by
  obtain ⟨s, text⟩ := legible.text
  have whole := field_append text []
  rw [List.append_nil, List.append_nil] at whole
  rw [whole]
  simp only [List.mem_cons, List.mem_append, not_or]
  exact ⟨by decide, legible.newline, by decide, newline_not_mem_quoteIfNeeded s⟩

theorem newline_not_mem_digits (width n : Nat) : newline ∉ Civil.digits width n := by
  intro member
  rcases List.mem_append.1 member with zero | digit
  · exact absurd (List.eq_of_mem_replicate zero) (by decide)
  · exact absurd (isDigit_ofNat n newline digit) (by decide)

theorem newline_not_mem_clock (t : Instant) : newline ∉ clock t := by
  have marks : ∀ mark ∈ ["-", "|", ":", "."], newline ∉ bytes mark := by decide +kernel
  simp only [List.forall_mem_cons] at marks
  simp only [clock, Civil.monthDay, Civil.clockMillis, Civil.clock, List.mem_append, not_or]
  simp [newline_not_mem_digits, marks]

theorem newline_not_mem_aligned (l : Level) : newline ∉ l.aligned := by
  unfold Level.aligned
  split_ifs <;> decide +kernel

theorem newline_not_mem_front {r : Record} (message : newline ∉ r.message) : newline ∉ front r := by
  have marks : newline ∉ bytes " [" ∧ newline ∉ bytes "] " := by decide +kernel
  simp only [front, List.mem_append, not_or]
  exact ⟨⟨⟨⟨newline_not_mem_aligned r.level, marks.1⟩, newline_not_mem_clock r.time⟩, marks.2⟩, message⟩

theorem behind_eq {as : List Attribute} (legible : ∀ a ∈ as, Legible a) (length : Nat) :
    ∃ fields, behind length as = fields ++ [newline] ∧ newline ∉ fields := by
  refine ⟨_, (List.append_assoc _ _ _).symm, ?_⟩
  rw [List.mem_append, not_or]
  constructor
  · split_ifs
    · exact List.not_mem_nil
    · exact fun member => absurd (List.eq_of_mem_replicate member) (by decide)
  · intro member
    obtain ⟨a, found, inside⟩ := List.mem_flatMap.1 member
    exact newline_not_mem_field (legible a found) inside

/-- The line of a record of texts ends with its only newline, and among the records of the same level, time and message
it tells the attributes. -/
theorem line_tells_attributes {r : Record} (message : newline ∉ r.message) (legible : ∀ a ∈ r.attributes, Legible a) :
    (∃ body, line false r = body ++ [newline] ∧ newline ∉ body) ∧
      ∀ r' : Record, r'.level = r.level → r'.time = r.time → r'.message = r.message →
        (∀ a ∈ r'.attributes, Legible a) → (line false r = line false r' ↔ r.attributes = r'.attributes) := by
  constructor
  · obtain ⟨fields, behind, single⟩ := behind_eq legible r.message.length
    refine ⟨front r ++ fields, by rw [line_eq, behind, List.append_assoc], ?_⟩
    rw [List.mem_append, not_or]
    exact ⟨newline_not_mem_front message, single⟩
  · intro r' level time said legible'
    have fronts : front r' = front r := by rw [front, front, level, time, said]
    rw [line_eq, line_eq, fronts, said, List.append_cancel_left_eq]
    exact ⟨behind_inj legible legible', congrArg _⟩

theorem stray_byte_told_from_escape :
    line false ⟨⟨0⟩, .info, bytes "Loaded", [], [⟨bytes "name", .text [255, 32]⟩]⟩ ≠
      line false ⟨⟨0⟩, .info, bytes "Loaded", [], [⟨bytes "name", .text (bytes "\\xff ")⟩]⟩ := by
  have key : newline ∉ bytes "name" ∧ 61 ∉ bytes "name" := by decide +kernel
  have legible (s : Bytes) : ∀ a ∈ [Attribute.mk (bytes "name") (.text s)], Legible a := by
    intro a member
    rw [List.mem_singleton.1 member]
    exact ⟨key.1, key.2, s, rfl⟩
  have told := (@line_tells_attributes ⟨⟨0⟩, .info, bytes "Loaded", [], [⟨bytes "name", .text [255, 32]⟩]⟩
    (by decide +kernel) (legible _)).2 ⟨⟨0⟩, .info, bytes "Loaded", [], [⟨bytes "name", .text (bytes "\\xff ")⟩]⟩
    rfl rfl rfl (legible _)
  exact fun same => absurd (told.1 same) (by decide +kernel)

end Terminal

end Deadwood.Log

import Deadwood.Text.Blank
import Mathlib.Data.List.Infix
import Mathlib.Tactic.Common

/-!
White space at the ends of a text and within it. A blank of more than one byte has no ASCII byte, so that a text put
together with ASCII between its parts has no blank that its parts have not.
-/

namespace Deadwood

namespace Blank

def Begins (s : Bytes) : Prop := ∃ code ∈ codes, code <+: s

def Ends (s : Bytes) : Prop := ∃ code ∈ codes, code <:+ s

theorem ne_nil_of_mem_codes {code : Bytes} (blank : code ∈ codes) : code ≠ [] := by
  revert code
  decide

theorem eq_singleton_of_ascii {code : Bytes} {b : UInt8} (blank : code ∈ codes) (member : b ∈ code) (ascii : b < 128) :
    code = [b] := by
  have all : codes.all (fun code => code.all fun b => 128 ≤ b || code == [b]) = true := by decide
  have test := List.all_eq_true.1 (List.all_eq_true.1 all code blank) b member
  rw [Bool.or_eq_true, decide_eq_true_eq, beq_iff_eq] at test
  rw [UInt8.lt_iff_toNat_lt] at ascii
  rw [UInt8.le_iff_toNat_le] at test
  exact test.resolve_left (Nat.not_le_of_lt ascii)

theorem width_pos_iff {s : Bytes} : 0 < width s ↔ Begins s := by
  rw [width]
  cases found : codes.find? (·.isPrefixOf s) with
  | none =>
      rw [List.find?_eq_none] at found
      simpa [Begins] using found
  | some code =>
      have blank := List.mem_of_find?_eq_some found
      have start := List.find?_some found
      simp only [Option.map_some, Option.getD_some, List.length_pos_iff]
      exact iff_of_true (ne_nil_of_mem_codes blank) ⟨code, blank, List.isPrefixOf_iff_prefix.1 start⟩

theorem widthReversed_pos_iff {s : Bytes} : 0 < widthReversed s.reverse ↔ Ends s := by
  rw [widthReversed]
  cases found : codes.find? (·.reverse.isPrefixOf s.reverse) with
  | none =>
      rw [List.find?_eq_none] at found
      simpa [Ends] using found
  | some code =>
      have blank := List.mem_of_find?_eq_some found
      have finish := List.find?_some found
      simp only [Option.map_some, Option.getD_some, List.length_pos_iff]
      refine iff_of_true (ne_nil_of_mem_codes blank) ⟨code, blank, ?_⟩
      exact List.reverse_prefix.1 (List.isPrefixOf_iff_prefix.1 finish)

theorem not_begins_nil : ¬Begins [] := by
  rintro ⟨code, blank, start⟩
  exact ne_nil_of_mem_codes blank (List.prefix_nil.1 start)

theorem not_ends_nil : ¬Ends [] := by
  rintro ⟨code, blank, finish⟩
  exact ne_nil_of_mem_codes blank (List.suffix_nil.1 finish)

theorem Begins.of_isPrefix {s t : Bytes} (begins : Begins s) (extended : s <+: t) : Begins t := by
  rcases begins with ⟨code, blank, start⟩
  exact ⟨code, blank, start.trans extended⟩

theorem begins_of_append {s t : Bytes} {b : UInt8} (ascii : b < 128) (present : s ≠ [])
    (begins : Begins (s ++ b :: t)) : Begins s := by
  rcases begins with ⟨code, blank, start⟩
  -- A code longer than the first part holds the ASCII character, and is then that character alone.
  rcases Nat.lt_or_ge s.length code.length with long | short
  · have further : s ++ [b] <+: s ++ b :: t := ⟨t, by simp⟩
    have length : (s ++ [b]).length ≤ code.length := by
      rw [List.length_append]
      exact long
    have reached := List.prefix_of_prefix_length_le further start length
    have single := eq_singleton_of_ascii blank (reached.subset (by simp)) ascii
    rw [single, List.length_singleton, Nat.lt_one_iff, List.length_eq_zero_iff] at long
    contradiction
  · exact ⟨code, blank, List.prefix_of_prefix_length_le start (List.prefix_append s _) short⟩

theorem ends_of_append {s t : Bytes} {b : UInt8} (ascii : b < 128) (present : t ≠ [])
    (ends : Ends (s ++ b :: t)) : Ends t := by
  rcases ends with ⟨code, blank, finish⟩
  have further : b :: t <:+ s ++ b :: t := List.suffix_append s _
  rcases Nat.lt_or_ge t.length code.length with long | short
  · have reached := List.suffix_of_suffix_length_le further finish long
    have single := eq_singleton_of_ascii blank (reached.subset List.mem_cons_self) ascii
    rw [single, List.length_singleton, Nat.lt_one_iff, List.length_eq_zero_iff] at long
    contradiction
  · exact ⟨code, blank, List.suffix_of_suffix_length_le finish ((List.suffix_cons b t).trans further) short⟩

theorem not_begins_cons {s : Bytes} {b : UInt8} (ink : ∀ code ∈ codes, code.head? ≠ some b) : ¬Begins (b :: s) := by
  rintro ⟨code, blank, start⟩
  cases code with
  | nil => exact ne_nil_of_mem_codes blank rfl
  | cons first rest =>
      have same := (List.cons_prefix_cons.1 start).1
      exact ink _ blank (congrArg some same)

theorem not_ends_concat {s : Bytes} {b : UInt8} (ink : ∀ code ∈ codes, code.getLast? ≠ some b) : ¬Ends (s ++ [b]) := by
  rintro ⟨code, blank, finish⟩
  rcases List.suffix_concat_iff.1 finish with empty | ⟨front, rfl, _⟩
  · exact ne_nil_of_mem_codes blank empty
  · exact ink _ blank List.getLast?_concat

theorem dropBlanks_of_width {measure : Bytes → Nat} {s : Bytes} (none : measure s = 0) : dropBlanks measure s = s := by
  rw [dropBlanks, dif_neg]
  omega

theorem dropBlanks_suffix (measure : Bytes → Nat) (s : Bytes) : dropBlanks measure s <:+ s := by
  fun_induction dropBlanks measure s with
  | case1 s _ ih => exact ih.trans (List.drop_suffix _ _)
  | case2 s _ => exact List.suffix_rfl

theorem width_dropBlanks (measure : Bytes → Nat) (empty : measure [] = 0) (s : Bytes) :
    measure (dropBlanks measure s) = 0 := by
  fun_induction dropBlanks measure s with
  | case1 s _ ih => exact ih
  | case2 s done =>
      cases s with
      | nil => exact empty
      | cons b s =>
          simp only [List.length_cons, Nat.zero_lt_succ, and_true] at done
          omega

theorem width_space (s : Bytes) : width (Bytes.space :: s) = 1 := by
  simp [width, codes, Bytes.space]

theorem dropBlanks_space (s : Bytes) : dropBlanks width (Bytes.space :: s) = dropBlanks width s := by
  rw [dropBlanks, dif_pos]
  · rw [width_space]
    rfl
  · simp [width_space]

theorem width_le_length (s : Bytes) : width s ≤ s.length := by
  rw [width]
  cases found : codes.find? (·.isPrefixOf s) with
  | none => exact Nat.zero_le _
  | some code =>
      have start := List.find?_some found
      exact (List.isPrefixOf_iff_prefix.1 start).length_le

theorem width_concat {s : Bytes} {b : UInt8} (ascii : b < 128) (present : s ≠ []) : width (s ++ [b]) = width s := by
  have same : ∀ code ∈ codes, code.isPrefixOf (s ++ [b]) = code.isPrefixOf s := by
    intro code blank
    rw [Bool.eq_iff_iff, List.isPrefixOf_iff_prefix, List.isPrefixOf_iff_prefix]
    constructor
    · intro start
      rcases List.prefix_concat_iff.1 start with rfl | shorter
      · have single := eq_singleton_of_ascii blank List.mem_concat_self ascii
        exact absurd (List.append_left_eq_self.1 single) present
      · exact shorter
    · intro start
      exact start.trans (List.prefix_append s [b])
  rw [width, width, ← List.head?_filter, ← List.head?_filter, List.filter_congr same]

theorem dropBlanks_concat {s : Bytes} {b : UInt8} (ascii : b < 128) :
    dropBlanks width (s ++ [b]) =
      if dropBlanks width s = [] then dropBlanks width [b] else dropBlanks width s ++ [b] := by
  fun_induction dropBlanks width s with
  | case1 s blank ih =>
      have same := width_concat ascii (List.length_pos_iff.1 blank.2)
      have shift : (s ++ [b]).drop (width (s ++ [b])) = s.drop (width s) ++ [b] := by
        rw [same, List.drop_append_of_le_length (width_le_length s)]
      rw [dropBlanks.eq_1 width (s ++ [b]), dif_pos, shift, ih]
      exact ⟨by omega, by simp⟩
  | case2 s done =>
      split
      · rename_i empty
        rw [empty, List.nil_append]
      · rename_i present
        apply dropBlanks_of_width
        rw [width_concat ascii present]
        have := List.length_pos_iff.2 present
        omega

end Blank

namespace Bytes

open Blank

structure Trimmed (s : Bytes) : Prop where
  start : ¬Begins s
  finish : ¬Ends s

theorem trimmed_nil : Trimmed [] := ⟨not_begins_nil, not_ends_nil⟩

theorem trimmed_trim (s : Bytes) : (trim s).Trimmed := by
  have clean := width_dropBlanks width (by decide) s
  have finished := width_dropBlanks widthReversed (by decide) (dropBlanks width s).reverse
  have suffix := dropBlanks_suffix widthReversed (dropBlanks width s).reverse
  constructor
  · intro begins
    have kept : trim s <+: dropBlanks width s := by
      rw [← List.reverse_suffix, trim, List.reverse_reverse]
      exact suffix
    have positive := width_pos_iff.2 (begins.of_isPrefix kept)
    omega
  · intro ends
    have positive := widthReversed_pos_iff.2 ends
    rw [trim, List.reverse_reverse] at positive
    omega

theorem Trimmed.trim_eq {s : Bytes} (trimmed : s.Trimmed) : trim s = s := by
  have front : width s = 0 := by
    have := mt width_pos_iff.1 trimmed.start
    omega
  have back : widthReversed s.reverse = 0 := by
    have := mt widthReversed_pos_iff.1 trimmed.finish
    omega
  rw [trim, dropBlanks_of_width front, dropBlanks_of_width back, List.reverse_reverse]

theorem trim_space (s : Bytes) : trim (space :: s) = trim s := by
  rw [trim, dropBlanks_space]
  rfl

theorem trim_sublist (s : Bytes) : (trim s).Sublist s := by
  have back := (dropBlanks_suffix widthReversed (dropBlanks width s).reverse).sublist.reverse
  rw [List.reverse_reverse] at back
  exact back.trans (dropBlanks_suffix width s).sublist

theorem trimmed_append {s t : Bytes} {b : UInt8} (ascii : b < 128) (present : s ≠ []) (present' : t ≠ [])
    (start : ¬Begins s) (finish : ¬Ends t) : (s ++ b :: t).Trimmed where
  start := fun begins => start (begins_of_append ascii present begins)
  finish := fun ends => finish (ends_of_append ascii present' ends)

theorem withoutReturn_of_not_ends {s : Bytes} (finish : ¬Ends s) : withoutReturn s = s := by
  rw [withoutReturn, if_neg]
  intro last
  rcases List.getLast?_eq_some_iff.1 last with ⟨front, rfl⟩
  exact finish ⟨[13], by decide, List.suffix_append front [13]⟩

theorem trim_withoutReturn (s : Bytes) : trim (withoutReturn s) = trim s := by
  rw [withoutReturn]
  split
  · rename_i last
    rcases List.getLast?_eq_some_iff.1 last with ⟨front, rfl⟩
    rw [List.dropLast_concat, trim, trim, dropBlanks_concat (by decide)]
    split
    · rename_i empty
      rw [empty]
      decide +kernel
    · rw [List.reverse_append, List.reverse_singleton, List.singleton_append,
        dropBlanks.eq_1 widthReversed (13 :: _), dif_pos]
      · simp [widthReversed, codes]
      · simp [widthReversed, codes]
  · rfl

structure Solid (s : Bytes) : Prop where
  nonempty : s ≠ []
  unbroken : ∀ t, t <:+ s → ¬Begins t

theorem Solid.not_begins {s : Bytes} (solid : s.Solid) : ¬Begins s := solid.unbroken s List.suffix_rfl

theorem Solid.not_ends {s : Bytes} (solid : s.Solid) : ¬Ends s := by
  rintro ⟨code, blank, finish⟩
  exact solid.unbroken code finish ⟨code, blank, List.prefix_rfl⟩

theorem Solid.newline_not_mem {s : Bytes} (solid : s.Solid) : newline ∉ s := by
  intro member
  rcases List.append_of_mem member with ⟨front, back, rfl⟩
  exact solid.unbroken (newline :: back) (List.suffix_append front _) ⟨[newline], by decide, ⟨back, rfl⟩⟩

end Bytes

namespace Blank

theorem solid_of_open {word s : Bytes} (present : word ≠ [])
    (unbroken : ∀ t, t <:+ word → t ≠ [] → ¬Begins (t ++ s)) : word.Solid := by
  refine ⟨present, ?_⟩
  intro t part begins
  have some : t ≠ [] := by
    rintro rfl
    exact not_begins_nil begins
  exact unbroken t part some (begins.of_isPrefix (List.prefix_append t s))

-- Of the word that is still open it is not enough that it has no blank: none may begin in it that the rest completes.
theorem wordsFrom_solid {word s : Bytes} (unbroken : ∀ t, t <:+ word.reverse → t ≠ [] → ¬Begins (t ++ s)) :
    ∀ found ∈ wordsFrom word s, found.Solid ∧ found ⊆ word.reverse ++ s := by
  fun_induction wordsFrom word s with
  | case1 => simp
  | case2 word present =>
      intro found member
      rw [List.mem_singleton.1 member]
      exact ⟨solid_of_open (by simpa using present) unbroken, List.subset_append_left _ _⟩
  | case3 b rest blank others ih =>
      intro found member
      have fresh := ih (by simp) found member
      exact ⟨fresh.1, List.Subset.trans fresh.2 (List.drop_subset _ _)⟩
  | case4 word b rest blank others present ih =>
      intro found member
      rcases List.mem_cons.1 member with rfl | later
      · exact ⟨solid_of_open (by simpa using present) unbroken, List.subset_append_left _ _⟩
      · have fresh := ih (by simp) found later
        exact ⟨fresh.1, List.Subset.trans fresh.2 (List.subset_append_of_subset_right _ (List.drop_subset _ _))⟩
  | case5 word b rest ink ih =>
      rw [width_pos_iff] at ink
      have reversed : (b :: word).reverse ++ rest = word.reverse ++ b :: rest := by simp
      rw [reversed] at ih
      apply ih
      intro t part present
      rw [List.reverse_cons] at part
      rcases List.suffix_concat_iff.1 part with rfl | ⟨t, rfl, inner⟩
      · contradiction
      · rw [List.append_assoc]
        by_cases empty : t = []
        · rwa [empty]
        · exact unbroken t inner empty

theorem wordsFrom_append {word s rest : Bytes} (unbroken : ∀ t, t <:+ s → t ≠ [] → ¬Begins (t ++ rest)) :
    wordsFrom word (s ++ rest) = wordsFrom (s.reverse ++ word) rest := by
  induction s generalizing word with
  | nil => rfl
  | cons b s ih =>
      have none : ¬0 < width (b :: (s ++ rest)) := by
        rw [width_pos_iff]
        exact unbroken (b :: s) List.suffix_rfl (List.cons_ne_nil b s)
      rw [List.cons_append, wordsFrom, if_neg none, ih]
      · simp
      · intro t part
        exact unbroken t (part.trans (List.suffix_cons b s))

end Blank

namespace Bytes

open Blank

theorem solid_of_mem_words {s word : Bytes} (found : word ∈ s.words) : word.Solid ∧ word ⊆ s :=
  wordsFrom_solid (by simp) word found

theorem words_pair {first second : Bytes} (solid : first.Solid) (solid' : second.Solid) :
    (first ++ space :: second).words = [first, second] := by
  have gap : 0 < width (space :: second) := by simp [width_space]
  have last : wordsFrom [] second = [second] := by
    rw [← List.append_nil second, wordsFrom_append, wordsFrom, if_neg]
    · simp
    · simpa using solid'.nonempty
    · intro t part _ begins
      rw [List.append_nil] at begins
      exact solid'.unbroken t part begins
  rw [words, wordsFrom_append, List.append_nil, wordsFrom, if_pos gap]
  · simp [width_space, solid.nonempty, last]
  · intro t part present begins
    exact solid.unbroken t part (begins_of_append (by decide) present begins)

end Bytes

end Deadwood

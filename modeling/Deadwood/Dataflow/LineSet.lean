/-! Finite sets of lines, kept in ascending order so that equal sets are equal values. -/

namespace Deadwood

structure LineSet where
  lines : List Int
  ascending : lines.Pairwise (· < ·)
  deriving DecidableEq

namespace LineSet

instance : Membership Int LineSet := ⟨fun s n => n ∈ s.lines⟩

instance (n : Int) (s : LineSet) : Decidable (n ∈ s) := inferInstanceAs (Decidable (n ∈ s.lines))

theorem mem_lines {n : Int} {s : LineSet} : n ∈ s.lines ↔ n ∈ s := Iff.rfl

theorem nodup_lines (s : LineSet) : s.lines.Nodup := s.ascending.imp fun less => Int.ne_of_lt less

def empty : LineSet := ⟨[], .nil⟩

instance : Inhabited LineSet := ⟨empty⟩

def size (s : LineSet) : Nat := s.lines.length

def merge : List Int → List Int → List Int
  | [], ys => ys
  | xs, [] => xs
  | x :: xs, y :: ys =>
    if x < y then x :: merge xs (y :: ys)
    else if y < x then y :: merge (x :: xs) ys
    else x :: merge xs ys
termination_by xs ys => xs.length + ys.length

theorem mem_merge {n : Int} (xs ys : List Int) : n ∈ merge xs ys ↔ n ∈ xs ∨ n ∈ ys := by
  fun_induction merge xs ys with
  | case1 ys => simp
  | case2 xs => simp
  | case3 x xs y ys less ih => simp [ih, or_assoc]
  | case4 x xs y ys notLess less ih =>
      simp only [List.mem_cons, ih]
      grind
  | case5 x xs y ys notLess notMore ih =>
      have same : x = y := by omega
      simp only [List.mem_cons, ih]
      grind

theorem merge_ascending (xs ys : List Int) (first : xs.Pairwise (· < ·)) (second : ys.Pairwise (· < ·)) :
    (merge xs ys).Pairwise (· < ·) := by
  fun_induction merge xs ys with
  | case1 ys => exact second
  | case2 xs => exact first
  | case3 x xs y ys less ih =>
      rw [List.pairwise_cons] at first
      refine List.pairwise_cons.2 ⟨fun n member => ?_, ih first.2 second⟩
      rcases (mem_merge _ _).1 member with inFirst | inSecond
      · exact first.1 n inFirst
      · rcases List.mem_cons.1 inSecond with rfl | later
        · exact less
        · exact Int.lt_trans less ((List.pairwise_cons.1 second).1 n later)
  | case4 x xs y ys notLess less ih =>
      rw [List.pairwise_cons] at second
      refine List.pairwise_cons.2 ⟨fun n member => ?_, ih first second.2⟩
      rcases (mem_merge _ _).1 member with inFirst | inSecond
      · rcases List.mem_cons.1 inFirst with rfl | later
        · exact less
        · exact Int.lt_trans less ((List.pairwise_cons.1 first).1 n later)
      · exact second.1 n inSecond
  | case5 x xs y ys notLess notMore ih =>
      have same : x = y := by omega
      rw [List.pairwise_cons] at first second
      refine List.pairwise_cons.2 ⟨fun n member => ?_, ih first.2 second.2⟩
      rcases (mem_merge _ _).1 member with inFirst | inSecond
      · exact first.1 n inFirst
      · exact same ▸ second.1 n inSecond

def union (s t : LineSet) : LineSet := ⟨merge s.lines t.lines, merge_ascending _ _ s.ascending t.ascending⟩

def filter (keep : Int → Bool) (s : LineSet) : LineSet := ⟨s.lines.filter keep, s.ascending.filter keep⟩

def diff (s t : LineSet) : LineSet := s.filter (· ∉ t)

def singleton (n : Int) : LineSet := ⟨[n], List.pairwise_singleton _ _⟩

def ofList (lines : List Int) : LineSet := lines.foldr (fun n s => (singleton n).union s) empty

def unions (sets : List LineSet) : LineSet := sets.foldl union empty

@[simp] theorem not_mem_empty (n : Int) : n ∉ empty := List.not_mem_nil

@[simp] theorem mem_union {n : Int} {s t : LineSet} : n ∈ s.union t ↔ n ∈ s ∨ n ∈ t := mem_merge _ _

@[simp] theorem mem_filter {n : Int} {keep : Int → Bool} {s : LineSet} : n ∈ s.filter keep ↔ n ∈ s ∧ keep n :=
  List.mem_filter

@[simp] theorem mem_diff {n : Int} {s t : LineSet} : n ∈ s.diff t ↔ n ∈ s ∧ n ∉ t := by
  simp [diff]

@[simp] theorem mem_singleton {n m : Int} : n ∈ singleton m ↔ n = m := List.mem_singleton

@[simp] theorem mem_ofList {n : Int} {lines : List Int} : n ∈ ofList lines ↔ n ∈ lines := by
  induction lines with
  | nil => simp [ofList]
  | cons m lines ih =>
      have step : n ∈ ofList (m :: lines) ↔ n = m ∨ n ∈ ofList lines := by simp [ofList]
      simp [step, ih]

end LineSet

end Deadwood

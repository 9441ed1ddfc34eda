import Deadwood.Proofs.Disk.Frame
import Deadwood.Proofs.Text.Pieces

/-! Where the paths to the files in a directory lead: files with different names are in different places. -/

namespace Deadwood.Path

structure IsFileName (name : Bytes) : Prop where
  nonempty : name ≠ []
  whole : slash ∉ name
  plain : Disk.isDots name = false

/-- The shortest path to a directory, up to where the names of its files are put. -/
def within (directory : Bytes) : Bytes :=
  let rooted := directory.head? == some slash
  let parts := ((Bytes.split slash directory).foldl (descend rooted) []).reverse
  (if rooted then [slash] else []) ++ parts.flatMap (· ++ [slash])

variable {directory name : Bytes}

theorem join_slash_append (parts : List Bytes) (name : Bytes) :
    Bytes.join [slash] (parts ++ [name]) = parts.flatMap (· ++ [slash]) ++ name := by
  induction parts with
  | nil => exact List.intercalate_singleton
  | cons part parts ih =>
      cases parts with
      | nil => simp [Bytes.join, List.intercalate_cons_cons]
      | cons next parts =>
          rw [List.cons_append, List.cons_append, Bytes.join, List.intercalate_cons_cons, ← Bytes.join,
            ← List.cons_append, ih]
          simp

theorem join_eq (present : directory ≠ []) (named : IsFileName name) :
    join directory name = within directory ++ name := by
  have dots := named.plain
  simp only [Disk.isDots, Bool.or_eq_false_iff, decide_eq_false_iff_not] at dots
  have last (rooted : Bool) (parts : List Bytes) : descend rooted parts name = name :: parts := by
    simp [descend, named.nonempty, dots.1, dots.2]
  rw [join, if_neg present, if_neg named.nonempty, clean, within, List.append_assoc, List.singleton_append,
    Bytes.split_append_cons, Bytes.split_of_not_mem named.whole, List.head?_append_of_ne_nil directory present]
  generalize (directory.head? == some slash) = rooted
  simp only [List.foldl_append, List.foldl_cons, List.foldl_nil, last, List.reverse_cons, join_slash_append]
  rw [if_neg (List.append_ne_nil_of_right_ne_nil _ (List.cons_ne_nil name []))]
  cases rooted <;> rfl

theorem within_ends (directory : Bytes) : within directory = [] ∨ ∃ front, within directory = front ++ [slash] := by
  rw [within]
  generalize ((Bytes.split slash directory).foldl (descend (directory.head? == some slash)) []).reverse = parts
  cases parts using List.reverseRecOn with
  | nil =>
      cases directory.head? == some slash with
      | true => exact .inr ⟨[], rfl⟩
      | false => exact .inl rfl
  | append_singleton parts part =>
      right
      rw [List.flatMap_append, List.flatMap_singleton, ← List.append_assoc, ← List.append_assoc]
      exact ⟨_, rfl⟩

theorem slash_not_mem_base {path : Bytes} (present : path ≠ []) (file : Disk.endsInSlash path = false) :
    slash ∉ base path := by
  obtain ⟨front, b, rfl⟩ := (List.eq_nil_or_concat' path).resolve_left present
  have differs : isSlash b = false := by simpa [Disk.endsInSlash, isSlash] using file
  have kept : Bytes.dropEndWhile isSlash (front ++ [b]) = front ++ [b] := by
    simp [Bytes.dropEndWhile, differs]
  have last : Bytes.takeEndWhile (!isSlash ·) (front ++ [b]) =
      Bytes.takeEndWhile (!isSlash ·) front ++ [b] := by
    simp [Bytes.takeEndWhile, differs]
  rw [base, if_neg present, kept, last]
  dsimp only
  rw [if_neg (List.append_ne_nil_of_right_ne_nil _ (List.cons_ne_nil b [])), ← last]
  intro member
  exact absurd (List.all_eq_true.1 List.all_takeWhile slash (List.mem_reverse.1 member)) (by decide)

theorem isFileName_optimizedName {path : Bytes} (present : path ≠ []) (file : Disk.endsInSlash path = false) :
    IsFileName (optimizedName path) := by
  have whole := slash_not_mem_base present file
  have stem : slash ∉ (Bytes.before? (extension (base path)) (base path)).getD (base path) := by
    cases found : Bytes.before? (extension (base path)) (base path) with
    | none => exact whole
    | some front =>
        rw [Bytes.before_eq_some found] at whole
        exact fun member => whole (List.mem_append_left _ member)
  have long : 7 ≤ (optimizedName path).length := by
    rw [optimizedName, List.length_append]
    exact Nat.le_add_left 7 _
  constructor
  case nonempty => exact List.ne_nil_of_length_pos (by omega)
  case whole =>
    rw [optimizedName, List.mem_append, not_or]
    exact ⟨stem, by decide⟩
  case plain =>
    rw [Disk.isDots, Bool.or_eq_false_iff, decide_eq_false_iff_not, decide_eq_false_iff_not]
    constructor <;> intro same <;> rw [same] at long <;> exact absurd long (by decide)

end Deadwood.Path

namespace Deadwood.Disk

open Deadwood.Path

variable {d : Disk} {directory name other content content' : Bytes} {place place' : List Bytes}

theorem names_within (directory : Bytes) (named : IsFileName name) :
    names (within directory ++ name) = names (within directory) ++ [name] := by
  have single : names name = [name] := by
    rw [names, Bytes.split_of_not_mem named.whole]
    simp [named.nonempty]
  rcases within_ends directory with empty | ⟨front, ends⟩
  · rw [empty, List.nil_append, single]
    rfl
  · rw [names] at single
    rw [ends, List.append_assoc, List.singleton_append, names, names, Bytes.split_append_cons, Bytes.split_append_cons,
      List.filter_append, List.filter_append, single]
    simp [Bytes.split]

theorem origin_within (directory : Bytes) (named : IsFileName name) :
    d.origin (within directory ++ name) = d.origin (within directory) := by
  cases started : within directory with
  | nil =>
      obtain ⟨b, rest, rfl⟩ := List.exists_cons_of_ne_nil named.nonempty
      have differs : b ≠ slash := by
        rintro rfl
        exact named.whole List.mem_cons_self
      simp [origin, differs]
  | cons b rest => rfl

theorem follow_of_target (present : directory ≠ []) (named : IsFileName name)
    (found : d.target (Path.join directory name) = .ok (place, content)) :
    ∃ parent, d.follow (d.origin (within directory)) (names (within directory)) = .ok parent ∧
      place = parent ++ [name] := by
  obtain ⟨parent, last, approached, -, -, rfl, -, -⟩ := (target_eq_ok_iff _ _ _).1 found
  rw [join_eq present named, approach] at approached
  have start := origin_within (d := d) directory named
  rw [origin] at start
  rw [names_within directory named, start, List.getLast?_concat, List.dropLast_concat] at approached
  split_ifs at approached
  cases followed : d.follow (d.origin (within directory)) (names (within directory)) with
  | error cause => simp [followed] at approached
  | ok base =>
      have dots := named.plain
      simp only [isDots, Bool.or_eq_false_iff, decide_eq_false_iff_not] at dots
      simp [followed, named.plain] at approached
      obtain ⟨rfl, rfl⟩ := approached
      exact ⟨base, rfl, by rw [enter, if_neg dots.1, if_neg dots.2]⟩

theorem place_eq_iff (present : directory ≠ []) (named : IsFileName name) (named' : IsFileName other)
    (found : d.target (Path.join directory name) = .ok (place, content))
    (found' : d.target (Path.join directory other) = .ok (place', content')) : place = place' ↔ name = other := by
  obtain ⟨parent, followed, rfl⟩ := follow_of_target present named found
  obtain ⟨parent', followed', rfl⟩ := follow_of_target present named' found'
  obtain rfl : parent = parent' := Except.ok.inj (followed.symm.trans followed')
  simp

theorem isFileName_of_read {file : Bytes} (found : d.read file = .ok content) :
    IsFileName (Path.optimizedName file) := by
  obtain ⟨parent, name, approached, opens, -, -⟩ := (read_eq_ok_iff file content).1 found
  apply isFileName_optimizedName _ opens
  rintro rfl
  simp [approach] at approached

end Deadwood.Disk

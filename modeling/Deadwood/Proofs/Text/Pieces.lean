import Deadwood.Proofs.Text.Blank

/-! Texts cut at a separator and put together again, and the items of lists written with commas. -/

namespace Deadwood.Bytes

open Blank

theorem split_eq_splitOn (separator : UInt8) (s : Bytes) : split separator s = s.splitOn separator := by
  induction s with
  | nil => rfl
  | cons b s ih =>
      rcases List.exists_cons_of_ne_nil (List.splitOn_ne_nil separator s) with ⟨piece, pieces, pieced⟩
      rw [List.splitOn, List.splitOnP_cons_eq_if_modifyHead, ← List.splitOn, pieced]
      rw [split, List.foldr_cons, ← split, ih, pieced]
      simp [cut]

theorem split_append_cons (separator : UInt8) (s t : Bytes) :
    split separator (s ++ separator :: t) = split separator s ++ split separator t := by
  simp only [split_eq_splitOn]
  exact List.splitOnP_append_cons s t (beq_self_eq_true separator)

theorem split_of_not_mem {separator : UInt8} {s : Bytes} (whole : separator ∉ s) : split separator s = [s] := by
  rw [split_eq_splitOn]
  refine List.splitOnP_eq_singleton fun b member => ?_
  simp only [beq_eq_false_iff_ne]
  rintro rfl
  exact whole member

theorem split_cons_of_ne {separator b : UInt8} (differs : b ≠ separator) (s : Bytes) :
    split separator (b :: s) = (split separator s).modifyHead (b :: ·) := by
  simp only [split_eq_splitOn]
  rw [List.splitOn, List.splitOnP_cons_eq_if_modifyHead, if_neg (by simpa using differs)]
  rfl

theorem not_mem_of_mem_split {separator : UInt8} {s piece : Bytes} (found : piece ∈ split separator s) :
    separator ∉ piece ∧ piece ⊆ s := by
  induction s generalizing piece with
  | nil =>
      rw [List.mem_singleton.1 found]
      simp
  | cons b s ih =>
      by_cases same : b = separator
      · subst same
        rw [← List.nil_append (b :: s), split_append_cons] at found
        rcases List.mem_append.1 found with first | later
        · rw [List.mem_singleton.1 first]
          simp
        · exact ⟨(ih later).1, List.subset_cons_of_subset b (ih later).2⟩
      · rw [split_cons_of_ne same] at found
        cases pieced : split separator s with
        | nil => simp [pieced] at found
        | cons head pieces =>
            rw [pieced, List.modifyHead_cons] at found
            rcases List.mem_cons.1 found with rfl | later
            · have first := ih (pieced ▸ List.mem_cons_self)
              refine ⟨?_, List.cons_subset_cons b first.2⟩
              simp only [List.mem_cons, not_or]
              exact ⟨Ne.symm same, first.1⟩
            · have rest := ih (pieced ▸ List.mem_cons_of_mem head later)
              exact ⟨rest.1, List.subset_cons_of_subset b rest.2⟩

theorem newline_not_mem_of_mem_lines {s line : Bytes} (found : line ∈ s.lines) : newline ∉ line := by
  rw [lines] at found
  split at found
  · exact (not_mem_of_mem_split (List.mem_of_mem_dropLast found)).1
  · exact (not_mem_of_mem_split found).1

structure Item (s : Bytes) : Prop extends s.Trimmed where
  nonempty : s ≠ []
  comma : comma ∉ s
  newline : newline ∉ s

theorem join_cons_cons (first second : Bytes) (rest : List Bytes) :
    join (bytes ", ") (first :: second :: rest) = first ++ comma :: space :: join (bytes ", ") (second :: rest) := by
  rw [join, List.intercalate_cons_cons, List.append_assoc]
  rfl

theorem join_singleton (first : Bytes) : join (bytes ", ") [first] = first := List.intercalate_singleton

theorem join_eq_append (first : Bytes) (rest : List Bytes) :
    ∃ tail, join (bytes ", ") (first :: rest) = first ++ tail ∧ ∀ b ∈ tail.head?, b = comma := by
  cases rest with
  | nil => exact ⟨[], by rw [join_singleton, List.append_nil], by simp⟩
  | cons second rest => exact ⟨_, join_cons_cons first second rest, by simp⟩

theorem split_join {first : Bytes} {rest : List Bytes} (whole : comma ∉ first)
    (others : ∀ piece ∈ rest, comma ∉ piece) :
    split comma (join (bytes ", ") (first :: rest)) = first :: rest.map (space :: ·) := by
  induction rest generalizing first with
  | nil => rw [join_singleton, split_of_not_mem whole, List.map_nil]
  | cons second rest ih =>
      have further : ∀ piece ∈ rest, comma ∉ piece := fun piece member => others piece (List.mem_cons_of_mem _ member)
      have later := ih (others second List.mem_cons_self) further
      rw [join_cons_cons, split_append_cons, split_of_not_mem whole, split_cons_of_ne (by decide), later]
      rfl

theorem map_trim_split_join {first : Bytes} {rest : List Bytes} (item : first.Item)
    (others : ∀ piece ∈ rest, piece.Item) :
    (split comma (join (bytes ", ") (first :: rest))).map trim = first :: rest := by
  have trims : rest.map (trim ∘ (space :: ·)) = rest.map id := by
    refine List.map_congr_left fun piece member => ?_
    rw [Function.comp_apply, trim_space, (others piece member).trim_eq, id]
  rw [split_join item.comma fun piece member => (others piece member).comma, List.map_cons, item.trim_eq, List.map_map,
    trims, List.map_id]

theorem items_join {pieces : List Bytes} (each : ∀ piece ∈ pieces, piece.Item) :
    (join (bytes ", ") pieces).items = pieces := by
  cases pieces with
  | nil =>
      show ([trim []].filter _) = []
      rw [trimmed_nil.trim_eq]
      rfl
  | cons first rest =>
      have later : ∀ piece ∈ rest, piece.Item := fun piece member => each piece (List.mem_cons_of_mem first member)
      rw [items, map_trim_split_join (each first List.mem_cons_self) later]
      refine List.filter_eq_self.2 fun piece member => ?_
      simpa using (each piece member).nonempty

theorem items_space (s : Bytes) : items (space :: s) = s.items := by
  rw [items, items, split_cons_of_ne (by decide)]
  cases split comma s with
  | nil => rfl
  | cons head pieces => rw [List.modifyHead_cons, List.map_cons, List.map_cons, trim_space]

theorem trim_piece_separated {s piece : Bytes} (flat : newline ∉ s) (found : piece ∈ (split comma s).map trim) :
    piece.Trimmed ∧ comma ∉ piece ∧ newline ∉ piece := by
  rcases List.mem_map.1 found with ⟨raw, cut, rfl⟩
  have part := not_mem_of_mem_split cut
  have kept := (trim_sublist raw).subset
  exact ⟨trimmed_trim raw, fun member => part.1 (kept member), fun member => flat (part.2 (kept member))⟩

theorem item_of_mem_items {s item : Bytes} (flat : newline ∉ s) (found : item ∈ s.items) : item.Item := by
  rw [items, List.mem_filter, decide_eq_true_eq] at found
  have piece := trim_piece_separated flat found.1
  exact ⟨piece.1, found.2, piece.2.1, piece.2.2⟩

theorem comma_not_mem_of_mem_items {s item : Bytes} (found : item ∈ s.items) : comma ∉ item := by
  rcases List.mem_map.1 (List.mem_filter.1 found).1 with ⟨raw, cut, rfl⟩
  exact fun member => (not_mem_of_mem_split cut).1 ((trim_sublist raw).subset member)

theorem join_ne_nil {first : Bytes} {rest : List Bytes} (present : first ≠ []) :
    join (bytes ", ") (first :: rest) ≠ [] := by
  cases rest with
  | nil => rwa [join_singleton]
  | cons second rest => simp [join_cons_cons]

theorem trimmed_join {first : Bytes} {rest : List Bytes} (item : first.Item) (others : ∀ piece ∈ rest, piece.Item) :
    (join (bytes ", ") (first :: rest)).Trimmed := by
  induction rest generalizing first with
  | nil =>
      rw [join_singleton]
      exact item.toTrimmed
  | cons second rest ih =>
      have inner := others second List.mem_cons_self
      have later := ih inner fun piece member => others piece (List.mem_cons_of_mem second member)
      rw [join_cons_cons]
      refine trimmed_append (by decide) item.nonempty (List.cons_ne_nil _ _) item.start ?_
      intro ends
      exact later.finish (ends_of_append (s := []) (by decide) (join_ne_nil inner.nonempty) ends)

theorem newline_not_mem_join {pieces : List Bytes} (flat : ∀ piece ∈ pieces, newline ∉ piece) :
    newline ∉ join (bytes ", ") pieces := by
  induction pieces with
  | nil => decide
  | cons first rest ih =>
      have head := flat first List.mem_cons_self
      have tail := ih fun piece member => flat piece (List.mem_cons_of_mem first member)
      cases rest with
      | nil => rwa [join_singleton]
      | cons second rest =>
          rw [join_cons_cons]
          simp only [List.mem_append, List.mem_cons, not_or]
          exact ⟨head, by decide, by decide, tail⟩

theorem span_inj {test : UInt8 → Bool} {s s' t t' : Bytes} (passes : ∀ b ∈ s, test b = true)
    (passes' : ∀ b ∈ s', test b = true) (stops : ∀ b ∈ t.head?, test b = false)
    (stops' : ∀ b ∈ t'.head?, test b = false) (same : s ++ t = s' ++ t') : s = s' ∧ t = t' := by
  have front (s t : Bytes) (passes : ∀ b ∈ s, test b = true) (stops : ∀ b ∈ t.head?, test b = false) :
      (s ++ t).takeWhile test = s := by
    rw [List.takeWhile_append_of_pos passes]
    cases t with
    | nil => simp
    | cons b t => simp [stops b rfl]
  have fronts : s = s' := by rw [← front s t passes stops, same, front s' t' passes' stops']
  subst fronts
  exact ⟨rfl, List.append_cancel_left same⟩

theorem append_cons_inj {s s' t t' : Bytes} {b : UInt8} (missing : b ∉ s) (missing' : b ∉ s')
    (same : s ++ b :: t = s' ++ b :: t') : s = s' ∧ t = t' := by
  have other (s : Bytes) (missing : b ∉ s) : ∀ c ∈ s, (c != b) = true := by
    intro c member
    rw [bne_iff_ne]
    rintro rfl
    exact missing member
  have cut := span_inj (other s missing) (other s' missing') (by simp) (by simp) same
  exact ⟨cut.1, (List.cons.inj cut.2).2⟩

theorem flatMap_append_inj {α : Type} {write : α → Bytes} {good : α → Prop} {follows last : Bytes → Prop}
    (tells : ∀ a b s t, good a → good b → follows s → follows t → write a ++ s = write b ++ t → a = b ∧ s = t)
    (differs : ∀ a s t, good a → last t → write a ++ s ≠ t)
    (continues : ∀ (items : List α) t, last t → follows (items.flatMap write ++ t))
    {items items' : List α} {t t' : Bytes} (each : ∀ a ∈ items, good a) (each' : ∀ a ∈ items', good a) (ends : last t)
    (ends' : last t') (same : items.flatMap write ++ t = items'.flatMap write ++ t') : items = items' ∧ t = t' := by
  induction items generalizing items' with
  | nil =>
      cases items' with
      | nil => exact ⟨rfl, same⟩
      | cons b items' =>
          rw [List.flatMap_cons, List.append_assoc] at same
          exact absurd same.symm (differs b _ t (each' b List.mem_cons_self) ends)
  | cons a items ih =>
      cases items' with
      | nil =>
          rw [List.flatMap_cons, List.append_assoc] at same
          exact absurd same (differs a _ t' (each a List.mem_cons_self) ends')
      | cons b items' =>
          rw [List.flatMap_cons, List.flatMap_cons, List.append_assoc, List.append_assoc] at same
          have first := tells a b _ _ (each a List.mem_cons_self) (each' b List.mem_cons_self)
            (continues items t ends) (continues items' t' ends') same
          have later := ih (fun a member => each a (List.mem_cons_of_mem _ member))
            (fun a member => each' a (List.mem_cons_of_mem _ member)) first.2
          exact ⟨congrArg₂ List.cons first.1 later.1, later.2⟩

theorem after_append (start s : Bytes) : after? start (start ++ s) = some s := by
  induction start with
  | nil => rfl
  | cons b start ih => rw [List.cons_append, after?, if_pos rfl, ih]

theorem after_eq_some {start s rest : Bytes} (found : after? start s = some rest) : s = start ++ rest := by
  fun_induction after? start s with
  | case1 s => exact Option.some.inj found
  | case2 => cases found
  | case3 b start s ih => rw [ih found, List.cons_append]
  | case4 => cases found

theorem before_append (s ending : Bytes) : before? ending (s ++ ending) = some s := by
  rw [before?, List.reverse_append, after_append, Option.map_some, List.reverse_reverse]

theorem before_eq_some {s ending front : Bytes} (found : before? ending s = some front) : s = front ++ ending := by
  rcases Option.map_eq_some_iff.1 found with ⟨reversed, after, rfl⟩
  have split := congrArg List.reverse (after_eq_some after)
  rwa [List.reverse_reverse, List.reverse_append, List.reverse_reverse] at split

end Deadwood.Bytes

import Deadwood.Disk.Buffer
import Deadwood.Program.Printer
import Mathlib.Data.List.Basic

/-!
Several writers of one file. Each puts its text from the start, piece after piece, at its own offset, and each empties
the file before it begins. What they leave is longer than no text, holds at every byte what some text has there, and
holds all of the text of whoever emptied the file last, or other bytes in its place.
-/

namespace Deadwood

namespace Bytes

variable {old new : Bytes} {offset i : Nat}

theorem length_padEnd_take (old : Bytes) (offset : Nat) : (padEnd offset 0 (old.take offset)).length = offset := by
  simp only [padEnd, List.length_append, List.length_take, List.length_replicate]
  omega

theorem length_splice (old : Bytes) (offset : Nat) (some : new ≠ []) :
    (splice old offset new).length = max old.length (offset + new.length) := by
  rw [splice, if_neg some, List.length_append, List.length_append, length_padEnd_take, List.length_drop]
  omega

theorem getElem?_splice_before (some : new ≠ []) (before : i < offset) :
    (splice old offset new)[i]? = .some (old[i]?.getD 0) := by
  have left : i < (padEnd offset 0 (old.take offset)).length := by rwa [length_padEnd_take]
  rw [splice, if_neg some, List.append_assoc, List.getElem?_append_left left, padEnd]
  by_cases inside : i < old.length
  · rw [List.getElem?_append_left (by simp; omega), List.getElem?_take_of_lt before,
      List.getElem?_eq_getElem inside, Option.getD_some]
  · rw [List.getElem?_append_right (by simp; omega), List.getElem?_eq_none (Nat.le_of_not_lt inside),
      List.getElem?_replicate, if_pos (by simp; omega), Option.getD_none]

theorem getElem?_splice_inside (after : offset ≤ i) (before : i < offset + new.length) :
    (splice old offset new)[i]? = new[i - offset]? := by
  have some : new ≠ [] := by
    rintro rfl
    simp at before
    omega
  rw [splice, if_neg some, List.getElem?_append_left (by rw [List.length_append, length_padEnd_take]; exact before),
    List.getElem?_append_right (by rwa [length_padEnd_take]), length_padEnd_take]

theorem getElem?_splice_after (after : offset + new.length ≤ i) : (splice old offset new)[i]? = old[i]? := by
  rw [splice]
  split
  · rfl
  · rw [List.getElem?_append_right (by rw [List.length_append, length_padEnd_take]; exact after), List.length_append,
      length_padEnd_take, List.getElem?_drop, Nat.add_sub_cancel' after]

end Bytes

theorem Buffer.flatten_flushes (held : Bytes) (pieces : List Bytes) :
    (flushes held pieces).flatten = held ++ pieces.flatten := by
  fun_induction flushes held pieces with
  | case1 => rfl
  | case2 held none => simp
  | case3 held piece pieces fits ih => simp [ih]
  | case4 piece pieces full ih => simp [ih]
  | case5 held piece pieces full some rest whole alone =>
      have cut := List.take_append_drop (room - held.length) piece
      have joined : held ++ (piece.take (room - held.length) ++ rest) = held ++ piece := by rw [cut]
      split
      · rw [List.flatten_cons, whole, List.flatten_cons, List.append_assoc, ← List.append_assoc _ rest,
          ← List.append_assoc, joined, List.append_assoc]
      · rw [List.flatten_cons, List.flatten_cons, alone, List.flatten_cons, List.nil_append, List.append_assoc,
          ← List.append_assoc _ rest, ← List.append_assoc, joined, List.append_assoc]

theorem Program.flatten_pieces (p : Program) : p.pieces.flatten = p.text := by
  have line (f : Function) : (f.textLines.map (· ++ [Bytes.newline])).flatten = unlines f.textLines := rfl
  rw [pieces, text, Bytes.join]
  induction p.functions with
  | nil => rfl
  | cons f functions ih =>
      cases functions with
      | nil => rw [List.map_singleton, List.intercalate_singleton, line, List.map_singleton, List.intercalate_singleton]
      | cons g functions =>
          simp only [List.map_cons, List.intercalate_cons_cons, List.flatten_append] at ih ⊢
          rw [ih, line]
          rfl

/-- What a file holds into which some texts are put at a time, of each so many bytes so far. The file was emptied last
for one of them, and holds no fewer bytes than were put of that. It is no longer than what was put of some text. Every
byte is one of some text at its place, or lies behind all that was put of the text it was emptied for, and is zero. -/
def Woven (put : Bytes → Nat → Prop) (content : Bytes) : Prop :=
  ∃ text count, put text count ∧ count ≤ content.length ∧
    (content = [] ∨ ∃ other more, put other more ∧ content.length ≤ more) ∧
    ∀ i b, content[i]? = some b → (∃ other more, put other more ∧ i < more ∧ other[i]? = some b) ∨ b = 0 ∧ count ≤ i

namespace Woven

variable {put put' : Bytes → Nat → Prop} {content text : Bytes}

theorem mono (woven : Woven put content) (all : ∀ text count, put text count → put' text count) :
    Woven put' content := by
  obtain ⟨text, count, winner, covered, short, bytes⟩ := woven
  refine ⟨text, count, all _ _ winner, covered, ?_, ?_⟩
  · rcases short with empty | ⟨other, more, other', long⟩
    · exact .inl empty
    · exact .inr ⟨other, more, all _ _ other', long⟩
  · intro i b found
    rcases bytes i b found with ⟨other, more, other', before, has⟩ | hole
    · exact .inl ⟨other, more, all _ _ other', before, has⟩
    · exact .inr hole

theorem emptied (text : Bytes) (opened : put text 0) : Woven put [] :=
  ⟨text, 0, opened, Nat.zero_le _, .inl rfl, fun i b found => by simp at found⟩

theorem splice {front piece back : Bytes} (woven : Woven put content) (split : text = front ++ piece ++ back)
    (now : put' text (front.length + piece.length))
    (others : ∀ other more, put other more → put' other more ∨ other = text ∧ more = front.length) :
    Woven put' (Bytes.splice content front.length piece) := by
  by_cases none : piece = []
  · subst none
    have all (other : Bytes) (more : Nat) (before : put other more) : put' other more := by
      rcases others other more before with still | ⟨rfl, rfl⟩
      · exact still
      · exact now
    exact woven.mono all
  · obtain ⟨first, count, winner, covered, short, bytes⟩ := woven
    have size := Bytes.length_splice content front.length none
    -- Whom the file was emptied for stays the same, and if it is the one that gets on, it leaves no gap.
    obtain ⟨count', winner', covered', gaps⟩ : ∃ count', put' first count' ∧
        count' ≤ max content.length (front.length + piece.length) ∧
        ∀ i, count ≤ i → i < front.length ∨ front.length + piece.length ≤ i → count' ≤ i := by
      rcases others first count winner with still | ⟨rfl, rfl⟩
      · exact ⟨count, still, by omega, fun i behind _ => behind⟩
      · exact ⟨_, now, by omega, fun i behind beside => by omega⟩
    have kept (i : Nat) (b : UInt8) (beside : i < front.length ∨ front.length + piece.length ≤ i)
        (found : content[i]? = some b) :
        (∃ other more, put' other more ∧ i < more ∧ other[i]? = some b) ∨ b = 0 ∧ count' ≤ i := by
      rcases bytes i b found with ⟨other, more, before, less, has⟩ | ⟨zero, behind⟩
      · rcases others other more before with still | ⟨rfl, rfl⟩
        · exact .inl ⟨other, more, still, less, has⟩
        · exact .inl ⟨other, _, now, by omega, has⟩
      · exact .inr ⟨zero, gaps i behind beside⟩
    refine ⟨first, count', winner', by rw [size]; exact covered', .inr ?_, ?_⟩
    · rw [size]
      by_cases longer : content.length ≤ front.length + piece.length
      · exact ⟨text, _, now, by omega⟩
      · rcases short with rfl | ⟨other, more, before, long⟩
        · simp at longer
        · rcases others other more before with still | ⟨_, rfl⟩
          · exact ⟨other, more, still, by omega⟩
          · omega
    · intro i b found
      by_cases before : i < front.length
      · rw [Bytes.getElem?_splice_before none before] at found
        cases old : content[i]? with
        | some _ => exact kept i b (.inl before) (by rwa [old] at found ⊢)
        | none =>
            rw [old] at found
            cases found
            exact .inr ⟨rfl, gaps i (Nat.le_trans covered (List.getElem?_eq_none_iff.1 old)) (.inl before)⟩
      · by_cases within : i < front.length + piece.length
        · rw [Bytes.getElem?_splice_inside (Nat.le_of_not_lt before) within] at found
          refine .inl ⟨text, _, now, within, ?_⟩
          rw [split, List.append_assoc, List.getElem?_append_right (Nat.le_of_not_lt before),
            List.getElem?_append_left (by omega), found]
        · rw [Bytes.getElem?_splice_after (Nat.le_of_not_lt within)] at found
          exact kept i b (.inr (Nat.le_of_not_lt within)) found

theorem eq_of_same (woven : Woven put content)
    (same : ∀ other more, put other more → other = text ∧ more = text.length) : content = text := by
  obtain ⟨first, count, winner, covered, short, bytes⟩ := woven
  obtain ⟨rfl, rfl⟩ := same _ _ winner
  have length : content.length = first.length := by
    rcases short with rfl | ⟨other, more, before, long⟩
    · simp only [List.length_nil] at covered ⊢
      omega
    · obtain ⟨_, rfl⟩ := same _ _ before
      omega
  apply List.ext_getElem? fun i => ?_
  cases found : content[i]? with
  | none => exact (List.getElem?_eq_none (length ▸ List.getElem?_eq_none_iff.1 found)).symm
  | some b =>
      rcases bytes i b found with ⟨other, more, before, _, has⟩ | ⟨_, behind⟩
      · obtain ⟨rfl, _⟩ := same _ _ before
        exact has.symm
      · obtain ⟨inside, _⟩ := List.getElem?_eq_some_iff.1 found
        omega

end Woven

end Deadwood

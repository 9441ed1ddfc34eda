import Deadwood.Proofs.Program.Grammar

/-!
Where a text is refused. The reader goes on exactly as long as some more lines would make the text a program: a refused
text is blamed for the first line after which none would, and only one that lacks nothing but its end for its last line.
-/

namespace Deadwood

open Bytes

namespace Reader

open ProgramText

def Place.Completes : Place → List Bytes → Prop
  | .outside => Sections
  | .beforeHeader => Opened
  | .inside _ _ => Inside

theorem step_of_not_counts {line : Bytes} (skipped : ¬Counts line) (s : State) (number : Nat) :
    step s number line = .ok s := by
  simp only [Counts, not_or, not_and, Decidable.not_not] at skipped
  rcases skipped with ⟨start, finish, comment⟩
  rw [step]
  split
  · rfl
  · rename_i present
    rw [if_pos (comment present)]

theorem mapM_fault {α β : Type} {step : α → Except LineFault β} {list : List α} {fault : LineFault}
    (refused : list.mapM step = .error fault) : ∃ a ∈ list, step a = .error fault := by
  induction list with
  | nil => cases refused
  | cons a list ih =>
      rw [List.mapM_cons] at refused
      cases first : step a with
      | error other =>
          rw [first] at refused
          cases refused
          exact ⟨a, List.mem_cons_self, first⟩
      | ok b =>
          rw [first] at refused
          cases rest : list.mapM step with
          | ok found =>
              rw [rest] at refused
              cases refused
          | error other =>
              rw [rest] at refused
              cases refused
              rcases ih rest with ⟨c, member, fails⟩
              exact ⟨c, List.mem_cons_of_mem a member, fails⟩

theorem function_fault {line : Bytes} {fault : LineFault} (refused : function line = .error fault) :
    fault ≠ .unfinished := by
  rintro rfl
  rw [function] at refused
  split at refused
  · cases refused
  · rename_i type name params _
    cases taken : params.items.mapM param with
    | ok found =>
        rw [taken] at refused
        cases refused
    | error fault =>
        rw [taken] at refused
        cases refused
        rcases mapM_fault taken with ⟨item, _, fails⟩
        rw [param] at fails
        split at fails <;> cases fails

theorem operands_fault {arrays : List Bytes} {op : Opcode} {index : Nat} {names : List Bytes} {fault : LineFault}
    (refused : operands arrays op index names = .error fault) : fault ≠ .unfinished := by
  induction names generalizing index with
  | nil => cases refused
  | cons name names ih =>
      rw [operands] at refused
      split at refused
      · cases refused
        exact LineFault.noConfusion
      · cases rest : operands arrays op (index + 1) names with
        | ok found =>
            rw [rest] at refused
            cases refused
        | error fault =>
            rw [rest] at refused
            cases refused
            exact ih rest

theorem bodyLine_fault {f : Function} {arrays : List Bytes} {number : Nat} {line : Bytes} {fault : LineFault}
    (refused : bodyLine f arrays number line = .error fault) : fault ≠ .unfinished := by
  rw [bodyLine] at refused
  split at refused
  · cases refused
  · split at refused
    · cases refused
    · split at refused
      · cases refused
      · rw [instruction] at refused
        split at refused
        · cases refused
          exact LineFault.noConfusion
        · rename_i op _
          split at refused
          · cases taken : operands arrays op 0 (parts line).tail with
            | ok found =>
                rw [taken] at refused
                cases refused
            | error fault =>
                rw [taken] at refused
                cases refused
                exact operands_fault taken
          · cases refused
            exact LineFault.noConfusion

/-- What the reader says of a line is right: it goes on exactly as well as before, or it cannot go on. -/
def Right (before : Prop) (after : Place → Prop) : Except LineFault State → Prop
  | .ok t => before ↔ after t.place
  | .error fault => ¬before ∧ fault ≠ .unfinished

section

variable (s : State) (number : Nat) (rest : List Bytes)

theorem step_start_right :
    Right (s.place.Completes (Marker.start :: rest)) (·.Completes rest) (step s number Marker.start) := by
  rcases s with ⟨place, finished⟩
  cases place with
  | outside => exact sections_cons_iff.trans (and_iff_right rfl)
  | beforeHeader =>
      refine ⟨?_, LineFault.noConfusion⟩
      intro opened
      exact not_isHeader_marker (.inl rfl) (opened_cons_iff.1 opened).1
  | inside f arrays =>
      refine ⟨?_, LineFault.noConfusion⟩
      intro inside
      rcases inside_cons_iff.1 inside with ⟨body, _⟩ | ⟨same, _⟩
      · exact not_isBodyLine_marker (.inl rfl) body
      · exact absurd same (by decide)

theorem step_finish_right :
    Right (s.place.Completes (Marker.finish :: rest)) (·.Completes rest) (step s number Marker.finish) := by
  rcases s with ⟨place, finished⟩
  cases place with
  | outside =>
      refine ⟨?_, LineFault.noConfusion⟩
      intro sections
      exact absurd (sections_cons_iff.1 sections).1 (by decide)
  | beforeHeader =>
      refine ⟨?_, LineFault.noConfusion⟩
      intro opened
      exact not_isHeader_marker (.inr rfl) (opened_cons_iff.1 opened).1
  | inside f arrays =>
      have noBody : ¬(IsBodyLine Marker.finish ∧ Inside rest) := fun body => not_isBodyLine_marker (.inr rfl) body.1
      exact inside_cons_iff.trans ((or_iff_right noBody).trans (and_iff_right rfl))

theorem step_ink_right {line : Bytes} (ink : line ≠ []) (code : line.head? ≠ some 35) :
    Right (s.place.Completes (line :: rest)) (·.Completes rest) (step s number line) := by
  rw [step_ink _ _ ink code]
  cases s.place with
  | outside =>
      refine ⟨?_, LineFault.noConfusion⟩
      intro sections
      rw [(sections_cons_iff.1 sections).1] at code
      exact code rfl
  | beforeHeader =>
      have header := exists_function_iff line
      cases read : function line with
      | ok f => exact opened_cons_iff.trans (and_iff_right (header.1 ⟨f, read⟩))
      | error fault =>
          refine ⟨?_, function_fault read⟩
          intro opened
          rcases header.2 (opened_cons_iff.1 opened).1 with ⟨f, taken⟩
          rw [read] at taken
          cases taken
  | inside f arrays =>
      have body := exists_bodyLine_iff f arrays number line
      have unfinished : ¬(line = Marker.finish ∧ Sections rest) := by
        rintro ⟨rfl, _⟩
        exact code rfl
      have inside : Inside (line :: rest) ↔ IsBodyLine line ∧ Inside rest :=
        inside_cons_iff.trans (or_iff_left unfinished)
      dsimp only
      cases read : bodyLine f arrays number line with
      | ok place =>
          have here := body.1 ⟨place, read⟩
          rcases bodyLine_cases read with ⟨f', arrays', rfl, _⟩
          exact inside.trans (and_iff_right here)
      | error fault =>
          refine ⟨?_, bodyLine_fault read⟩
          intro given
          rcases body.2 (inside.1 given).1 with ⟨place, taken⟩
          rw [read] at taken
          cases taken

theorem step_right {line : Bytes} (counts : Counts line) :
    Right (s.place.Completes (line :: rest)) (·.Completes rest) (step s number line) := by
  rcases counts with rfl | rfl | ⟨ink, code⟩
  · exact step_start_right s number rest
  · exact step_finish_right s number rest
  · exact step_ink_right s number rest ink code

theorem line_right {line : Bytes} (short : line.length ≤ lineLimit) (lines : List Bytes) :
    Right (Accepts s.place.Completes (line :: lines)) (fun place => Accepts place.Completes lines)
      (step s number (withoutReturn line).trim) := by
  have limited : line.length < 65536 := Nat.lt_succ_of_le short
  have accepts {language language' : List Bytes → Prop}
      (same : language (counting (line :: lines)) ↔ language' (counting lines)) :
      Accepts language (line :: lines) ↔ Accepts language' lines := by
    constructor
    · intro given
      exact ⟨fun other member => given.short other (List.mem_cons_of_mem line member), same.1 given.counted⟩
    · intro given
      exact ⟨List.forall_mem_cons.2 ⟨limited, given.short⟩, same.2 given.counted⟩
  rw [trim_withoutReturn]
  by_cases counts : Counts line.trim
  · have right := step_right s number (counting lines) counts
    rw [← counting_cons_of_counts counts] at right
    cases taken : step s number line.trim with
    | ok t =>
        rw [taken] at right
        exact accepts right
    | error fault =>
        rw [taken] at right
        exact ⟨fun given => right.1 given.counted, right.2⟩
  · rw [step_of_not_counts counts]
    exact accepts (by rw [counting_cons_of_not_counts counts])

end

theorem accepts_nil {language : List Bytes → Prop} : Accepts language [] ↔ language [] := by
  constructor
  · intro accepts
    exact accepts.counted
  · intro holds
    exact ⟨by simp, holds⟩

theorem not_accepts_of_long {language : List Bytes → Prop} {line : Bytes} {lines : List Bytes}
    (long : lineLimit < line.length) (member : line ∈ lines) : ¬Accepts language lines :=
  fun accepts => Nat.not_le_of_lt (accepts.short line member) long

theorem exists_run_iff (s : State) (number : Nat) (lines : List Bytes) :
    (∃ p, run s number lines = .ok p) ↔ Accepts s.place.Completes lines := by
  have failed (e : ReadError) : ¬∃ p : Program, Except.error e = .ok p := by
    rintro ⟨p, same⟩
    cases same
  induction lines generalizing s number with
  | nil =>
      rw [accepts_nil, run]
      cases s.place with
      | outside => exact iff_of_true ⟨_, rfl⟩ .nil
      | beforeHeader => exact iff_of_false (failed _) not_opened_nil
      | inside f arrays => exact iff_of_false (failed _) not_inside_nil
  | cons line lines ih =>
      rw [run]
      split
      · rename_i long
        exact iff_of_false (failed _) (not_accepts_of_long long List.mem_cons_self)
      · rename_i short
        have right := line_right s (number + 1) (Nat.le_of_not_lt short) lines
        cases taken : step s (number + 1) (withoutReturn line).trim with
        | ok t =>
            rw [taken] at right
            exact (ih t (number + 1)).trans right.symm
        | error fault =>
            rw [taken] at right
            exact iff_of_false (failed _) right.1

theorem proceeds_nil (place : Place) : Proceeds place.Completes [] := by
  cases place with
  | outside => exact ⟨[], (exists_run_iff {} 0 []).1 ⟨_, rfl⟩⟩
  | beforeHeader =>
      have read : run ⟨.beforeHeader, []⟩ 0 [bytes "void f():", Marker.finish] =
          .ok ⟨[{ name := bytes "f", returnType := bytes "void" }]⟩ := by decide +kernel
      exact ⟨_, (exists_run_iff _ 0 _).1 ⟨_, read⟩⟩
  | inside f arrays =>
      have read : run ⟨.inside {} [], []⟩ 0 [Marker.finish] = .ok ⟨[{}]⟩ := by decide +kernel
      exact ⟨_, (exists_run_iff _ 0 _).1 ⟨_, read⟩⟩

theorem run_error {s : State} {number : Nat} {lines : List Bytes} {e : ReadError}
    (refused : run s number lines = .error e) :
    (∃ front line, Stops s.place.Completes lines front line ∧ lineLimit < line.length ∧ e = .lineTooLong) ∨
      (∃ front line fault, Stops s.place.Completes lines front line ∧ line.length ≤ lineLimit ∧ fault ≠ .unfinished ∧
        e = .at (number + front.length + 1) fault) ∨
      Proceeds s.place.Completes lines ∧ ¬Accepts s.place.Completes lines ∧
        e = .at (number + lines.length) .unfinished := by
  induction lines generalizing s number with
  | nil =>
      have unfinished : ¬Accepts s.place.Completes [] := by
        rw [← exists_run_iff s number, refused]
        rintro ⟨p, same⟩
        cases same
      refine .inr (.inr ⟨proceeds_nil s.place, unfinished, ?_⟩)
      rw [run] at refused
      split at refused
      · cases refused
      · cases refused
        rfl
  | cons line lines ih =>
      rw [run] at refused
      split at refused
      · rename_i long
        cases refused
        refine .inl ⟨[], line, ⟨⟨lines, rfl⟩, proceeds_nil s.place, ?_⟩, long, rfl⟩
        rintro ⟨more, accepts⟩
        exact not_accepts_of_long long List.mem_cons_self accepts
      · rename_i short
        have short := Nat.le_of_not_lt short
        have right (more : List Bytes) := line_right s (number + 1) short more
        cases taken : step s (number + 1) (withoutReturn line).trim with
        | error fault =>
            rw [taken] at refused right
            cases refused
            refine .inr (.inl ⟨[], line, fault, ⟨⟨lines, rfl⟩, proceeds_nil s.place, ?_⟩, short, (right []).2, rfl⟩)
            rintro ⟨more, accepts⟩
            exact (right more).1 accepts
        | ok t =>
            rw [taken] at refused right
            have proceeds (more : List Bytes) :
                Proceeds s.place.Completes (line :: more) ↔ Proceeds t.place.Completes more :=
              exists_congr fun further => right (more ++ further)
            have stops {front : List Bytes} {last : Bytes} (later : Stops t.place.Completes lines front last) :
                Stops s.place.Completes (line :: lines) (line :: front) last :=
              ⟨List.cons_prefix_cons.2 ⟨rfl, later.here⟩, (proceeds front).2 later.before,
                fun further => later.after ((proceeds (front ++ [last])).1 further)⟩
            rcases ih refused with ⟨front, last, later, long, same⟩ | ⟨front, last, fault, later, brief, known, same⟩ |
              ⟨further, unfinished, same⟩
            · exact .inl ⟨line :: front, last, stops later, long, same⟩
            · refine .inr (.inl ⟨line :: front, last, fault, stops later, brief, known, ?_⟩)
              rw [same, List.length_cons]
              congr 1
              omega
            · refine .inr (.inr ⟨(proceeds lines).2 further, fun accepts => unfinished ((right lines).1 accepts), ?_⟩)
              rw [same, List.length_cons]
              congr 1
              omega

theorem refused_of_not_accepts {s : State} {lines : List Bytes} (refused : ¬Accepts s.place.Completes lines)
    (number : Nat) : ∃ e, run s number lines = .error e := by
  rw [← exists_run_iff s number] at refused
  cases read : run s number lines with
  | ok p => exact absurd ⟨p, read⟩ refused
  | error e => exact ⟨e, rfl⟩

theorem run_of_stops {s : State} {lines front : List Bytes} {line : Bytes}
    (stops : Stops s.place.Completes lines front line) (number : Nat) :
    (lineLimit < line.length ∧ run s number lines = .error .lineTooLong) ∨
      line.length ≤ lineLimit ∧ ∃ fault, fault ≠ .unfinished ∧
        run s number lines = .error (.at (number + front.length + 1) fault) := by
  have refused : ¬Accepts s.place.Completes lines :=
    fun accepts => stops.not_proceeds ⟨[], (List.append_nil lines).symm ▸ accepts⟩
  rcases refused_of_not_accepts refused number with ⟨e, read⟩
  rcases run_error read with ⟨_, _, other, long, rfl⟩ | ⟨_, _, fault, other, short, known, rfl⟩ | ⟨proceeds, _⟩
  · rcases stops.unique other with ⟨rfl, rfl⟩
    exact .inl ⟨long, read⟩
  · rcases stops.unique other with ⟨rfl, rfl⟩
    exact .inr ⟨short, fault, known, read⟩
  · exact absurd proceeds stops.not_proceeds

end Reader

namespace Program

open ProgramText Reader

/-- A text is read exactly if no line is too long and the lines that count form functions. A text that is not is blamed
for the first line after which it could not be completed, and without a number if that line is too long. A text that
could be completed lacks the end of a function, and its last line is blamed. -/
theorem read_iff_sections (source : Bytes) :
    ((∃ p, Program.read source = .ok p) ↔ Accepts Sections source.lines) ∧
      (Program.read source = .error .lineTooLong ↔
        ∃ front line, Stops Sections source.lines front line ∧ 65536 ≤ line.length) ∧
      (∀ n, (∃ fault, fault ≠ .unfinished ∧ Program.read source = .error (.at n fault)) ↔
        ∃ front line, Stops Sections source.lines front line ∧ line.length < 65536 ∧ n = front.length + 1) ∧
      ∀ n, Program.read source = .error (.at n .unfinished) ↔
        Proceeds Sections source.lines ∧ ¬Accepts Sections source.lines ∧ n = source.lines.length := by
  rw [Program.read]
  generalize source.lines = lines
  refine ⟨exists_run_iff {} 0 lines, ?_, fun n => ?_, fun n => ?_⟩
  · constructor
    · intro refused
      rcases run_error refused with ⟨front, line, stops, long, _⟩ | ⟨_, _, _, _, _, _, same⟩ | ⟨_, _, same⟩
      · exact ⟨front, line, stops, long⟩
      · cases same
      · cases same
    · rintro ⟨front, line, stops, long⟩
      rcases run_of_stops (s := {}) stops 0 with ⟨_, refused⟩ | ⟨short, _⟩
      · exact refused
      · exact absurd long (Nat.not_le_of_lt (Nat.lt_succ_of_le short))
  · constructor
    · rintro ⟨fault, known, refused⟩
      rcases run_error refused with ⟨_, _, _, _, same⟩ | ⟨front, line, _, stops, short, _, same⟩ | ⟨_, _, same⟩
      · cases same
      · cases same
        exact ⟨front, line, stops, Nat.lt_succ_of_le short, by omega⟩
      · cases same
        exact absurd rfl known
    · rintro ⟨front, line, stops, short, rfl⟩
      rcases run_of_stops (s := {}) stops 0 with ⟨long, _⟩ | ⟨_, fault, known, refused⟩
      · exact absurd long (Nat.not_lt_of_le (Nat.le_of_lt_succ short))
      · exact ⟨fault, known, Nat.zero_add front.length ▸ refused⟩
  · constructor
    · intro refused
      rcases run_error refused with ⟨_, _, _, _, same⟩ | ⟨_, _, _, _, _, known, same⟩ | ⟨proceeds, unfinished, same⟩
      · cases same
      · cases same
        exact absurd rfl known
      · cases same
        exact ⟨proceeds, unfinished, Nat.zero_add lines.length⟩
    · rintro ⟨proceeds, unfinished, rfl⟩
      rcases refused_of_not_accepts (s := {}) unfinished 0 with ⟨e, refused⟩
      rcases run_error refused with ⟨_, _, stops, _⟩ | ⟨_, _, _, stops, _⟩ | ⟨_, _, rfl⟩
      · exact absurd proceeds stops.not_proceeds
      · exact absurd proceeds stops.not_proceeds
      · exact Nat.zero_add lines.length ▸ refused

end Program

end Deadwood

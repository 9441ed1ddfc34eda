import Deadwood.Program.Reader
import Deadwood.Proofs.Flow.Edges
import Deadwood.Proofs.Text.Pieces

/-! What programs that were read from text have in common: whatever a header gives a function and its body keeps. -/

namespace Deadwood

namespace Reader

structure Telling (line : Bytes) : Prop extends line.Trimmed where
  newline : Bytes.newline ∉ line
  ink : line ≠ []
  code : line.head? ≠ some 35

theorem step_ink (s : State) (number : Nat) {line : Bytes} (ink : line ≠ []) (code : line.head? ≠ some 35) :
    step s number line = match s.place with
      | .outside => .error (.outside line)
      | .beforeHeader => (function line).map fun f => { s with place := .inside f (arrayParams f.params) }
      | .inside f arrays => (bodyLine f arrays number line).map fun place => { s with place } := by
  have start : line ≠ Marker.start := by
    rintro rfl
    exact code rfl
  have finish : line ≠ Marker.finish := by
    rintro rfl
    exact code rfl
  unfold step
  refine (if_neg ink).trans ((if_neg start).trans ((if_neg finish).trans ((if_neg code).trans ?_)))
  cases s.place <;> rfl

theorem step_cases {s t : State} {number : Nat} {line : Bytes} (taken : step s number line = .ok t) :
    t = s ∨ s.place = .outside ∧ t = { s with place := .beforeHeader } ∨
      (∃ f arrays, s.place = .inside f arrays ∧ t = ⟨.outside, s.finished ++ [f]⟩) ∨
      line ≠ [] ∧ line.head? ≠ some 35 ∧
        ((∃ f, s.place = .beforeHeader ∧ function line = .ok f ∧
            t = { s with place := .inside f (arrayParams f.params) }) ∨
          ∃ f arrays place, s.place = .inside f arrays ∧ bodyLine f arrays number line = .ok place ∧
            t = { s with place }) := by
  rw [step] at taken
  split at taken
  · exact .inl (Except.ok.inj taken).symm
  · rename_i ink
    split at taken
    · split at taken
      · rename_i outside
        exact .inr (.inl ⟨outside, (Except.ok.inj taken).symm⟩)
      · cases taken
    · split at taken
      · split at taken
        · cases taken
        · cases taken
        · rename_i f arrays inside
          exact .inr (.inr (.inl ⟨f, arrays, inside, (Except.ok.inj taken).symm⟩))
      · split at taken
        · exact .inl (Except.ok.inj taken).symm
        · rename_i code
          refine .inr (.inr (.inr ⟨ink, code, ?_⟩))
          split at taken
          · cases taken
          · rename_i before
            rcases Except.map_eq_ok.1 taken with ⟨f, opens, rfl⟩
            exact .inl ⟨f, before, opens, rfl⟩
          · rename_i f arrays inside
            rcases Except.map_eq_ok.1 taken with ⟨place, grows, rfl⟩
            exact .inr ⟨f, arrays, place, inside, grows, rfl⟩

theorem bodyLine_cases {f : Function} {arrays : List Bytes} {number : Nat} {line : Bytes} {place : Place}
    (grows : bodyLine f arrays number line = .ok place) :
    ∃ f' arrays', place = .inside f' arrays' ∧
      (f'.body = f.body ∨ ∃ i : Instruction, i.line = number ∧ f'.body = f.body ++ [i]) := by
  rw [bodyLine] at grows
  split at grows
  · cases grows
    exact ⟨_, _, rfl, .inl rfl⟩
  · split at grows
    · cases grows
      exact ⟨_, _, rfl, .inl rfl⟩
    · split at grows
      · cases grows
        exact ⟨_, _, rfl, .inr ⟨_, rfl, rfl⟩⟩
      · rcases Except.map_eq_ok.1 grows with ⟨i, taken, rfl⟩
        rw [instruction] at taken
        split at taken
        · cases taken
        · split at taken
          · rcases Except.map_eq_ok.1 taken with ⟨found, _, rfl⟩
            exact ⟨_, _, rfl, .inr ⟨_, rfl, rfl⟩⟩
          · cases taken

def Place.All (property : Function → Prop) : Place → Prop
  | .inside f _ => property f
  | _ => True

structure State.All (property : Function → Prop) (s : State) : Prop where
  place : s.place.All property
  finished : ∀ f ∈ s.finished, property f

section

variable {property : Function → Prop} (opened : ∀ line f, Telling line → function line = .ok f → property f)
  (grown : ∀ f arrays number line place, Telling line → property f → bodyLine f arrays number line = .ok place →
    place.All property)

include opened grown

theorem step_all {s t : State} {number : Nat} {line : Bytes} (trimmed : line.Trimmed) (flat : Bytes.newline ∉ line)
    (all : s.All property) (read : step s number line = .ok t) : t.All property := by
  have place := all.place
  rcases step_cases read with rfl | ⟨_, rfl⟩ | ⟨f, arrays, inside, rfl⟩ | ⟨ink, code, further⟩
  · exact all
  · exact ⟨trivial, all.finished⟩
  · rw [inside] at place
    refine ⟨trivial, fun other member => ?_⟩
    rcases List.mem_append.1 member with before | last
    · exact all.finished other before
    · rwa [List.mem_singleton.1 last]
  · have telling : Telling line := ⟨trimmed, flat, ink, code⟩
    rcases further with ⟨f, _, opens, rfl⟩ | ⟨f, arrays, after, inside, taken, rfl⟩
    · exact ⟨opened line f telling opens, all.finished⟩
    · rw [inside] at place
      exact ⟨grown f arrays number line after telling place taken, all.finished⟩

theorem run_all {s : State} {number : Nat} {lines : List Bytes} {p : Program}
    (flat : ∀ line ∈ lines, Bytes.newline ∉ line) (all : s.All property) (read : run s number lines = .ok p) :
    ∀ f ∈ p.functions, property f := by
  induction lines generalizing s number with
  | nil =>
      rw [run] at read
      split at read
      · cases read
        exact all.finished
      · cases read
  | cons line rest ih =>
      rw [run] at read
      split at read
      · cases read
      · split at read
        · rename_i next taken
          have trimmed := Bytes.trimmed_trim (Bytes.withoutReturn line)
          have flat' : Bytes.newline ∉ (Bytes.withoutReturn line).trim := by
            intro member
            have kept := (Bytes.trim_sublist _).subset member
            rw [Bytes.withoutReturn] at kept
            split at kept
            · exact flat line List.mem_cons_self (List.mem_of_mem_dropLast kept)
            · exact flat line List.mem_cons_self kept
          exact ih (fun other member => flat other (List.mem_cons_of_mem line member))
            (step_all opened grown trimmed flat' all taken) read
        · cases read

theorem all_of_read {text : Bytes} {p : Program} (read : Program.read text = .ok p) :
    ∀ f ∈ p.functions, property f := by
  have nothing : State.All property {} := by
    refine ⟨trivial, ?_⟩
    intro f member
    cases member
  exact run_all opened grown (fun _ member => Bytes.newline_not_mem_of_mem_lines member) nothing read

end

end Reader

end Deadwood

import Deadwood.Proofs.Flow.Edges

/-!
The first look over a program. It accepts the programs whose function names, lines and labels are distinct, and of any
other it reports what comes twice first, in program order.
-/

namespace Deadwood

theorem Except.map_eq_error {ε α β : Type} {first : Except ε α} {change : α → β} {e : ε} :
    first.map change = .error e ↔ first = .error e := by
  cases first <;> simp [Except.map]

theorem Except.foldlM_eq_error {ε σ α : Type} {step : σ → α → Except ε σ} {s : σ} {list : List α} {e : ε} :
    list.foldlM step s = .error e ↔ ∃ front a back s', list = front ++ a :: back ∧ front.foldlM step s = .ok s' ∧
      step s' a = .error e := by
  constructor
  · intro failed
    induction list generalizing s with
    | nil => cases failed
    | cons a rest ih =>
        cases first : step s a with
        | error e' =>
            simp only [List.foldlM_cons, first, bind, Except.bind] at failed
            cases failed
            exact ⟨[], a, rest, s, rfl, rfl, first⟩
        | ok s' =>
            simp only [List.foldlM_cons, first, bind, Except.bind] at failed
            rcases ih failed with ⟨front, a', back, t, rfl, passed, refused⟩
            refine ⟨a :: front, a', back, t, rfl, ?_, refused⟩
            simp only [List.foldlM_cons, first, bind, Except.bind]
            exact passed
  · intro given
    rcases given with ⟨front, a, back, s', rfl, passed, refused⟩
    simp only [List.foldlM_append, List.foldlM_cons, passed, refused, bind, Except.bind]

def note (known : List (Bytes × Int) × List Int) (i : Instruction) :
    Except FlowError (List (Bytes × Int) × List Int) :=
  if i.line ∈ known.2 then .error (.duplicateLine i.line)
  else if i.op = .label then
    match known.1.lookup i.labelName with
    | some first => .error (.duplicateLabel i.line i.labelName first)
    | none => .ok ((i.labelName, i.line) :: known.1, i.line :: known.2)
  else .ok (known.1, i.line :: known.2)

def meet (known : List Bytes × List Int) (f : Function) : Except FlowError (List Bytes × List Int) :=
  if known.1.contains f.name then .error (.duplicateFunction f.name)
  else (scanBody [] known.2 f.body).map (f.name :: known.1, ·)

theorem meet_eq (known : List Bytes × List Int) (f : Function) :
    meet known f = if f.name ∈ known.1 then .error (.duplicateFunction f.name)
      else (scanBody [] known.2 f.body).map (f.name :: known.1, ·) := by
  simp only [meet, List.contains_iff_mem]

theorem scanBody_eq_foldlM (labels : List (Bytes × Int)) (seen : List Int) (body : List Instruction) :
    scanBody labels seen body = (body.foldlM note (labels, seen)).map (·.2) := by
  induction body generalizing labels seen with
  | nil => rfl
  | cons i rest ih =>
      rw [scanBody, List.foldlM_cons, note]
      split
      · rfl
      · split
        · dsimp only
          cases labels.lookup i.labelName with
          | some first => rfl
          | none => exact ih _ _
        · exact ih _ _

theorem scan_eq_foldlM (names : List Bytes) (seen : List Int) (functions : List Function) :
    scan names seen functions = (functions.foldlM meet (names, seen)).map fun _ => () := by
  induction functions generalizing names seen with
  | nil => rfl
  | cons f rest ih =>
      rw [scan, List.foldlM_cons, meet_eq]
      split
      · rfl
      · cases scanBody [] seen f.body with
        | error e => rfl
        | ok seen => exact ih _ _

def noted (body : List Instruction) : List (Bytes × Int) :=
  ((body.filter (·.op = .label)).map fun i => (i.labelName, i.line)).reverse

theorem mem_of_lookup_noted {body : List Instruction} {name : Bytes} {line : Int}
    (found : (noted body).lookup name = some line) :
    ∃ first ∈ body, first.op = .label ∧ first.labelName = name ∧ first.line = line := by
  rcases List.lookup_eq_some_iff.1 found with ⟨front, back, split, _⟩
  have member : (name, line) ∈ noted body := by simp [split]
  simpa [noted, and_assoc] using member

theorem lookup_noted {body : List Instruction} {first : Instruction}
    (distinct : ((body.filter (·.op = .label)).map (·.labelName)).Nodup) (member : first ∈ body)
    (label : first.op = .label) : (noted body).lookup first.labelName = some first.line := by
  cases found : (noted body).lookup first.labelName with
  | none =>
      have here : (first.labelName, first.line) ∈ noted body := by
        simp only [noted, List.mem_reverse, List.mem_map, List.mem_filter, decide_eq_true_eq]
        exact ⟨first, ⟨member, label⟩, rfl⟩
      have absent := List.lookup_eq_none_iff.1 found _ here
      simp at absent
  | some line =>
      rcases mem_of_lookup_noted found with ⟨other, member', label', same, rfl⟩
      have unique := List.inj_on_of_nodup_map distinct (List.mem_filter.2 ⟨member, by simp [label]⟩)
        (List.mem_filter.2 ⟨member', by simp [label']⟩) same.symm
      rw [unique]

theorem foldlM_note {labels : List (Bytes × Int)} {seen : List Int} {body : List Instruction}
    {known : List (Bytes × Int) × List Int} (passed : body.foldlM note (labels, seen) = .ok known) :
    known = (noted body ++ labels, (body.map (·.line)).reverse ++ seen) := by
  induction body generalizing labels seen with
  | nil =>
      cases passed
      rfl
  | cons i rest ih =>
      rw [List.foldlM_cons] at passed
      rcases Except.bind_eq_ok.1 passed with ⟨next, here, later⟩
      rw [note] at here
      split at here
      · cases here
      · split at here
        · rename_i label
          split at here
          · cases here
          · cases here
            rw [ih later]
            simp [noted, label]
        · rename_i other
          cases here
          rw [ih later]
          simp [noted, other]

theorem foldlM_meet {names : List Bytes} {seen : List Int} {functions : List Function}
    {known : List Bytes × List Int} (passed : functions.foldlM meet (names, seen) = .ok known) :
    known = ((functions.map (·.name)).reverse ++ names,
      ((functions.flatMap (·.body)).map (·.line)).reverse ++ seen) := by
  induction functions generalizing names seen with
  | nil =>
      cases passed
      rfl
  | cons f rest ih =>
      rw [List.foldlM_cons] at passed
      rcases Except.bind_eq_ok.1 passed with ⟨next, here, later⟩
      rw [meet_eq] at here
      split at here
      · cases here
      · rcases Except.map_eq_ok.1 here with ⟨found, body, rfl⟩
        rw [ih later, (scanBody_lines body).1]
        simp

theorem note_eq_error {labels : List (Bytes × Int)} {lines : List Int} {i : Instruction} {e : FlowError} :
    note (labels, lines) i = .error e ↔ (i.line ∈ lines ∧ e = .duplicateLine i.line) ∨
      (i.line ∉ lines ∧ i.op = .label ∧
        ∃ first, labels.lookup i.labelName = some first ∧ e = .duplicateLabel i.line i.labelName first) := by
  rw [note]
  by_cases old : i.line ∈ lines
  · simp [old, eq_comm]
  · by_cases label : i.op = .label
    · cases labels.lookup i.labelName <;> simp [old, label, eq_comm]
    · simp [old, label]

theorem meet_eq_error {names : List Bytes} {seen : List Int} {f : Function} {e : FlowError} :
    meet (names, seen) f = .error e ↔ (f.name ∈ names ∧ e = .duplicateFunction f.name) ∨
      (f.name ∉ names ∧ ∃ front i back known, f.body = front ++ i :: back ∧
        front.foldlM note ([], seen) = .ok known ∧ note known i = .error e) := by
  rw [meet_eq]
  by_cases old : f.name ∈ names
  · simp [old, eq_comm]
  · simp only [old, if_false, Except.map_eq_error, scanBody_eq_foldlM, Except.foldlM_eq_error]
    simp

namespace Program

def part (before : List Function) (f : Function) (front : List Instruction) : Program :=
  ⟨before ++ [{ f with body := front }]⟩

/-- What comes twice first in a program. All that stands before it is distinct; of an instruction the line counts
before the label. -/
inductive FirstRepeat (p : Program) : FlowError → Prop
  | function {before after : List Function} {f : Function} :
      p.functions = before ++ f :: after → Distinct ⟨before⟩ → f.name ∈ before.map (·.name) →
        FirstRepeat p (.duplicateFunction f.name)
  | line {before after : List Function} {f : Function} {front back : List Instruction} {i : Instruction} :
      p.functions = before ++ f :: after → f.body = front ++ i :: back → (part before f front).Distinct →
        i.line ∈ (part before f front).code.map (·.line) → FirstRepeat p (.duplicateLine i.line)
  | label {before after : List Function} {f : Function} {front back : List Instruction} {i first : Instruction} :
      p.functions = before ++ f :: after → f.body = front ++ i :: back → (part before f front).Distinct →
        i.line ∉ (part before f front).code.map (·.line) → i.op = .label →
          first ∈ front → first.op = .label → first.labelName = i.labelName →
            FirstRepeat p (.duplicateLabel i.line i.labelName first.line)

variable {p : Program} {before after : List Function} {f : Function} {front back : List Instruction}
  {i : Instruction} {e : FlowError}

theorem code_part (split : p.functions = before ++ f :: after) (body : f.body = front ++ i :: back) :
    p.code = (part before f front).code ++ i :: (back ++ after.flatMap (·.body)) := by
  simp [code, part, split, body]

theorem scan_part : scan [] [] (part before f front).functions = .ok () ↔
    ∃ names seen known, before.foldlM meet ([], []) = .ok (names, seen) ∧ f.name ∉ names ∧
      front.foldlM note ([], seen) = .ok known := by
  rw [scan_eq_foldlM, Except.map_eq_ok, part, List.foldlM_append]
  constructor
  · intro given
    rcases given with ⟨final, passed, _⟩
    rcases Except.bind_eq_ok.1 passed with ⟨⟨names, seen⟩, earlier, last⟩
    rcases Except.bind_eq_ok.1 last with ⟨known, met, _⟩
    rw [meet_eq] at met
    split at met
    · cases met
    · rename_i fresh
      rcases Except.map_eq_ok.1 met with ⟨found, body, _⟩
      rw [scanBody_eq_foldlM] at body
      rcases Except.map_eq_ok.1 body with ⟨known, walked, _⟩
      exact ⟨names, seen, known, earlier, fresh, walked⟩
  · intro given
    rcases given with ⟨names, seen, known, earlier, fresh, walked⟩
    refine ⟨(f.name :: names, known.2), ?_, rfl⟩
    rw [earlier]
    simp [meet_eq, fresh, scanBody_eq_foldlM, walked, bind, Except.bind, Except.map, pure, Except.pure]

theorem scan_eq_error : scan [] [] p.functions = .error e ↔
    ∃ before f after names seen, p.functions = before ++ f :: after ∧ before.foldlM meet ([], []) = .ok (names, seen) ∧
      ((f.name ∈ names ∧ e = .duplicateFunction f.name) ∨
        (f.name ∉ names ∧ ∃ front i back known, f.body = front ++ i :: back ∧
          front.foldlM note ([], seen) = .ok known ∧ note known i = .error e)) := by
  rw [scan_eq_foldlM, Except.map_eq_error, Except.foldlM_eq_error]
  simp only [Prod.exists, meet_eq_error]

theorem mem_names_of_met {names : List Bytes} {seen : List Int}
    (earlier : before.foldlM meet ([], []) = .ok (names, seen)) {name : Bytes} :
    name ∈ names ↔ name ∈ before.map (·.name) := by
  rw [(Prod.mk.inj (foldlM_meet earlier)).1]
  simp

theorem known_of_walked {names : List Bytes} {seen lines : List Int} {labels : List (Bytes × Int)}
    (earlier : before.foldlM meet ([], []) = .ok (names, seen))
    (walked : front.foldlM note ([], seen) = .ok (labels, lines)) :
    labels = noted front ∧ ∀ line, line ∈ lines ↔ line ∈ (part before f front).code.map (·.line) := by
  rcases Prod.mk.inj (foldlM_note walked) with ⟨rfl, rfl⟩
  refine ⟨List.append_nil _, ?_⟩
  intro line
  rw [(Prod.mk.inj (foldlM_meet earlier)).2]
  simp [part, code, or_comm]

theorem firstRepeat_of_scan (refused : scan [] [] p.functions = .error e) : p.FirstRepeat e := by
  rcases scan_eq_error.1 refused with ⟨before, f, after, names, seen, split, earlier, failed⟩
  rcases failed with ⟨old, rfl⟩ | ⟨fresh, front, i, back, ⟨labels, lines⟩, body, walked, failed⟩
  · refine .function split (distinct_of_scan ?_) ((mem_names_of_met earlier).1 old)
    rw [scan_eq_foldlM, earlier]
    rfl
  · have distinct : (part before f front).Distinct :=
      distinct_of_scan (scan_part.2 ⟨names, seen, _, earlier, fresh, walked⟩)
    rcases @known_of_walked _ f _ _ _ _ _ earlier walked with ⟨rfl, known⟩
    rcases note_eq_error.1 failed with ⟨old, rfl⟩ | ⟨new, label, line, found, rfl⟩
    · exact .line split body distinct ((known _).1 old)
    · rcases mem_of_lookup_noted found with ⟨first, member, op, same, rfl⟩
      exact .label split body distinct (mt (known _).2 new) label member op same

theorem FirstRepeat.lines_repeat {line : Int} (repeats : p.FirstRepeat (.duplicateLine line)) :
    ¬(p.code.map (·.line)).Nodup := by
  intro nodup
  cases repeats with
  | line split body _ old =>
      rw [code_part split body, List.map_append, List.map_cons] at nodup
      exact List.disjoint_of_nodup_append nodup old List.mem_cons_self

theorem FirstRepeat.not_distinct (repeats : p.FirstRepeat e) : ¬p.Distinct := by
  intro distinct
  cases repeats with
  | function split _ old =>
      have names := distinct.names
      rw [split, List.map_append, List.map_cons] at names
      exact List.disjoint_of_nodup_append names old List.mem_cons_self
  | line split body before old => exact (FirstRepeat.line split body before old).lines_repeat distinct.lines
  | @label before after f front back i first split body _ _ op member op' same =>
      have function : f ∈ p.functions := by simp [split]
      have nodup := distinct.body_nodup function
      have unique : first = i := distinct.label_eq function (by simp [body, member]) (by simp [body]) op' op same
      rw [body] at nodup
      exact List.disjoint_of_nodup_append nodup (unique ▸ member) List.mem_cons_self

theorem FirstRepeat.inhabited (repeats : p.FirstRepeat e) : p.functions ≠ [] := by
  intro none
  cases repeats with
  | function split => simp [none] at split
  | line split => simp [none] at split
  | label split => simp [none] at split

theorem Distinct.scan_eq (distinct : p.Distinct) : scan [] [] p.functions = .ok () := by
  cases found : scan [] [] p.functions with
  | ok _ => rfl
  | error e => exact ((firstRepeat_of_scan found).not_distinct distinct).elim

theorem scan_eq_error_iff : scan [] [] p.functions = .error e ↔ p.FirstRepeat e := by
  refine ⟨firstRepeat_of_scan, ?_⟩
  intro repeats
  rw [scan_eq_error]
  cases repeats with
  | @function before after f split distinct old =>
      have accepted := distinct.scan_eq
      rw [scan_eq_foldlM] at accepted
      rcases Except.map_eq_ok.1 accepted with ⟨⟨names, seen⟩, earlier, _⟩
      exact ⟨before, f, after, names, seen, split, earlier, .inl ⟨(mem_names_of_met earlier).2 old, rfl⟩⟩
  | @line before after f front back i split body distinct old =>
      rcases scan_part.1 distinct.scan_eq with ⟨names, seen, ⟨labels, lines⟩, earlier, fresh, walked⟩
      refine ⟨before, f, after, names, seen, split, earlier, .inr ⟨fresh, front, i, back, _, body, walked, ?_⟩⟩
      exact note_eq_error.2 (.inl ⟨((known_of_walked earlier walked).2 _).2 old, rfl⟩)
  | @label before after f front back i first split body distinct new op member op' same =>
      rcases scan_part.1 distinct.scan_eq with ⟨names, seen, ⟨labels, lines⟩, earlier, fresh, walked⟩
      refine ⟨before, f, after, names, seen, split, earlier, .inr ⟨fresh, front, i, back, _, body, walked, ?_⟩⟩
      rcases @known_of_walked _ f _ _ _ _ _ earlier walked with ⟨rfl, known⟩
      -- The labels so far are distinct, so the one that is found is this one.
      have labels : ((front.filter (·.op = .label)).map (·.labelName)).Nodup :=
        distinct.labels { f with body := front } (by simp [part])
      have found := lookup_noted labels member op'
      rw [same] at found
      exact note_eq_error.2 (.inr ⟨mt (known _).1 new, op, first.line, found, rfl⟩)

end Program

end Deadwood

import Deadwood.Proofs.Session.Caching
import Mathlib.Data.Nat.Find

/-!
What a limit on passes does. The passes that change an out set come first, and after them none changes any more. A limit
above their number makes no difference at all. A lower one leaves a program without an answer, however often it is asked
for and whatever else is, and nothing is kept of it.
-/

namespace Deadwood

namespace Equations

variable {e : Equations} {changing : Nat}

def Changes (e : Equations) (passes : Nat) : Prop := settled (e.after passes) (e.after (passes + 1)) = false

instance (e : Equations) (passes : Nat) : Decidable (e.Changes passes) := inferInstanceAs (Decidable (_ = _))

theorem Changes.before {passes : Nat} (changes : e.Changes (passes + 1)) : e.Changes passes := by
  by_contra quiet
  have unchanged : settled (e.after passes) (e.after (passes + 1)) = true := Bool.eq_true_of_not_eq_false quiet
  have still (n : Int) : Carried n (e.after (passes + 1)) (e.after passes) := by
    intro id member
    rwa [outOf_eq_of_settled unchanged id] at member
  have later : settled (e.after (passes + 1)) (e.after (passes + 2)) = true := by
    apply settled_of_outOf_eq
    · rw [length_after, length_after]
    · exact outOf_eq_of_carried (e.after_rises (passes + 1)) fun n => carried_succ (still n)
  rw [Changes, later] at changes
  cases changes

theorem exists_changing (e : Equations) :
    ∃ changing ≤ e.effects.length, ∀ passes, e.Changes passes ↔ passes < changing := by
  have quiet : ∃ passes, ¬e.Changes passes := by
    refine ⟨e.effects.length, ?_⟩
    intro changes
    exact Nat.lt_irrefl _ (lt_of_not_settled changes)
  refine ⟨Nat.find quiet, ?_, ?_⟩
  · apply Nat.find_min'
    intro changes
    exact Nat.lt_irrefl _ (lt_of_not_settled changes)
  · intro passes
    constructor
    · intro changes
      by_contra beyond
      have back (k : Nat) : e.Changes (Nat.find quiet + k) → e.Changes (Nat.find quiet) := by
        induction k with
        | zero => exact id
        | succ k ih => exact fun later => ih later.before
      rw [← Nat.add_sub_of_le (Nat.le_of_not_lt beyond)] at changes
      exact Nat.find_spec quiet (back _ changes)
    · intro early
      exact not_not.1 (Nat.find_min quiet early)

theorem iterate_after (counts : ∀ passes, e.Changes passes ↔ passes < changing) {done : Nat}
    (started : done ≤ changing) (remaining : Nat) :
    e.iterate remaining done (e.after done) =
      if changing < done + remaining then .ok ⟨e.after (changing + 1), changing + 1⟩
      else .error (.unsettled (done + remaining) (done + remaining)) := by
  induction remaining generalizing done with
  | zero =>
      rw [if_neg (by omega)]
      rfl
  | succ remaining ih =>
      rw [iterate, ← after_succ]
      by_cases changes : e.Changes done
      · have more := (counts done).1 changes
        have shift : done + 1 + remaining = done + (remaining + 1) := by omega
        rw [if_neg (by rw [changes]; decide), ih (by omega), shift]
      · have last : done = changing := by
          have reached := mt (counts done).2 changes
          omega
        subst last
        rw [if_pos (Bool.eq_true_of_not_eq_false changes), if_pos (by omega)]

end Equations

namespace Graph

variable {g : Graph} {changing : Nat}

theorem solve_limited (counts : ∀ passes, g.equations.Changes passes ↔ passes < changing) {limit : Nat}
    (limited : 0 < limit) :
    g.solve limit = if changing < limit then .ok ⟨g.equations.after (changing + 1), changing + 1⟩
      else .error (.unsettled limit limit) := by
  have allowed : passBound limit g.size g.definitions.length = limit := if_pos limited
  have solved := Equations.iterate_after counts (Nat.zero_le changing) limit
  rw [Nat.zero_add] at solved
  rw [solve, allowed]
  exact solved

theorem solve_unlimited (counts : ∀ passes, g.equations.Changes passes ↔ passes < changing) :
    g.solve 0 = .ok ⟨g.equations.after (changing + 1), changing + 1⟩ := by
  have solved := Equations.iterate_after counts (Nat.zero_le changing) (passBound 0 g.size g.definitions.length)
  rcases g.exists_iterate g.order with ⟨solution, settles, _⟩
  have settles : g.equations.iterate (passBound 0 g.size g.definitions.length) 0 (g.equations.after 0) =
      .ok solution := settles
  split at solved
  · exact solved
  · rw [solved] at settles
    cases settles

end Graph

namespace Cache

variable {κ α : Type} [DecidableEq κ] {c : Cache κ α} {key : κ}

def Lacks (c : Cache κ α) (key : κ) : Prop := ∀ entry ∈ c.entries, entry.1 ≠ key

theorem Lacks.get? (lacks : c.Lacks key) : c.get? key = none := by
  cases found : c.get? key with
  | none => rfl
  | some taken => exact (lacks _ (mem_of_get? found).1 rfl).elim

end Cache

namespace Session

def served (s : Session) : List Program → Session
  | [] => s
  | p :: rest => (s.optimize p).2.served rest

theorem optimize_keeps (s : Session) (q : Program) :
    (s.optimize q).2.settings = s.settings ∧
      ∀ entry ∈ (s.optimize q).2.cache.entries, entry ∈ s.cache.entries ∨ q.digest = entry.1 := by
  rw [optimize_eq]
  split
  · exact ⟨rfl, fun entry member => .inl member⟩
  · split
    · rename_i result cache found
      exact ⟨rfl, fun entry member => .inl ((Cache.mem_of_get? found).2 entry member)⟩
    · rcases compute_shown { s with tally.misses := s.tally.misses + 1 } q with ⟨_, settings, kept⟩
      refine ⟨settings, ?_⟩
      intro entry member
      rcases kept entry member with old | ⟨digest, _⟩
      · exact .inl old
      · exact .inr digest

theorem optimize_refused {s : Session} {p : Program} {e : FlowError}
    (refused : Analysis.run s.settings p = .error e) (lacks : s.cache.Lacks p.digest) :
    (s.optimize p).1.answer = .error e ∧ (s.optimize p).2.cache = s.cache := by
  rw [optimize_eq]
  split
  · rename_i empty
    rw [Analysis.run, Graph.build_of_empty empty] at refused
    cases refused
    exact ⟨rfl, rfl⟩
  · have answer := Analysis.answer_report s.verbose s.settings p
    rw [refused] at answer
    rw [lacks.get?]
    simp only [compute, analyze]
    rw [answer]
    exact ⟨rfl, rfl⟩

theorem served_lacks {s : Session} {digest : Digest} {requests : List Program} (lacks : s.cache.Lacks digest)
    (refused : ∀ q ∈ requests, q.digest = digest → ∃ e, Analysis.run s.settings q = .error e) :
    (s.served requests).settings = s.settings ∧ (s.served requests).cache.Lacks digest := by
  induction requests generalizing s with
  | nil => exact ⟨rfl, lacks⟩
  | cons q requests ih =>
      rcases optimize_keeps s q with ⟨settings, kept⟩
      have next : (s.optimize q).2.cache.Lacks digest := by
        by_cases same : q.digest = digest
        · rcases refused q List.mem_cons_self same with ⟨e, failed⟩
          subst same
          rw [(optimize_refused failed lacks).2]
          exact lacks
        · intro entry member
          rcases kept entry member with old | new
          · exact lacks entry old
          · exact new ▸ same
      have later : ∀ r ∈ requests, r.digest = digest → ∃ e, Analysis.run (s.optimize q).2.settings r = .error e := by
        intro r member same
        rw [settings]
        exact refused r (List.mem_cons_of_mem q member) same
      rcases ih next later with ⟨settings', lacks'⟩
      exact ⟨settings'.trans settings, lacks'⟩

end Session

namespace Analysis

/-- A limit on passes decides whether a program is analysed and nothing else. If more passes are allowed than change
something, all is as it is without a limit. If not, the limit is reported in place of an analysis. A session with nothing
under the digest of the program then answers with that defect and keeps nothing, also after other requests, as long as no
program with the same digest can be analysed. -/
theorem limit_decides_success_alone {s : Settings} {p : Program} {g : Graph}
    (built : Graph.build s.intrinsics s.entry p = .ok g) :
    ∃ changing, (∀ passes, g.equations.Changes passes ↔ passes < changing) ∧
      (∃ solution, g.solve 0 = .ok solution ∧ solution.iterations = changing + 1) ∧
      ∀ limit, 0 < limit →
        ((∃ solution, g.solve limit = .ok solution) ↔ changing < limit) ∧
        (changing < limit → g.solve limit = g.solve 0 ∧
          run { s with maxIterations := limit } p = run { s with maxIterations := 0 } p) ∧
        (limit ≤ changing → g.solve limit = .error (.unsettled limit limit) ∧
          run { s with maxIterations := limit } p = .error (.unsettled limit limit) ∧
          ∀ session : Session, session.settings = { s with maxIterations := limit } →
            session.cache.Lacks p.digest → ∀ requests : List Program,
              (∀ q ∈ requests, q.digest = p.digest → ∃ e, run session.settings q = .error e) →
              ((session.served requests).optimize p).1.answer = .error (.unsettled limit limit) ∧
                ((session.served requests).optimize p).2.cache = (session.served requests).cache) := by
  rcases g.equations.exists_changing with ⟨changing, _, counts⟩
  have unlimited := Graph.solve_unlimited counts
  have analysed (limit : Nat) :
      run { s with maxIterations := limit } p = (g.solve limit).map (ofSolution s.labels p g) := by
    rw [run, built]
    rfl
  refine ⟨changing, counts, ⟨_, unlimited, rfl⟩, ?_⟩
  intro limit limited
  have solved := Graph.solve_limited counts limited
  refine ⟨?_, ?_, ?_⟩
  · rw [solved]
    split
    · rename_i enough
      exact iff_of_true ⟨_, rfl⟩ enough
    · rename_i few
      exact iff_of_false (fun given => by cases given.choose_spec) few
  · intro enough
    rw [if_pos enough] at solved
    refine ⟨solved.trans unlimited.symm, ?_⟩
    rw [analysed, analysed, solved, unlimited]
  · intro few
    rw [if_neg (Nat.not_lt_of_le few)] at solved
    have refused : run { s with maxIterations := limit } p = .error (.unsettled limit limit) := by
      rw [analysed, solved]
      rfl
    refine ⟨solved, refused, ?_⟩
    intro session settings lacks requests others
    rcases Session.served_lacks lacks others with ⟨settings', lacks'⟩
    rw [← settings, ← settings'] at refused
    exact Session.optimize_refused refused lacks'

def looping : Program := ⟨[
  { name := [109]
    body := [
      ⟨.label, [⟨.label, [65]⟩], 1⟩,
      ⟨.goto, [⟨.label, [66]⟩], 2⟩,
      ⟨.label, [⟨.label, [66]⟩], 3⟩,
      ⟨.assign, [⟨.variable, [120]⟩, ⟨.constant, [49]⟩], 4⟩,
      ⟨.goto, [⟨.label, [65]⟩], 5⟩] }]⟩

theorem looping_settles_in_third_pass :
    ∃ g, Graph.build [] [109] looping = .ok g ∧ g.solve 3 = g.solve 0 ∧
      run ⟨.all, [], [109], 3, 0⟩ looping = run ⟨.all, [], [109], 0, 0⟩ looping ∧
      g.solve 2 = .error (.unsettled 2 2) ∧ run ⟨.all, [], [109], 2, 0⟩ looping = .error (.unsettled 2 2) ∧
      (((Session.start ⟨[], some [], [109], 2, 8⟩).1.served [looping, looping]).optimize looping).1.answer =
        .error (.unsettled 2 2) := by
  have evaluated : (Graph.build [] [109] looping >>= fun g => (g.solve 0).map (·.iterations)) = .ok 3 := by cbv
  rcases Except.bind_eq_ok.1 evaluated with ⟨g, built, passes⟩
  rcases Except.map_eq_ok.1 passes with ⟨solution, solved, three⟩
  have given : Graph.build (Settings.mk .all [] [109] 0 8).intrinsics (Settings.mk .all [] [109] 0 8).entry looping =
      .ok g := built
  rcases limit_decides_success_alone given with ⟨changing, _, ⟨other, solved', counted⟩, limits⟩
  rw [solved] at solved'
  cases solved'
  have two : changing = 2 := by omega
  rcases limits 3 (by decide) with ⟨_, enough, _⟩
  rcases limits 2 (by decide) with ⟨_, _, few⟩
  rcases enough (by omega) with ⟨same, alike⟩
  rcases few (by omega) with ⟨unsettled, refused, answers⟩
  have again : ∀ q ∈ [looping, looping], ∃ e, run ⟨.all, [], [109], 2, 8⟩ q = .error e := by
    intro q member
    rcases List.mem_pair.1 member with rfl | rfl <;> exact ⟨_, refused⟩
  have asked := answers (Session.start ⟨[], some [], [109], 2, 8⟩).1 rfl (fun entry member => by cases member)
    [looping, looping] fun q member _ => again q member
  exact ⟨g, built, same, alike, unsettled, refused, asked.1⟩

end Analysis

end Deadwood

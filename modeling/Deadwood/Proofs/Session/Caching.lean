import Deadwood.Proofs.Dataflow.Blurring
import Deadwood.Proofs.Flow.Acceptance
import Deadwood.Session.Basic

/-!
The cache of a session cannot be seen in its answers. What is kept under a digest was computed for a program with the
same canonical text, and such a program has the same answer.
-/

namespace Deadwood

namespace Cache

variable {κ α : Type} [DecidableEq κ] {c c' : Cache κ α} {key : κ} {value : α}

theorem mem_insert {entry : κ × α} (member : entry ∈ (c.insert key value).entries) :
    entry = (key, value) ∨ entry ∈ c.entries := by
  rcases List.mem_cons.1 (List.mem_of_mem_take member) with new | kept
  · exact .inl new
  · exact .inr (List.mem_filter.1 kept).1

theorem mem_of_get? (found : c.get? key = some (value, c')) :
    (key, value) ∈ c.entries ∧ ∀ entry ∈ c'.entries, entry ∈ c.entries := by
  rcases Option.map_eq_some_iff.1 found with ⟨kept, peeked, same⟩
  cases same
  rcases Option.map_eq_some_iff.1 peeked with ⟨⟨stored, _⟩, first, rfl⟩
  have matches' : stored = key := by simpa using List.find?_some first
  subst matches'
  have present := List.mem_of_find?_eq_some first
  refine ⟨present, ?_⟩
  intro entry member
  rcases mem_insert member with rfl | old
  · exact present
  · exact old

end Cache

/-- What a caller sees of an answer: the text of the program and the counts, or what was wrong. -/
def Outcome.shown (o : Outcome Result) : Except FlowError (Bytes × Stats) :=
  o.answer.map fun result => (result.program.text, result.stats)

namespace Analysis

def shown (s : Settings) (p : Program) : Except FlowError (Bytes × Stats) :=
  (run s p).map fun a => (a.optimized.text, a.stats)

theorem answer_report (verbose : Bool) (s : Settings) (p : Program) : (report verbose s p).2 = run s p := by
  rw [report, run]
  cases Graph.build s.intrinsics s.entry p with
  | error e => rfl
  | ok g =>
      dsimp only [bind, Except.bind]
      cases g.solve s.maxIterations <;> rfl

end Analysis

namespace Session

def serve (s : Session) : List Program → List (Outcome Result)
  | [] => []
  | p :: rest => (s.optimize p).1 :: (s.optimize p).2.serve rest

theorem optimize_eq (s : Session) (p : Program) :
    s.optimize p =
      if p.functions = [] then (⟨.error .emptyProgram, []⟩, { s with tally.failed := s.tally.failed + 1 })
      else match s.cache.get? p.digest with
        | some (result, cache) =>
          (⟨.ok result, [.served p.digest]⟩, { s with cache, tally.hits := s.tally.hits + 1 })
        | none => { s with tally.misses := s.tally.misses + 1 }.compute p := by
  rw [optimize, look]
  by_cases empty : p.functions = []
  · rw [if_pos empty, if_pos empty]
  · rw [if_neg empty, if_neg empty]
    cases s.cache.get? p.digest <;> rfl

/-- What is kept was computed for one of the given programs. -/
def Faithful (s : Session) (requests : List Program) : Prop :=
  ∀ entry ∈ s.cache.entries, ∃ q ∈ requests, q.digest = entry.1 ∧
    Analysis.shown s.settings q = .ok (entry.2.program.text, entry.2.stats)

theorem compute_shown (s : Session) (p : Program) :
    (s.compute p).1.shown = Analysis.shown s.settings p ∧ (s.compute p).2.settings = s.settings ∧
      ∀ entry ∈ (s.compute p).2.cache.entries, entry ∈ s.cache.entries ∨
        p.digest = entry.1 ∧ Analysis.shown s.settings p = .ok (entry.2.program.text, entry.2.stats) := by
  have answer := Analysis.answer_report s.verbose s.settings p
  rw [compute, analyze, Analysis.shown, ← answer]
  cases Analysis.report s.verbose s.settings p with
  | mk notices answer =>
      cases answer with
      | error e => exact ⟨rfl, rfl, fun entry member => .inl member⟩
      | ok a =>
          refine ⟨rfl, rfl, ?_⟩
          intro entry member
          rcases Cache.mem_insert member with rfl | old
          · exact .inr ⟨rfl, rfl⟩
          · exact .inl old

theorem compute_faithful {s : Session} {p : Program} {requests : List Program} (present : p ∈ requests)
    (faithful : s.Faithful requests) :
    (s.compute p).1.shown = Analysis.shown s.settings p ∧ (s.compute p).2.settings = s.settings ∧
      (s.compute p).2.Faithful requests := by
  rcases compute_shown s p with ⟨shown, settings, kept⟩
  refine ⟨shown, settings, ?_⟩
  intro entry member
  rw [settings]
  rcases kept entry member with old | ⟨digest, shown⟩
  · exact faithful entry old
  · exact ⟨p, present, digest, shown⟩

theorem shown_of_empty {p : Program} (empty : p.functions = []) (s : Settings) :
    Analysis.shown s p = .error .emptyProgram := by
  rw [Analysis.shown, Analysis.run, Graph.build_of_empty empty]
  rfl

section

variable {requests : List Program} (read : ∀ p ∈ requests, ∃ source, Program.read source = .ok p)
  (apart : ∀ p ∈ requests, ∀ q ∈ requests, p.digest = q.digest → p.canonical = q.canonical)

include read apart

theorem shown_eq_of_digest {p q : Program} (present : p ∈ requests) (present' : q ∈ requests)
    (same : q.digest = p.digest) (s : Settings) : Analysis.shown s q = Analysis.shown s p := by
  rcases read p present with ⟨_, first⟩
  rcases read q present' with ⟨_, second⟩
  have canonical := apart q present' p present same
  exact Analysis.run_eq_of_blurred (Program.blurred_eq_of_canonical second first canonical) s

theorem look_shown {s : Session} {p : Program} (present : p ∈ requests) (faithful : s.Faithful requests) :
    (∀ outcome, (s.look p).1 = some outcome → outcome.shown = Analysis.shown s.settings p) ∧
      (s.look p).2.settings = s.settings ∧ (s.look p).2.Faithful requests := by
  rw [look]
  split
  · rename_i empty
    refine ⟨fun outcome found => ?_, rfl, faithful⟩
    cases found
    rw [shown_of_empty empty]
    rfl
  · split
    · rename_i result cache found
      -- What was kept belongs to a request with the same digest, perhaps to another one.
      rcases Cache.mem_of_get? found with ⟨stored, kept⟩
      rcases faithful _ stored with ⟨q, present', same, shown⟩
      refine ⟨fun outcome found => ?_, rfl, fun entry member => faithful entry (kept entry member)⟩
      cases found
      rw [← shown_eq_of_digest read apart present present' same, shown]
      rfl
    · exact ⟨fun _ none => (Option.some_ne_none _ none.symm).elim, rfl, faithful⟩

theorem optimize_shown {s : Session} {p : Program} (present : p ∈ requests) (faithful : s.Faithful requests) :
    (s.optimize p).1.shown = Analysis.shown s.settings p ∧ (s.optimize p).2.settings = s.settings ∧
      (s.optimize p).2.Faithful requests := by
  rcases look_shown read apart present faithful with ⟨answer, settings, kept⟩
  rw [optimize]
  split
  · rename_i outcome next looked
    rw [looked] at answer settings kept
    exact ⟨answer outcome rfl, settings, kept⟩
  · rename_i next looked
    rw [looked] at settings kept
    rw [← settings]
    exact compute_faithful present kept

theorem serve_shown {s : Session} {later : List Program} (present : later ⊆ requests) (faithful : s.Faithful requests) :
    (s.serve later).map (·.shown) = later.map (Analysis.shown s.settings) := by
  induction later generalizing s with
  | nil => rfl
  | cons p later ih =>
      rcases List.cons_subset.1 present with ⟨first, rest⟩
      rcases optimize_shown read apart first faithful with ⟨shown, settings, next⟩
      rw [serve, List.map_cons, List.map_cons, shown, ih rest next, settings]

end

/-- Whatever the configuration and whatever was asked before, a request is answered as it would be without a cache, if
different canonical texts among the requests have different digests. The canonical text leaves nothing open but what is
an array. -/
theorem cache_invisible (c : Config) (requests : List Program)
    (read : ∀ p ∈ requests, ∃ source, Program.read source = .ok p)
    (apart : ∀ p ∈ requests, ∀ q ∈ requests, p.digest = q.digest → p.canonical = q.canonical) :
    ((start c).1.serve requests).map (·.shown) =
        requests.map (fun p => ((start { c with cacheSize := 0 }).1.optimize p).1.shown) ∧
      ∀ p q, (∃ source, Program.read source = .ok p) → (∃ source, Program.read source = .ok q) →
        p.canonical = q.canonical → p.blurred = q.blurred := by
  have fresh (c : Config) : (start c).1.Faithful requests := by
    intro entry member
    cases member
  constructor
  · rw [serve_shown read apart (List.Subset.refl requests) (fresh c)]
    refine List.map_congr_left fun p present => ?_
    exact (optimize_shown read apart present (fresh { c with cacheSize := 0 })).1.symm
  · rintro p q ⟨_, first⟩ ⟨_, second⟩ same
    exact Program.blurred_eq_of_canonical first second same

def declaredFirst : Bytes :=
  bytes "#start_function\nvoid main():\nint-list: a[2]\narray_load, x, a, 0\nreturn, x\n#end_function\n"

def declaredLast : Bytes :=
  bytes "#start_function\nvoid main():\n\narray_load, x, a, 0\nreturn, x\nint-list: a[2]\n#end_function\n"

/-- The function of both texts. Only where it is declared first is the operand taken for an array. -/
def loading (kind : OperandKind) : Program := ⟨[
  { name := bytes "main"
    returnType := bytes "void"
    ints := [bytes "a[2]"]
    body := [
      ⟨.arrayLoad, [⟨.variable, bytes "x"⟩, ⟨kind, bytes "a"⟩, ⟨.constant, bytes "0"⟩], 4⟩,
      ⟨.ret, [⟨.variable, bytes "x"⟩], 5⟩] }]⟩

theorem late_declaration_served :
    Program.read declaredFirst = .ok (loading .array) ∧ Program.read declaredLast = .ok (loading .variable) ∧
      ((start ⟨[], none, [], 0, 1⟩).1.serve [loading .array, loading .variable]).map (·.shown) =
        [loading .array, loading .variable].map fun p => ((start ⟨[], none, [], 0, 0⟩).1.optimize p).1.shown := by
  have first : Program.read declaredFirst = .ok (loading .array) := by decide +kernel
  have last : Program.read declaredLast = .ok (loading .variable) := by decide +kernel
  refine ⟨first, last, (cache_invisible ⟨[], none, [], 0, 1⟩ [loading .array, loading .variable] ?_ ?_).1⟩
  · intro p member
    rcases List.mem_pair.1 member with rfl | rfl
    · exact ⟨_, first⟩
    · exact ⟨_, last⟩
  · have same : ∀ p ∈ [loading .array, loading .variable], p.canonical = (loading .array).canonical := by
      decide +kernel
    intro p member q member' _
    rw [same p member, same q member']

end Session

end Deadwood

import Deadwood.Proofs.Flow.Succession
import Deadwood.Proofs.Session.Limit
import Mathlib.Algebra.Ring.Int.Defs

/-!
What a session keeps account of. A request is refused, answered from the cache, or computed, in vain or not, and is
counted for that once. The cache holds what was used last: a digest is found in it if it was stored and, since its last
use, fewer other digests were used than there is room for.
-/

namespace Deadwood

section

variable {α : Type} [DecidableEq α] {a : α}

theorem length_distinct (list : List α) : (distinct list).length = list.toFinset.card := by
  have same : (distinct list).toFinset = list.toFinset := by
    ext b
    simp only [List.mem_toFinset, mem_distinct]
  rw [← same, List.toFinset_card_of_nodup (distinct_nodup list)]

theorem distinct_append_cons {front : List α} (absent : a ∉ front) (back : List α) :
    ∃ rest, distinct (front ++ a :: back) = distinct front ++ a :: rest := by
  induction front with
  | nil => exact ⟨_, rfl⟩
  | cons b front ih =>
      rw [List.mem_cons, not_or] at absent
      rcases ih absent.2 with ⟨rest, split⟩
      refine ⟨rest.filter (· ≠ b), ?_⟩
      rw [List.cons_append, distinct, split, List.filter_append, List.filter_cons_of_pos (by simpa using absent.1)]
      rfl

/-- Among the members used last is one after whose last use there were not too many others. -/
theorem mem_take_distinct_reverse_iff {list : List α} {room : Nat} :
    a ∈ (distinct list.reverse).take room ↔
      ∃ front back, list = front ++ a :: back ∧ a ∉ back ∧ back.toFinset.card < room := by
  have place {front back : List α} (split : list = front ++ a :: back) (absent : a ∉ back) :
      a ∈ (distinct list.reverse).take room ↔ back.toFinset.card < room := by
    have turned : list.reverse = back.reverse ++ a :: front.reverse := by simp [split]
    have absent : a ∉ back.reverse := by simpa using absent
    rcases distinct_append_cons absent front.reverse with ⟨rest, last⟩
    have earlier : a ∉ (distinct back.reverse).take room := fun member =>
      absent (mem_distinct.1 (List.mem_of_mem_take member))
    rw [turned, last, List.take_append, List.mem_append, or_iff_right earlier, length_distinct, List.toFinset_reverse]
    cases left : room - back.toFinset.card with
    | zero => exact iff_of_false List.not_mem_nil (by omega)
    | succ more => exact iff_of_true List.mem_cons_self (by omega)
  constructor
  · intro recent
    have member : a ∈ list.reverse := mem_distinct.1 (List.mem_of_mem_take recent)
    rcases List.eq_append_cons_of_mem member with ⟨back, front, turned, absent⟩
    have split : list = front.reverse ++ a :: back.reverse := by
      rw [← list.reverse_reverse, turned]
      simp
    have absent : a ∉ back.reverse := by simpa using absent
    exact ⟨_, _, split, absent, (place split absent).1 recent⟩
  · rintro ⟨front, back, split, absent, fewer⟩
    exact (place split absent).2 fewer

theorem take_filter_take {list : List α} (nodup : list.Nodup) (a : α) (room : Nat) :
    ((list.take (room + 1)).filter (· ≠ a)).take room = (list.filter (· ≠ a)).take room := by
  induction list generalizing room with
  | nil => rfl
  | cons b list ih =>
      rcases List.nodup_cons.1 nodup with ⟨absent, nodup⟩
      rw [List.take_succ_cons]
      by_cases same : b = a
      · subst same
        have others {rest : List α} (part : rest ⊆ list) : rest.filter (· ≠ b) = rest := by
          rw [List.filter_eq_self]
          intro c member
          simpa using fun same : c = b => absent (same ▸ part member)
        rw [List.filter_cons_of_neg (by simp), List.filter_cons_of_neg (by simp),
          others (List.take_subset room list), others (List.Subset.refl list), List.take_take, Nat.min_self]
      · rw [List.filter_cons_of_pos (by simpa using same), List.filter_cons_of_pos (by simpa using same)]
        cases room with
        | zero => rfl
        | succ room => rw [List.take_succ_cons, List.take_succ_cons, ih nodup]

end

namespace Cache

variable {κ α : Type} [DecidableEq κ] {c c' : Cache κ α} {key : κ} {value : α}

def keys (c : Cache κ α) : List κ := c.entries.map (·.1)

theorem keys_insert : (c.insert key value).keys = (key :: c.keys.filter (· ≠ key)).take c.capacity := by
  rw [keys, keys, List.filter_map]
  exact List.map_take

theorem get?_eq_none_iff : c.get? key = none ↔ key ∉ c.keys := by
  rw [get?, Option.map_eq_none_iff, peek?, Option.map_eq_none_iff, List.find?_eq_none, keys, List.mem_map]
  simp only [decide_eq_true_eq, not_exists, not_and]

theorem insert_of_get? (found : c.get? key = some (value, c')) : c' = c.insert key value := by
  rcases Option.map_eq_some_iff.1 found with ⟨_, _, same⟩
  cases same
  rfl

theorem keys_insert_of_recent {uses : List κ} (recent : c.keys = (distinct uses.reverse).take c.capacity) :
    (c.insert key value).keys = (distinct (uses ++ [key]).reverse).take c.capacity := by
  rw [keys_insert, recent, List.reverse_append]
  cases c.capacity with
  | zero => rfl
  | succ room =>
      rw [List.take_succ_cons, take_filter_take (distinct_nodup _)]
      rfl

end Cache

inductive Event
  | refused
  | hit (key : Digest) (result : Result)
  | failed (key : Digest) (e : FlowError)
  | stored (key : Digest) (result : Result)
  deriving DecidableEq

namespace Event

def used? : Event → Option Digest
  | refused | failed _ _ => none
  | hit key _ | stored key _ => some key

def result? : Event → Option Result
  | refused | hit _ _ | failed _ _ => none
  | stored _ result => some result

def Latest (past : List Event) (key : Digest) (result : Result) : Prop :=
  ∃ front back, past = front ++ stored key result :: back ∧ ∀ other, stored key other ∉ back

theorem Latest.unique {past : List Event} {key : Digest} {result result' : Result}
    (latest : Latest past key result) (latest' : Latest past key result') : result = result' := by
  rcases latest with ⟨front, back, rfl, last⟩
  rcases latest' with ⟨front', back', same, last'⟩
  rcases List.append_eq_append_iff.1 same with ⟨between, rfl, rest⟩ | ⟨between, rfl, rest⟩
  · cases between with
    | nil =>
        cases rest
        rfl
    | cons first between =>
        cases rest
        exact (last result' (by simp)).elim
  · cases between with
    | nil =>
        cases rest
        rfl
    | cons first between =>
        cases rest
        exact (last' result (by simp)).elim

theorem Latest.append {past : List Event} {key : Digest} {result : Result} (latest : Latest past key result)
    {event : Event} (other : ∀ result, event ≠ stored key result) : Latest (past ++ [event]) key result := by
  rcases latest with ⟨front, back, rfl, last⟩
  refine ⟨front, back ++ [event], by simp, ?_⟩
  intro result member
  rcases List.mem_append.1 member with old | new
  · exact last result old
  · exact other result (List.mem_singleton.1 new).symm

theorem latest_stored (past : List Event) (key : Digest) (result : Result) :
    Latest (past ++ [stored key result]) key result := ⟨past, [], rfl, by simp⟩

end Event

structure Tally.Counted (t : Tally) (calls empty : Nat) (results : List Result) : Prop where
  total : calls = t.hits + t.misses + empty
  bound : empty ≤ t.failed
  misses : t.misses = t.optimized + (t.failed - empty)
  removed : t.removed = (results.map (·.stats.removed)).sum
  runs : results.map (·.run) = List.range t.optimized

/-- The cache has room for so many entries, holds those used last, and holds the last result of each. -/
structure Cache.Recent (c : Cache Digest Result) (room : Nat) (past : List Event) : Prop where
  capacity : c.capacity = room
  keys : c.keys = (distinct (past.filterMap Event.used?).reverse).take room
  latest : ∀ entry ∈ c.entries, Event.Latest past entry.1 entry.2

namespace Cache.Recent

variable {c : Cache Digest Result} {room : Nat} {past : List Event} {event : Event}

theorem unused (recent : c.Recent room past) (unused : event.used? = none) : c.Recent room (past ++ [event]) := by
  refine ⟨recent.capacity, ?_, ?_⟩
  · rw [List.filterMap_append, List.filterMap_cons_none unused, List.filterMap_nil, List.append_nil]
    exact recent.keys
  · intro entry member
    apply (recent.latest entry member).append
    rintro result rfl
    cases unused

theorem use (recent : c.Recent room past) {key : Digest} {result : Result} (used : event.used? = some key)
    (latest : Event.Latest (past ++ [event]) key result) : (c.insert key result).Recent room (past ++ [event]) := by
  rcases recent with ⟨rfl, keys, older⟩
  refine ⟨rfl, ?_, ?_⟩
  · rw [List.filterMap_append, List.filterMap_cons_some used, List.filterMap_nil]
    exact keys_insert_of_recent keys
  · intro entry member
    rcases List.mem_cons.1 (List.mem_of_mem_take member) with rfl | other
    · exact latest
    · rcases List.mem_filter.1 other with ⟨kept, apart⟩
      apply (older entry kept).append
      rintro result rfl
      cases used
      simp at apart

end Cache.Recent

namespace Session

def event (s : Session) (p : Program) : Event :=
  match (s.optimize p).1.answer with
  | .error e => if p.functions = [] then .refused else .failed p.digest e
  | .ok result =>
    if (s.optimize p).2.tally.hits = s.tally.hits then .stored p.digest result else .hit p.digest result

def record (s : Session) : List Program → List Event
  | [] => []
  | p :: rest => s.event p :: (s.optimize p).2.record rest

theorem served_concat (s : Session) (asked : List Program) (p : Program) :
    s.served (asked ++ [p]) = ((s.served asked).optimize p).2 := by
  induction asked generalizing s with
  | nil => rfl
  | cons q asked ih => exact ih _

theorem record_concat (s : Session) (asked : List Program) (p : Program) :
    s.record (asked ++ [p]) = s.record asked ++ [(s.served asked).event p] := by
  induction asked generalizing s with
  | nil => rfl
  | cons q asked ih => exact congrArg (s.event q :: ·) (ih _)

inductive Step (s : Session) (p : Program) : Event → Except FlowError Result → Session → Prop
  | refused : p.functions = [] →
      Step s p .refused (.error .emptyProgram) { s with tally.failed := s.tally.failed + 1 }
  | hit {result : Result} {cache : Cache Digest Result} :
      p.functions ≠ [] → s.cache.get? p.digest = some (result, cache) →
        Step s p (.hit p.digest result) (.ok result) { s with cache, tally.hits := s.tally.hits + 1 }
  | failed {e : FlowError} :
      p.functions ≠ [] → s.cache.get? p.digest = none → Analysis.run s.settings p = .error e →
        Step s p (.failed p.digest e) (.error e)
          { s with tally := { s.tally with misses := s.tally.misses + 1, failed := s.tally.failed + 1 } }
  | stored {a : Analysis} {result : Result} :
      p.functions ≠ [] → s.cache.get? p.digest = none → Analysis.run s.settings p = .ok a →
        result = ⟨a.optimized, a.stats, s.tally.optimized⟩ →
        Step s p (.stored p.digest result) (.ok result)
          { s with
            cache := s.cache.insert p.digest result
            tally := { s.tally with
              misses := s.tally.misses + 1
              iterations := s.tally.iterations.add (.ofNat a.stats.iterations)
              optimized := s.tally.optimized + 1
              removed := s.tally.removed + a.stats.removed
              lastRun := some (s.settings.labels, s.settings.entry) } }

theorem compute_of_error (s : Session) {p : Program} {e : FlowError} (refused : Analysis.run s.settings p = .error e) :
    ∃ notices, s.compute p = (⟨.error e, notices⟩, { s with tally.failed := s.tally.failed + 1 }) := by
  have answer := Analysis.answer_report s.verbose s.settings p
  rw [compute, analyze]
  cases report : Analysis.report s.verbose s.settings p with
  | mk notices given =>
      rw [report, refused] at answer
      cases answer
      exact ⟨notices, rfl⟩

theorem compute_of_ok (s : Session) {p : Program} {a : Analysis} (analysed : Analysis.run s.settings p = .ok a) :
    ∃ notices, s.compute p = (⟨.ok ⟨a.optimized, a.stats, s.tally.optimized⟩, notices⟩,
      { s with
        cache := s.cache.insert p.digest ⟨a.optimized, a.stats, s.tally.optimized⟩
        tally := { s.tally with
          iterations := s.tally.iterations.add (.ofNat a.stats.iterations)
          optimized := s.tally.optimized + 1
          removed := s.tally.removed + a.stats.removed
          lastRun := some (s.settings.labels, s.settings.entry) } }) := by
  have answer := Analysis.answer_report s.verbose s.settings p
  rw [compute, analyze]
  cases report : Analysis.report s.verbose s.settings p with
  | mk notices given =>
      rw [report, analysed] at answer
      cases answer
      exact ⟨_, rfl⟩

theorem optimize_step (s : Session) (p : Program) :
    s.Step p (s.event p) (s.optimize p).1.answer (s.optimize p).2 := by
  by_cases empty : p.functions = []
  · have taken : s.optimize p = _ := (s.optimize_eq p).trans (if_pos empty)
    rw [event, taken]
    simp only [if_pos empty]
    exact .refused empty
  · have taken : s.optimize p = _ := (s.optimize_eq p).trans (if_neg empty)
    cases found : s.cache.get? p.digest with
    | some kept =>
        rw [found] at taken
        rw [event, taken]
        simp only [if_neg (Nat.succ_ne_self s.tally.hits)]
        exact .hit empty found
    | none =>
        rw [found] at taken
        cases analysed : Analysis.run s.settings p with
        | error e =>
            rcases compute_of_error { s with tally.misses := s.tally.misses + 1 } analysed with ⟨notices, computed⟩
            have taken : s.optimize p = _ := taken.trans computed
            rw [event, taken]
            simp only [if_neg empty]
            exact .failed empty found analysed
        | ok a =>
            rcases compute_of_ok { s with tally.misses := s.tally.misses + 1 } analysed with ⟨notices, computed⟩
            have taken : s.optimize p = _ := taken.trans computed
            rw [event, taken]
            simp only [if_true]
            exact .stored empty found analysed rfl

section

variable {s next : Session} {p : Program} {event : Event} {answer : Except FlowError Result} {calls empty room : Nat}
  {results : List Result} {past : List Event}

theorem Step.counted (step : s.Step p event answer next) (counted : s.tally.Counted calls empty results) :
    next.tally.Counted (calls + 1) (empty + if p.functions = [] then 1 else 0) (results ++ event.result?.toList) := by
  rcases counted with ⟨total, bound, misses, removed, runs⟩
  cases step with
  | refused none =>
      rw [if_pos none, Event.result?, Option.toList_none, List.append_nil]
      refine ⟨?_, ?_, ?_, removed, runs⟩
      all_goals
        dsimp only
        omega
  | hit inhabited _ =>
      rw [if_neg inhabited, Event.result?, Option.toList_none, List.append_nil]
      refine ⟨?_, bound, misses, removed, runs⟩
      dsimp only
      omega
  | failed inhabited _ _ =>
      rw [if_neg inhabited, Event.result?, Option.toList_none, List.append_nil]
      refine ⟨?_, ?_, ?_, removed, runs⟩
      all_goals
        dsimp only
        omega
  | stored inhabited _ _ made =>
      rw [if_neg inhabited, Event.result?, Option.toList_some, made]
      refine ⟨?_, bound, ?_, ?_, ?_⟩
      · dsimp only
        omega
      · dsimp only
        omega
      · simp [removed]
      · rw [List.map_append, runs, List.range_succ]
        rfl

theorem Step.recent (step : s.Step p event answer next) (recent : s.cache.Recent room past) :
    next.cache.Recent room (past ++ [event]) := by
  cases step with
  | refused _ => exact recent.unused rfl
  | hit _ found =>
      rw [Cache.insert_of_get? found]
      have latest := recent.latest _ (Cache.mem_of_get? found).1
      exact recent.use rfl (latest.append fun result same => by cases same)
  | failed _ _ _ => exact recent.unused rfl
  | stored _ _ _ _ => exact recent.use rfl (Event.latest_stored past _ _)

end

theorem served_counted (c : Config) (asked : List Program) :
    ((start c).1.served asked).tally.Counted asked.length (asked.countP (·.functions = []))
      (((start c).1.record asked).filterMap Event.result?) := by
  induction asked using List.reverseRecOn with
  | nil => exact ⟨rfl, Nat.le_refl 0, rfl, rfl, rfl⟩
  | append_singleton asked p counted =>
      have next := (optimize_step ((start c).1.served asked) p).counted counted
      rw [served_concat, record_concat, List.length_append, List.length_singleton, List.countP_append,
        List.countP_singleton, List.filterMap_append, List.filterMap_eq_flatMap_toList _ [_], List.flatMap_singleton]
      simpa only [decide_eq_true_eq] using next

theorem served_recent (c : Config) (asked : List Program) :
    ((start c).1.served asked).cache.Recent c.settings.cacheSize ((start c).1.record asked) := by
  induction asked using List.reverseRecOn with
  | nil => exact ⟨rfl, List.take_nil.symm, fun entry member => by cases member⟩
  | append_singleton asked p recent =>
      rw [served_concat, record_concat]
      exact (optimize_step _ p).recent recent

theorem Step.hit_iff {s next : Session} {p : Program} {event : Event} {answer : Except FlowError Result}
    (step : s.Step p event answer next) :
    next.tally.hits = s.tally.hits + 1 ↔ p.functions ≠ [] ∧ p.digest ∈ s.cache.keys := by
  cases step with
  | refused empty => simp [empty]
  | hit inhabited found =>
      refine iff_of_true rfl ⟨inhabited, ?_⟩
      by_contra absent
      rw [Cache.get?_eq_none_iff.2 absent] at found
      cases found
  | failed _ absent _ => simp [Cache.get?_eq_none_iff.1 absent]
  | stored _ absent _ _ => simp [Cache.get?_eq_none_iff.1 absent]

section

variable {s next : Session} {p : Program} {event : Event} {answer : Except FlowError Result} {past : List Event}
  {room : Nat}

theorem Step.hit_iff_recent (step : s.Step p event answer next) (recent : s.cache.Recent room past) :
    next.tally.hits = s.tally.hits + 1 ↔
      p.functions ≠ [] ∧ 0 < room ∧ (∃ result, .stored p.digest result ∈ past) ∧
        ∃ front back, past.filterMap Event.used? = front ++ p.digest :: back ∧ p.digest ∉ back ∧
          back.toFinset.card < room := by
  rw [step.hit_iff, recent.keys, mem_take_distinct_reverse_iff]
  constructor
  · rintro ⟨inhabited, front, back, uses, absent, fewer⟩
    refine ⟨inhabited, by omega, ?_, front, back, uses, absent, fewer⟩
    have kept : p.digest ∈ s.cache.keys := by
      rw [recent.keys, mem_take_distinct_reverse_iff]
      exact ⟨front, back, uses, absent, fewer⟩
    rcases List.mem_map.1 kept with ⟨⟨key, result⟩, member, rfl⟩
    rcases recent.latest _ member with ⟨_, _, rfl, _⟩
    exact ⟨result, by simp⟩
  · rintro ⟨inhabited, _, _, used⟩
    exact ⟨inhabited, used⟩

theorem Step.latest_of_hit (step : s.Step p event answer next) (recent : s.cache.Recent room past)
    (counted : next.tally.hits = s.tally.hits + 1) :
    ∃ result, answer = .ok result ∧ Event.Latest past p.digest result := by
  cases step with
  | refused _ => simp at counted
  | hit _ found => exact ⟨_, rfl, recent.latest _ (Cache.mem_of_get? found).1⟩
  | failed _ _ _ => simp at counted
  | stored _ _ _ _ => simp at counted

theorem Step.missed_iff (step : s.Step p event answer next) :
    next.tally.misses = s.tally.misses + 1 ↔ p.functions ≠ [] ∧ next.tally.hits ≠ s.tally.hits + 1 := by
  cases step with
  | refused empty => simp [empty]
  | hit _ _ => simp
  | failed inhabited _ _ => simp [inhabited]
  | stored inhabited _ _ _ => simp [inhabited]

theorem Step.answer_of_miss (step : s.Step p event answer next) (missed : next.tally.misses = s.tally.misses + 1) :
    answer = (Analysis.run s.settings p).map fun a => ⟨a.optimized, a.stats, s.tally.optimized⟩ := by
  cases step with
  | refused _ => simp at missed
  | hit _ _ => simp at missed
  | failed _ _ analysed =>
      rw [analysed]
      rfl
  | stored _ _ analysed made =>
      rw [analysed, made]
      rfl

theorem Step.event_of_ok {result : Result} (step : s.Step p event (.ok result) next) :
    event =
      if next.tally.hits = s.tally.hits + 1 then .hit p.digest result else .stored p.digest result := by
  cases step with
  | hit _ _ => exact (if_pos rfl).symm
  | stored _ _ _ _ => exact (if_neg (Nat.succ_ne_self _).symm).symm

theorem Step.settings (step : s.Step p event answer next) : next.settings = s.settings := by cases step <;> rfl

theorem Step.cache_of_error {e : FlowError} (step : s.Step p event (.error e) next) : next.cache = s.cache := by
  cases step with
  | refused _ => rfl
  | failed _ _ _ => rfl

end

theorem served_settings (s : Session) (asked : List Program) : (s.served asked).settings = s.settings := by
  induction asked generalizing s with
  | nil => rfl
  | cons p asked ih => exact (ih _).trans (s.optimize_step p).settings

theorem record_of_miss {s : Session} {asked : List Program} {p : Program} {a : Analysis} (inhabited : p.functions ≠ [])
    (missed : ((s.served asked).optimize p).2.tally.hits ≠ (s.served asked).tally.hits + 1)
    (analysed : Analysis.run s.settings p = .ok a) :
    s.record (asked ++ [p]) =
      s.record asked ++ [.stored p.digest ⟨a.optimized, a.stats, (s.served asked).tally.optimized⟩] := by
  have step := (s.served asked).optimize_step p
  rw [step.answer_of_miss (step.missed_iff.2 ⟨inhabited, missed⟩), served_settings, analysed] at step
  rw [record_concat, step.event_of_ok, if_neg missed]

theorem record_of_hit {s : Session} {asked : List Program} {p : Program} {result : Result}
    (hit : ((s.served asked).optimize p).2.tally.hits = (s.served asked).tally.hits + 1)
    (given : ((s.served asked).optimize p).1.answer = .ok result) :
    s.record (asked ++ [p]) = s.record asked ++ [.hit p.digest result] := by
  have step := (s.served asked).optimize_step p
  rw [given] at step
  rw [record_concat, step.event_of_ok, if_pos hit]

/-- A session keeps exact account of requests for a program or for none. Each is a hit, a miss, or refused for want of
functions, and each miss a run or a failure. A request is a hit exactly if its digest was stored and fewer other digests
than there is room for were used since its last use, and it then gets the very result that was stored last, which is
told by the number of its run. A miss gets what the analysis gives. A request that fails leaves the cache as it is. -/
theorem bookkeeping_exact (c : Config) (requests : List (Option Program)) :
    let asked := requests.map (·.getD {})
    let empty := asked.countP (·.functions = [])
    let past := (start c).1.record asked
    let s := (start c).1.served asked
    requests.length = s.tally.hits + s.tally.misses + empty ∧
      empty ≤ s.tally.failed ∧ s.tally.misses = s.tally.optimized + (s.tally.failed - empty) ∧
      s.tally.removed = ((past.filterMap Event.result?).map (·.stats.removed)).sum ∧
      (past.filterMap Event.result?).map (·.run) = List.range s.tally.optimized ∧
      s.cache.size ≤ c.settings.cacheSize ∧
      ∀ p : Program,
        ((s.optimize p).2.tally.hits = s.tally.hits + 1 ↔
          p.functions ≠ [] ∧ 0 < c.settings.cacheSize ∧ (∃ result, .stored p.digest result ∈ past) ∧
            ∃ front back, past.filterMap Event.used? = front ++ p.digest :: back ∧ p.digest ∉ back ∧
              back.toFinset.card < c.settings.cacheSize) ∧
        ((s.optimize p).2.tally.hits = s.tally.hits + 1 →
          ∃ result, (s.optimize p).1.answer = .ok result ∧ Event.Latest past p.digest result) ∧
        ((s.optimize p).2.tally.misses = s.tally.misses + 1 ↔
          p.functions ≠ [] ∧ (s.optimize p).2.tally.hits ≠ s.tally.hits + 1) ∧
        ((s.optimize p).2.tally.misses = s.tally.misses + 1 →
          (s.optimize p).1.answer =
            (Analysis.run c.settings p).map fun a => ⟨a.optimized, a.stats, s.tally.optimized⟩) ∧
        ∀ e, (s.optimize p).1.answer = .error e → (s.optimize p).2.cache = s.cache := by
  intro asked empty past s
  have counted := served_counted c asked
  have recent := served_recent c asked
  refine ⟨?_, counted.bound, counted.misses, counted.removed, counted.runs, ?_, ?_⟩
  · rw [← List.length_map (·.getD {})]
    exact counted.total
  · rw [← recent.capacity]
    exact s.cache.bounded
  · intro p
    have step := s.optimize_step p
    refine ⟨step.hit_iff_recent recent, step.latest_of_hit recent, step.missed_iff, ?_, ?_⟩
    · intro missed
      have same : s.settings = c.settings := served_settings _ asked
      rw [step.answer_of_miss missed, same]
    · intro e failed
      rw [failed] at step
      exact step.cache_of_error

def putting (value : Bytes) : Program := ⟨[
  { name := [109], body := [⟨.call, [⟨.function, [112]⟩, ⟨.constant, value⟩], 3⟩] }]⟩

/-- With room for one result, a second request is a hit. Another program with another digest between two requests makes
the later one a miss. -/
theorem evicted_program_runs_again :
    let c : Config := ⟨[], some [[112]], [109], 0, 1⟩
    let first := putting [49]
    let second := putting [50]
    let s := (start c).1.served [first, first, second]
    ∃ a b : Analysis, Analysis.run c.settings first = .ok a ∧ Analysis.run c.settings second = .ok b ∧
      (start c).1.record [first, first] =
        [.stored first.digest ⟨a.optimized, a.stats, 0⟩, .hit first.digest ⟨a.optimized, a.stats, 0⟩] ∧
      (first.digest ≠ second.digest →
        (start c).1.record [first, first, second] =
          [.stored first.digest ⟨a.optimized, a.stats, 0⟩, .hit first.digest ⟨a.optimized, a.stats, 0⟩,
            .stored second.digest ⟨b.optimized, b.stats, 1⟩] ∧
        (s.optimize first).1.answer = .ok ⟨a.optimized, a.stats, 2⟩ ∧
        (s.optimize second).1.answer = .ok ⟨b.optimized, b.stats, 1⟩) := by
  intro c first second s
  have settings : c.settings = ⟨.all, [[112]], [109], 0, 1⟩ := by decide +kernel
  have runs : ∀ p ∈ [first, second], (Analysis.run c.settings p).map (·.critical.lines) = .ok [3] := by
    intro p member
    rw [settings]
    rcases List.mem_pair.1 member with rfl | rfl <;> cbv
  obtain ⟨a, analysed, _⟩ := Except.map_eq_ok.1 (runs first (by simp))
  obtain ⟨b, analysed', _⟩ := Except.map_eq_ok.1 (runs second (by simp))
  have one : first.functions ≠ [] := List.cons_ne_nil _ _
  have two : second.functions ≠ [] := List.cons_ne_nil _ _
  clear_value first second
  have exactly (asked : List Program) := bookkeeping_exact c (asked.map some)
  have unwrapped (asked : List Program) : (asked.map some).map (·.getD {}) = asked := by simp
  simp only [unwrapped] at exactly
  -- Nothing is kept at first.
  have begun : (start c).1.record [first] = [.stored first.digest ⟨a.optimized, a.stats, 0⟩] := by
    obtain ⟨_, _, _, _, _, _, now⟩ := exactly []
    refine record_of_miss one (mt (now first).1.1 ?_) analysed
    rintro ⟨_, _, ⟨_, stored⟩, _⟩
    exact List.not_mem_nil stored
  have again : (start c).1.record [first, first] = [.stored first.digest ⟨a.optimized, a.stats, 0⟩,
      .hit first.digest ⟨a.optimized, a.stats, 0⟩] := by
    obtain ⟨_, _, _, _, _, _, now⟩ := exactly [first]
    rw [begun] at now
    have hit := (now first).1.2 ⟨one, by decide, ⟨_, List.mem_singleton_self _⟩, [], [], rfl,
      List.not_mem_nil, by decide⟩
    obtain ⟨result, given, latest⟩ := (now first).2.1 hit
    rw [latest.unique (Event.latest_stored [] _ _)] at given
    exact (record_of_hit hit given).trans (congrArg (· ++ [_]) begun)
  refine ⟨a, b, analysed, analysed', again, fun apart => ?_⟩
  have evicted : (start c).1.record [first, first, second] = [.stored first.digest ⟨a.optimized, a.stats, 0⟩,
      .hit first.digest ⟨a.optimized, a.stats, 0⟩, .stored second.digest ⟨b.optimized, b.stats, 1⟩] := by
    obtain ⟨_, _, _, _, count, _, now⟩ := exactly [first, first]
    rw [again] at now count
    have run : ((start c).1.served [first, first]).tally.optimized = 1 := by
      simpa [Event.result?, List.filterMap] using (congrArg List.length count).symm
    have missed : (((start c).1.served [first, first]).optimize second).2.tally.hits ≠
        ((start c).1.served [first, first]).tally.hits + 1 := by
      refine mt (now second).1.1 ?_
      rintro ⟨_, _, ⟨_, stored⟩, _⟩
      simp [apart.symm] at stored
    have made := record_of_miss two missed analysed'
    rw [run, again] at made
    exact made
  obtain ⟨_, _, _, _, count, _, now⟩ := exactly [first, first, second]
  rw [evicted] at now count
  have run : s.tally.optimized = 2 := by
    simpa [Event.result?, List.filterMap] using (congrArg List.length count).symm
  refine ⟨evicted, ?_, ?_⟩
  · obtain ⟨hits, _, misses, answers, _⟩ := now first
    have missed : (s.optimize first).2.tally.hits ≠ s.tally.hits + 1 := by
      -- Another program was used since.
      intro hit
      obtain ⟨_, _, _, front, back, uses, _, fewer⟩ := hits.1 hit
      have none : back = [] := by simpa using (show back.toFinset.card < 1 from fewer)
      subst none
      have last := congrArg List.getLast? uses
      simp [Event.used?, apart.symm] at last
    have answer := answers (misses.2 ⟨one, missed⟩)
    rw [analysed, run] at answer
    exact answer
  · obtain ⟨hits, kept, _⟩ := now second
    have hit := hits.2 ⟨two, by decide, ⟨⟨b.optimized, b.stats, 1⟩, by simp⟩, [first.digest, first.digest], [], rfl,
      List.not_mem_nil, by decide⟩
    obtain ⟨result, given, latest⟩ := kept hit
    rw [latest.unique (Event.latest_stored [_, _] _ _)] at given
    exact given

end Session

end Deadwood

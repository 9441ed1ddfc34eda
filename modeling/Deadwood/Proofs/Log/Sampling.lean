import Deadwood.Session.Notice
import Mathlib.Data.Nat.ModEq
import Mathlib.Logic.ExistsUnique
import Mathlib.Logic.Function.Iterate

/-!
Which records a filter with a period lets through. The count of a filter is a word and begins again at zero, so that
what passes is told by where in its round of counts a check stands. Within the first round these are the multiples of
the period; beyond it they are so only if the rounds are made up of whole periods.
-/

namespace Deadwood.Log.EveryNth

variable {period : UInt32}

def after (f : EveryNth) (checks : Nat) : EveryNth := (fun f => f.check.2)^[checks] f

def answer (f : EveryNth) (checks : Nat) : Bool := (f.after checks).check.1

/-- Exactly one of as many checks in a row as the period says passes, given how many precede them. -/
def PassesOne (f : EveryNth) (first : Nat) : Prop :=
  ∃! k, first ≤ k ∧ k < first + f.period.toNat ∧ f.answer k = true

theorem after_succ (f : EveryNth) (checks : Nat) : f.after (checks + 1) = (f.after checks).check.2 :=
  Function.iterate_succ_apply' _ checks f

theorem check_eq (counting : period ≠ 0) (count : UInt32) :
    check ⟨period, count⟩ = (decide ((count + 1) % period = 0), ⟨period, count + 1⟩) := if_neg counting

theorem after_eq (counting : period ≠ 0) (count : UInt32) (checks : Nat) :
    after ⟨period, count⟩ checks = ⟨period, count + UInt32.ofNat checks⟩ := by
  induction checks with
  | zero => simp [after]
  | succ checks ih =>
      rw [after_succ, ih, check_eq counting, UInt32.ofNat_add, ← UInt32.add_assoc]
      rfl

theorem passed_map {α β : Type} (f : EveryNth) (items : List α) (g : α → β) :
    f.passed (items.map g) = (f.passed items).map g := by
  induction items generalizing f with
  | nil => rfl
  | cons item items ih =>
      rw [List.map_cons, passed, passed, ih, apply_ite (List.map g), List.map_cons]

theorem passed_after (f : EveryNth) (first count : Nat) :
    (f.after first).passed (List.range' first count) = (List.range' first count).filter f.answer := by
  induction count generalizing first with
  | zero => rfl
  | succ count ih =>
      rw [List.range'_succ, passed, List.filter_cons, ← after_succ, ih]
      rfl

theorem answer_iff (counting : period ≠ 0) (checks : Nat) :
    answer ⟨period, 0⟩ checks = true ↔ period.toNat ∣ (checks + 1) % UInt32.size := by
  have counted : UInt32.ofNat checks + 1 = UInt32.ofNat (checks + 1) := (UInt32.ofNat_add checks 1).symm
  rw [answer, after_eq counting, check_eq counting, decide_eq_true_eq, UInt32.zero_add, ← UInt32.toNat_inj,
    UInt32.toNat_mod, counted, UInt32.toNat_ofNat']
  exact (Nat.dvd_iff_mod_eq_zero ..).symm

theorem existsUnique_multiple {n : Nat} (positive : 0 < n) (first : Nat) :
    ∃! k, first ≤ k ∧ k < first + n ∧ n ∣ k + 1 := by
  have part := Nat.div_add_mod first n
  have below := Nat.mod_lt first positive
  have next : n * (first / n + 1) = n * (first / n) + n := Nat.mul_succ n _
  refine ⟨n * (first / n + 1) - 1, ⟨by omega, by omega, ?_⟩, ?_⟩
  · have whole : n * (first / n + 1) - 1 + 1 = n * (first / n + 1) := by omega
    exact Dvd.intro _ whole.symm
  · rintro k ⟨reached, short, c, whole⟩
    -- The multiple lies above that of the quotient and below the one after the next.
    have above : first / n < c := Nat.lt_of_mul_lt_mul_left (a := n) (by omega)
    have under : c < first / n + 2 := by
      refine Nat.lt_of_mul_lt_mul_left (a := n) ?_
      rw [Nat.mul_add]
      omega
    obtain rfl : c = first / n + 1 := by omega
    omega

theorem period_pos (counting : period ≠ 0) : 0 < period.toNat :=
  Nat.pos_of_ne_zero fun zero => counting (UInt32.toNat_inj.1 zero)

theorem round_mod (round place : Nat) (small : place < UInt32.size) :
    (UInt32.size * round + place) % UInt32.size = place := by
  rw [Nat.mul_add_mod, Nat.mod_eq_of_lt small]

theorem passesOne_of_within (counting : period ≠ 0) {first : Nat}
    (within : first % UInt32.size + period.toNat < UInt32.size) : PassesOne ⟨period, 0⟩ first := by
  obtain ⟨j, ⟨reached, short, multiple⟩, unique⟩ :=
    existsUnique_multiple (period_pos counting) (first % UInt32.size)
  have part := Nat.div_add_mod first UInt32.size
  have place (i : Nat) := round_mod (first / UInt32.size) (i + 1)
  generalize UInt32.size * (first / UInt32.size) = rounds at part place
  refine ⟨rounds + j, ⟨by omega, by dsimp only; omega, ?_⟩, ?_⟩
  · rw [answer_iff counting, Nat.add_assoc, place j (by omega)]
    exact multiple
  · rintro k ⟨reached', short', passes⟩
    dsimp only at short'
    obtain ⟨i, rfl⟩ : ∃ i, k = rounds + i := ⟨k - rounds, by omega⟩
    rw [answer_iff counting, Nat.add_assoc, place i (by omega)] at passes
    rw [unique i ⟨by omega, by omega, passes⟩]

theorem passesOne_of_dvd (counting : period ≠ 0) (whole : period.toNat ∣ UInt32.size) (first : Nat) :
    PassesOne ⟨period, 0⟩ first := by
  simpa only [PassesOne, answer_iff counting, Nat.dvd_mod_iff whole] using
    existsUnique_multiple (period_pos counting) first

theorem answer_wrapped (counting : period ≠ 0) (round : Nat) :
    answer ⟨period, 0⟩ (UInt32.size * (round + 1) - 1) = true := by
  have next : UInt32.size * (round + 1) - 1 + 1 = UInt32.size * (round + 1) :=
    Nat.sub_add_cancel (Nat.mul_pos (by decide) (Nat.succ_pos round))
  rw [answer_iff counting, next, Nat.mul_mod_right]
  exact Nat.dvd_zero _

theorem exists_passing (counting : period ≠ 0) (first : Nat) :
    ∃ k, first ≤ k ∧ k < first + period.toNat ∧ answer ⟨period, 0⟩ k = true := by
  by_cases within : first % UInt32.size + period.toNat < UInt32.size
  · exact (passesOne_of_within counting within).exists
  · have part := Nat.div_add_mod first UInt32.size
    have place := Nat.mod_lt first (y := UInt32.size) (by decide)
    have wraps := answer_wrapped counting (first / UInt32.size)
    rw [Nat.mul_succ] at wraps
    exact ⟨_, by omega, by omega, wraps⟩

theorem dvd_of_passesOne (counting : period ≠ 0) (each : ∀ first, PassesOne ⟨period, 0⟩ first) :
    period.toNat ∣ UInt32.size := by
  by_contra broken
  have part := Nat.div_add_mod UInt32.size period.toNat
  have rest := Nat.mod_lt UInt32.size (period_pos counting)
  have present := Nat.pos_of_ne_zero fun none => broken (Nat.dvd_of_mod_eq_zero none)
  have multiple := Nat.dvd_mul_right period.toNat (UInt32.size / period.toNat)
  have wraps := answer_wrapped counting 0
  have fits := period.toNat_lt_size
  generalize period.toNat * (UInt32.size / period.toNat) = last at part multiple
  have passes : answer ⟨period, 0⟩ (last - 1) = true := by
    rw [answer_iff counting, Nat.sub_add_cancel (by omega), Nat.mod_eq_of_lt (by omega)]
    exact multiple
  have same := (each (last - 1)).unique ⟨by omega, by dsimp only; omega, passes⟩
    ⟨by omega, by dsimp only; omega, wraps⟩
  omega

/-- A filter that begins at zero lets those checks through whose place in their round is a multiple of its period. So
it lets every check through whose number is a multiple, and no other, up to the end of the first round; and it does so
for runs of any length, and lets one of as many checks in a row as the period says through, exactly if the rounds are
made up of whole periods. -/
theorem every_multiple_passes_iff (counting : 0 < period) :
    (∀ k, answer ⟨period, 0⟩ k = true ↔ period.toNat ∣ (k + 1) % UInt32.size) ∧
      (∀ k, k + 1 < UInt32.size → (answer ⟨period, 0⟩ k = true ↔ period.toNat ∣ k + 1)) ∧
      (∀ first, first % UInt32.size + period.toNat < UInt32.size → PassesOne ⟨period, 0⟩ first) ∧
      (∀ first, ∃ k, first ≤ k ∧ k < first + period.toNat ∧ answer ⟨period, 0⟩ k = true) ∧
      ((∀ k, answer ⟨period, 0⟩ k = true ↔ period.toNat ∣ k + 1) ↔ period.toNat ∣ UInt32.size) ∧
      ((∀ first, PassesOne ⟨period, 0⟩ first) ↔ period.toNat ∣ UInt32.size) := by
  have counts : period ≠ 0 := (UInt32.pos_iff_ne_zero).1 counting
  have answers := answer_iff counts
  refine ⟨answers, ?_, fun _ => passesOne_of_within counts, exists_passing counts, ⟨?_, ?_⟩,
    dvd_of_passesOne counts, passesOne_of_dvd counts⟩
  · intro k first_round
    rw [answers, Nat.mod_eq_of_lt first_round]
  · intro always
    exact (always (UInt32.size - 1)).1 (answer_wrapped counts 0)
  · intro whole k
    rw [answers, Nat.dvd_mod_iff whole]

/-- With a period of three the check whose number is that of all words passes, which is no multiple of three. -/
theorem wrapped_count_passes_early :
    0 < (3 : UInt32) ∧ answer ⟨3, 0⟩ 4294967295 = true ∧ ¬3 ∣ 4294967295 + 1 ∧ ¬∀ first, PassesOne ⟨3, 0⟩ first := by
  have filter := @every_multiple_passes_iff 3 (by decide)
  exact ⟨by decide, (filter.1 _).2 (by decide), by decide, fun each => absurd (filter.2.2.2.2.2.1 each) (by decide)⟩

end Deadwood.Log.EveryNth

namespace Deadwood.Analysis

open Log.EveryNth

theorem reportedPasses_eq (changed : Nat) :
    reportedPasses changed = ((List.range changed).map (· + 1)).filter (16 ∣ ·) := by
  have noted := passed_after ⟨16, 0⟩ 0 changed
  rw [← List.range_eq_range'] at noted
  rw [reportedPasses, passed_map, List.filter_map]
  refine congrArg _ (noted.trans (List.filter_congr fun k _ => ?_))
  rw [Bool.eq_iff_iff, answer_iff (by decide), Nat.dvd_mod_iff (by decide), Function.comp_apply, decide_eq_true_eq]
  rfl

end Deadwood.Analysis

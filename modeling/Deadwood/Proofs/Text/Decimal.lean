import Deadwood.Text.Bytes
import Mathlib.Data.List.Basic

/-! Numbers written in base ten: their digits and sign, and that no two are written alike. -/

namespace Deadwood.Bytes

theorem toNat_digit {n : Nat} (small : n < 10) : (48 + n.toUInt8).toNat = 48 + n := by
  simp
  omega

theorem isDigit_digit {n : Nat} (small : n < 10) : isDigit (48 + n.toUInt8) = true := by
  simp only [isDigit, UInt8.le_iff_toNat_le, toNat_digit small, Bool.and_eq_true, decide_eq_true_eq]
  exact ⟨Nat.le_add_right 48 n, show 48 + n ≤ 57 by omega⟩

theorem isDigit_ofNat (n : Nat) : ∀ b ∈ ofNat n, isDigit b = true := by
  fun_induction ofNat n with
  | case1 n small =>
      intro b member
      rw [List.mem_singleton.1 member]
      exact isDigit_digit small
  | case2 n large ih =>
      intro b member
      rcases List.mem_append.1 member with front | last
      · exact ih b front
      · rw [List.mem_singleton.1 last]
        exact isDigit_digit (Nat.mod_lt n (by decide))

theorem ofNat_ne_nil (n : Nat) : ofNat n ≠ [] := by
  rw [ofNat]
  split <;> simp

theorem ofNat_injective {n m : Nat} (same : ofNat n = ofNat m) : n = m := by
  fun_induction ofNat n generalizing m with
  | case1 n small =>
      rw [ofNat] at same
      split at same
      · rename_i small'
        have digit := congrArg UInt8.toNat (List.cons.inj same).1
        rw [toNat_digit small, toNat_digit small'] at digit
        omega
      · have length := congrArg List.length same
        have := List.length_pos_iff.2 (ofNat_ne_nil (m / 10))
        simp only [List.length_append, List.length_singleton] at length
        omega
  | case2 n large ih =>
      rw [ofNat.eq_1 m] at same
      split at same
      · have length := congrArg List.length same
        have := List.length_pos_iff.2 (ofNat_ne_nil (n / 10))
        simp only [List.length_append, List.length_singleton] at length
        omega
      · rcases List.append_inj' same rfl with ⟨front, last⟩
        have quotient := ih front
        have digit := congrArg UInt8.toNat (List.cons.inj last).1
        rw [toNat_digit (Nat.mod_lt n (by decide)), toNat_digit (Nat.mod_lt m (by decide))] at digit
        omega

theorem ofInt_cases (n : Int) :
    (∃ b ∈ (ofInt n).head?, isDigit b = true ∨ b = 45) ∧ ∀ b ∈ ofInt n, isDigit b = true ∨ b = 45 := by
  cases n with
  | ofNat n =>
      rcases List.exists_cons_of_ne_nil (ofNat_ne_nil n) with ⟨b, rest, digits⟩
      have each := isDigit_ofNat n
      refine ⟨⟨b, ?_, .inl (each b (digits ▸ List.mem_cons_self))⟩, fun b member => .inl (each b member)⟩
      rw [ofInt, digits]
      rfl
  | negSucc n =>
      refine ⟨⟨45, rfl, .inr rfl⟩, ?_⟩
      intro b member
      rcases List.mem_cons.1 member with rfl | digit
      · exact .inr rfl
      · exact .inl (isDigit_ofNat (n + 1) b digit)

theorem ofInt_injective {n m : Int} (same : ofInt n = ofInt m) : n = m := by
  have signed (k l : Nat) : ofNat k ≠ 45 :: ofNat l := by
    intro equal
    have digit := isDigit_ofNat k 45 (equal ▸ List.mem_cons_self)
    cases digit
  cases n with
  | ofNat k =>
      cases m with
      | ofNat l => exact congrArg Int.ofNat (ofNat_injective same)
      | negSucc l => exact absurd same (signed k (l + 1))
  | negSucc k =>
      cases m with
      | ofNat l => exact absurd same.symm (signed l (k + 1))
      | negSucc l => exact congrArg Int.negSucc (Nat.succ.inj (ofNat_injective (List.cons.inj same).2))

end Deadwood.Bytes

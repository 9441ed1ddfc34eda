import Deadwood.Number.Integer
import Deadwood.Proofs.Config.Texts
import Mathlib.Tactic.NormNum

/-!
How files of tables read whole numbers. Dates and fractions are tried first, and begin with digits too; a number that
ends with its line is neither.
-/

namespace Deadwood

theorem Bytes.head_ofNat (n : Nat) (positive : n ≠ 0) : ∀ b ∈ (ofNat n).head?, (49 ≤ b && b ≤ 57) = true := by
  fun_induction ofNat n with
  | case1 n small =>
      revert n
      decide +kernel
  | case2 n large ih =>
      rw [List.head?_append_of_ne_nil _ (ofNat_ne_nil _)]
      exact ih (by omega)

namespace Integer

theorem digit_digit {n : Nat} (small : n < 10) : digit? (48 + n.toUInt8) = some n := by
  revert n
  decide

theorem digits_ofNat (n : Nat) : digits? 10 (Bytes.ofNat n) = some n := by
  fun_induction Bytes.ofNat n with
  | case1 n small => simp [digits?, digit_digit small, Option.filter, small]
  | case2 n large ih =>
      have last := Nat.mod_lt n (y := 10) (by decide)
      rw [digits?, List.foldl_append, ← digits?, ih, List.foldl_cons, List.foldl_nil, digit_digit last]
      simp only [Option.filter, Option.bind_some, last, decide_true, if_true, Option.map_some, Nat.div_add_mod']

theorem sign_ofNat (n : Nat) : sign (Bytes.ofNat n) = (false, Bytes.ofNat n) := by
  have digits := Bytes.isDigit_ofNat n
  rw [sign]
  all_goals
    intro rest text
    have := digits _ (text ▸ List.mem_cons_self)
    cases this

theorem decimal_ofInt (n : Int) : decimal? (Bytes.ofInt n) = some n := by
  cases n with
  | ofNat n =>
      rw [decimal?, Bytes.ofInt, sign_ofNat, if_neg (Bytes.ofNat_ne_nil n), digits_ofNat]
      rfl
  | negSucc n =>
      have signed : sign (Bytes.ofInt (.negSucc n)) = (true, Bytes.ofNat (n + 1)) := rfl
      rw [decimal?, signed, if_neg (Bytes.ofNat_ne_nil (n + 1)), digits_ofNat]
      rfl

end Integer

namespace Toml.Syntax

open Grammar

def DigitLine (s : Bytes) : Prop := ∃ digits rest, s = digits ++ 10 :: rest ∧ ∀ b ∈ digits, Bytes.isDigit b = true

/-- A grammar that takes nothing but digits from a line of digits, if it fits at all. -/
def Stays {α : Type} (r : Grammar α) : Prop :=
  ∀ s, DigitLine s → Refuses r s ∨ ∃ a t, Reads r s a t ∧ DigitLine t

theorem Stays.bind {α β : Type} {r : Grammar α} {f : α → Grammar β} (stays : Stays r) (next : ∀ a, Stays (f a)) :
    Stays (r >>= f) := by
  intro s line
  rcases stays s line with refused | ⟨a, t, read, line'⟩
  · exact .inl (refused.bind f)
  rcases next a t line' with refused | ⟨b, u, read', line''⟩
  · exact .inl (read.bind_refuses refused)
  · exact .inr ⟨b, u, read.bind read', line''⟩

theorem Stays.rule {α : Type} {r : Grammar α} (stays : Stays r) : Stays (rule r) := by
  intro s line
  rcases stays s line with refused | ⟨a, t, read, line'⟩
  · exact .inl refused.rule
  · exact .inr ⟨a, t, read.rule, line'⟩

theorem Stays.refuses {α : Type} {r : Grammar Unit} {f : Unit → Grammar α} {s : Bytes} (stays : Stays r)
    (line : DigitLine s) (next : ∀ t, DigitLine t → Refuses (f ()) t) : Refuses (r >>= f) s := by
  rcases stays s line with refused | ⟨a, t, read, line'⟩
  · exact refused.bind f
  · exact read.bind_refuses (next t line')

theorem stays_digit : Stays digit := by
  rintro s ⟨digits, rest, rfl, each⟩
  cases digits with
  | nil => exact .inl fun _ => ⟨_, rfl⟩
  | cons d digits =>
      have read := reads_byte (each d List.mem_cons_self) (digits ++ 10 :: rest)
      refine .inr ⟨(), digits ++ 10 :: rest, ?_, digits, rest, rfl, fun b member => ?_⟩
      · exact (read.bind (reads_pure () _)).rule
      · exact each b (List.mem_cons_of_mem d member)

theorem stays_twoDigits : Stays twoDigits := (stays_digit.bind fun _ => stays_digit).rule

theorem refuses_char_digitLine {b : UInt8} {s : Bytes} (other : Bytes.isDigit b = false ∧ b ≠ 10) (line : DigitLine s) :
    Refuses (char b) s := by
  obtain ⟨digits, rest, rfl, each⟩ := line
  refine refuses_char fun a head => ?_
  cases digits with
  | nil =>
      cases head
      exact other.2.symm
  | cons d digits =>
      cases head
      rintro rfl
      rw [each a List.mem_cons_self] at other
      cases other.1

theorem refuses_datetime {s : Bytes} (line : DigitLine s) : Refuses datetime s := by
  have date : Refuses fullDate s := by
    have year : Stays year := (stays_twoDigits.bind fun _ => stays_twoDigits).rule.rule
    exact (year.refuses line fun t line' => (refuses_char_digitLine (by decide) line').bind _).rule
  have time : Refuses partialTime s :=
    (stays_twoDigits.rule.refuses line fun t line' => (refuses_char_digitLine (by decide) line').bind _).rule
  exact ((date.bind _).orElse time).rule

theorem reads_spacedDigits {digits : Bytes} (each : ∀ b ∈ digits, Bytes.isDigit b = true) (rest : Bytes) :
    ∃ units, Repeats spacedDigit (digits ++ 10 :: rest) units (10 :: rest) := by
  induction digits with
  | nil => exact ⟨[], .stop fun _ => ⟨_, rfl⟩⟩
  | cons d digits ih =>
      obtain ⟨units, later⟩ := ih fun b member => each b (List.mem_cons_of_mem d member)
      have read := reads_byte (each d List.mem_cons_self) (digits ++ 10 :: rest)
      exact ⟨() :: units, .again ((read.bind (reads_pure () _)).rule.orElse _) (Nat.lt_succ_self _) later⟩

theorem reads_whole (n : Nat) (rest : Bytes) : Reads whole (Bytes.ofNat n ++ 10 :: rest) () (10 :: rest) := by
  have each := Bytes.isDigit_ofNat n
  have positive : n ≠ 0 → ∀ b ∈ (Bytes.ofNat n).head?, (49 ≤ b && b ≤ 57) = true := Bytes.head_ofNat n
  have zero : n = 0 → Bytes.ofNat n = [48] := by
    rintro rfl
    rw [Bytes.ofNat]
    rfl
  cases digits : Bytes.ofNat n with
  | nil => exact absurd digits (Bytes.ofNat_ne_nil n)
  | cons d others =>
      rw [digits] at each positive zero
      have single := reads_byte (each d List.mem_cons_self) (others ++ 10 :: rest)
      cases others with
      | nil =>
          refine (Refuses.orElse_reads ?_ (single.bind (reads_pure () _)).rule).rule
          have stuck : Refuses (atLeastOne spacedDigit) (10 :: rest) := fun _ => ⟨_, rfl⟩
          cases fits : 49 ≤ d && d ≤ 57 with
          | false => exact (refuses_byte (by simpa using fits)).bind _
          | true => exact (reads_byte (p := fun b => 49 ≤ b && b ≤ 57) fits _).bind_refuses (stuck.bind _)
      | cons second others =>
          have front : (49 ≤ d && d ≤ 57) = true := by
            refine positive (fun none => ?_) d rfl
            cases zero none
          obtain ⟨units, later⟩ := reads_spacedDigits
            (fun b member => each b (List.mem_cons_of_mem d (List.mem_cons_of_mem second member))) rest
          have next := reads_byte (each second (List.mem_cons_of_mem d List.mem_cons_self)) (others ++ 10 :: rest)
          have digit : Reads spacedDigit (second :: (others ++ 10 :: rest)) () (others ++ 10 :: rest) :=
            (next.bind (reads_pure () _)).rule.orElse _
          refine (Reads.orElse ?_ _).rule
          refine (reads_byte (p := fun b => 49 ≤ b && b ≤ 57) front _).bind ?_
          refine Reads.bind (digit.bind (later.many.bind (reads_pure _ _))) (reads_pure () _)

theorem reads_integer (n : Int) (rest : Bytes) : Reads integer (Bytes.ofInt n ++ 10 :: rest) () (10 :: rest) := by
  cases n with
  | ofNat n =>
      have unsigned : Refuses sign (Bytes.ofNat n ++ 10 :: rest) := by
        refine (refuses_byte fun b head => ?_).bind _
        have digit := Bytes.isDigit_ofNat n
        cases digits : Bytes.ofNat n with
        | nil => exact absurd digits (Bytes.ofNat_ne_nil n)
        | cons d others =>
            rw [digits] at digit head
            cases head
            have digit := digit b List.mem_cons_self
            simp only [Bytes.isDigit, Bool.and_eq_true, decide_eq_true_eq] at digit
            grind
      exact (unsigned.optional.bind (reads_whole n rest)).rule
  | negSucc n =>
      have signed : Reads sign (45 :: (Bytes.ofNat (n + 1) ++ 10 :: rest)) () (Bytes.ofNat (n + 1) ++ 10 :: rest) :=
        fun mark => ⟨mark, rfl⟩
      exact (signed.optional.bind (reads_whole (n + 1) rest)).rule

theorem refuses_float (n : Int) (rest : Bytes) : Refuses float (Bytes.ofInt n ++ 10 :: rest) := by
  refine ((reads_integer n rest).bind_refuses (Refuses.orElse ?_ ?_)).rule
  · exact fun _ => ⟨_, rfl⟩
  · exact fun _ => ⟨_, rfl⟩

theorem reads_ofInt (n : Int) (fuel : Nat) (rest : Bytes) :
    Reads (value (fuel + 1)) (Bytes.ofInt n ++ 10 :: rest) (.integer (Bytes.ofInt n)) (10 :: rest) := by
  have date : Refuses datetime (Bytes.ofInt n ++ 10 :: rest) := by
    cases n with
    | ofNat n => exact refuses_datetime ⟨Bytes.ofNat n, rest, rfl, Bytes.isDigit_ofNat n⟩
    | negSucc n => exact fun _ => ⟨_, rfl⟩
  have real := (refuses_float n rest).text.map Term.float
  have number := (reads_integer n rest).text.map Term.integer
  exact ((date.text.map _).orElse_reads (real.orElse_reads (number.orElse _))).rule

end Toml.Syntax

end Deadwood

import Deadwood.Text.Rune
import Mathlib.Tactic.SplitIfs

/-! Code points and their encodings: what the head of a text is read as, and texts whose bytes all belong to one. -/

namespace Deadwood.Rune

def IsScalar (point : Nat) : Prop := point < 0xD800 ∨ 0xE000 ≤ point ∧ point < 0x110000

theorem toUInt8_eq {n : Nat} {b : UInt8} (same : n = b.toNat) : n.toUInt8 = b := by
  rw [same]
  exact UInt8.ofNat_toNat

theorem isTail_iff {b : UInt8} : isTail b = true ↔ 0x80 ≤ b.toNat ∧ b.toNat ≤ 0xBF := by
  simp [isTail, UInt8.le_iff_toNat_le]

theorem second_bounds {a b : UInt8} (bounded : second a b = true) :
    (0x80 ≤ b.toNat ∧ b.toNat ≤ 0xBF) ∧ (a.toNat = 0xE0 → 0xA0 ≤ b.toNat) ∧ (a.toNat = 0xED → b.toNat ≤ 0x9F) ∧
      (a.toNat = 0xF0 → 0x90 ≤ b.toNat) ∧ (a.toNat = 0xF4 → b.toNat ≤ 0x8F) := by
  simp only [second, isTail, ← UInt8.toNat_inj, UInt8.reduceToNat] at bounded
  split_ifs at bounded <;>
    (simp only [Bool.and_eq_true, decide_eq_true_eq, UInt8.le_iff_toNat_le, UInt8.reduceToNat] at bounded; omega)

theorem encode_two {a b : UInt8} (first : 0xC2 ≤ a.toNat ∧ a.toNat ≤ 0xDF) (last : isTail b = true) :
    encode (a.toNat % 32 * 64 + tailBits b) = [a, b] ∧ IsScalar (a.toNat % 32 * 64 + tailBits b) := by
  have tail := isTail_iff.1 last
  rw [tailBits]
  constructor
  · rw [encode, if_neg (by omega), if_pos (by omega), toUInt8_eq (b := a) (by omega), toUInt8_eq (b := b) (by omega)]
  · exact .inl (by omega)

theorem encode_three {a b c : UInt8} (first : 0xE0 ≤ a.toNat ∧ a.toNat ≤ 0xEF)
    (rest : (second a b && isTail c) = true) :
    encode ((a.toNat % 16 * 64 + tailBits b) * 64 + tailBits c) = [a, b, c] ∧
      IsScalar ((a.toNat % 16 * 64 + tailBits b) * 64 + tailBits c) := by
  rw [Bool.and_eq_true] at rest
  have middle := second_bounds rest.1
  have tail := isTail_iff.1 rest.2
  rw [tailBits, tailBits]
  constructor
  · rw [encode, if_neg (by omega), if_neg (by omega), if_pos (by omega), toUInt8_eq (b := a) (by omega),
      toUInt8_eq (b := b) (by omega), toUInt8_eq (b := c) (by omega)]
  · rw [IsScalar]
    omega

theorem encode_four {a b c d : UInt8} (first : 0xF0 ≤ a.toNat ∧ a.toNat ≤ 0xF4)
    (rest : (second a b && isTail c && isTail d) = true) :
    encode (((a.toNat % 8 * 64 + tailBits b) * 64 + tailBits c) * 64 + tailBits d) = [a, b, c, d] ∧
      IsScalar (((a.toNat % 8 * 64 + tailBits b) * 64 + tailBits c) * 64 + tailBits d) := by
  rw [Bool.and_eq_true, Bool.and_eq_true] at rest
  have middle := second_bounds rest.1.1
  have tail := isTail_iff.1 rest.1.2
  have tail' := isTail_iff.1 rest.2
  rw [tailBits, tailBits, tailBits]
  constructor
  · rw [encode, if_neg (by omega), if_neg (by omega), if_neg (by omega), toUInt8_eq (b := a) (by omega),
      toUInt8_eq (b := b) (by omega), toUInt8_eq (b := c) (by omega), toUInt8_eq (b := d) (by omega)]
  · rw [IsScalar]
    omega

/-- A code point with its encoding, which is recognized before any text. -/
structure Encodes (point : Nat) (encoding : Bytes) : Prop where
  encode_eq : encode point = encoding
  scalar : IsScalar point
  head_eq : ∀ a tail t, encoding = a :: tail → head a (tail ++ t) = .code point encoding

theorem not_ascii_of_mem_encode {point : Nat} (large : 0x80 ≤ point) (bounded : point < 0x110000) :
    ∀ b ∈ encode point, 0x80 ≤ b := by
  have high (n : Nat) (wide : 0x80 ≤ n) (small : n < 0x100) : 0x80 ≤ n.toUInt8 := by
    rw [UInt8.le_iff_toNat_le, Nat.toUInt8_eq, UInt8.toNat_ofNat_of_lt' (by simpa using small)]
    exact wide
  intro b member
  rw [encode, if_neg (by omega)] at member
  split_ifs at member <;> simp only [List.mem_cons, List.not_mem_nil, or_false] at member
  · rcases member with rfl | rfl <;> exact high _ (by omega) (by omega)
  · rcases member with rfl | rfl | rfl <;> exact high _ (by omega) (by omega)
  · rcases member with rfl | rfl | rfl | rfl <;> exact high _ (by omega) (by omega)

theorem Encodes.ne_nil {point : Nat} {encoding : Bytes} (encodes : Encodes point encoding) : encoding ≠ [] := by
  rw [← encodes.encode_eq, encode]
  split_ifs <;> exact List.cons_ne_nil _ _

theorem Encodes.eq_singleton {point : Nat} {encoding : Bytes} (encodes : Encodes point encoding)
    (ascii : point < 0x80) : encoding = [point.toUInt8] := by
  rw [← encodes.encode_eq, encode, if_pos ascii]

theorem Encodes.not_ascii {point : Nat} {encoding : Bytes} (encodes : Encodes point encoding)
    (large : 0x80 ≤ point) : ∀ b ∈ encoding, 0x80 ≤ b := by
  rw [← encodes.encode_eq]
  refine not_ascii_of_mem_encode large ?_
  rcases encodes.scalar with low | ⟨-, high⟩ <;> omega

theorem Encodes.not_mem {point : Nat} {encoding : Bytes} (encodes : Encodes point encoding) {b : UInt8}
    (ascii : b < 0x80) (other : point ≠ b.toNat) : b ∉ encoding := by
  intro member
  by_cases small : point < 0x80
  · rw [encodes.eq_singleton small, List.mem_singleton] at member
    have value : point.toUInt8.toNat = point := UInt8.toNat_ofNat_of_lt' (by simpa using Nat.lt_trans small (by decide))
    exact other (by rw [member, value])
  · exact absurd ascii (UInt8.not_lt.2 (encodes.not_ascii (Nat.le_of_not_lt small) b member))

theorem encodes_ascii {a : UInt8} (ascii : a < 0x80) : Encodes a.toNat [a] := by
  have small : a.toNat < 0x80 := ascii
  refine ⟨by rw [encode, if_pos small, toUInt8_eq rfl], .inl (by omega), ?_⟩
  rintro _ _ t ⟨⟩
  unfold head
  rw [if_pos ascii]

/-- A text that begins with a code point, given how the head of every text with its bytes is read. -/
theorem head_of_recognized {point : Nat} {a : UInt8} {tail rest : Bytes} (prefixed : tail <+: rest)
    (recognized : ∀ t, head a (tail ++ t) = .code point (a :: tail))
    (encoded : encode point = a :: tail ∧ IsScalar point) :
    ∃ point tail, head a rest = .code point (a :: tail) ∧ tail <+: rest ∧ Encodes point (a :: tail) := by
  obtain ⟨t, rfl⟩ := prefixed
  refine ⟨point, tail, recognized t, List.prefix_append tail t, encoded.1, encoded.2, ?_⟩
  rintro _ _ t ⟨⟩
  exact recognized t

theorem head_cases (a : UInt8) (rest : Bytes) :
    head a rest = .stray a ∨
      ∃ point tail, head a rest = .code point (a :: tail) ∧ tail <+: rest ∧ Encodes point (a :: tail) := by
  by_cases one : a < 0x80
  · have encodes := encodes_ascii one
    exact .inr ⟨a.toNat, [], encodes.head_eq a [] rest rfl, List.nil_prefix, encodes⟩
  by_cases two : 0xC2 ≤ a && a ≤ 0xDF
  · match rest with
    | b :: rest =>
        by_cases last : isTail b
        · refine .inr (head_of_recognized (List.prefix_append [b] rest) (fun t => ?_) (encode_two ?_ last))
          · simp only [head, if_neg one, if_pos two, List.cons_append, if_pos last]
          · simpa [UInt8.le_iff_toNat_le] using two
        · exact .inl (by simp only [head, if_neg one, if_pos two, if_neg last])
    | [] => exact .inl (by simp only [head, if_neg one, if_pos two])
  by_cases three : 0xE0 ≤ a && a ≤ 0xEF
  · match rest with
    | b :: c :: rest =>
        by_cases others : second a b && isTail c
        · refine .inr (head_of_recognized (List.prefix_append [b, c] rest) (fun t => ?_) (encode_three ?_ others))
          · simp only [head, if_neg one, if_neg two, if_pos three, List.cons_append, if_pos others]
          · simpa [UInt8.le_iff_toNat_le] using three
        · exact .inl (by simp only [head, if_neg one, if_neg two, if_pos three, if_neg others])
    | [_] | [] => exact .inl (by simp only [head, if_neg one, if_neg two, if_pos three])
  by_cases four : 0xF0 ≤ a && a ≤ 0xF4
  · match rest with
    | b :: c :: d :: rest =>
        by_cases others : second a b && isTail c && isTail d
        · refine .inr (head_of_recognized (List.prefix_append [b, c, d] rest) (fun t => ?_) (encode_four ?_ others))
          · simp only [head, if_neg one, if_neg two, if_neg three, if_pos four, List.cons_append, if_pos others]
          · simpa [UInt8.le_iff_toNat_le] using four
        · exact .inl (by simp only [head, if_neg one, if_neg two, if_neg three, if_pos four, if_neg others])
    | [_, _] | [_] | [] => exact .inl (by simp only [head, if_neg one, if_neg two, if_neg three, if_pos four])
  exact .inl (by unfold head; rw [if_neg one, if_neg two, if_neg three, if_neg four])

theorem raw_head (a : UInt8) (rest : Bytes) : ∃ tail, (head a rest).raw = a :: tail ∧ tail <+: rest := by
  rcases head_cases a rest with stray | ⟨point, tail, coded, prefixed, -⟩
  · exact ⟨[], by rw [stray, raw], List.nil_prefix⟩
  · exact ⟨tail, by rw [coded, raw], prefixed⟩

end Deadwood.Rune

namespace Deadwood.Bytes

open Rune

theorem flatMap_raw_runesFrom (skip : Nat) (s : Bytes) : (runesFrom skip s).flatMap raw = s.drop skip := by
  fun_induction runesFrom skip s with
  | case1 => rw [List.drop_nil, List.flatMap_nil]
  | case2 a rest n ih => rw [ih, List.drop_succ_cons]
  | case3 a rest ih =>
      obtain ⟨tail, read, t, rfl⟩ := raw_head a rest
      rw [List.flatMap_cons, ih, read]
      simp

theorem flatMap_raw_runes (s : Bytes) : s.runes.flatMap raw = s := flatMap_raw_runesFrom 0 s

theorem encodes_of_mem_runesFrom {skip : Nat} {s : Bytes} {point : Nat} {encoding : Bytes}
    (found : .code point encoding ∈ runesFrom skip s) : Encodes point encoding := by
  fun_induction runesFrom skip s with
  | case1 => cases found
  | case2 a rest n ih => exact ih found
  | case3 a rest ih =>
      rcases List.mem_cons.1 found with first | later
      · rcases head_cases a rest with stray | ⟨_, _, coded, -, encodes⟩
        · rw [stray] at first
          cases first
        · rw [coded] at first
          cases first
          exact encodes
      · exact ih later

theorem encodes_of_mem_runes {s : Bytes} {point : Nat} {encoding : Bytes} (found : .code point encoding ∈ s.runes) :
    Encodes point encoding := encodes_of_mem_runesFrom found

theorem not_ascii_of_stray_mem_runesFrom {skip : Nat} {s : Bytes} {b : UInt8} (found : .stray b ∈ runesFrom skip s) :
    ¬b < 0x80 := by
  fun_induction runesFrom skip s with
  | case1 => cases found
  | case2 a rest n ih => exact ih found
  | case3 a rest ih =>
      rcases List.mem_cons.1 found with first | later
      · intro ascii
        rcases head_cases a rest with stray | ⟨_, _, coded, -, -⟩
        · rw [stray] at first
          cases first
          have coded : head b rest = .code b.toNat [b] := (encodes_ascii ascii).head_eq b [] rest rfl
          rw [coded] at stray
          cases stray
        · rw [coded] at first
          cases first
      · exact ih later

theorem runesFrom_append (s t : Bytes) : runesFrom s.length (s ++ t) = t.runes := by
  induction s with
  | nil => rfl
  | cons a s ih => exact ih

theorem runes_append {point : Nat} {encoding : Bytes} (encodes : Encodes point encoding) (t : Bytes) :
    (encoding ++ t).runes = .code point encoding :: t.runes := by
  rcases List.exists_cons_of_ne_nil encodes.ne_nil with ⟨a, tail, rfl⟩
  have read : head a (tail ++ t) = .code point (a :: tail) := encodes.head_eq a tail t rfl
  calc
    runes (a :: tail ++ t) = head a (tail ++ t) :: runesFrom ((head a (tail ++ t)).raw.length - 1) (tail ++ t) := rfl
    _ = .code point (a :: tail) :: runesFrom tail.length (tail ++ t) := by rw [read]; rfl
    _ = .code point (a :: tail) :: t.runes := by rw [runesFrom_append]

/-- A text whose bytes stay as they are when stray bytes are replaced, whatever follows. -/
def Clean (s : Bytes) : Prop := ∀ t, (s ++ t).scrubbed = s ++ t.scrubbed

theorem clean_nil : Clean [] := fun _ => rfl

theorem Clean.append {s t : Bytes} (clean : s.Clean) (clean' : t.Clean) : (s ++ t).Clean := fun u => by
  rw [List.append_assoc, clean, clean', List.append_assoc]

theorem Clean.scrubbed_eq {s : Bytes} (clean : s.Clean) : s.scrubbed = s := by
  have := clean []
  rwa [List.append_nil, show scrubbed [] = [] from rfl, List.append_nil] at this

theorem clean_of_encodes {point : Nat} {encoding : Bytes} (encodes : Encodes point encoding) :
    encoding.Clean := fun t => by
  rw [scrubbed, runes_append encodes, List.flatMap_cons]
  rfl

theorem clean_of_ascii {s : Bytes} (ascii : ∀ b ∈ s, b < 0x80) : s.Clean := by
  induction s with
  | nil => exact clean_nil
  | cons b s ih =>
      have first := clean_of_encodes (encodes_ascii (ascii b List.mem_cons_self))
      exact first.append (ih fun b member => ascii b (List.mem_cons_of_mem _ member))

theorem clean_flatMap {α : Type} {write : α → Bytes} {items : List α} (each : ∀ item ∈ items, (write item).Clean) :
    Clean (items.flatMap write) := by
  induction items with
  | nil => exact clean_nil
  | cons first rest ih =>
      rw [List.flatMap_cons]
      exact (each first List.mem_cons_self).append (ih fun item member => each item (List.mem_cons_of_mem first member))

end Deadwood.Bytes

import Deadwood.Config.Toml.Document
import Deadwood.Proofs.Text.Rune
import Deadwood.Text.Quoted
import Mathlib.Tactic.NormNum

/-!
Which quoted texts a file of tables can hold. Quoting writes code points that are not printable with a backslash and a
letter or digits, and files of tables know most of these escapes, but not those for stray bytes and for some controls.
-/

namespace Deadwood

def Rune.isPortable : Rune → Bool
  | .code point _ => if point < 32 then [8, 9, 10, 12, 13].contains point else point != 127
  | .stray _ => false

def Bytes.isPortable (s : Bytes) : Bool := s.runes.all Rune.isPortable

namespace Bytes

theorem hexDigit_spec : ∀ n < 16, Toml.isHex (hexDigit n) = true ∧ Toml.hexDigit? (hexDigit n) = some n := by
  decide

theorem isHex_ofNatHex (n : Nat) : ∀ b ∈ ofNatHex n, Toml.isHex b = true := by
  fun_induction ofNatHex n with
  | case1 n small => simpa using (hexDigit_spec n small).1
  | case2 n large ih =>
      intro b member
      rcases List.mem_append.1 member with front | last
      · exact ih b front
      · rw [List.mem_singleton.1 last]
        exact (hexDigit_spec _ (Nat.mod_lt n (by decide))).1

theorem length_ofNatHex {n width : Nat} (fits : n < 16 ^ (width + 1)) : (ofNatHex n).length ≤ width + 1 := by
  induction width generalizing n with
  | zero =>
      have small : n < 16 := fits
      rw [ofNatHex, if_pos small]
      exact Nat.le_refl 1
  | succ width ih =>
      rw [ofNatHex]
      split_ifs with small
      · exact Nat.succ_pos _
      · have front := ih (n := n / 16) (by rw [Nat.div_lt_iff_lt_mul (by decide), ← Nat.pow_succ]; exact fits)
        simpa using front

theorem length_padStart {width : Nat} {s : Bytes} (short : s.length ≤ width) (fill : UInt8) :
    (padStart width fill s).length = width := by
  rw [padStart, List.length_append, List.length_replicate]
  omega

end Bytes

namespace Toml

def shiftIn (n : Option Nat) (b : UInt8) : Option Nat := n.bind fun n => (hexDigit? b).map (n * 16 + ·)

theorem foldl_ofNatHex (n : Nat) : (Bytes.ofNatHex n).foldl shiftIn (some 0) = some n := by
  fun_induction Bytes.ofNatHex n with
  | case1 n small => simp [shiftIn, (Bytes.hexDigit_spec n small).2]
  | case2 n large ih =>
      have digit := (Bytes.hexDigit_spec _ (Nat.mod_lt n (by decide))).2
      rw [List.foldl_append, ih, List.foldl_cons, List.foldl_nil, shiftIn, Option.bind_some, digit, Option.map_some,
        Nat.div_add_mod']

theorem foldl_zeros (count : Nat) : (List.replicate count 48).foldl shiftIn (some 0) = some 0 := by
  induction count with
  | zero => rfl
  | succ count ih => exact ih

theorem foldl_padStart (n width : Nat) :
    ((Bytes.ofNatHex n).padStart width 48).foldl shiftIn (some 0) = some n := by
  rw [Bytes.padStart, List.foldl_append, foldl_zeros, foldl_ofNatHex]

theorem point_padStart {point : Nat} (scalar : Rune.IsScalar point) (width : Nat) :
    point? ((Bytes.ofNatHex point).padStart width 48) = some point := by
  refine (congrArg (Option.filter _) (foldl_padStart point width)).trans ?_
  rw [Option.filter_some, if_pos (by simpa [Rune.IsScalar] using scalar)]

/-- How the bytes of one character may be spelled between double quotes. -/
inductive Spells : (spelling text : Bytes) → Prop
  | plain {text : Bytes} (each : ∀ b ∈ text, 32 ≤ b ∧ b ≠ 34 ∧ b ≠ 92) : Spells text text
  | letter {letter b : UInt8} (known : unescape letter = some b) : Spells [92, letter] [b]
  | short {a b c d : UInt8} {point : Nat} (hex : ∀ digit ∈ [a, b, c, d], isHex digit = true)
      (coded : point? [a, b, c, d] = some point) : Spells [92, 117, a, b, c, d] (Rune.encode point)
  | long {a b c d e f g h : UInt8} {point : Nat} (hex : ∀ digit ∈ [a, b, c, d, e, f, g, h], isHex digit = true)
      (coded : point? [a, b, c, d, e, f, g, h] = some point) :
      Spells [92, 85, a, b, c, d, e, f, g, h] (Rune.encode point)

theorem isHex_padStart (n width : Nat) : ∀ b ∈ (Bytes.ofNatHex n).padStart width 48, isHex b = true := by
  intro b member
  rcases List.mem_append.1 member with zero | digit
  · rw [List.eq_of_mem_replicate zero]
    rfl
  · exact Bytes.isHex_ofNatHex n b digit

theorem spells_short {point : Nat} (scalar : Rune.IsScalar point) (small : point < 0x10000) :
    Spells (bytes "\\u" ++ (Bytes.ofNatHex point).padStart 4 48) (Rune.encode point) := by
  have length := Bytes.length_padStart (@Bytes.length_ofNatHex point 3 small) 48
  have hex := isHex_padStart point 4
  have coded := point_padStart scalar 4
  match (Bytes.ofNatHex point).padStart 4 48, length, hex, coded with
  | [_, _, _, _], _, hex, coded => exact .short hex coded

theorem spells_long {point : Nat} (scalar : Rune.IsScalar point) :
    Spells (bytes "\\U" ++ (Bytes.ofNatHex point).padStart 8 48) (Rune.encode point) := by
  have small : point < 16 ^ (7 + 1) := by
    rcases scalar with low | ⟨-, high⟩
    · exact Nat.lt_of_lt_of_le low (by decide)
    · exact Nat.lt_of_lt_of_le high (by decide)
  have length := Bytes.length_padStart (Bytes.length_ofNatHex small) 48
  have hex := isHex_padStart point 8
  have coded := point_padStart scalar 8
  match (Bytes.ofNatHex point).padStart 8 48, length, hex, coded with
  | [_, _, _, _, _, _, _, _], _, hex, coded => exact .long hex coded

theorem isPrintable_ascii {point : Nat} (ascii : point < 0x80) :
    isPrintable point = (decide (32 ≤ point) && point != 127) := by
  revert point
  decide +kernel

theorem spells_escape_ascii {point : Nat} (ascii : point < 0x80)
    (portable : (Rune.code point [point.toUInt8]).isPortable = true) :
    Spells (Quoted.escape (.code point [point.toUInt8])) [point.toUInt8] := by
  have value : point.toUInt8.toNat = point := UInt8.toNat_ofNat_of_lt' (by simpa using Nat.lt_trans ascii (by decide))
  rw [Quoted.escape, isPrintable_ascii ascii]
  by_cases quoting : point = 34 ∨ point = 92
  · rw [if_pos quoting]
    rcases quoting with rfl | rfl
    · exact .letter rfl
    · exact .letter rfl
  rw [if_neg quoting]
  by_cases control : point < 32
  · rw [Rune.isPortable, if_pos control, List.contains_iff_mem] at portable
    simp only [List.mem_cons, List.not_mem_nil, or_false] at portable
    rcases portable with rfl | rfl | rfl | rfl | rfl
    all_goals exact .letter rfl
  · rw [Rune.isPortable, if_neg control, bne_iff_ne] at portable
    rw [if_pos (by simpa using ⟨Nat.le_of_not_lt control, portable⟩)]
    refine .plain fun b member => ?_
    rw [List.mem_singleton.1 member, UInt8.le_iff_toNat_le, Ne, Ne, ← UInt8.toNat_inj, ← UInt8.toNat_inj, value]
    simp only [UInt8.reduceToNat]
    omega

theorem spells_escape {s : Bytes} {r : Rune} (found : r ∈ s.runes) (portable : r.isPortable = true) :
    Spells (Quoted.escape r) r.raw := by
  cases r with
  | stray byte => cases portable
  | code point encoding =>
      have encodes := Bytes.encodes_of_mem_runes found
      rw [Rune.raw]
      by_cases ascii : point < 0x80
      · rw [encodes.eq_singleton ascii] at portable ⊢
        exact spells_escape_ascii ascii portable
      · have plain : ∀ b ∈ encoding, 32 ≤ b ∧ b ≠ 34 ∧ b ≠ 92 := by
          intro b member
          have high := encodes.not_ascii (Nat.le_of_not_lt ascii) b member
          grind
        have letterless : Quoted.escapeLetter point = none := by
          unfold Quoted.escapeLetter
          split <;> first | omega | rfl
        rw [Quoted.escape, letterless, if_neg (by omega)]
        split_ifs with printable control short
        · exact .plain plain
        · omega
        · rw [← encodes.encode_eq]
          exact spells_short encodes.scalar short
        · rw [← encodes.encode_eq]
          exact spells_long encodes.scalar

theorem escape_of_not_portable {s : Bytes} {r : Rune} (found : r ∈ s.runes) (portable : r.isPortable = false) :
    ∃ letter ∈ [97, 118, 120], ∃ tail, Quoted.escape r = 92 :: letter :: tail := by
  cases r with
  | stray byte => exact ⟨120, by decide, _, rfl⟩
  | code point encoding =>
      have control : point < 32 ∧ point ∉ [8, 9, 10, 12, 13] ∨ point = 127 := by
        rw [Rune.isPortable] at portable
        split_ifs at portable with small
        · exact .inl ⟨small, by simpa using portable⟩
        · exact .inr (by simpa using portable)
      have hidden : isPrintable point = false := by
        rw [isPrintable_ascii (by omega), Bool.and_eq_false_iff, decide_eq_false_iff_not, bne_eq_false_iff_eq]
        omega
      rw [Quoted.escape, if_neg (by omega), hidden, if_neg Bool.false_ne_true]
      cases lettered : Quoted.escapeLetter point with
      | none =>
          dsimp only
          rw [if_pos (by omega)]
          exact ⟨120, by decide, _, rfl⟩
      | some letter =>
          refine ⟨letter, ?_, [], rfl⟩
          have other : point ∉ [8, 9, 10, 12, 13] := by
            rcases control with ⟨-, other⟩ | rfl
            · exact other
            · decide
          unfold Quoted.escapeLetter at lettered
          split at lettered
          all_goals first
            | cases lettered <;> decide
            | simp at other

theorem resolve_cons {b : UInt8} (plain : b ≠ 92) (rest : Bytes) :
    resolve (b :: rest) = (resolve rest).map (b :: ·) := by
  rw [resolve]
  all_goals grind

theorem resolve_plain {s : Bytes} (plain : ∀ b ∈ s, b ≠ 92) (rest : Bytes) :
    resolve (s ++ rest) = (resolve rest).map (s ++ ·) := by
  induction s with
  | nil => simp
  | cons b s ih =>
      have later := ih fun b member => plain b (List.mem_cons_of_mem _ member)
      rw [List.cons_append, resolve_cons (plain b List.mem_cons_self), later, Option.map_map]
      rfl

theorem resolve_spells {spelling text : Bytes} (spells : Spells spelling text) (rest : Bytes) :
    resolve (spelling ++ rest) = (resolve rest).map (text ++ ·) := by
  cases spells with
  | plain each => exact resolve_plain (fun b member => (each b member).2.2) rest
  | @letter letter b known =>
      have few : letter ≠ 117 ∧ letter ≠ 85 := by
        constructor <;> (rintro rfl; cases known)
      have step : resolve (92 :: letter :: rest) = (do return (← unescape letter) :: (← resolve rest)) := by
        rw [resolve]
        all_goals grind
      rw [List.cons_append, List.cons_append, List.nil_append, step, known]
      cases resolve rest <;> rfl
  | short hex coded =>
      simp only [List.cons_append, List.nil_append, resolve, coded]
      cases resolve rest <;> rfl
  | long hex coded =>
      simp only [List.cons_append, List.nil_append, resolve, coded]
      cases resolve rest <;> rfl

theorem resolve_flatMap_escape {runes : List Rune} (each : ∀ r ∈ runes, Spells (Quoted.escape r) r.raw) :
    resolve (runes.flatMap Quoted.escape) = some (runes.flatMap Rune.raw) := by
  induction runes with
  | nil => rw [List.flatMap_nil, List.flatMap_nil, resolve]
  | cons r runes ih =>
      have later := ih fun r member => each r (List.mem_cons_of_mem _ member)
      rw [List.flatMap_cons, List.flatMap_cons, resolve_spells (each r List.mem_cons_self), later, Option.map_some]

end Toml

namespace Bytes

theorem quote_append (s rest : Bytes) : s.quote ++ rest = 34 :: (s.runes.flatMap Quoted.escape ++ 34 :: rest) := by
  simp [quote]

end Bytes
end Deadwood

import Deadwood.Proofs.Config.Escapes
import Deadwood.Proofs.Text.Pieces

/-!
Quoted texts and how they read back. A character is told by its escape, whatever follows: behind a backslash a letter
says which character is meant or how many digits stand for it, and no character that is written as itself begins with
a backslash or a quote. So a text and what follows its quoted form are told by the two together.
-/

namespace Deadwood

open Bytes

namespace Quoted

def byteRune (n : Nat) : Rune := if n < 0x80 then .code n [n.toUInt8] else .stray n.toUInt8

inductive Written : Rune → Bytes → Prop
  | plain {point : Nat} {encoding : Bytes} (encodes : Rune.Encodes point encoding)
      (printable : isPrintable point = true) (other : point ≠ 34 ∧ point ≠ 92) : Written (.code point encoding) encoding
  | marked {point : Nat} (marks : point = 34 ∨ point = 92) :
      Written (.code point [point.toUInt8]) [92, point.toUInt8]
  | letter {point : Nat} {letter : UInt8} (known : escapeLetter point = some letter) :
      Written (.code point [point.toUInt8]) [92, letter]
  | byte {n : Nat} (fits : n < 0x100) : Written (byteRune n) (hexByte n)
  | short {point : Nat} (fits : point < 0x10000) :
      Written (.code point (Rune.encode point)) (bytes "\\u" ++ (ofNatHex point).padStart 4 48)
  | long {point : Nat} (fits : point < 0x110000) :
      Written (.code point (Rune.encode point)) (bytes "\\U" ++ (ofNatHex point).padStart 8 48)

theorem ascii_of_letter {point : Nat} {letter : UInt8} (known : escapeLetter point = some letter) : point < 0x80 := by
  unfold escapeLetter at known
  split at known <;> cases known <;> decide

theorem written_escape {s : Bytes} {r : Rune} (found : r ∈ s.runes) : Written r (escape r) := by
  cases r with
  | stray b =>
      have stray : byteRune b.toNat = .stray b := by
        have high : ¬b.toNat < 0x80 := not_ascii_of_stray_mem_runesFrom found
        rw [byteRune, if_neg high, Rune.toUInt8_eq rfl]
      rw [escape, ← stray]
      exact .byte b.toNat_lt
  | code point encoding =>
      have encodes := encodes_of_mem_runes found
      have single := encodes.eq_singleton
      rw [escape]
      by_cases marks : point = 34 ∨ point = 92
      · rw [if_pos marks, single (by omega)]
        exact .marked marks
      by_cases printable : isPrintable point
      · rw [if_neg marks, if_pos printable]
        exact .plain encodes printable (by omega)
      rw [if_neg marks, if_neg printable]
      cases known : escapeLetter point with
      | some letter =>
          rw [single (ascii_of_letter known)]
          exact .letter known
      | none =>
          dsimp only
          split_ifs with control short
          · have ascii : byteRune point = .code point [point.toUInt8] := if_pos (by omega)
            rw [single (by omega), ← ascii]
            exact .byte (by omega)
          · rw [← encodes.encode_eq]
            exact .short short
          · have bounded : point < 0x110000 := by
              rcases encodes.scalar with low | ⟨-, high⟩ <;> omega
            rw [← encodes.encode_eq]
            exact .long bounded

theorem Written.head {r : Rune} {spelling : Bytes} (written : Written r spelling) :
    ∃ b tail, spelling = b :: tail ∧ b ≠ 34 := by
  cases written with
  | plain encodes _ other =>
      rcases List.exists_cons_of_ne_nil encodes.ne_nil with ⟨b, tail, rfl⟩
      refine ⟨b, tail, rfl, ?_⟩
      rintro rfl
      exact encodes.not_mem (b := 34) (by decide) other.1 List.mem_cons_self
  | marked | letter => exact ⟨92, _, rfl, by decide⟩
  | byte | short | long => exact ⟨92, _, rfl, by decide⟩

/-! Digits behind a letter are all of ASCII, and none is a newline. -/

theorem ascii_of_isHex {b : UInt8} (hex : Toml.isHex b = true) : b < 0x80 ∧ b ≠ newline := by
  simp only [Toml.isHex, isDigit, Bool.or_eq_true, Bool.and_eq_true, decide_eq_true_eq, newline] at hex ⊢
  grind

theorem clean_digits {start : Bytes} (ascii : ∀ b ∈ start, b < 0x80) (n width : Nat) :
    Clean (start ++ (ofNatHex n).padStart width 48) :=
  (clean_of_ascii ascii).append
    (clean_of_ascii fun b member => (ascii_of_isHex (Toml.isHex_padStart n width b member)).1)

theorem newline_not_mem_digits {start : Bytes} (missing : newline ∉ start) (n width : Nat) :
    newline ∉ start ++ (ofNatHex n).padStart width 48 := by
  rw [List.mem_append, not_or]
  exact ⟨missing, fun member => (ascii_of_isHex (Toml.isHex_padStart n width _ member)).2 rfl⟩

theorem Written.clean {r : Rune} {spelling : Bytes} (written : Written r spelling) : spelling.Clean := by
  cases written with
  | plain encodes => exact clean_of_encodes encodes
  | marked marks => rcases marks with rfl | rfl <;> exact clean_of_ascii (by decide +kernel)
  | letter known =>
      refine clean_of_ascii ?_
      unfold escapeLetter at known
      split at known <;> cases known <;> decide +kernel
  | byte | short | long => exact clean_digits (by decide +kernel) _ _

theorem Written.newline_not_mem {r : Rune} {spelling : Bytes} (written : Written r spelling) :
    newline ∉ spelling := by
  cases written with
  | plain encodes printable =>
      refine encodes.not_mem (by decide) ?_
      rintro rfl
      rw [Toml.isPrintable_ascii (by decide)] at printable
      cases printable
  | marked marks => rcases marks with rfl | rfl <;> decide
  | letter known =>
      unfold escapeLetter at known
      split at known <;> cases known <;> decide
  | byte | short | long => exact newline_not_mem_digits (by decide +kernel) _ _

def number? (digits : Bytes) : Option Nat := digits.foldl Toml.shiftIn (some 0)

def letterPoint? : UInt8 → Option Nat
  | 97 => some 7
  | 98 => some 8
  | 116 => some 9
  | 110 => some 10
  | 118 => some 11
  | 102 => some 12
  | 114 => some 13
  | 34 => some 34
  | 92 => some 92
  | _ => none

def escaped? : Bytes → Option (Rune × Bytes)
  | [] => none
  | mark :: rest =>
    if mark = 120 then (number? (rest.take 2)).map fun n => (byteRune n, rest.drop 2)
    else if mark = 117 then (number? (rest.take 4)).map fun n => (.code n (Rune.encode n), rest.drop 4)
    else if mark = 85 then (number? (rest.take 8)).map fun n => (.code n (Rune.encode n), rest.drop 8)
    else (letterPoint? mark).map fun n => (.code n [n.toUInt8], rest)

def character? : Bytes → Option (Rune × Bytes)
  | [] => none
  | b :: rest =>
    if b = 92 then escaped? rest
    else some (Rune.head b rest, (b :: rest).drop (Rune.head b rest).raw.length)

theorem character_plain {point : Nat} {encoding : Bytes} (encodes : Rune.Encodes point encoding)
    (other : point ≠ 92) (rest : Bytes) : character? (encoding ++ rest) = some (.code point encoding, rest) := by
  rcases List.exists_cons_of_ne_nil encodes.ne_nil with ⟨a, tail, rfl⟩
  have read : Rune.head a (tail ++ rest) = .code point (a :: tail) := encodes.head_eq a tail rest rfl
  have plain : a ≠ 92 := by
    rintro rfl
    exact encodes.not_mem (b := 92) (by decide) other List.mem_cons_self
  rw [List.cons_append, character?, if_neg plain, read, Rune.raw, ← List.cons_append, List.drop_left]

theorem number_padStart {n width : Nat} (fits : n < 16 ^ (width + 1)) (rest : Bytes) :
    number? (((ofNatHex n).padStart (width + 1) 48 ++ rest).take (width + 1)) = some n ∧
      ((ofNatHex n).padStart (width + 1) 48 ++ rest).drop (width + 1) = rest := by
  have length := length_padStart (length_ofNatHex fits) 48
  rw [List.take_left' length, List.drop_left' length]
  exact ⟨Toml.foldl_padStart n (width + 1), rfl⟩

theorem Written.read {r : Rune} {spelling : Bytes} (written : Written r spelling) (rest : Bytes) :
    character? (spelling ++ rest) = some (r, rest) := by
  cases written with
  | plain encodes _ other => exact character_plain encodes other.2 rest
  | marked marks => rcases marks with rfl | rfl <;> rfl
  | letter known =>
      unfold escapeLetter at known
      split at known <;> cases known <;> rfl
  | @byte n fits =>
      have digits := @number_padStart n 1 fits rest
      have step (digits : Bytes) :
          character? (bytes "\\x" ++ digits) = (number? (digits.take 2)).map fun n => (byteRune n, digits.drop 2) := rfl
      rw [hexByte, List.append_assoc, step, digits.1, digits.2, Option.map_some]
  | @short point fits =>
      have digits := @number_padStart point 3 fits rest
      have step (digits : Bytes) : character? (bytes "\\u" ++ digits) =
          (number? (digits.take 4)).map fun n => (.code n (Rune.encode n), digits.drop 4) := rfl
      rw [List.append_assoc, step, digits.1, digits.2, Option.map_some]
  | @long point fits =>
      have digits := @number_padStart point 7 (Nat.lt_trans fits (by decide)) rest
      have step (digits : Bytes) : character? (bytes "\\U" ++ digits) =
          (number? (digits.take 8)).map fun n => (.code n (Rune.encode n), digits.drop 8) := rfl
      rw [List.append_assoc, step, digits.1, digits.2, Option.map_some]

theorem flatMap_escape_inj {runes runes' : List Rune} {rest rest' : Bytes} (each : ∀ r ∈ runes, Written r (escape r))
    (each' : ∀ r ∈ runes', Written r (escape r))
    (same : runes.flatMap escape ++ 34 :: rest = runes'.flatMap escape ++ 34 :: rest') :
    runes = runes' ∧ rest = rest' := by
  have tells (r r' : Rune) (s t : Bytes) (written : Written r (escape r)) (written' : Written r' (escape r'))
      (_ _ : True) (same : escape r ++ s = escape r' ++ t) : r = r' ∧ s = t := by
    have read := written.read s
    rw [same, written'.read t, Option.some.injEq, Prod.mk.injEq] at read
    exact ⟨read.1.symm, read.2.symm⟩
  have differs (r : Rune) (s t : Bytes) (written : Written r (escape r)) (quoted : ∃ rest, t = 34 :: rest) :
      escape r ++ s ≠ t := by
    obtain ⟨rest, rfl⟩ := quoted
    obtain ⟨b, tail, begins, other⟩ := written.head
    rw [begins]
    rintro ⟨⟩
    exact other rfl
  have inner := flatMap_append_inj tells differs (fun _ _ _ => trivial) each each' ⟨rest, rfl⟩ ⟨rest', rfl⟩ same
  exact ⟨inner.1, (List.cons.inj inner.2).2⟩

end Quoted

namespace Bytes

theorem clean_quote (s : Bytes) : s.quote.Clean := by
  have mark : Clean [34] := clean_of_ascii (by decide +kernel)
  exact (mark.append (clean_flatMap fun _ found => (Quoted.written_escape found).clean)).append mark

theorem newline_not_mem_quote (s : Bytes) : newline ∉ s.quote := by
  have inner : newline ∉ s.runes.flatMap Quoted.escape := by
    intro member
    obtain ⟨r, found, inside⟩ := List.mem_flatMap.1 member
    exact (Quoted.written_escape found).newline_not_mem inside
  simpa [quote, newline] using inner

theorem quote_append_inj {s t rest rest' : Bytes} (same : s.quote ++ rest = t.quote ++ rest') : s = t ∧ rest = rest' := by
  rw [quote_append, quote_append] at same
  have inner := Quoted.flatMap_escape_inj (fun _ => Quoted.written_escape) (fun _ => Quoted.written_escape)
    (List.cons.inj same).2
  rw [← flatMap_raw_runes s, inner.1, flatMap_raw_runes]
  exact ⟨rfl, inner.2⟩

end Bytes

end Deadwood

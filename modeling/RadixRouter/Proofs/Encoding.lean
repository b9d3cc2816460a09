/-
# Reading back what was encoded

The bytes of a string determine it, also when they are followed by other bytes: `scan` gives
back the characters one by one.  An ASCII byte never occurs inside the bytes of another
character, so cutting a path or a pattern at a slash byte is cutting its text at a slash.
-/

import RadixRouter.Pattern.Token
import RadixRouter.Text.Utf8

namespace RadixRouter.Utf8

/-- The low bits of a code point, marked as a continuation. -/
theorem isContinuation_low (n : Nat) : isContinuation (UInt8.ofNat (n % 0x40 + 0x80)) = true := by
  have small : n % 0x40 + 0x80 < 0x100 := by omega
  simp only [isContinuation, Bool.and_eq_true, decide_eq_true_eq, UInt8.le_iff_toNat_le,
    UInt8.lt_iff_toNat_lt, UInt8.toNat_ofNat_of_lt' small]
  apply And.intro
  · exact Nat.le_add_left _ _
  · exact Nat.add_lt_add_right (Nat.mod_lt n (by decide)) 0x80

/-- The bits that a continuation byte carries. -/
theorem toNat_low (n : Nat) : (UInt8.ofNat (n % 0x40 + 0x80)).toNat % 64 = n % 64 := by
  have small : n % 0x40 + 0x80 < 0x100 := by omega
  rw [UInt8.toNat_ofNat_of_lt' small]
  omega

theorem scan_one {a : Nat} (high : a < 0x80) (rest : List UInt8) :
    scan (UInt8.ofNat a :: rest) = some (Char.ofNat a) :: scan rest := by
  have first : (UInt8.ofNat a).toNat = a := UInt8.toNat_ofNat_of_lt' (show a < 256 by omega)
  have short : UInt8.ofNat a < 0x80 := by
    rw [UInt8.lt_iff_toNat_lt, first]
    exact high
  rw [scan.eq_def]
  simp only [if_pos short, assemble, List.foldl_nil, first]

theorem scan_two {a b : Nat} (low : 2 ≤ a) (high : a < 0x20) (rest : List UInt8) :
    scan (UInt8.ofNat (a + 0xC0) :: UInt8.ofNat (b % 0x40 + 0x80) :: rest) =
      some (Char.ofNat (a * 64 + b % 64)) :: scan rest := by
  have first : (UInt8.ofNat (a + 0xC0)).toNat = a + 0xC0 :=
    UInt8.toNat_ofNat_of_lt' (show a + 0xC0 < 256 by omega)
  have long : ¬ UInt8.ofNat (a + 0xC0) < 0x80 := by
    simp only [UInt8.lt_iff_toNat_lt, first, UInt8.reduceToNat]
    omega
  have two : (0xC2 ≤ UInt8.ofNat (a + 0xC0) && UInt8.ofNat (a + 0xC0) < 0xE0) = true := by
    simp only [Bool.and_eq_true, decide_eq_true_eq, UInt8.le_iff_toNat_le,
      UInt8.lt_iff_toNat_lt, first, UInt8.reduceToNat]
    omega
  have leading : (a + 0xC0) % 32 = a := by omega
  rw [scan.eq_def]
  simp only [if_neg long, if_pos two, if_pos (isContinuation_low b), assemble, List.foldl_cons,
    List.foldl_nil, first, leading, toNat_low]

/-- The bits below the leading ones must not be those of a shorter form or a surrogate. -/
theorem scan_three {a b c : Nat} (high : a < 0x10) (overlong : a = 0 → 0x20 ≤ b % 64)
    (surrogate : a = 0xD → b % 64 < 0x20) (rest : List UInt8) :
    scan (UInt8.ofNat (a + 0xE0) :: UInt8.ofNat (b % 0x40 + 0x80) ::
        UInt8.ofNat (c % 0x40 + 0x80) :: rest) =
      some (Char.ofNat ((a * 64 + b % 64) * 64 + c % 64)) :: scan rest := by
  have first : (UInt8.ofNat (a + 0xE0)).toNat = a + 0xE0 :=
    UInt8.toNat_ofNat_of_lt' (show a + 0xE0 < 256 by omega)
  have second : (UInt8.ofNat (b % 0x40 + 0x80)).toNat = b % 0x40 + 0x80 :=
    UInt8.toNat_ofNat_of_lt' (show b % 0x40 + 0x80 < 256 by omega)
  have long : ¬ UInt8.ofNat (a + 0xE0) < 0x80 := by
    simp only [UInt8.lt_iff_toNat_lt, first, UInt8.reduceToNat]
    omega
  have notTwo : ¬ (0xC2 ≤ UInt8.ofNat (a + 0xE0) && UInt8.ofNat (a + 0xE0) < 0xE0) = true := by
    simp only [Bool.and_eq_true, decide_eq_true_eq, UInt8.le_iff_toNat_le,
      UInt8.lt_iff_toNat_lt, first, UInt8.reduceToNat]
    omega
  have three : (0xE0 ≤ UInt8.ofNat (a + 0xE0) && UInt8.ofNat (a + 0xE0) < 0xF0) = true := by
    simp only [Bool.and_eq_true, decide_eq_true_eq, UInt8.le_iff_toNat_le,
      UInt8.lt_iff_toNat_lt, first, UInt8.reduceToNat]
    omega
  have admitted :
      secondOfThree (UInt8.ofNat (a + 0xE0)) (UInt8.ofNat (b % 0x40 + 0x80)) = true := by
    unfold secondOfThree
    simp only [← UInt8.toNat_inj, UInt8.le_iff_toNat_le, UInt8.lt_iff_toNat_lt, first, second]
    split
    · next hfirst =>
        have := overlong (by simpa using hfirst)
        simp only [Bool.and_eq_true, decide_eq_true_eq, UInt8.reduceToNat]
        omega
    · split
      · next hfirst =>
          have := surrogate (by simpa using hfirst)
          simp only [Bool.and_eq_true, decide_eq_true_eq, UInt8.reduceToNat]
          omega
      · exact isContinuation_low b
  have leading : (a + 0xE0) % 16 = a := by omega
  rw [scan.eq_def]
  simp only [if_neg long, if_neg notTwo, if_pos three, if_pos admitted,
    if_pos (isContinuation_low c), assemble, List.foldl_cons, List.foldl_nil, first, leading,
    toNat_low]

/-- The bits below the leading ones must not be those of a shorter form or too large. -/
theorem scan_four {a b c d : Nat} (high : a < 5) (overlong : a = 0 → 0x10 ≤ b % 64)
    (large : a = 4 → b % 64 < 0x10) (rest : List UInt8) :
    scan (UInt8.ofNat (a + 0xF0) :: UInt8.ofNat (b % 0x40 + 0x80) ::
        UInt8.ofNat (c % 0x40 + 0x80) :: UInt8.ofNat (d % 0x40 + 0x80) :: rest) =
      some (Char.ofNat (((a * 64 + b % 64) * 64 + c % 64) * 64 + d % 64)) :: scan rest := by
  have first : (UInt8.ofNat (a + 0xF0)).toNat = a + 0xF0 :=
    UInt8.toNat_ofNat_of_lt' (show a + 0xF0 < 256 by omega)
  have second : (UInt8.ofNat (b % 0x40 + 0x80)).toNat = b % 0x40 + 0x80 :=
    UInt8.toNat_ofNat_of_lt' (show b % 0x40 + 0x80 < 256 by omega)
  have long : ¬ UInt8.ofNat (a + 0xF0) < 0x80 := by
    simp only [UInt8.lt_iff_toNat_lt, first, UInt8.reduceToNat]
    omega
  have notTwo : ¬ (0xC2 ≤ UInt8.ofNat (a + 0xF0) && UInt8.ofNat (a + 0xF0) < 0xE0) = true := by
    simp only [Bool.and_eq_true, decide_eq_true_eq, UInt8.le_iff_toNat_le,
      UInt8.lt_iff_toNat_lt, first, UInt8.reduceToNat]
    omega
  have notThree : ¬ (0xE0 ≤ UInt8.ofNat (a + 0xF0) && UInt8.ofNat (a + 0xF0) < 0xF0) = true := by
    simp only [Bool.and_eq_true, decide_eq_true_eq, UInt8.le_iff_toNat_le,
      UInt8.lt_iff_toNat_lt, first, UInt8.reduceToNat]
    omega
  have four : (0xF0 ≤ UInt8.ofNat (a + 0xF0) && UInt8.ofNat (a + 0xF0) < 0xF5) = true := by
    simp only [Bool.and_eq_true, decide_eq_true_eq, UInt8.le_iff_toNat_le,
      UInt8.lt_iff_toNat_lt, first, UInt8.reduceToNat]
    omega
  have admitted :
      secondOfFour (UInt8.ofNat (a + 0xF0)) (UInt8.ofNat (b % 0x40 + 0x80)) = true := by
    unfold secondOfFour
    simp only [← UInt8.toNat_inj, UInt8.le_iff_toNat_le, UInt8.lt_iff_toNat_lt, first, second]
    split
    · next hfirst =>
        have := overlong (by simpa using hfirst)
        simp only [Bool.and_eq_true, decide_eq_true_eq, UInt8.reduceToNat]
        omega
    · split
      · next hfirst =>
          have := large (by simpa using hfirst)
          simp only [Bool.and_eq_true, decide_eq_true_eq, UInt8.reduceToNat]
          omega
      · exact isContinuation_low b
  have leading : (a + 0xF0) % 8 = a := by omega
  rw [scan.eq_def]
  simp only [if_neg long, if_neg notTwo, if_neg notThree, if_pos four, if_pos admitted,
    if_pos (isContinuation_low c), if_pos (isContinuation_low d), assemble, List.foldl_cons,
    List.foldl_nil, first, leading, toNat_low]

/-- The first character of encoded text is read back whole. -/
theorem scan_encodeChar_append (c : Char) (rest : List UInt8) :
    scan (encodeChar c ++ rest) = some c :: scan rest := by
  have valid : c.val.toNat < 0xD800 ∨ 0xDFFF < c.val.toNat ∧ c.val.toNat < 0x110000 := c.valid
  have back : Char.ofNat c.val.toNat = c := Char.ofNat_toNat c
  unfold encodeChar
  fun_cases String.utf8EncodeChar c with
  | case1 v one =>
      rw [List.singleton_append, scan_one (by omega), back]
  | case2 v notOne two =>
      have bits : v / 64 * 64 + v % 64 = v := by omega
      rw [Nat.mod_eq_of_lt (show v / 64 < 0x20 by omega)]
      rw [List.cons_append, List.singleton_append, scan_two (by omega) (by omega), bits, back]
  | case3 v notOne notTwo three =>
      have bits : (v / 4096 * 64 + v / 64 % 64) * 64 + v % 64 = v := by omega
      rw [Nat.mod_eq_of_lt (show v / 4096 < 0x10 by omega)]
      rw [List.cons_append, List.cons_append, List.singleton_append,
        scan_three (by omega) (by omega) (by omega), bits, back]
  | case4 v notOne notTwo notThree =>
      have bits :
          ((v / 262144 * 64 + v / 4096 % 64) * 64 + v / 64 % 64) * 64 + v % 64 = v := by omega
      rw [Nat.mod_eq_of_lt (show v / 262144 < 0x08 by omega)]
      rw [List.cons_append, List.cons_append, List.cons_append, List.singleton_append,
        scan_four (by omega) (by omega) (by omega), bits, back]

/-- Encoded characters are told apart by their bytes, whatever bytes follow. -/
theorem encodeChar_append_inj {c d : Char} {rest rest' : List UInt8}
    (same : encodeChar c ++ rest = encodeChar d ++ rest') : c = d ∧ rest = rest' := by
  have scanned := congrArg scan same
  rw [scan_encodeChar_append, scan_encodeChar_append] at scanned
  have hchar : c = d := Option.some.inj (List.cons.inj scanned).1
  subst hchar
  exact ⟨rfl, List.append_cancel_left same⟩

theorem encodeChar_ne_nil (c : Char) : encodeChar c ≠ [] := by
  unfold encodeChar
  fun_cases String.utf8EncodeChar c <;> exact List.cons_ne_nil _ _

/-- The only character with an ASCII byte in it is the one that is that byte. -/
theorem eq_of_ascii_mem_encodeChar {b : UInt8} {c : Char} (ascii : b.toNat < 0x80)
    (inside : b ∈ encodeChar c) : c = Char.ofNat b.toNat := by
  have back : Char.ofNat c.val.toNat = c := Char.ofNat_toNat c
  have marked {n : Nat} (low : 0x80 ≤ n) (high : n < 0x100) : b ≠ UInt8.ofNat n := by
    rintro rfl
    rw [UInt8.toNat_ofNat_of_lt' high] at ascii
    exact absurd ascii (Nat.not_lt.mpr low)
  unfold encodeChar at inside
  fun_cases String.utf8EncodeChar c with
  | case1 v one =>
      rw [String.utf8EncodeChar, if_pos one, List.mem_singleton] at inside
      rw [inside, UInt8.toNat_ofNat_of_lt' (show v < 256 by omega)]
      exact back.symm
  | case2 v notOne two =>
      rw [String.utf8EncodeChar, if_neg notOne, if_pos two] at inside
      simp only [List.mem_cons, List.not_mem_nil, or_false] at inside
      rcases inside with h | h <;> exact absurd h (marked (by omega) (by omega))
  | case3 v notOne notTwo three =>
      rw [String.utf8EncodeChar, if_neg notOne, if_neg notTwo, if_pos three] at inside
      simp only [List.mem_cons, List.not_mem_nil, or_false] at inside
      rcases inside with h | h | h <;> exact absurd h (marked (by omega) (by omega))
  | case4 v notOne notTwo notThree =>
      rw [String.utf8EncodeChar, if_neg notOne, if_neg notTwo, if_neg notThree] at inside
      simp only [List.mem_cons, List.not_mem_nil, or_false] at inside
      rcases inside with h | h | h | h <;> exact absurd h (marked (by omega) (by omega))

/-- The bytes of a list of characters. -/
def encodeChars (chars : List Char) : List UInt8 := chars.flatMap encodeChar

@[simp]
theorem encodeChars_nil : encodeChars [] = [] := rfl

@[simp]
theorem encodeChars_cons (c : Char) (chars : List Char) :
    encodeChars (c :: chars) = encodeChar c ++ encodeChars chars := rfl

@[simp]
theorem encodeChars_append (chars chars' : List Char) :
    encodeChars (chars ++ chars') = encodeChars chars ++ encodeChars chars' := by
  simp [encodeChars]

theorem encode_eq (s : String) : encode s = encodeChars s.toList := rfl

theorem scan_encodeChars (chars : List Char) : scan (encodeChars chars) = chars.map some := by
  induction chars with
  | nil => rfl
  | cons c chars ih => rw [encodeChars_cons, scan_encodeChar_append, ih, List.map_cons]

theorem decodeLossy_encodeChars (chars : List Char) :
    decodeLossy (encodeChars chars) = String.ofList chars := by
  rw [decodeLossy, charsLossy, scan_encodeChars, List.map_map]
  exact congrArg String.ofList (List.map_id chars)

/-- Nothing is lost on text that was encoded. -/
theorem decodeLossy_encode (s : String) : decodeLossy (encode s) = s := by
  rw [encode_eq, decodeLossy_encodeChars, String.ofList_toList]

theorem encode_injective : Function.Injective encode := by
  intro s t same
  rw [← decodeLossy_encode s, same, decodeLossy_encode t]

theorem encodeChars_eq_nil {chars : List Char} (h : encodeChars chars = []) : chars = [] := by
  cases chars with
  | nil => rfl
  | cons c chars => exact absurd (List.append_eq_nil_iff.mp h).1 (encodeChar_ne_nil c)

/-- Bytes that start with an encoded character start with that character as text. -/
theorem exists_of_encodeChars_eq {c : Char} {chars : List Char} {rest : List UInt8}
    (same : encodeChars chars = encodeChar c ++ rest) :
    ∃ chars', chars = c :: chars' ∧ rest = encodeChars chars' := by
  cases chars with
  | nil => exact absurd (List.append_eq_nil_iff.mp same.symm).1 (encodeChar_ne_nil c)
  | cons d chars =>
      obtain ⟨rfl, rfl⟩ := encodeChar_append_inj same
      exact ⟨chars, rfl, rfl⟩

theorem encodeChar_slash : encodeChar '/' = [slash] := rfl

theorem slash_mem_encodeChar {c : Char} : slash ∈ encodeChar c ↔ c = '/' := by
  apply Iff.intro
  · exact fun inside => eq_of_ascii_mem_encodeChar (by decide) inside
  · rintro rfl
    exact List.mem_singleton.mpr rfl

theorem untilSlash_encodeChars (chars : List Char) :
    untilSlash (encodeChars chars) = encodeChars (chars.takeWhile (· ≠ '/')) := by
  induction chars with
  | nil => rfl
  | cons c chars ih =>
      by_cases hslash : c = '/'
      · subst hslash
        simp [untilSlash, encodeChar_slash]
      · have clear : ∀ b ∈ encodeChar c, decide (b ≠ slash) = true := by
          intro b inside
          exact decide_eq_true fun h => hslash (slash_mem_encodeChar.mp (h ▸ inside))
        rw [untilSlash] at ih
        rw [List.takeWhile_cons_of_pos (by simpa using hslash), encodeChars_cons, untilSlash,
          List.takeWhile_append_of_pos clear, ih, encodeChars_cons]

theorem fromSlash_encodeChars (chars : List Char) :
    fromSlash (encodeChars chars) = encodeChars (chars.dropWhile (· ≠ '/')) := by
  have whole : untilSlash (encodeChars chars) ++ fromSlash (encodeChars chars) =
      encodeChars chars := List.takeWhile_append_dropWhile
  have cut : encodeChars chars = encodeChars (chars.takeWhile (· ≠ '/')) ++
      encodeChars (chars.dropWhile (· ≠ '/')) := by
    rw [← encodeChars_append, List.takeWhile_append_dropWhile]
  rw [untilSlash_encodeChars] at whole
  exact List.append_cancel_left (whole.trans cut)

end RadixRouter.Utf8

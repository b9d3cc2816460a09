/-
# Whole characters

A byte string is textual when it consists of whole characters, none of them U+FFFD, which stands
for what cannot be decoded.  Text may be cut at an ASCII byte, and after text there is text again.
Bytes that go on inside a character are broken: they decode to nothing.
-/

import RadixRouter.Proofs.Decoding

namespace RadixRouter.Utf8

theorem encodeChar_ascii {b : UInt8} (ascii : b.toNat < 0x80) :
    encodeChar (Char.ofNat b.toNat) = [b] :=
  encodeChar_assemble_one (UInt8.lt_iff_toNat_lt.mpr ascii)

theorem encodeChar_of_ascii {c : Char} (ascii : c.toNat < 0x80) :
    encodeChar c = [UInt8.ofNat c.toNat] := by
  have hlow : (UInt8.ofNat c.toNat).toNat < 0x80 := by
    rwa [UInt8.toNat_ofNat_of_lt' (show c.toNat < 256 by omega)]
  have hchar := encodeChar_ascii hlow
  rwa [UInt8.toNat_ofNat_of_lt' (show c.toNat < 256 by omega), Char.ofNat_toNat] at hchar

/-- A character with an ASCII byte is that byte. -/
theorem encodeChar_of_ascii_mem {b : UInt8} {c : Char} (ascii : b.toNat < 0x80)
    (inside : b ∈ encodeChar c) : encodeChar c = [b] := by
  rw [eq_of_ascii_mem_encodeChar ascii inside, encodeChar_ascii ascii]

/-- A character starts with a byte that continues none, and goes on with bytes that do. -/
theorem encodeChar_eq_cons (c : Char) :
    ∃ b rest, encodeChar c = b :: rest ∧ isStart b = true ∧
      ∀ b' ∈ rest, isContinuation b' = true := by
  have valid : c.val.toNat < 0xD800 ∨ 0xDFFF < c.val.toNat ∧ c.val.toNat < 0x110000 := c.valid
  have starts {n : Nat} (bound : n < 0x80 ∨ 0xC0 ≤ n ∧ n < 0x100) :
      isStart (UInt8.ofNat n) = true := by
    have hn : (UInt8.ofNat n).toNat = n := UInt8.toNat_ofNat_of_lt' (by
      show n < 256
      omega)
    simp only [isStart, isContinuation, Bool.not_eq_true', Bool.and_eq_false_iff,
      decide_eq_false_iff_not, UInt8.le_iff_toNat_le, UInt8.lt_iff_toNat_lt, hn,
      UInt8.reduceToNat]
    omega
  unfold encodeChar
  fun_cases String.utf8EncodeChar c with
  | case1 v one => exact ⟨_, _, rfl, starts (by omega), List.forall_mem_nil _⟩
  | case2 v notOne two =>
      exact ⟨_, _, rfl, starts (by omega), List.forall_mem_singleton.mpr (isContinuation_low _)⟩
  | case3 v notOne notTwo three =>
      refine ⟨_, _, rfl, starts (by omega), ?_⟩
      simp only [List.forall_mem_cons, isContinuation_low, List.not_mem_nil, false_imp_iff,
        implies_true, and_self]
  | case4 v notOne notTwo notThree =>
      refine ⟨_, _, rfl, starts (by omega), ?_⟩
      simp only [List.forall_mem_cons, isContinuation_low, List.not_mem_nil, false_imp_iff,
        implies_true, and_self]

theorem length_encodeChar (c : Char) : (encodeChar c).length ≤ 4 := by
  unfold encodeChar
  fun_cases String.utf8EncodeChar c <;> simp

theorem firstChar_encodeChar (c : Char) (rest : List UInt8) :
    firstChar (encodeChar c ++ rest) = c := by
  rw [firstChar, List.take_append, List.take_of_length_le (length_encodeChar c),
    scan_encodeChar_append]

theorem encodeChars_injective : Function.Injective encodeChars := by
  intro chars chars' same
  have scanned := congrArg scan same
  rw [scan_encodeChars, scan_encodeChars] at scanned
  exact (List.map_inj_right fun _ _ => Option.some.inj).mp scanned

theorem eq_slash_of_encodeChars {chars : List Char} (same : encodeChars chars = [slash]) :
    chars = ['/'] := encodeChars_injective same

/-- Where nothing is replaced, every piece is a character. -/
theorem eq_map_some_of_whole {pieces : List (Option Char)}
    (whole : replacement ∉ pieces.map (·.getD replacement)) :
    pieces = (pieces.map (·.getD replacement)).map some := by
  rw [List.map_map]
  refine (List.map_id _).symm.trans (List.map_congr_left fun piece hpiece => ?_)
  cases piece with
  | none => exact absurd (List.mem_map.mpr ⟨none, hpiece, rfl⟩) whole
  | some c => rfl

/-- Bytes in which nothing is replaced are those of the characters read. -/
theorem eq_encodeChars_of_charsLossy {bytes : List UInt8}
    (whole : replacement ∉ charsLossy bytes) :
    bytes = encodeChars (charsLossy bytes) :=
  eq_encodeChars_of_scan (eq_map_some_of_whole whole)

theorem encodeChars_append_eq {front chars : List Char} {back : List UInt8}
    (same : encodeChars front ++ back = encodeChars chars) :
    ∃ after, chars = front ++ after ∧ back = encodeChars after := by
  induction front generalizing chars with
  | nil => exact ⟨chars, rfl, same⟩
  | cons c front ih =>
      rw [encodeChars_cons, List.append_assoc] at same
      obtain ⟨chars, rfl, hrest⟩ := exists_of_encodeChars_eq same.symm
      obtain ⟨after, rfl, hback⟩ := ih hrest
      exact ⟨after, rfl, hback⟩

/-- An ASCII byte in text is a character there. -/
theorem encodeChars_cut {front back : List UInt8} {b : UInt8} {chars : List Char}
    (ascii : b.toNat < 0x80) (same : front ++ b :: back = encodeChars chars) :
    ∃ before after, chars = before ++ Char.ofNat b.toNat :: after ∧
      front = encodeChars before ∧ back = encodeChars after := by
  induction chars generalizing front with
  | nil => exact absurd same (List.append_ne_nil_of_right_ne_nil _ (List.cons_ne_nil _ _))
  | cons c chars ih =>
      rw [encodeChars_cons] at same
      have later {front : List UInt8} (same : front ++ b :: back = encodeChars chars) :
          ∃ before after, c :: chars = before ++ Char.ofNat b.toNat :: after ∧
            encodeChar c ++ front = encodeChars before ∧ back = encodeChars after := by
        obtain ⟨before, after, rfl, rfl, hback⟩ := ih same
        exact ⟨c :: before, after, rfl, rfl, hback⟩
      rcases List.append_eq_append_iff.mp same with ⟨inner, hchar, hrest⟩ | ⟨front, rfl, hrest⟩
      · cases inner with
        | nil =>
            rw [List.append_nil] at hchar
            rw [← List.append_nil front, ← hchar]
            exact later hrest
        | cons b' inner =>
            obtain rfl : b = b' := (List.cons.inj hrest).1
            have inside : b ∈ encodeChar c := by simp [hchar]
            rw [encodeChar_of_ascii_mem ascii inside] at hchar
            obtain ⟨rfl, rfl⟩ : front = [] ∧ inner = [] := by
              simpa [List.singleton_eq_append_iff] using hchar
            refine ⟨[], chars, ?_, rfl, (List.cons.inj hrest).2⟩
            rw [eq_of_ascii_mem_encodeChar ascii inside]
            rfl
      · exact later hrest.symm

theorem encode_append_slash (path : String) : encode (path ++ "/") = encode path ++ [slash] := by
  rw [encode_eq, String.toList_append, encodeChars_append, ← encode_eq]
  rfl

/-- Text whose bytes end in a slash ends in one. -/
theorem encode_eq_append_slash {path : String} {before : List UInt8}
    (ending : encode path = before ++ [slash]) :
    ∃ shorter, path = shorter ++ "/" ∧ before = encode shorter := by
  obtain ⟨front, after, hpath, rfl, hafter⟩ := encodeChars_cut (by decide) ending.symm
  obtain rfl : after = [] := encodeChars_injective hafter.symm
  refine ⟨String.ofList front, String.toList_inj.mp ?_, ?_⟩
  · rw [hpath, String.toList_append, String.toList_ofList]
    rfl
  · rw [encode_eq, String.toList_ofList]

/-- Bytes of whole characters, none of which stands for what cannot be decoded. -/
def Textual (bytes : List UInt8) : Prop :=
  ∃ chars, replacement ∉ chars ∧ bytes = encodeChars chars

theorem textual_nil : Textual [] := ⟨[], List.not_mem_nil, rfl⟩

/-- After text there is text. -/
theorem Textual.of_append {front back : List UInt8} (textual : Textual (front ++ back))
    (before : Textual front) : Textual back := by
  obtain ⟨chars, hwhole, hchars⟩ := textual
  obtain ⟨front, -, rfl⟩ := before
  obtain ⟨after, rfl, hback⟩ := encodeChars_append_eq hchars
  exact ⟨after, fun h => hwhole (List.mem_append_right _ h), hback⟩

/-- Text may be cut before and after an ASCII byte. -/
theorem Textual.cut {front back : List UInt8} {b : UInt8} (textual : Textual (front ++ b :: back))
    (ascii : b.toNat < 0x80) : Textual front ∧ Textual (b :: back) ∧ Textual back := by
  obtain ⟨chars, hwhole, hchars⟩ := textual
  obtain ⟨before, after, rfl, rfl, rfl⟩ := encodeChars_cut ascii hchars
  have hbefore : Textual (encodeChars before) :=
    ⟨before, fun h => hwhole (List.mem_append_left _ h), rfl⟩
  have hafter : Textual (b :: encodeChars after) := by
    refine ⟨Char.ofNat b.toNat :: after, fun h => hwhole (List.mem_append_right _ h), ?_⟩
    rw [encodeChars_cons, encodeChar_ascii ascii]
    rfl
  exact ⟨hbefore, hafter,
    ⟨after, fun h => hwhole (List.mem_append_right _ (List.mem_cons_of_mem _ h)), rfl⟩⟩

/-- Bytes that go on inside a character where one should start. -/
def Broken (bytes : List UInt8) : Prop :=
  ∃ chars b rest, bytes = encodeChars chars ++ b :: rest ∧ isContinuation b = true

theorem Broken.append {bytes : List UInt8} (broken : Broken bytes) (front : List Char) :
    Broken (encodeChars front ++ bytes) := by
  obtain ⟨chars, b, rest, rfl, hb⟩ := broken
  exact ⟨front ++ chars, b, rest, by simp, hb⟩

/-- No text starts inside a character. -/
theorem not_continuation_of_encodeChars {b : UInt8} {rest : List UInt8} {chars : List Char}
    (same : b :: rest = encodeChars chars) : isContinuation b = false := by
  cases chars with
  | nil => cases same
  | cons c chars =>
      obtain ⟨b', rest', hc, hstart, -⟩ := encodeChar_eq_cons c
      rw [encodeChars_cons, hc] at same
      obtain rfl : b = b' := (List.cons.inj same).1
      simpa [isStart] using hstart

/-- Broken bytes are not text. -/
theorem Broken.ne_encodeChars {bytes : List UInt8} (broken : Broken bytes) (chars : List Char) :
    bytes ≠ encodeChars chars := by
  rintro rfl
  obtain ⟨front, b, rest, hsame, hb⟩ := broken
  obtain ⟨after, -, hafter⟩ := encodeChars_append_eq hsame.symm
  rw [not_continuation_of_encodeChars hafter] at hb
  cases hb

end RadixRouter.Utf8

/-
# What can be read was encoded

The converse of reading back: where `scan` reads a character, the bytes there are those of the
character, so bytes that decode are the bytes of their text.
-/

import RadixRouter.Proofs.Encoding

namespace RadixRouter.Utf8

/-- The number of a character that is made from a valid number. -/
theorem val_ofNat {n : Nat} (valid : n.isValidChar) : (Char.ofNat n).val.toNat = n := by
  unfold Char.ofNat
  rw [dif_pos valid]
  rfl

theorem toNat_of_isContinuation {b : UInt8} (continues : isContinuation b = true) :
    0x80 ≤ b.toNat ∧ b.toNat < 0xC0 := by
  simpa [isContinuation, UInt8.le_iff_toNat_le, UInt8.lt_iff_toNat_lt] using continues

theorem encodeChar_assemble_one {b : UInt8} (short : b < 0x80) :
    encodeChar (assemble b.toNat []) = [b] := by
  have high : b.toNat < 0x80 := UInt8.lt_iff_toNat_lt.mp short
  have number : (assemble b.toNat []).val.toNat = b.toNat :=
    val_ofNat (Or.inl (show b.toNat < 0xD800 by omega))
  rw [encodeChar, String.utf8EncodeChar]
  simp only [number]
  rw [if_pos (by omega), UInt8.ofNat_toNat]

theorem encodeChar_assemble_two {b₀ b₁ : UInt8} (first : (0xC2 ≤ b₀ && b₀ < 0xE0) = true)
    (second : isContinuation b₁ = true) :
    encodeChar (assemble (b₀.toNat % 32) [b₁]) = [b₀, b₁] := by
  have ⟨low, high⟩ : 0xC2 ≤ b₀.toNat ∧ b₀.toNat < 0xE0 := by
    simpa [UInt8.le_iff_toNat_le, UInt8.lt_iff_toNat_lt] using first
  have ⟨low₁, high₁⟩ := toNat_of_isContinuation second
  obtain ⟨n, hn⟩ : ∃ n, n = b₀.toNat % 32 * 64 + b₁.toNat % 64 := ⟨_, rfl⟩
  have valid : n.isValidChar := Or.inl (by omega)
  have number : (assemble (b₀.toNat % 32) [b₁]).val.toNat = n := by
    rw [hn] at valid ⊢
    exact val_ofNat valid
  have hb₀ : n / 64 % 32 + 0xC0 = b₀.toNat := by omega
  have hb₁ : n % 64 + 0x80 = b₁.toNat := by omega
  rw [encodeChar, String.utf8EncodeChar]
  simp only [number]
  rw [if_neg (by omega), if_pos (by omega), hb₀, hb₁, UInt8.ofNat_toNat, UInt8.ofNat_toNat]

theorem secondOfThree_iff {b₀ b₁ : UInt8} : secondOfThree b₀ b₁ = true ↔
    isContinuation b₁ = true ∧ (b₀.toNat = 0xE0 → 0xA0 ≤ b₁.toNat) ∧
      (b₀.toNat = 0xED → b₁.toNat < 0xA0) := by
  unfold secondOfThree isContinuation
  simp only [← UInt8.toNat_inj, UInt8.le_iff_toNat_le, UInt8.lt_iff_toNat_lt, UInt8.reduceToNat]
  grind

theorem secondOfFour_iff {b₀ b₁ : UInt8} : secondOfFour b₀ b₁ = true ↔
    isContinuation b₁ = true ∧ (b₀.toNat = 0xF0 → 0x90 ≤ b₁.toNat) ∧
      (b₀.toNat = 0xF4 → b₁.toNat < 0x90) := by
  unfold secondOfFour isContinuation
  simp only [← UInt8.toNat_inj, UInt8.le_iff_toNat_le, UInt8.lt_iff_toNat_lt, UInt8.reduceToNat]
  grind

theorem encodeChar_assemble_three {b₀ b₁ b₂ : UInt8} (first : (0xE0 ≤ b₀ && b₀ < 0xF0) = true)
    (second : secondOfThree b₀ b₁ = true) (third : isContinuation b₂ = true) :
    encodeChar (assemble (b₀.toNat % 16) [b₁, b₂]) = [b₀, b₁, b₂] := by
  have ⟨low, high⟩ : 0xE0 ≤ b₀.toNat ∧ b₀.toNat < 0xF0 := by
    simpa [UInt8.le_iff_toNat_le, UInt8.lt_iff_toNat_lt] using first
  obtain ⟨second, overlong, surrogate⟩ := secondOfThree_iff.mp second
  have ⟨low₁, high₁⟩ := toNat_of_isContinuation second
  have ⟨low₂, high₂⟩ := toNat_of_isContinuation third
  obtain ⟨n, hn⟩ : ∃ n, n = (b₀.toNat % 16 * 64 + b₁.toNat % 64) * 64 + b₂.toNat % 64 := ⟨_, rfl⟩
  have valid : n.isValidChar := show n < 0xD800 ∨ 0xDFFF < n ∧ n < 0x110000 by omega
  have number : (assemble (b₀.toNat % 16) [b₁, b₂]).val.toNat = n := by
    rw [hn] at valid ⊢
    exact val_ofNat valid
  have hb₀ : n / 4096 % 16 + 0xE0 = b₀.toNat := by omega
  have hb₁ : n / 64 % 64 + 0x80 = b₁.toNat := by omega
  have hb₂ : n % 64 + 0x80 = b₂.toNat := by omega
  rw [encodeChar, String.utf8EncodeChar]
  simp only [number]
  rw [if_neg (by omega), if_neg (by omega), if_pos (by omega), hb₀, hb₁, hb₂, UInt8.ofNat_toNat,
    UInt8.ofNat_toNat, UInt8.ofNat_toNat]

theorem encodeChar_assemble_four {b₀ b₁ b₂ b₃ : UInt8} (first : (0xF0 ≤ b₀ && b₀ < 0xF5) = true)
    (second : secondOfFour b₀ b₁ = true) (third : isContinuation b₂ = true)
    (fourth : isContinuation b₃ = true) :
    encodeChar (assemble (b₀.toNat % 8) [b₁, b₂, b₃]) = [b₀, b₁, b₂, b₃] := by
  have ⟨low, high⟩ : 0xF0 ≤ b₀.toNat ∧ b₀.toNat < 0xF5 := by
    simpa [UInt8.le_iff_toNat_le, UInt8.lt_iff_toNat_lt] using first
  obtain ⟨second, overlong, large⟩ := secondOfFour_iff.mp second
  have ⟨low₁, high₁⟩ := toNat_of_isContinuation second
  have ⟨low₂, high₂⟩ := toNat_of_isContinuation third
  have ⟨low₃, high₃⟩ := toNat_of_isContinuation fourth
  obtain ⟨n, hn⟩ : ∃ n, n = ((b₀.toNat % 8 * 64 + b₁.toNat % 64) * 64 + b₂.toNat % 64) * 64 +
      b₃.toNat % 64 := ⟨_, rfl⟩
  have valid : n.isValidChar := show n < 0xD800 ∨ 0xDFFF < n ∧ n < 0x110000 by omega
  have number : (assemble (b₀.toNat % 8) [b₁, b₂, b₃]).val.toNat = n := by
    rw [hn] at valid ⊢
    exact val_ofNat valid
  have hb₀ : n / 262144 % 8 + 0xF0 = b₀.toNat := by omega
  have hb₁ : n / 4096 % 64 + 0x80 = b₁.toNat := by omega
  have hb₂ : n / 64 % 64 + 0x80 = b₂.toNat := by omega
  have hb₃ : n % 64 + 0x80 = b₃.toNat := by omega
  rw [encodeChar, String.utf8EncodeChar]
  simp only [number]
  rw [if_neg (by omega), if_neg (by omega), if_neg (by omega), hb₀, hb₁, hb₂, hb₃,
    UInt8.ofNat_toNat, UInt8.ofNat_toNat, UInt8.ofNat_toNat, UInt8.ofNat_toNat]

/-- A scan takes a whole character off the front, or finds that none stands there. -/
theorem scan_cons (b : UInt8) (rest : List UInt8) :
    (∃ c rest', b :: rest = encodeChar c ++ rest' ∧
        scan (b :: rest) = some c :: scan rest') ∨
      ∃ n, scan (b :: rest) = none :: scan (rest.drop n) := by
  rw [scan.eq_def]
  dsimp only
  split
  · next h => exact Or.inl ⟨_, rest, by rw [encodeChar_assemble_one h]; rfl, rfl⟩
  split
  · next h =>
    rcases rest with _ | ⟨b₁, rest⟩
    · exact Or.inr ⟨0, rfl⟩
    dsimp only
    split
    · next h₁ => exact Or.inl ⟨_, rest, by rw [encodeChar_assemble_two h h₁]; rfl, rfl⟩
    · exact Or.inr ⟨0, rfl⟩
  split
  · next h =>
    rcases rest with _ | ⟨b₁, rest⟩
    · exact Or.inr ⟨0, rfl⟩
    dsimp only
    split
    · next h₁ =>
      rcases rest with _ | ⟨b₂, rest⟩
      · exact Or.inr ⟨1, rfl⟩
      dsimp only
      split
      · next h₂ => exact Or.inl ⟨_, rest, by rw [encodeChar_assemble_three h h₁ h₂]; rfl, rfl⟩
      · exact Or.inr ⟨1, rfl⟩
    · exact Or.inr ⟨0, rfl⟩
  split
  · next h =>
    rcases rest with _ | ⟨b₁, rest⟩
    · exact Or.inr ⟨0, rfl⟩
    dsimp only
    split
    · next h₁ =>
      rcases rest with _ | ⟨b₂, rest⟩
      · exact Or.inr ⟨1, rfl⟩
      dsimp only
      split
      · next h₂ =>
        rcases rest with _ | ⟨b₃, rest⟩
        · exact Or.inr ⟨2, rfl⟩
        dsimp only
        split
        · next h₃ =>
          exact Or.inl ⟨_, rest, by rw [encodeChar_assemble_four h h₁ h₂ h₃]; rfl, rfl⟩
        · exact Or.inr ⟨2, rfl⟩
      · exact Or.inr ⟨1, rfl⟩
    · exact Or.inr ⟨0, rfl⟩
  · exact Or.inr ⟨0, rfl⟩

/-- Where a scan reads a character first, the bytes start with it. -/
theorem exists_of_scan_eq_some {bytes : List UInt8} {c : Char} {pieces : List (Option Char)}
    (scanned : scan bytes = some c :: pieces) :
    ∃ rest, bytes = encodeChar c ++ rest ∧ scan rest = pieces := by
  cases bytes with
  | nil => cases scanned
  | cons b bytes =>
      rcases scan_cons b bytes with ⟨d, rest, hbytes, hscan⟩ | ⟨n, hscan⟩
      · rw [hscan] at scanned
        cases scanned
        exact ⟨rest, hbytes, rfl⟩
      · rw [hscan] at scanned
        cases scanned

/-- Bytes that are read without a gap are those of the characters read. -/
theorem eq_encodeChars_of_scan {bytes : List UInt8} {chars : List Char}
    (scanned : scan bytes = chars.map some) : bytes = encodeChars chars := by
  induction chars generalizing bytes with
  | nil =>
      cases bytes with
      | nil => rfl
      | cons b bytes =>
          rcases scan_cons b bytes with ⟨d, rest, -, hscan⟩ | ⟨n, hscan⟩ <;>
            rw [hscan] at scanned <;> cases scanned
  | cons c chars ih =>
      obtain ⟨rest, rfl, hrest⟩ := exists_of_scan_eq_some scanned
      rw [encodeChars_cons, ih hrest]

theorem mapM_id_eq_some_iff {pieces : List (Option Char)} {chars : List Char} :
    pieces.mapM id = some chars ↔ pieces = chars.map some := by
  induction pieces generalizing chars with
  | nil => cases chars <;> simp
  | cons piece pieces ih =>
      cases piece with
      | none => cases chars <;> simp
      | some c =>
          cases chars with
          | nil => simp [Option.bind_eq_some_iff]
          | cons d chars =>
              simp only [List.mapM_cons, Option.pure_def, Option.bind_eq_bind, id,
                Option.bind_some, Option.bind_eq_some_iff, ih, Option.some.injEq,
                List.cons.injEq, List.map_cons, exists_eq_right_right]
              exact and_comm

/-- Only the bytes of a text are read as that text. -/
theorem decode?_eq_some_iff {bytes : List UInt8} {s : String} :
    decode? bytes = some s ↔ encode s = bytes := by
  rw [decode?, Option.map_eq_some_iff]
  apply Iff.intro
  · rintro ⟨chars, hchars, rfl⟩
    rw [encode_eq, String.toList_ofList, ← eq_encodeChars_of_scan (mapM_id_eq_some_iff.mp hchars)]
  · rintro rfl
    refine ⟨s.toList, mapM_id_eq_some_iff.mpr ?_, String.ofList_toList⟩
    rw [encode_eq, scan_encodeChars]

/-- A first character that was not replaced stands at the front of the bytes. -/
theorem exists_of_firstChar {bytes : List UInt8} (whole : firstChar bytes ≠ replacement) :
    ∃ rest, bytes = encodeChar (firstChar bytes) ++ rest := by
  unfold firstChar at whole ⊢
  split at whole
  · next c pieces hscan =>
      obtain ⟨rest, hrest, -⟩ := exists_of_scan_eq_some hscan
      refine ⟨rest ++ bytes.drop 4, ?_⟩
      rw [← List.append_assoc, ← hrest, List.take_append_drop]
  · exact absurd rfl whole

end RadixRouter.Utf8

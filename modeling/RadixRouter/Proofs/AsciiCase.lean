/-
# ASCII letters up to case

On ASCII bytes the corrector compares letters up to their case and everything else exactly: a byte
looks like another exactly if it is one of the two forms of its character, and a label looks like
a piece of the path of the same length exactly if it does so byte by byte.  Characters beyond ASCII
whose lowercase form is a letter take more than one byte, so they do not come in between.
-/

import RadixRouter.Proofs.CaseVariants

namespace RadixRouter

open SimpleCase (lower upper sameFold forall_ascii ascii_forms)
open Utf8 (encodeChar encodeChars charsLossy replacement)

/-- What has the lowercase form of an ASCII character is one. -/
theorem ascii_of_toLower {c d : Char} (ascii : d.toNat < 0x80) (same : c.toLower = d.toLower) :
    c.toNat < 0x80 := by
  have hform : d.toLower.toNat < 0x80 := forall_ascii d ascii (by decide +kernel)
  rw [← same] at hform
  unfold Char.toLower at hform
  split at hform
  · next hcapital => exact lt_of_le_of_lt (UInt32.le_iff_toNat_le.mp hcapital.2) (by decide)
  · exact hform

/-- The characters that are equal up to ASCII case to another are its two forms. -/
theorem toLower_eq_iff {c d : Char} (ascii : d.toNat < 0x80) :
    c.toLower = d.toLower ↔ c = d.toLower ∨ c = d.toUpper := by
  constructor
  · intro same
    have own : c = c.toLower ∨ c = c.toLower.toUpper :=
      forall_ascii c (ascii_of_toLower ascii same) (by decide +kernel)
    have upper : d.toLower.toUpper = d.toUpper := forall_ascii d ascii (by decide +kernel)
    rwa [same, upper] at own
  · have forms : d.toLower.toLower = d.toLower ∧ d.toUpper.toLower = d.toLower :=
      forall_ascii d ascii (by decide +kernel)
    rintro (rfl | rfl)
    · exact forms.1
    · exact forms.2

/-- The ASCII character of a byte. -/
def letter (b : UInt8) : Char := Char.ofNat b.toNat

/-- Whether all bytes are ASCII. -/
def AsciiBytes (bytes : List UInt8) : Prop := ∀ b ∈ bytes, b.toNat < 0x80

/-- Two bytes are equal up to ASCII case. -/
def SameLetter (b c : UInt8) : Prop := (letter b).toLower = (letter c).toLower

theorem SameLetter.refl (b : UInt8) : SameLetter b b := Eq.refl _

theorem letter_ascii {b : UInt8} (ascii : b.toNat < 0x80) : (letter b).toNat < 0x80 := by
  rwa [show (letter b).toNat = b.toNat from Utf8.val_ofNat (Or.inl (by omega))]

theorem ascii_of_letter {b : UInt8} (ascii : (letter b).toNat < 0x80) : b.toNat < 0x80 := by
  have hb := b.toNat_lt
  rwa [show (letter b).toNat = b.toNat from Utf8.val_ofNat (Or.inl (by omega))] at ascii

theorem SameLetter.ascii {b c : UInt8} (same : SameLetter b c) (ascii : c.toNat < 0x80) :
    b.toNat < 0x80 :=
  ascii_of_letter (ascii_of_toLower (letter_ascii ascii) same)

theorem encodeChar_eq_singleton {c : Char} {b : UInt8} (ascii : c.toNat < 0x80) :
    encodeChar c = [b] ↔ letter b = c := by
  constructor
  · intro single
    rw [Utf8.encodeChar_of_ascii ascii] at single
    obtain rfl := List.singleton_inj.mp single
    rw [letter, UInt8.toNat_ofNat_of_lt' (show c.toNat < 256 by omega), Char.ofNat_toNat]
  · rintro rfl
    exact Utf8.encodeChar_ascii (ascii_of_letter ascii)

/-- The bytes that an ASCII character leads to are those of its forms. -/
theorem sameLetter_iff {b c : UInt8} (ascii : c.toNat < 0x80) :
    SameLetter b c ↔ encodeChar (lower (letter c)) = [b] ∨ encodeChar (upper (letter c)) = [b] := by
  have hletter := letter_ascii ascii
  have forms := ascii_forms hletter
  rw [encodeChar_eq_singleton forms.1, encodeChar_eq_singleton forms.2, lower, upper,
    if_pos hletter, if_pos hletter]
  exact toLower_eq_iff hletter

/-- The slash has one form. -/
theorem eq_slash_of_sameLetter {c : UInt8} (same : SameLetter slash c) : c = slash := by
  have hletter : (letter c).toNat < 0x80 := ascii_of_toLower (by decide) (Eq.symm same)
  have table : ('/').toLower = (letter c).toLower → letter c = '/' :=
    forall_ascii (letter c) hletter (by decide +kernel)
  have hc := (encodeChar_eq_singleton hletter).mpr (Eq.refl (letter c))
  rw [table same, Utf8.encodeChar_slash] at hc
  exact (List.singleton_inj.mp hc).symm

/-- The byte of an ASCII character. -/
theorem exists_letter {c : Char} (ascii : c.toNat < 0x80) :
    ∃ b, encodeChar c = [b] ∧ letter b = c := by
  have hchar := Utf8.encodeChar_of_ascii ascii
  exact ⟨_, hchar, (encodeChar_eq_singleton ascii).mp hchar⟩

theorem AsciiBytes.of_letters {front label : List UInt8} (ascii : AsciiBytes front)
    (letters : List.Forall₂ SameLetter label front) : AsciiBytes label := by
  induction letters with
  | nil => exact nofun
  | cons same letters ih =>
      obtain ⟨hfirst, hrest⟩ := List.forall_mem_cons.mp ascii
      exact List.forall_mem_cons.mpr ⟨same.ascii hfirst, ih hrest⟩

theorem encodeChars_letters {bytes : List UInt8} (ascii : AsciiBytes bytes) :
    encodeChars (bytes.map letter) = bytes := by
  induction bytes with
  | nil => rfl
  | cons b bytes ih =>
      rw [List.map_cons, Utf8.encodeChars_cons, ih fun c h => ascii c (List.mem_cons_of_mem _ h),
        letter, Utf8.encodeChar_ascii (ascii b (List.mem_cons_self ..))]
      rfl

theorem charsLossy_ascii {bytes : List UInt8} (ascii : AsciiBytes bytes) :
    charsLossy bytes = bytes.map letter := by
  conv_lhs => rw [← encodeChars_letters ascii]
  rw [charsLossy, Utf8.scan_encodeChars, List.map_map]
  exact List.map_id _

/-- No ASCII letter is U+FFFD. -/
theorem replacement_not_mem_letters {bytes : List UInt8} (ascii : AsciiBytes bytes) :
    replacement ∉ bytes.map letter := by
  intro h
  obtain ⟨b, hb, hletter⟩ := List.mem_map.mp h
  have hlow := letter_ascii (ascii b hb)
  rw [hletter] at hlow
  revert hlow
  decide

/-- Text with as many bytes as characters is ASCII. -/
theorem ascii_of_length {chars : List Char}
    (short : (encodeChars chars).length ≤ chars.length) : Ascii chars := by
  have atLeast (chars : List Char) : chars.length ≤ (encodeChars chars).length := by
    induction chars with
    | nil => exact Nat.le_refl _
    | cons c chars ih =>
        have := List.length_pos_of_ne_nil (Utf8.encodeChar_ne_nil c)
        simp only [Utf8.encodeChars_cons, List.length_append, List.length_cons]
        omega
  induction chars with
  | nil => exact nofun
  | cons c chars ih =>
      have hpos := List.length_pos_of_ne_nil (Utf8.encodeChar_ne_nil c)
      have hrest := atLeast chars
      simp only [Utf8.encodeChars_cons, List.length_append, List.length_cons] at short
      have hsize : c.utf8Size = 1 := by
        have hlength : (encodeChar c).length = c.utf8Size := String.length_utf8EncodeChar c
        omega
      have hfirst : c.toNat < 0x80 :=
        Nat.lt_succ_of_le (UInt32.le_iff_toNat_le.mp (Char.utf8Size_eq_one_iff.mp hsize))
      exact List.forall_mem_cons.mpr ⟨hfirst, ih (by omega)⟩

theorem asciiBytes_encodeChars {chars : List Char} (ascii : Ascii chars) :
    AsciiBytes (encodeChars chars) := by
  intro b hb
  obtain ⟨c, hc, hinside⟩ := List.mem_flatMap.mp hb
  have hchar := ascii c hc
  rw [Utf8.encodeChar_of_ascii hchar, List.mem_singleton] at hinside
  rw [hinside, UInt8.toNat_ofNat_of_lt' (show c.toNat < 256 by omega)]
  exact hchar

/-- ASCII bytes look alike exactly if they do so one by one. -/
theorem sameFold_ascii_iff {front label : List UInt8} (ascii : AsciiBytes front)
    (ascii' : AsciiBytes label) :
    sameFold front label = true ↔ List.Forall₂ SameLetter label front := by
  have forms {bytes : List UInt8} (ascii : AsciiBytes bytes) :
      (charsLossy bytes).map lower = bytes.map fun b => (letter b).toLower := by
    rw [charsLossy_ascii ascii, List.map_map]
    exact List.map_congr_left fun b hb => if_pos (letter_ascii (ascii b hb))
  rw [sameFold, decide_eq_true_eq, forms ascii, forms ascii', eq_comm, ← List.forall₂_eq_eq_eq,
    List.forall₂_map_left_iff, List.forall₂_map_right_iff]
  exact Iff.rfl

/-- A piece of an ASCII path and a label of its length look alike exactly if they do so byte by
byte. -/
theorem sameFold_iff {front label : List UInt8} (ascii : AsciiBytes front)
    (length : front.length = label.length) :
    sameFold front label = true ↔ List.Forall₂ SameLetter label front := by
  constructor
  · intro alike
    have same : (charsLossy front).map lower = (charsLossy label).map lower := by
      simpa [sameFold] using alike
    have hletters := charsLossy_ascii ascii
    have whole : replacement ∉ charsLossy front := by
      rw [hletters]
      exact replacement_not_mem_letters ascii
    have htext := Utf8.eq_encodeChars_of_charsLossy (replacement_not_mem same whole)
    have ascii' : AsciiBytes label := by
      rw [htext]
      refine asciiBytes_encodeChars (ascii_of_length ?_)
      have hlength := congrArg List.length same
      rw [List.length_map, List.length_map, hletters, List.length_map] at hlength
      rw [← htext]
      omega
    exact (sameFold_ascii_iff ascii ascii').mp alike
  · intro letters
    exact (sameFold_ascii_iff ascii (ascii.of_letters letters)).mpr letters

end RadixRouter

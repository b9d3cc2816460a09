/-
# Characters that no case mapping reaches

A case mapping moves the characters of its runs and leaves all others, so a character outside
of the image of every run is the form of itself only.  The slash is one, and so is U+FFFD,
which stands for what cannot be decoded.  Among the ASCII characters no capital is a lowercase
form of another character and no small letter an uppercase form, so there a mapping that is done
twice does what it does once.
-/

import RadixRouter.Proofs.Decoding
import RadixRouter.Text.SimpleCase

namespace RadixRouter.SimpleCase

/-- Whether no character of a run is moved to a code point. -/
def Run.misses (run : Run) (n : Nat) : Bool :=
  (n : Int) < run.first + run.shift || run.last + run.shift < (n : Int)

/-- A number that gives a character other than U+0000 is the number of that character. -/
theorem toNat_of_ofNat_eq {n : Nat} {d : Char} (made : Char.ofNat n = d) (pos : d.toNat ≠ 0) :
    d.toNat = n := by
  subst made
  by_cases valid : n.isValidChar
  · exact Utf8.val_ofNat valid
  · rw [Char.ofNat, dif_neg valid] at pos
    exact absurd rfl pos

/-- What no run of a table moves to is left alone where it is found. -/
theorem eq_of_move {table : List Run} {c d : Char} (pos : d.toNat ≠ 0)
    (missed : ∀ run ∈ table, run.misses d.toNat = true) (moved : move table c = d) : c = d := by
  unfold move at moved
  split at moved
  · next run hrun =>
      have hmiss := missed run (List.mem_of_find?_eq_some hrun)
      have hcovers := List.find?_some hrun
      have hnumber := toNat_of_ofNat_eq moved pos
      simp only [Run.misses, Bool.or_eq_true, decide_eq_true_eq] at hmiss
      simp only [Run.covers, Bool.and_eq_true, decide_eq_true_eq] at hcovers
      omega
  · exact moved

/-- A character is only the lowercase form of itself if no run and no letter is moved to it. -/
theorem eq_of_lower {c d : Char} (pos : d.toNat ≠ 0)
    (ascii : ∀ n < 0x80, (Char.ofNat n).toLower = d → Char.ofNat n = d)
    (missed : ∀ run ∈ lowerRuns, run.misses d.toNat = true) (mapped : lower c = d) : c = d := by
  unfold lower at mapped
  split at mapped
  · next h =>
      have hc : Char.ofNat c.toNat = c := Char.ofNat_toNat c
      rw [← hc] at mapped ⊢
      exact ascii c.toNat h mapped
  · exact eq_of_move pos missed mapped

/-- A character is only the uppercase form of itself if no run and no letter is moved to it. -/
theorem eq_of_upper {c d : Char} (pos : d.toNat ≠ 0)
    (ascii : ∀ n < 0x80, (Char.ofNat n).toUpper = d → Char.ofNat n = d)
    (missed : ∀ run ∈ upperRuns, run.misses d.toNat = true) (mapped : upper c = d) : c = d := by
  unfold upper at mapped
  split at mapped
  · next h =>
      have hc : Char.ofNat c.toNat = c := Char.ofNat_toNat c
      rw [← hc] at mapped ⊢
      exact ascii c.toNat h mapped
  · exact eq_of_move pos missed mapped

theorem eq_slash_of_lower {c : Char} : lower c = '/' → c = '/' :=
  eq_of_lower (by decide) (by decide) (by decide +kernel)

theorem eq_slash_of_upper {c : Char} : upper c = '/' → c = '/' :=
  eq_of_upper (by decide) (by decide) (by decide +kernel)

theorem eq_replacement_of_lower {c : Char} : lower c = Utf8.replacement → c = Utf8.replacement :=
  eq_of_lower (by decide) (by decide) (by decide +kernel)

/-- What holds of the first 128 code points holds of every ASCII character. -/
@[elab_as_elim]
theorem forall_ascii {P : Char → Prop} (c : Char) (ascii : c.toNat < 0x80)
    (all : ∀ n < 0x80, P (Char.ofNat n)) : P c := by
  have h := all c.toNat ascii
  rwa [Char.ofNat_toNat] at h

/-- An ASCII character that is a lowercase form is its own. -/
theorem lower_of_ascii_form {c d : Char} (ascii : d.toNat < 0x80) (mapped : lower c = d) :
    lower d = d := by
  have table : d.toLower = d ∨ d.toNat ≠ 0 ∧
      (∀ n < 0x80, (Char.ofNat n).toLower = d → Char.ofNat n = d) ∧
        ∀ run ∈ lowerRuns, run.misses d.toNat = true :=
    forall_ascii d ascii (by decide +kernel)
  rcases table with h | ⟨pos, letters, missed⟩
  · rw [lower, if_pos ascii, h]
  · obtain rfl := eq_of_lower pos letters missed mapped
    exact mapped

/-- An ASCII character that is an uppercase form is its own. -/
theorem upper_of_ascii_form {c d : Char} (ascii : d.toNat < 0x80) (mapped : upper c = d) :
    upper d = d := by
  have table : d.toUpper = d ∨ d.toNat ≠ 0 ∧
      (∀ n < 0x80, (Char.ofNat n).toUpper = d → Char.ofNat n = d) ∧
        ∀ run ∈ upperRuns, run.misses d.toNat = true :=
    forall_ascii d ascii (by decide +kernel)
  rcases table with h | ⟨pos, letters, missed⟩
  · rw [upper, if_pos ascii, h]
  · obtain rfl := eq_of_upper pos letters missed mapped
    exact mapped

/-- The forms of an ASCII character are ASCII characters. -/
theorem ascii_forms {c : Char} (ascii : c.toNat < 0x80) :
    (lower c).toNat < 0x80 ∧ (upper c).toNat < 0x80 := by
  rw [lower, upper, if_pos ascii, if_pos ascii]
  have table : c.toLower.toNat < 0x80 ∧ c.toUpper.toNat < 0x80 :=
    forall_ascii c ascii (by decide +kernel)
  exact table

end RadixRouter.SimpleCase

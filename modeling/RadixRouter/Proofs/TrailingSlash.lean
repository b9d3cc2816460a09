/-
# The other slash

A path has a variant with one slash more at its end, and where it ends in a slash one without it.
What a walk hints at, and what a correction that may touch slashes answers with, is that one of the
two is taken.  A redirect takes the slash away where it can, and adds one otherwise.
-/

import RadixRouter.Proofs.Texts
import RadixRouter.Router.Resolve

namespace RadixRouter

open Utf8 (encode encode_append_slash encode_eq_append_slash)

/-- The path with one slash more, or without its last slash, is taken. -/
def Toggled (taken : List UInt8 → Prop) (path : List UInt8) : Prop :=
  taken (path ++ [slash]) ∨ ∃ before, path = before ++ [slash] ∧ taken before

section Toggled

variable {taken taken' : List UInt8 → Prop} {path : List UInt8}

theorem Toggled.imp (toggled : Toggled taken path) (step : ∀ path, taken path → taken' path) :
    Toggled taken' path := by
  rcases toggled with h | ⟨before, rfl, h⟩
  · exact Or.inl (step _ h)
  · exact Or.inr ⟨before, rfl, step _ h⟩

/-- Text in front of a path is there in its variants too. -/
theorem Toggled.append {front : List UInt8} (toggled : Toggled taken path)
    (step : ∀ tail, taken tail → taken' (front ++ tail)) : Toggled taken' (front ++ path) := by
  rcases toggled with h | ⟨before, rfl, h⟩
  · refine Or.inl ?_
    rw [List.append_assoc]
    exact step _ h
  · exact Or.inr ⟨front ++ before, (List.append_assoc ..).symm, step _ h⟩

/-- The variants of a text. -/
theorem toggled_encode {path : String} :
    Toggled taken (encode path) ↔
      taken (encode (path ++ "/")) ∨ ∃ shorter, path = shorter ++ "/" ∧ taken (encode shorter) := by
  rw [encode_append_slash]
  refine or_congr_right ⟨?_, ?_⟩
  · rintro ⟨before, hpath, h⟩
    obtain ⟨shorter, hshorter, rfl⟩ := encode_eq_append_slash hpath
    exact ⟨shorter, hshorter, h⟩
  · rintro ⟨shorter, rfl, h⟩
    exact ⟨encode shorter, encode_append_slash shorter, h⟩

end Toggled

/-- A lone slash apart, a slash at the end is taken away, and one is added where there is none. -/
theorem toggleSlash_eq {path : String} (plain : path ≠ "/") :
    path = toggleSlash path ++ "/" ∨
      (¬ ∃ shorter, path = shorter ++ "/") ∧ toggleSlash path = path ++ "/" := by
  unfold toggleSlash
  split
  · next c rest hreverse =>
      refine Or.inl (String.toList_inj.mp ?_)
      rw [String.toList_append, String.toList_ofList, ← List.reverse_reverse path.toList,
        hreverse, List.reverse_cons]
      rfl
  · next hother =>
      refine Or.inr ⟨?_, rfl⟩
      rintro ⟨shorter, rfl⟩
      have hreverse : (shorter ++ "/").toList.reverse = '/' :: shorter.toList.reverse := by
        rw [String.toList_append]
        exact List.reverse_append
      cases hshorter : shorter.toList.reverse with
      | nil =>
          refine plain (String.toList_inj.mp ?_)
          rw [String.toList_append, List.reverse_eq_nil_iff.mp hshorter]
          rfl
      | cons c rest => exact hother c rest (hreverse.trans (congrArg _ hshorter))

end RadixRouter

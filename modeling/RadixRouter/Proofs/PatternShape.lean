/-
# The tokens of faultless patterns

`Proper` says of a list of tokens what the grammar says of the text: literal bytes are no
markers, a name is not empty and has neither markers nor slashes in it, a parameter runs up
to a slash or the end, and a catch-all stands right after a slash at the very end.  A pattern
without a fault is a slash followed by proper tokens.
-/

import Mathlib.Data.List.TakeWhile
import RadixRouter.Pattern.Grammar

namespace RadixRouter.Pattern

/-- The names of wildcards. -/
structure IsName (name : List UInt8) : Prop where
  nonempty : name ≠ []
  no_marker : ∀ b ∈ name, isMarker b = false
  no_slash : slash ∉ name

/-- What may follow in a pattern; `slashed` tells whether a slash stands right before. -/
def Proper : (slashed : Bool) → List Token → Prop
  | _, [] => True
  | _, .byte b :: rest => isMarker b = false ∧ Proper (b = slash) rest
  | _, .param name :: rest =>
    IsName name ∧ (∀ token ∈ rest.head?, token = .byte slash) ∧ Proper false rest
  | slashed, .catchAll name :: rest => slashed = true ∧ IsName name ∧ rest = []

theorem head_byte_ne_catchAll (b : UInt8) (rest : List Token) (name : List UInt8) :
    (.byte b :: rest).head? ≠ some (Token.catchAll name) := nofun

theorem head_param_ne_catchAll (name' : List UInt8) (rest : List Token) (name : List UInt8) :
    (.param name' :: rest).head? ≠ some (Token.catchAll name) := nofun

theorem bytes_append (first second : List Token) :
    bytes (first ++ second) = bytes first ++ bytes second := List.flatMap_append

theorem bytes_map_byte (label : List UInt8) : bytes (label.map .byte) = label := by
  induction label with
  | nil => rfl
  | cons b label ih => exact congrArg (b :: ·) ih

theorem tokensFrom_true (text : List UInt8) :
    tokensFrom true text = tokensFrom false (fromSlash text) := by
  induction text with
  | nil => rfl
  | cons b text ih =>
      by_cases hslash : b = slash
      · subst hslash
        simp [tokensFrom, fromSlash]
      · have hdrop : fromSlash (b :: text) = fromSlash text := by simp [fromSlash, hslash]
        rw [tokensFrom, if_pos ⟨rfl, hslash⟩, hdrop]
        exact ih

/-- Literal text is read byte by byte. -/
theorem tokensFrom_literal_append {literal : List UInt8}
    (plain : ∀ b ∈ literal, isMarker b = false) (text : List UInt8) :
    tokensFrom false (literal ++ text) = literal.map .byte ++ tokensFrom false text := by
  induction literal with
  | nil => rfl
  | cons b literal ih =>
      have hb : isMarker b = false := plain b (List.mem_cons_self ..)
      have hmarker : b ≠ colon ∧ b ≠ star := by simpa [isMarker] using hb
      rw [List.cons_append, tokensFrom, if_neg (by simp), if_neg hmarker.1, if_neg hmarker.2,
        ih fun c hc => plain c (List.mem_cons_of_mem _ hc)]
      rfl

/-- Literal text is proper wherever it stands. -/
theorem Proper.literal_append {literal : List UInt8} (plain : ∀ b ∈ literal, isMarker b = false)
    {slashed : Bool} {rest : List Token}
    (proper : ∀ slashed', (literal = [] → slashed' = slashed) → Proper slashed' rest) :
    Proper slashed (literal.map .byte ++ rest) := by
  induction literal generalizing slashed with
  | nil => exact proper slashed fun _ => rfl
  | cons b literal ih =>
      refine ⟨plain b (List.mem_cons_self ..),
        ih (fun c hc => plain c (List.mem_cons_of_mem _ hc)) ?_⟩
      intro slashed' _
      exact proper slashed' (fun h => absurd h (List.cons_ne_nil _ _))

/-- The first part of a text, and the parts after its first slash. -/
theorem splitOn_slash (text : List UInt8) :
    splitOn slash text = untilSlash text ::
      match fromSlash text with
      | [] => []
      | _ :: rest => splitOn slash rest := by
  induction text with
  | nil => rfl
  | cons b text ih =>
      by_cases hslash : b = slash
      · subst hslash
        simp [splitOn, untilSlash, fromSlash]
      · rw [splitOn, if_neg hslash, ih]
        simp [untilSlash, fromSlash, hslash]

theorem untilSlash_append_fromSlash (text : List UInt8) :
    untilSlash text ++ fromSlash text = text := List.takeWhile_append_dropWhile

theorem slash_not_mem_untilSlash (text : List UInt8) : slash ∉ untilSlash text := by
  intro inside
  have := List.mem_takeWhile_imp inside
  simp at this

/-- Text from a slash on is empty or starts with one. -/
theorem fromSlash_eq (text : List UInt8) :
    fromSlash text = [] ∨ ∃ rest, fromSlash text = slash :: rest := by
  cases h : fromSlash text with
  | nil => exact Or.inl rfl
  | cons b rest =>
      have hb : ¬ decide (b ≠ slash) = true := by
        have := List.head?_dropWhile_not (fun b => decide (b ≠ slash)) text
        rw [fromSlash] at h
        rw [h] at this
        simpa using this
      exact Or.inr ⟨rest, by simpa using hb⟩

/-- Text without a slash in front of more segments is what comes before the slash. -/
theorem untilSlash_append {name text : List UInt8} (noSlash : slash ∉ name)
    (after : text = [] ∨ ∃ rest, text = slash :: rest) :
    untilSlash (name ++ text) = name ∧ fromSlash (name ++ text) = text := by
  have hall : ∀ b ∈ name, decide (b ≠ slash) = true := by
    intro b hb
    exact decide_eq_true fun h => noSlash (h ▸ hb)
  rw [untilSlash, fromSlash, List.takeWhile_append_of_pos hall, List.dropWhile_append_of_pos hall]
  rcases after with rfl | ⟨rest, rfl⟩ <;> simp

/-- A faultless segment that opens a wildcard names it well; a catch-all fills the last
segment. -/
theorem wildcard_of_segmentFault?_eq_none {segment : List UInt8} {isLast : Bool}
    {marker : UInt8} {name : List UInt8} (faultless : segmentFault? segment isLast = none)
    (noSlash : slash ∉ segment)
    (opened : segment.dropWhile (fun b => !isMarker b) = marker :: name) :
    IsName name ∧ (marker = star → isLast = true ∧ segment = marker :: name) := by
  have hsub : name ⊆ segment := by
    intro b hb
    have : b ∈ segment.dropWhile (fun b => !isMarker b) := opened ▸ List.mem_cons_of_mem _ hb
    exact (List.dropWhile_sublist _).subset this
  unfold segmentFault? at faultless
  rw [opened] at faultless
  dsimp only at faultless
  split at faultless
  · cases faultless
  · next hmarkers =>
      split at faultless
      · cases faultless
      · next hname =>
          have named : IsName name := {
            nonempty := hname
            no_marker := by simpa using hmarkers
            no_slash := fun h => noSlash (hsub h) }
          refine ⟨named, fun hstar => ?_⟩
          rw [if_neg (not_not.mpr hstar)] at faultless
          split at faultless
          · cases faultless
          · next hlast =>
              split at faultless
              · cases faultless
              · next hhead =>
                  -- the segment starts with the marker, so nothing was dropped
                  have hwhole : segment.dropWhile (fun b => !isMarker b) = segment := by
                    cases segment with
                    | nil => rfl
                    | cons b segment =>
                        have hb : b = star := by simpa using hhead
                        simp [hb, isMarker]
                  exact ⟨by simpa using hlast, hwhole.symm.trans opened⟩

/-- The tokens of a segment, given those of what follows it. -/
theorem tokensFrom_segment (segment text : List UInt8)
    (noSlash : slash ∉ segment) (after : text = [] ∨ ∃ rest, text = slash :: rest) :
    tokensFrom false (segment ++ text) =
      (segment.takeWhile (fun b => !isMarker b)).map .byte ++
        match segment.dropWhile (fun b => !isMarker b) with
        | [] => tokensFrom false text
        | marker :: name =>
          (if marker = colon then .param name else .catchAll name) :: tokensFrom false text := by
  have hplain : ∀ b ∈ segment.takeWhile (fun b => !isMarker b), isMarker b = false := by
    intro b hb
    simpa using List.mem_takeWhile_imp hb
  have hcut : segment = segment.takeWhile (fun b => !isMarker b) ++
      segment.dropWhile (fun b => !isMarker b) := List.takeWhile_append_dropWhile.symm
  cases hopen : segment.dropWhile (fun b => !isMarker b) with
  | nil =>
      rw [hopen, List.append_nil] at hcut
      rw [← hcut] at hplain ⊢
      exact tokensFrom_literal_append hplain text
  | cons marker name =>
      rw [hopen] at hcut
      have hname : slash ∉ name := by
        intro h
        rw [hcut] at noSlash
        exact noSlash (List.mem_append_right _ (List.mem_cons_of_mem _ h))
      have hmarker : isMarker marker = true := by
        have := List.head?_dropWhile_not (fun b => !isMarker b) segment
        rw [hopen] at this
        simpa using this
      have hwhole : segment ++ text =
          segment.takeWhile (fun b => !isMarker b) ++ marker :: (name ++ text) := by
        rw [← List.cons_append, ← List.append_assoc, ← hcut]
      rw [hwhole, tokensFrom_literal_append hplain, tokensFrom, if_neg (by simp),
        (untilSlash_append hname after).1, tokensFrom_true, (untilSlash_append hname after).2]
      dsimp only
      by_cases hcolon : marker = colon
      · rw [if_pos hcolon, if_pos hcolon]
      · have hstar : marker = star := by simpa [isMarker, hcolon] using hmarker
        rw [if_neg hcolon, if_neg hcolon, if_pos hstar]

/-- The tokens after a slash of a faultless pattern are proper. -/
theorem proper_of_segmentsFault?_eq_none (text : List UInt8)
    (faultless : segmentsFault? (splitOn slash text) = none) :
    Proper true (tokensFrom false text) := by
  rw [splitOn_slash, segmentsFault?, Option.or_eq_none_iff] at faultless
  obtain ⟨hsegment, hrest⟩ := faultless
  have hafter := fromSlash_eq text
  have hproper (slashed : Bool) : Proper slashed (tokensFrom false (fromSlash text)) := by
    rcases hafter with h | ⟨rest, h⟩
    · rw [h]
      exact True.intro
    · rw [h] at hrest ⊢
      have shorter : rest.length < text.length := by
        have := (List.dropWhile_sublist (fun b => decide (b ≠ slash)) (l := text)).length_le
        rw [← fromSlash, h] at this
        exact Nat.lt_of_succ_le this
      exact ⟨rfl, proper_of_segmentsFault?_eq_none rest hrest⟩
  rw [← untilSlash_append_fromSlash text,
    tokensFrom_segment _ _ (slash_not_mem_untilSlash text) hafter]
  have hplain : ∀ b ∈ (untilSlash text).takeWhile (fun b => !isMarker b), isMarker b = false := by
    intro b hb
    simpa using List.mem_takeWhile_imp hb
  apply Proper.literal_append hplain
  intro slashed hslashed
  cases hopen : (untilSlash text).dropWhile (fun b => !isMarker b) with
  | nil => exact hproper slashed
  | cons marker name =>
      obtain ⟨hname, hstar⟩ :=
        wildcard_of_segmentFault?_eq_none hsegment (slash_not_mem_untilSlash text) hopen
      dsimp only
      by_cases hcolon : marker = colon
      · rw [if_pos hcolon]
        refine ⟨hname, ?_, hproper false⟩
        rcases hafter with h | ⟨rest, h⟩
        · rw [h]
          intro token htoken
          cases htoken
        · rw [h]
          intro token htoken
          exact (Option.some.inj htoken).symm
      · have hmarker : isMarker marker = true := by
          have := List.head?_dropWhile_not (fun b => !isMarker b) (untilSlash text)
          rw [hopen] at this
          simpa using this
        obtain ⟨hlast, hwhole⟩ := hstar (by simpa [isMarker, hcolon] using hmarker)
        rw [if_neg hcolon]
        refine ⟨hslashed ?_, hname, ?_⟩
        · rw [hwhole, List.takeWhile_cons_of_neg (by simpa using hmarker)]
        · rcases hafter with h | ⟨rest, h⟩
          · rw [h]
            rfl
          · rw [h, List.isEmpty_iff] at hlast
            exact absurd hlast (splitOn_ne_nil slash rest)
termination_by text.length

/-- A faultless pattern is a slash followed by proper tokens. -/
theorem proper_tokens {pattern : List UInt8} (faultless : fault? pattern = none) :
    ∃ rest, tokens pattern = .byte slash :: rest ∧ Proper true rest := by
  cases pattern with
  | nil => cases faultless
  | cons b text =>
      rw [fault?] at faultless
      split at faultless
      · next hslash =>
          subst hslash
          exact ⟨tokensFrom false text, rfl, proper_of_segmentsFault?_eq_none text faultless⟩
      · cases faultless

end RadixRouter.Pattern

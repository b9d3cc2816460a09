/-
# Cuts inside labels

A refused pattern may leave a label cut in two.  The two halves give the same walks as the
whole, in every way a path can part from the label, with one exception: the final-slash hint
where two slashes follow each other and the cut falls between them.  So the laws here ask that
no route of the node goes through two slashes in a row.
-/

import RadixRouter.Proofs.SameWalk

namespace RadixRouter

variable {α : Type}

/-- Whether a route goes through two slashes in a row. -/
def Doubled (route : List Token) : Prop := [.byte slash, .byte slash] <:+: route

theorem Doubled.append_left {route : List Token} (doubled : Doubled route)
    (before : List Token) : Doubled (before ++ route) :=
  doubled.trans (List.suffix_append before route).isInfix

theorem not_doubled_of_prependTokens {before : List Token} {listing : List (List Token × α)}
    (single : ∀ route ∈ prependTokens before listing, ¬ Doubled route.1) :
    ∀ route ∈ listing, ¬ Doubled route.1 := by
  rintro ⟨route, handler⟩ hroute doubled
  exact single _ (mem_prependTokens.mpr ⟨route, rfl, hroute⟩) (doubled.append_left before)

theorem afterLabel_append (label label' path : List UInt8) :
    afterLabel (label ++ label') path = (afterLabel label path).bind (afterLabel label') := by
  induction label generalizing path with
  | nil => rfl
  | cons b label ih =>
      cases path with
      | nil => rfl
      | cons c path =>
          rw [List.cons_append, afterLabel, afterLabel]
          split
          · exact ih path
          · rfl

/-- A slash offered right after a slash is the middle of a doubled route. -/
theorem exists_doubled_of_offersSlash {below : Below α} (sound : below.Sound)
    (offered : below.offersSlash = true) :
    ∃ route ∈ below.listing, ∃ rest, route.1 = .byte slash :: rest := by
  cases below with
  | param name hits priority handler next => cases offered
  | edges es =>
      obtain ⟨hkeys, hsound⟩ := Below.sound_edges_iff.mp sound
      obtain ⟨edge, hmem, hslash, -⟩ := (offersSlash_iff hkeys).mp offered
      have hnode := hsound edge hmem
      obtain ⟨⟨route, handler⟩, hroute⟩ :=
        List.exists_mem_of_ne_nil _ (listing_ne_nil.1 edge.2 edge.1 hnode)
      obtain ⟨rest, rfl⟩ := hnode.head_listing hroute
      rw [hslash] at hroute
      exact ⟨_, mem_listingEdges.mpr ⟨edge, hmem, hroute⟩, rest, rfl⟩

section Cut

variable {common : List UInt8} {b : UInt8} {suffix : List UInt8} {priority priority' : Nat}
  {handler : Option α} {below : Below α}

/-- A path that goes on past some text is not a lone slash. -/
theorem append_cons_ne_slash (nonempty : common ≠ []) (c : UInt8) (rest : List UInt8) :
    common ++ c :: rest ≠ [slash] := by
  intro h
  have hlength := congrArg List.length h
  have hcommon := List.length_pos_iff.mpr nonempty
  simp only [List.length_append, List.length_cons, List.length_nil] at hlength
  omega

/-- Where a label ends in a slash, no other slash is offered. -/
theorem not_offersSlash (sound : below.Sound)
    (single : ∀ route ∈ (Node.static (common ++ [slash]) priority handler below).listing,
      ¬ Doubled route.1) : below.offersSlash = false := by
  by_contra offered
  rw [Bool.not_eq_false] at offered
  obtain ⟨⟨route, found⟩, hroute, rest, rfl⟩ := exists_doubled_of_offersSlash sound offered
  refine single ((common ++ [slash]).map .byte ++ .byte slash :: rest, found) ?_ ?_
  · exact mem_prependTokens.mpr ⟨_, rfl, List.mem_append_right _ hroute⟩
  · exact ⟨common.map .byte, rest, by simp⟩

/-- The walk past the upper half of a cut label. -/
theorem search_cut_through (nonempty : common ≠ []) (sound : below.Sound)
    (single : ∀ route ∈ (Node.static (common ++ b :: suffix) priority handler below).listing,
      ¬ Doubled route.1) (parent : Option Bool) (c : UInt8) (rest : List UInt8) :
    (Node.static (common ++ b :: suffix) priority handler below).search parent
        (common ++ c :: rest) =
      (Below.edges [(b, .static (b :: suffix) priority handler below)]).search false
        (c :: rest) := by
  have hthrough : afterLabel (common ++ b :: suffix) (common ++ c :: rest) =
      afterLabel (b :: suffix) (c :: rest) := by
    rw [afterLabel_append, afterLabel_eq_some_iff.mpr rfl]
    rfl
  have hlong := append_cons_ne_slash nonempty c rest
  rw [Node.search.eq_def, Below.search.eq_def]
  dsimp only
  rw [hthrough, searchEdges, List.head?_cons]
  by_cases hbc : c = b
  · subst hbc
    rw [if_pos rfl, Node.search.eq_def]
    dsimp only
    cases hafter : afterLabel (c :: suffix) (c :: rest) with
    | none => simp [hlong]
    | some tail =>
        cases tail with
        | cons d tail => rfl
        | nil =>
            cases handler with
            | some handler => rfl
            | none =>
                have hsame : rest = suffix := by
                  simpa using afterLabel_eq_some_iff.mp hafter
                subst hsame
                have hoffers : (if c :: rest = [slash] then false else below.offersSlash) =
                    below.offersSlash := by
                  split
                  · next h =>
                      rw [h] at single
                      exact (not_offersSlash sound single).symm
                  · rfl
                cases parent with
                | none =>
                    dsimp only
                    rw [hoffers]
                | some above =>
                    dsimp only
                    rw [if_neg hlong, hoffers]
  · have hnone : afterLabel (b :: suffix) (c :: rest) = none := by
      rw [afterLabel, if_neg (Ne.symm hbc)]
    rw [hnone, if_neg (by simpa using hbc)]
    simp [hlong, Ne.symm hbc, searchEdges]

/-- The walk that ends with the upper half of a cut label. -/
theorem search_cut_here
    (single : ∀ route ∈ (Node.static (common ++ b :: suffix) priority handler below).listing,
      ¬ Doubled route.1) (parent : Option Bool) :
    (Node.static (common ++ b :: suffix) priority handler below).search parent (common ++ []) =
      (Node.static common priority' none
        (.edges [(b, .static (b :: suffix) priority handler below)])).search parent
          (common ++ []) := by
  have hcommon : afterLabel common (common ++ []) = some [] := afterLabel_eq_some_iff.mpr rfl
  have hwhole : afterLabel (common ++ b :: suffix) (common ++ []) = none := by
    rw [afterLabel_append, hcommon]
    rfl
  have hoffers : (Below.edges [(b, Node.static (b :: suffix) priority handler below)]).offersSlash =
      (decide (b :: suffix = [slash]) && handler.isSome) := by
    rw [Below.offersSlash, List.find?_singleton]
    by_cases hb : b = slash
    · simp [hb, Node.endsSlash]
    · simp [hb]
  rw [Node.search.eq_def, Node.search.eq_def]
  dsimp only
  rw [hwhole, hcommon, hoffers]
  cases parent with
  | none => simp
  | some above =>
      by_cases hslash : common = [slash]
      · -- the label of a route would be two slashes
        have hshort : (decide (b :: suffix = [slash]) && handler.isSome) = false := by
          cases handler with
          | none => exact Bool.and_false _
          | some handler =>
              rw [Option.isSome_some, Bool.and_true, decide_eq_false_iff_not]
              intro h
              rw [hslash, h, listing_static_some] at single
              exact single _ (List.mem_cons_self ..) (List.infix_refl _)
        have hleft : (decide (common ++ b :: suffix = common ++ [] ++ [slash]) &&
            handler.isSome) = false := by
          simpa using hshort
        rw [hleft]
        simp [hslash]
      · simp [hslash]

/-- A cut inside a label changes no walk. -/
theorem alike_cut (nonempty : common ≠ []) (sound : below.Sound)
    (single : ∀ route ∈ (Node.static (common ++ b :: suffix) priority handler below).listing,
      ¬ Doubled route.1) :
    (Node.static (common ++ b :: suffix) priority handler below).Alike
      (.static common priority' none
        (.edges [(b, .static (b :: suffix) priority handler below)])) := by
  have hlength : (common ++ b :: suffix).length ≠ 1 := by
    have hcommon := List.length_pos_iff.mpr nonempty
    rw [List.length_append, List.length_cons]
    omega
  have hends : (Node.static (common ++ b :: suffix) priority handler below).endsSlash = false := by
    rw [Node.endsSlash, decide_eq_false hlength]
    rfl
  have hends' : (Node.static common priority' none
      (.edges [(b, .static (b :: suffix) priority handler below)])).endsSlash = false := by
    rw [Node.endsSlash]
    exact Bool.and_false _
  refine ⟨?_, hends.trans hends'.symm, by rw [hends, hends', Bool.and_false, Bool.and_false]⟩
  intro parent path
  cases hcommon : afterLabel common path with
  | none =>
      have hwhole : afterLabel (common ++ b :: suffix) path = none := by
        rw [afterLabel_append, hcommon]
        rfl
      have hdiffers : common ++ b :: suffix ≠ path ++ [slash] := by
        intro h
        rcases List.append_eq_append_iff.mp h with ⟨tail, rfl, -⟩ | ⟨tail, rfl, htail⟩
        · rw [afterLabel_eq_some_iff.mpr rfl] at hcommon
          cases hcommon
        · cases tail with
          | nil =>
              rw [List.append_nil,
                afterLabel_eq_some_iff.mpr (List.append_nil path).symm] at hcommon
              cases hcommon
          | cons d tail => simp at htail
      rw [Node.search.eq_def, Node.search.eq_def]
      dsimp only
      rw [hwhole, hcommon]
      simp [hdiffers]
  | some rest =>
      obtain rfl := afterLabel_eq_some_iff.mp hcommon
      cases rest with
      | cons c rest =>
          rw [search_cut_through nonempty sound single, Node.search.eq_def]
          dsimp only
          rw [hcommon]
          rfl
      | nil => exact search_cut_here single parent

end Cut

end RadixRouter

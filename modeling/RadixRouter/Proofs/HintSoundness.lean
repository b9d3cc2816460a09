/-
# A hint is true

A walk that fails gives its hint from what stands right there: a route that ends above, a slash
that leads on below, a label with one slash more.  Each of these is a route of the tree that the
path with one slash more, or without its last slash, fits.  A parameter that nothing follows ends a
route, so a slash after its value can be dropped.

A node does not know the routes above it, so the hint for a lone slash may rest on a route that
ends there; this is the second case of the law of nodes, and it is gone at the root.
-/

import RadixRouter.Proofs.Respelling
import RadixRouter.Proofs.SlashHint
import RadixRouter.Proofs.TrailingSlash

namespace RadixRouter

open Pattern (fromSlash_eq slash_not_mem_untilSlash untilSlash_append_fromSlash)

variable {α : Type}

/-- A true hint at a node speaks of a route there, or for a lone slash of one that ends above. -/
def Node.HintsTruly (node : Node α) : Prop :=
  ∀ (index : UInt8) (parent : Option Bool) (path : List UInt8),
    node.Sound index → node.search parent path = .missed true →
      Toggled (Takes node.listing) path ∨ path = [slash] ∧ parent = some true

/-- The same below a label. -/
def Below.HintsTruly (below : Below α) : Prop :=
  ∀ (ends : Bool) (path : List UInt8),
    below.Sound → path ≠ [] → below.search ends path = .missed true →
      Toggled (Takes below.listing) path ∨ path = [slash] ∧ ends = true

theorem Takes.mono {listing listing' : List (List Token × α)} {path : List UInt8}
    (takes : Takes listing path) (among : listing ⊆ listing') : Takes listing' path := by
  obtain ⟨handler, captures, route, hroute, fits⟩ := takes
  exact ⟨handler, captures, route, among hroute, fits⟩

/-- What follows text toggles with the text in front of it. -/
theorem toggled_append {above listing : List (List Token × α)} {front rest : List UInt8}
    {ends : Bool}
    (takes : ∀ tail, ends = true ∧ tail = [] ∨ Takes listing tail → Takes above (front ++ tail))
    (toggled : Toggled (Takes listing) rest ∨ rest = [slash] ∧ ends = true) :
    Toggled (Takes above) (front ++ rest) := by
  rcases toggled with h | ⟨rfl, hends⟩
  · exact h.append fun tail taken => takes tail (Or.inr taken)
  · refine Or.inr ⟨front, rfl, ?_⟩
    have h := takes [] (Or.inl ⟨hends, rfl⟩)
    rwa [List.append_nil] at h

theorem hintsTruly_static {below : Below α} (ih : below.HintsTruly) (label : List UInt8)
    (priority : Nat) (existing : Option α) :
    (Node.static label priority existing below).HintsTruly := by
  intro index parent path sound missed
  obtain ⟨hbelow, -, -⟩ := sound
  have takes : ∀ tail, existing.isSome = true ∧ tail = [] ∨ Takes below.listing tail →
      Takes (Node.static label priority existing below).listing (label ++ tail) :=
    fun tail => takes_static hbelow
  rw [Node.search.eq_def] at missed
  dsimp only at missed
  cases hafter : afterLabel label path with
  | none =>
      rw [hafter] at missed
      have hhint := Search.missed.inj missed
      rw [Bool.or_eq_true, Bool.and_eq_true, Bool.and_eq_true, decide_eq_true_eq,
        decide_eq_true_eq, decide_eq_true_eq] at hhint
      rcases hhint with h | ⟨hlabel, hexisting⟩
      · exact Or.inr h
      · have h := takes [] (Or.inl ⟨hexisting, rfl⟩)
        rw [List.append_nil] at h
        rw [hlabel] at h ⊢
        exact Or.inl (Or.inl h)
  | some rest =>
      obtain rfl := afterLabel_eq_some_iff.mp hafter
      rw [hafter] at missed
      cases rest with
      | cons c rest =>
          have below := ih existing.isSome (c :: rest) hbelow (List.cons_ne_nil _ _) missed
          exact Or.inl (toggled_append takes below)
      | nil =>
          have offered (offers : below.offersSlash = true) :
              Toggled (Takes (Node.static label priority existing below).listing) (label ++ []) :=
            Or.inl (by
              rw [List.append_nil]
              exact takes _ (Or.inr (takes_of_offered hbelow offers)))
          cases existing with
          | some existing => cases missed
          | none =>
              cases parent with
              | none => exact Or.inl (offered (Search.missed.inj missed))
              | some above =>
                  have hhint := Search.missed.inj missed
                  split at hhint
                  · next hlabel => exact Or.inr ⟨hlabel, congrArg some hhint⟩
                  · exact Or.inl (offered hhint)

theorem hintsTruly_edges {es : List (Edge α)} (ih : ∀ edge ∈ es, edge.2.HintsTruly) :
    (Below.edges es).HintsTruly := by
  intro ends path sound _ missed
  obtain ⟨hkeys, hsound⟩ := Below.sound_edges_iff.mp sound
  rw [Below.search] at missed
  by_cases hedge : ∃ edge ∈ es, path.head? = some edge.1
  · obtain ⟨edge, hmem, hhead⟩ := hedge
    rw [searchEdges_of_mem hkeys hmem hhead] at missed
    rcases ih edge hmem edge.1 (some ends) path (hsound edge hmem) missed with h | ⟨h, hends⟩
    · exact Or.inl (h.imp fun _ taken => taken.mono (listing_subset_edges hmem))
    · exact Or.inr ⟨h, Option.some.inj hends⟩
  · have hnowhere : ∀ edge ∈ es, path.head? ≠ some edge.1 := by
      intro edge hmem h
      exact hedge ⟨edge, hmem, h⟩
    rw [searchEdges_eq_none hnowhere] at missed
    have hhint := Search.missed.inj missed
    rw [Bool.and_eq_true, decide_eq_true_eq] at hhint
    exact Or.inr hhint

theorem hintsTruly_param {next : Option (Node α)}
    (ih : ∀ node, next = some node → node.HintsTruly) (name : List UInt8) (hits : CounterId)
    (priority : Nat) (existing : Option α) :
    (Below.param name hits priority existing next).HintsTruly := by
  intro ends path sound _ missed
  rw [Below.search.eq_def] at missed
  dsimp only at missed
  by_cases hvalue : untilSlash path = []
  · rw [if_pos hvalue] at missed
    cases missed
  · rw [if_neg hvalue] at missed
    have takes : ∀ tail, existing.isSome = true ∧ tail = [] ∨ Takes (listingNext next) tail →
        Takes (Below.param name hits priority existing next).listing (untilSlash path ++ tail) :=
      fun tail => takes_param hvalue (slash_not_mem_untilSlash path)
    have hpath := untilSlash_append_fromSlash path
    refine Or.inl ?_
    rcases fromSlash_eq path with hfrom | ⟨rest, hfrom⟩
    · rw [hfrom] at missed
      rw [hfrom, List.append_nil] at hpath
      rw [hpath] at takes
      cases existing with
      | some existing => cases missed
      | none =>
          obtain ⟨node, rfl, hlone⟩ := (Option.any_eq_true _ _).mp (Search.missed.inj missed)
          exact Or.inl (takes _ (Or.inr (takes_lone_slash sound.2 hlone)))
    · rw [hfrom] at missed hpath
      dsimp only at missed
      rw [← hpath]
      refine toggled_append takes ?_
      cases next with
      | none =>
          -- nothing follows the parameter, so a route ends with it
          have hexisting : existing.isSome = true :=
            Option.isSome_iff_ne_none.mpr fun h => sound.1 h rfl
          rw [searchNext] at missed
          rw [List.isEmpty_iff.mp (Search.missed.inj missed)]
          exact Or.inr ⟨rfl, hexisting⟩
      | some node =>
          rw [searchNext] at missed
          rcases ih node rfl slash (some existing.isSome) (slash :: rest) sound.2
            (Search.missed_of_under missed) with h | ⟨h, hends⟩
          · exact Or.inl h
          · exact Or.inr ⟨h, Option.some.inj hends⟩

/-- Every hint is true. -/
theorem hints_truly :
    (∀ node : Node α, node.HintsTruly) ∧ ∀ below : Below α, below.HintsTruly := by
  refine tree_induction ?static ?catchAll ?edges ?param
  case static =>
    intro label priority existing below ih
    exact hintsTruly_static ih label priority existing
  case catchAll =>
    intro name hits priority existing index parent path _ missed
    cases missed
  case edges =>
    intro es ih
    exact hintsTruly_edges ih
  case param =>
    intro name hits priority existing next ih
    exact hintsTruly_param ih name hits priority existing

/-- From the root, a hint says that the toggled path fits a route of the tree. -/
theorem Node.Rooted.toggled_of_hint {tree : Node α} (rooted : tree.Rooted) {path : List UInt8}
    (missed : tree.find path = .missed true) : Toggled (Takes tree.listing) path := by
  rcases hints_truly.1 tree slash none path rooted.sound missed with h | ⟨-, h⟩
  · exact h
  · cases h

end RadixRouter

/-
# Adding a route to the tree of a method

Counting afresh changes neither routes nor shape, so the laws of grafting are the laws of
`Node.insert`, accepted or refused.  `Node.Rooted` is what they keep: the tree of a method is
sound below the slash that every pattern starts with, and starts with literal text.
-/

import Mathlib.Data.List.Perm.Basic
import RadixRouter.Proofs.Grafting
import RadixRouter.Proofs.TreeSearch

namespace RadixRouter

open Pattern (Proper)

variable {α : Type}

theorem recountEdges_eq_map (es : List (Edge α)) :
    recountEdges es = es.map fun edge => (edge.1, edge.2.recount) := by
  induction es with
  | nil => rfl
  | cons edge es ih =>
      rw [List.map_cons, ← ih]
      rfl

/-- Counting afresh keeps the routes. -/
theorem listing_recount :
    (∀ node : Node α, node.recount.listing.Perm node.listing) ∧
      ∀ below : Below α, below.recount.listing.Perm below.listing := by
  refine tree_induction ?static ?catchAll ?edges ?param
  case static =>
    intro label priority handler below ih
    exact prependTokens_perm _ (ih.append_left _)
  case catchAll =>
    intro name hits priority handler
    exact List.Perm.refl _
  case edges =>
    intro es ih
    apply (listingEdges_perm (rank_perm _)).trans
    rw [Below.listing, listingEdges_eq_flatMap, listingEdges_eq_flatMap, recountEdges_eq_map,
      List.flatMap_map]
    exact List.Perm.flatMap_left es ih
  case param =>
    intro name hits priority handler next ih
    refine prependTokens_perm _ (List.Perm.append_left _ ?_)
    cases next with
    | none => exact List.Perm.refl _
    | some node => exact ih node rfl

/-- Counting afresh keeps the shape. -/
theorem sound_recount :
    (∀ (node : Node α) (index : UInt8), node.Sound index → node.recount.Sound index) ∧
      ∀ below : Below α, below.Sound → below.recount.Sound := by
  refine tree_induction ?static ?catchAll ?edges ?param
  case static =>
    intro label priority handler below ih index sound
    obtain ⟨hbelow, hroute, hshape⟩ := sound
    refine ⟨ih hbelow, ?_, ?_⟩
    · intro hnone
      apply Below.ne_edges_nil
      intro hnil
      have same := listing_recount.2 below
      rw [hnil] at same
      exact listing_ne_nil.2 below hbelow (hroute hnone) same.symm.eq_nil
    · rcases hshape with h | ⟨rfl, rfl, rfl, name, hits, priority', existing, rfl⟩
      · exact Or.inl h
      · exact Or.inr ⟨rfl, rfl, rfl, name, hits, 1, existing, rfl⟩
  case catchAll =>
    intro name hits priority handler index sound
    exact sound
  case edges =>
    intro es ih sound
    refine Below.Sound.perm ?_ (rank_perm _).symm
    obtain ⟨hkeys, hsound⟩ := Below.sound_edges_iff.mp sound
    rw [Below.sound_edges_iff, recountEdges_eq_map]
    apply And.intro
    · rw [List.map_map]
      exact hkeys
    · intro edge hedge
      obtain ⟨edge', hedge', rfl⟩ := List.mem_map.mp hedge
      exact ih edge' hedge' edge'.1 (hsound edge' hedge')
  case param =>
    intro name hits priority handler next ih sound
    cases next with
    | none => exact sound
    | some node => exact ⟨nofun, ih node rfl slash sound.2⟩

/-- What holds of the tree of a method. -/
structure Node.Rooted (tree : Node α) : Prop where
  sound : tree.Sound slash
  literal : ∀ name hits priority handler, tree ≠ .catchAll name hits priority handler

variable {tree : Node α} {handler : α} {fresh : CounterId} {rest : List Token}

/-- Where insertion is refused, it leaves the attempt with its counts made afresh. -/
theorem insert_eq (tree : Node α) (handler : α) (fresh : CounterId) (route : List Token) :
    (tree.insert handler fresh route).verdict = (tree.graft handler fresh route).verdict ∧
      ((tree.insert handler fresh route).tree = (tree.graft handler fresh route).tree ∨
        (tree.insert handler fresh route).tree = (tree.graft handler fresh route).tree.recount) := by
  unfold Node.insert
  dsimp only
  split
  · next h => exact ⟨rfl, Or.inl rfl⟩
  · next h => exact ⟨h.symm ▸ rfl, Or.inr rfl⟩

/-- Insertion adds the route, or none. -/
theorem listing_insert (tree : Node α) (handler : α) (fresh : CounterId)
    (proper : Proper true rest) :
    (tree.insert handler fresh (.byte slash :: rest)).tree.listing.Perm
      (enlarged (tree.insert handler fresh (.byte slash :: rest)).verdict
        (.byte slash :: rest, handler) tree.listing) := by
  have hgraft := (listing_graft handler).1 tree fresh (.byte slash :: rest) false ⟨rfl, proper⟩
  obtain ⟨hverdict, htree⟩ := insert_eq tree handler fresh (.byte slash :: rest)
  rw [hverdict]
  rcases htree with h | h
  · rw [h]
    exact hgraft
  · rw [h]
    exact (listing_recount.1 _).trans hgraft

/-- Insertion is refused for the gravest rivalry with the routes of the tree. -/
theorem verdict_insert (rooted : tree.Rooted) (handler : α) (fresh : CounterId)
    (proper : Proper true rest) :
    refusal? (tree.insert handler fresh (.byte slash :: rest)).verdict =
      standing tree.listing (.byte slash :: rest) := by
  rw [(insert_eq tree handler fresh _).1]
  exact (verdict_graft handler).1 tree slash fresh _ false rooted.sound ⟨rfl, proper⟩ rfl

/-- A literal node stays one. -/
theorem graft_literal (tree : Node α) (handler : α) (fresh : CounterId) (route : List Token)
    (literal : ∀ name hits priority existing, tree ≠ .catchAll name hits priority existing) :
    ∀ name hits priority existing,
      (tree.graft handler fresh route).tree ≠ .catchAll name hits priority existing := by
  cases tree with
  | catchAll name hits priority existing => exact absurd rfl (literal name hits priority existing)
  | static label priority existing below =>
      obtain ⟨label', existing', below', h⟩ :=
        exists_graft_static handler fresh label priority existing below route
      rw [h]
      exact nofun

theorem Node.Rooted.recount (rooted : tree.Rooted) : tree.recount.Rooted where
  sound := sound_recount.1 tree slash rooted.sound
  literal := by
    cases tree with
    | static label priority existing below => exact nofun
    | catchAll name hits priority existing =>
        exact absurd rfl (rooted.literal name hits priority existing)

theorem Node.Rooted.insert (rooted : tree.Rooted) (handler : α) (fresh : CounterId)
    (proper : Proper true rest) :
    (tree.insert handler fresh (.byte slash :: rest)).tree.Rooted := by
  have grafted : (tree.graft handler fresh (.byte slash :: rest)).tree.Rooted := {
    sound := (sound_graft handler).1 tree slash fresh _ false rooted.sound ⟨rfl, proper⟩ rfl
    literal := graft_literal tree handler fresh _ rooted.literal }
  rcases (insert_eq tree handler fresh (.byte slash :: rest)).2 with h | h
  · rw [h]
    exact grafted
  · rw [h]
    exact grafted.recount

/-- The tree of a first route. -/
theorem rooted_ofTokens (handler : α) (fresh : CounterId) (proper : Proper true rest) :
    (Node.ofTokens handler (.byte slash :: rest) fresh).1.Rooted := by
  have hproper : Proper false (.byte slash :: rest) := ⟨rfl, proper⟩
  obtain ⟨label, existing, below, hshape, -, -, hsound⟩ :=
    sound_ofTokens handler (.byte slash :: rest) fresh hproper
  refine ⟨hsound slash rfl, ?_⟩
  rw [hshape]
  exact nofun

/-- From the root, a search finds exactly what fits a route of the tree. -/
theorem Node.Rooted.find_result (rooted : tree.Rooted) {path : List UInt8} {handler : α}
    {captures : List (List UInt8 × List UInt8)} :
    (tree.find path).result? = some (handler, captures) ↔
      ∃ route, (route, handler) ∈ tree.listing ∧ Fits route path captures :=
  search_result.1 tree slash none path handler captures rooted.sound (Or.inr rooted.literal)

end RadixRouter

/-
# Trees that give the same walks

Two nodes are alike when every walk ends in the same way at both, final-slash hints included,
and the nodes above cannot tell them apart either.  Counts of routes and the order of edges do
not matter.  Nor does a cut inside a label, as long as no route goes through two slashes in a
row: there, the hint depends on where the label was cut.
-/

import RadixRouter.Proofs.Insertion

namespace RadixRouter

variable {α : Type}

/-- Walks end alike at two nodes, and the nodes above see the same. -/
structure Node.Alike (node node' : Node α) : Prop where
  search : ∀ parent path, node.search parent path = node'.search parent path
  endsSlash : node.endsSlash = node'.endsSlash
  closing : (decide (node.label = [slash]) && node.endsSlash) =
    (decide (node'.label = [slash]) && node'.endsSlash)

/-- Walks end alike below two labels, and the labels see the same. -/
structure Below.Alike (below below' : Below α) : Prop where
  search : ∀ ends path, below.search ends path = below'.search ends path
  offersSlash : below.offersSlash = below'.offersSlash

theorem Node.Alike.refl (node : Node α) : node.Alike node := ⟨fun _ _ => rfl, rfl, rfl⟩

theorem Below.Alike.refl (below : Below α) : below.Alike below := ⟨fun _ _ => rfl, rfl⟩

theorem Node.Alike.trans {first second third : Node α} (earlier : first.Alike second)
    (later : second.Alike third) : first.Alike third where
  search := fun parent path => (earlier.search parent path).trans (later.search parent path)
  endsSlash := earlier.endsSlash.trans later.endsSlash
  closing := earlier.closing.trans later.closing

theorem Below.Alike.trans {first second third : Below α} (earlier : first.Alike second)
    (later : second.Alike third) : first.Alike third where
  search := fun ends path => (earlier.search ends path).trans (later.search ends path)
  offersSlash := earlier.offersSlash.trans later.offersSlash

/-- Literal nodes are alike when what follows their label is. -/
theorem Below.Alike.static {below below' : Below α} (alike : below.Alike below')
    (label : List UInt8) (priority priority' : Nat) (handler : Option α) :
    (Node.static label priority handler below).Alike
      (Node.static label priority' handler below') where
  search := by
    intro parent path
    rw [Node.search.eq_def, Node.search.eq_def]
    dsimp only
    rw [alike.offersSlash]
    cases afterLabel label path with
    | none => rfl
    | some rest =>
        cases rest with
        | nil => rfl
        | cons b rest => exact alike.search _ _
  endsSlash := rfl
  closing := rfl

theorem alike_catchAll (name : List UInt8) (hits : CounterId) (priority priority' : Nat)
    (handler : α) :
    (Node.catchAll name hits priority handler).Alike (.catchAll name hits priority' handler) := by
  refine ⟨?_, rfl, rfl⟩
  intro parent path
  rw [Node.search.eq_def, Node.search.eq_def]

/-- Parameters are alike when what follows them is. -/
theorem Node.Alike.param {node node' : Node α} (alike : node.Alike node') (name : List UInt8)
    (hits : CounterId) (priority priority' : Nat) (handler : Option α) :
    (Below.param name hits priority handler (some node)).Alike
      (Below.param name hits priority' handler (some node')) where
  search := by
    intro ends path
    have hclosing : (some node).any (fun node => node.label = [slash] && node.endsSlash) =
        (some node').any (fun node => node.label = [slash] && node.endsSlash) := alike.closing
    rw [Below.search.eq_def, Below.search.eq_def]
    dsimp only
    rw [hclosing]
    cases fromSlash path with
    | nil => rfl
    | cons b rest =>
        dsimp only
        rw [searchNext, searchNext, alike.search]
  offersSlash := rfl

theorem alike_param (name : List UInt8) (hits : CounterId) (priority priority' : Nat)
    (handler : Option α) (next : Option (Node α)) :
    (Below.param name hits priority handler next).Alike
      (Below.param name hits priority' handler next) := by
  cases next with
  | some node => exact (Node.Alike.refl node).param name hits priority priority' handler
  | none =>
      refine ⟨?_, rfl⟩
      intro ends path
      rw [Below.search.eq_def, Below.search.eq_def]

/-- Edges are alike when they have the same bytes in the same order and lead to nodes that
are. -/
theorem alike_edges {es es' : List (Edge α)}
    (alike : List.Forall₂ (fun edge edge' => edge.1 = edge'.1 ∧ edge.2.Alike edge'.2) es es') :
    (Below.edges es).Alike (.edges es') where
  search := by
    intro ends path
    have hedges : searchEdges ends es path = searchEdges ends es' path := by
      induction alike with
      | nil => rfl
      | @cons edge edge' es es' h _ ih =>
          obtain ⟨index, node⟩ := edge
          obtain ⟨index', node'⟩ := edge'
          obtain ⟨hindex, halike⟩ := h
          dsimp only at hindex halike
          rw [searchEdges, searchEdges, hindex, halike.search, ih]
    rw [Below.search, Below.search, hedges]
  offersSlash := by
    induction alike with
    | nil => rfl
    | @cons edge edge' es es' h _ ih =>
        obtain ⟨index, node⟩ := edge
        obtain ⟨index', node'⟩ := edge'
        obtain ⟨hindex, halike⟩ := h
        dsimp only at hindex halike
        subst hindex
        rw [Below.offersSlash, Below.offersSlash, List.find?_cons, List.find?_cons]
        by_cases hslash : index = slash
        · simpa [hslash] using halike.endsSlash
        · simpa [hslash, Below.offersSlash] using ih

theorem offersSlash_iff {es : List (Edge α)} (distinct : (es.map (·.1)).Nodup) :
    (Below.edges es).offersSlash = true ↔
      ∃ edge ∈ es, edge.1 = slash ∧ edge.2.endsSlash = true := by
  rw [Below.offersSlash]
  cases hfind : es.find? (·.1 = slash) with
  | none =>
      rw [List.find?_eq_none] at hfind
      apply Iff.intro
      · intro h
        cases h
      · rintro ⟨edge, hedge, hslash, -⟩
        exact absurd (decide_eq_true hslash) (hfind edge hedge)
  | some edge =>
      obtain ⟨index, node⟩ := edge
      have hmem := List.mem_of_find?_eq_some hfind
      have hslash : index = slash := of_decide_eq_true (List.find?_some hfind :)
      apply Iff.intro
      · intro h
        exact ⟨_, hmem, hslash, h⟩
      · rintro ⟨edge, hedge, hslash', h⟩
        have same : edge = (index, node) :=
          List.inj_on_of_nodup_map distinct hedge hmem (hslash'.trans hslash.symm)
        rw [same] at h
        exact h

/-- Edges may stand in any order. -/
theorem alike_of_perm {es es' : List (Edge α)} (distinct : (es.map (·.1)).Nodup)
    (same : es.Perm es') : (Below.edges es).Alike (.edges es') where
  search := by
    intro ends path
    have distinct' : (es'.map (·.1)).Nodup := (same.map _).nodup_iff.mp distinct
    have hedges : searchEdges ends es path = searchEdges ends es' path := by
      by_cases hedge : ∃ edge ∈ es, path.head? = some edge.1
      · obtain ⟨edge, hmem, hhead⟩ := hedge
        rw [searchEdges_of_mem distinct hmem hhead,
          searchEdges_of_mem distinct' (same.mem_iff.mp hmem) hhead]
      · have hnowhere : ∀ edge ∈ es, path.head? ≠ some edge.1 := by
          intro edge hmem h
          exact hedge ⟨edge, hmem, h⟩
        rw [searchEdges_eq_none hnowhere,
          searchEdges_eq_none fun edge hmem => hnowhere edge (same.mem_iff.mpr hmem)]
    rw [Below.search, Below.search, hedges]
  offersSlash := by
    have distinct' : (es'.map (·.1)).Nodup := (same.map _).nodup_iff.mp distinct
    rw [Bool.eq_iff_iff, offersSlash_iff distinct, offersSlash_iff distinct']
    apply Iff.intro
    · rintro ⟨edge, hmem, h⟩
      exact ⟨edge, same.mem_iff.mp hmem, h⟩
    · rintro ⟨edge, hmem, h⟩
      exact ⟨edge, same.mem_iff.mpr hmem, h⟩

/-- Counting afresh changes no walk. -/
theorem alike_recount :
    (∀ (node : Node α) (index : UInt8), node.Sound index → node.Alike node.recount) ∧
      ∀ below : Below α, below.Sound → below.Alike below.recount := by
  refine tree_induction ?static ?catchAll ?edges ?param
  case static =>
    intro label priority handler below ih index sound
    exact (ih sound.1).static label priority _ handler
  case catchAll =>
    intro name hits priority handler index _
    exact alike_catchAll name hits priority 1 handler
  case edges =>
    intro es ih sound
    obtain ⟨hkeys, hsound⟩ := Below.sound_edges_iff.mp sound
    have hcounted : (Below.edges es).Alike (.edges (recountEdges es)) := by
      apply alike_edges
      rw [recountEdges_eq_map, List.forall₂_map_right_iff, List.forall₂_same]
      intro edge hedge
      exact ⟨rfl, ih edge hedge edge.1 (hsound edge hedge)⟩
    have hkeys' : ((recountEdges es).map (·.1)).Nodup := by
      rw [recountEdges_eq_map, List.map_map]
      exact hkeys
    exact hcounted.trans (alike_of_perm hkeys' (rank_perm _).symm)
  case param =>
    intro name hits priority handler next ih sound
    cases next with
    | none => exact alike_param name hits priority _ handler none
    | some node => exact (ih node rfl slash sound.2).param name hits priority _ handler

end RadixRouter

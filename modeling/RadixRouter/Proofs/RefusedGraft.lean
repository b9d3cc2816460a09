/-
# What a refused route leaves behind

A refused attempt to add a route raises counts, moves edges and cuts at most one label.  Every
walk ends at the tree that is left as it ended before.
-/

import RadixRouter.Proofs.LabelCut

namespace RadixRouter

open Pattern (Proper)

variable {α : Type}

/-- A refused sprout leaves the edges as they were. -/
theorem sprout_of_error {handler : α} {fresh : CounterId} {es : List (Edge α)} {rest : List Token}
    {clash : Clash} (refused : (sprout handler fresh es rest).verdict = .error clash) :
    (sprout handler fresh es rest).tree = .edges es := by
  cases rest with
  | nil => cases refused
  | cons token rest =>
      cases token with
      | byte b => cases refused
      | catchAll name => rfl
      | param name =>
          cases es with
          | nil => cases refused
          | cons edge es => rfl

/-- Edges are alike when one of them leads to a node that is. -/
theorem alike_edge (before after : List (Edge α)) (b : UInt8) {node node' : Node α}
    (alike : node.Alike node') :
    (Below.edges (before ++ (b, node) :: after)).Alike
      (.edges (before ++ (b, node') :: after)) := by
  have hrefl (es : List (Edge α)) :
      List.Forall₂ (fun edge edge' => edge.1 = edge'.1 ∧ edge.2.Alike edge'.2) es es :=
    List.forall₂_same.mpr fun edge _ => ⟨rfl, Node.Alike.refl edge.2⟩
  exact alike_edges (List.rel_append (hrefl before) (.cons ⟨rfl, alike⟩ (hrefl after)))

/-- A refused graft onto a node ends every walk as before. -/
def Node.OutlastsRefusal (handler : α) (node : Node α) : Prop :=
  ∀ (index : UInt8) (fresh : CounterId) (rest : List Token) (slashed : Bool) (clash : Clash),
    node.Sound index → Proper slashed rest → rest.head? = some (.byte index) →
      (∀ route ∈ node.listing, ¬ Doubled route.1) →
        (node.graft handler fresh rest).verdict = .error clash →
          node.Alike (node.graft handler fresh rest).tree

/-- A refused graft below a label ends every walk as before. -/
def Below.OutlastsRefusal (handler : α) (below : Below α) : Prop :=
  ∀ (fresh : CounterId) (rest : List Token) (slashed : Bool) (clash : Clash),
    below.Sound → Proper slashed rest → rest ≠ [] →
      (∀ route ∈ below.listing, ¬ Doubled route.1) →
        (below.graft handler fresh rest).verdict = .error clash →
          below.Alike (below.graft handler fresh rest).tree

theorem outlastsRefusal_static {handler : α} {below : Below α}
    (ih : below.OutlastsRefusal handler) (label : List UInt8) (priority : Nat)
    (existing : Option α) :
    (Node.static label priority existing below).OutlastsRefusal handler := by
  intro index fresh rest slashed clash sound proper hhead single refused
  have ⟨hbelow, _, _⟩ := sound
  rcases hmet : overlap label rest with ⟨common, label', rest'⟩
  obtain ⟨hlabel, hrest, -⟩ := overlap_eq hmet
  cases label' with
  | cons b suffix =>
      cases rest' with
      | nil =>
          rw [graft_cut_end hmet] at refused
          cases refused
      | cons token rest' =>
          have hcommon : common ≠ [] := by
            rintro rfl
            cases head_common hmet sound hhead
          rw [graft_cut_sprout hmet] at refused ⊢
          dsimp only at refused ⊢
          rw [sprout_of_error refused]
          subst hlabel
          exact alike_cut hcommon hbelow single
  | nil =>
      rw [List.append_nil] at hlabel
      subst hlabel
      cases rest' with
      | nil =>
          rw [graft_here hmet] at refused ⊢
          cases existing with
          | none => cases refused
          | some existing => exact (Below.Alike.refl below).static label priority _ _
      | cons token rest' =>
          rw [graft_below hmet] at refused ⊢
          rw [hrest] at proper
          obtain ⟨slashed', proper'⟩ := Proper.drop_literal proper
          have hsingle : ∀ route ∈ below.listing, ¬ Doubled route.1 := by
            intro route hmem
            exact not_doubled_of_prependTokens single route (List.mem_append_right _ hmem)
          exact (ih fresh _ slashed' clash hbelow proper' (List.cons_ne_nil _ _) hsingle
            refused).static label priority _ existing

theorem outlastsRefusal_edges {handler : α} {es : List (Edge α)}
    (ih : ∀ edge ∈ es, edge.2.OutlastsRefusal handler) :
    (Below.edges es).OutlastsRefusal handler := by
  intro fresh rest slashed clash sound proper hrest single refused
  rcases graft_edges handler fresh es rest with
    ⟨hsprout, -⟩ | ⟨before, b, node, after, hhead, rfl, hfollow⟩
  · rw [hsprout] at refused ⊢
    rw [sprout_of_error refused]
    exact Below.Alike.refl _
  · rw [hfollow] at refused ⊢
    obtain ⟨hkeys, hsound⟩ := Below.sound_edges_iff.mp sound
    have hmem : (b, node) ∈ before ++ (b, node) :: after :=
      List.mem_append_right _ (List.mem_cons_self ..)
    have hsingle : ∀ route ∈ node.listing, ¬ Doubled route.1 := by
      intro route hroute
      exact single route (mem_listingEdges.mpr ⟨_, hmem, hroute⟩)
    have hnode := ih _ hmem b fresh _ slashed clash (hsound _ hmem) proper hhead hsingle refused
    have hkeys' : ((before ++ (b, (node.graft handler fresh rest).tree) ::
        after).map (·.1)).Nodup := by
      simpa only [List.map_append, List.map_cons] using hkeys
    exact (alike_edge before after b hnode).trans (alike_of_perm hkeys' (raise_perm b _).symm)

theorem outlastsRefusal_param {handler : α} {next : Option (Node α)}
    (ih : ∀ node, next = some node → node.OutlastsRefusal handler) (name : List UInt8)
    (hits : CounterId) (priority : Nat) (existing : Option α) :
    (Below.param name hits priority existing next).OutlastsRefusal handler := by
  intro fresh rest slashed clash sound proper hrest single refused
  obtain ⟨token, rest, rfl⟩ := List.exists_cons_of_ne_nil hrest
  by_cases htoken : token = .param name
  · subst htoken
    cases rest with
    | nil =>
        rw [graft_param_here] at refused ⊢
        cases existing with
        | some existing => exact alike_param name hits priority _ _ next
        | none => cases refused
    | cons token rest =>
        obtain ⟨-, hslash, hproper⟩ := proper
        obtain rfl : token = .byte slash := hslash token rfl
        rw [graft_param_next] at refused ⊢
        cases next with
        | none => cases refused
        | some node =>
            have hsingle : ∀ route ∈ node.listing, ¬ Doubled route.1 := by
              intro route hmem
              exact not_doubled_of_prependTokens single route (List.mem_append_right _ hmem)
            exact (ih node rfl slash fresh _ false clash sound.2 hproper rfl hsingle
              refused).param name hits priority _ existing
  · obtain ⟨clash', hclash, -⟩ := graft_param_clash htoken
    rw [hclash]
    exact alike_param name hits priority _ existing next

/-- Every walk ends as before a route was refused. -/
theorem alike_graft_of_error (handler : α) :
    (∀ node : Node α, node.OutlastsRefusal handler) ∧
      ∀ below : Below α, below.OutlastsRefusal handler := by
  refine tree_induction ?static ?catchAll ?edges ?param
  case static =>
    intro label priority existing below ih
    exact outlastsRefusal_static ih label priority existing
  case catchAll =>
    intro name hits priority existing index fresh rest slashed clash _ _ _ _ _
    exact alike_catchAll name hits priority (priority + 1) existing
  case edges =>
    intro es ih
    exact outlastsRefusal_edges ih
  case param =>
    intro name hits priority existing next ih
    exact outlastsRefusal_param ih name hits priority existing

/-- Where insertion is refused, every search ends as before. -/
theorem Node.Rooted.find_insert_of_error {tree : Node α} (rooted : tree.Rooted) (handler : α)
    (fresh : CounterId) {rest : List Token} (proper : Proper true rest) {clash : Clash}
    (single : ∀ route ∈ tree.listing, ¬ Doubled route.1)
    (refused : (tree.insert handler fresh (.byte slash :: rest)).verdict = .error clash)
    (path : List UInt8) :
    (tree.insert handler fresh (.byte slash :: rest)).tree.find path = tree.find path := by
  obtain ⟨hverdict, htree⟩ := insert_eq tree handler fresh (.byte slash :: rest)
  rw [hverdict] at refused
  have grafted : tree.Alike (tree.graft handler fresh (.byte slash :: rest)).tree :=
    (alike_graft_of_error handler).1 tree slash fresh _ false clash rooted.sound ⟨rfl, proper⟩ rfl
      single refused
  rcases htree with h | h
  · rw [h]
    exact (grafted.search none path).symm
  · have sound : (tree.graft handler fresh (.byte slash :: rest)).tree.Sound slash :=
      (sound_graft handler).1 tree slash fresh _ false rooted.sound ⟨rfl, proper⟩ rfl
    rw [h]
    exact ((grafted.trans (alike_recount.1 _ slash sound)).search none path).symm

end RadixRouter

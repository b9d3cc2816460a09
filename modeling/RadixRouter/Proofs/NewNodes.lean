/-
# New nodes and the order of edges

What an insertion builds without descending: the chain of nodes of a single route, the two
halves of a label, the new place of an edge among its siblings, and the edge or parameter
that sprouts where the tree has nothing for the next token.
-/

import RadixRouter.Proofs.PatternShape
import RadixRouter.Proofs.Rivalry

namespace RadixRouter

open Pattern (Proper head_byte_ne_catchAll head_param_ne_catchAll)

variable {α : Type}

/-- A label and a route part after the text they share. -/
theorem overlap_eq {label : List UInt8} {rest : List Token} {common label' : List UInt8}
    {rest' : List Token} (met : overlap label rest = (common, label', rest')) :
    label = common ++ label' ∧ rest = common.map .byte ++ rest' ∧
      ∀ b ∈ label'.head?, rest'.head? ≠ some (.byte b) := by
  fun_induction overlap label rest generalizing common label' rest' with
  | case1 label b rest common₁ label₁ rest₁ heq ih =>
      cases met
      obtain ⟨hlabel, hrest, hparting⟩ := ih heq
      exact ⟨by rw [hlabel]; rfl, by rw [hrest]; rfl, hparting⟩
  | case2 b label c rest hne =>
      cases met
      refine ⟨rfl, rfl, ?_⟩
      intro b' hb' hhead
      cases hb'
      exact hne (Token.byte.inj (Option.some.inj hhead)).symm
  | case3 label rest hother =>
      cases met
      refine ⟨rfl, rfl, ?_⟩
      intro b hb hhead
      obtain ⟨label₁, rfl⟩ := List.head?_eq_some_iff.mp hb
      obtain ⟨rest₁, rfl⟩ := List.head?_eq_some_iff.mp hhead
      exact hother b label₁ b rest₁ rfl rfl

/-- What comes after the first bytes of proper tokens is proper. -/
theorem Proper.drop_literal {literal : List UInt8} {slashed : Bool} {rest : List Token}
    (proper : Proper slashed (literal.map .byte ++ rest)) : ∃ slashed', Proper slashed' rest := by
  induction literal generalizing slashed with
  | nil => exact ⟨slashed, proper⟩
  | cons b literal ih => exact ih proper.2

/-- The routes after an attempt to add one: one more, or as before when it was refused. -/
def enlarged (verdict : Except Clash CounterId) (route : List Token × α)
    (listing : List (List Token × α)) : List (List Token × α) :=
  match verdict with
  | .ok _ => route :: listing
  | .error _ => listing

theorem enlarged_prependTokens (verdict : Except Clash CounterId) (shared rest : List Token)
    (handler : α) (listing : List (List Token × α)) :
    prependTokens shared (enlarged verdict (rest, handler) listing) =
      enlarged verdict (shared ++ rest, handler) (prependTokens shared listing) := by
  cases verdict <;> rfl

theorem enlarged_append_right (verdict : Except Clash CounterId) (route : List Token × α)
    (first second : List (List Token × α)) :
    enlarged verdict route first ++ second = enlarged verdict route (first ++ second) := by
  cases verdict <;> rfl

theorem enlarged_append_left (verdict : Except Clash CounterId) (route : List Token × α)
    (first second : List (List Token × α)) :
    (first ++ enlarged verdict route second).Perm (enlarged verdict route (first ++ second)) := by
  cases verdict with
  | ok _ => exact List.perm_middle
  | error _ => exact List.Perm.refl _

/-- An attempt to add a route takes none away, so something still follows. -/
theorem ne_edges_nil_of_enlarged {below : Below α} {verdict : Except Clash CounterId}
    {route : List Token × α} {listing : List (List Token × α)} (nonempty : listing ≠ [])
    (same : below.listing.Perm (enlarged verdict route listing)) : below ≠ .edges [] := by
  apply Below.ne_edges_nil
  intro hnil
  rw [hnil] at same
  cases verdict with
  | ok _ => exact List.cons_ne_nil _ _ same.nil_eq.symm
  | error _ => exact nonempty same.nil_eq.symm

theorem listing_prepend (b : UInt8) {label : List UInt8} {priority : Nat} {handler : Option α}
    {below : Below α} :
    ((Node.static label priority handler below).prepend b).listing =
      prependTokens [.byte b] (Node.static label priority handler below).listing := by
  rw [Node.prepend, Node.listing, Node.listing, prependTokens_prependTokens]
  rfl

/-- New nodes are literal nodes. -/
theorem exists_ofTokens_eq (handler : α) (rest : List Token) (fresh : CounterId) :
    ∃ label existing below,
      (Node.ofTokens handler rest fresh).1 = .static label 1 existing below := by
  fun_induction Node.ofTokens handler rest fresh with
  | case1 fresh => exact ⟨_, _, _, rfl⟩
  | case2 name rest fresh => exact ⟨_, _, _, rfl⟩
  | case3 name fresh => exact ⟨_, _, _, rfl⟩
  | case4 name rest fresh _ next fresh' heq ih => exact ⟨_, _, _, rfl⟩
  | case5 b name rest fresh ih => exact ih
  | case6 b rest fresh _ node fresh' heq ih =>
      rw [heq] at ih
      obtain ⟨label, existing, below, hnode⟩ := ih
      dsimp only at hnode ⊢
      rw [hnode]
      exact ⟨_, _, _, rfl⟩

/-- The chain of nodes of a route holds that route.  A catch-all is not reached without its
slash. -/
theorem listing_ofTokens (handler : α) (rest : List Token) (fresh : CounterId) {slashed : Bool}
    (proper : Proper slashed rest) (literal : ∀ name, rest.head? ≠ some (.catchAll name)) :
    (Node.ofTokens handler rest fresh).1.listing = [(rest, handler)] := by
  fun_induction Node.ofTokens handler rest fresh generalizing slashed with
  | case1 fresh => rfl
  | case2 name rest fresh => exact absurd rfl (literal name)
  | case3 name fresh => rfl
  | case4 name rest fresh hrest next fresh' heq ih =>
      have hhead : ∀ name', rest.head? ≠ some (.catchAll name') := by
        intro name' h
        exact Token.noConfusion (proper.2.1 _ h)
      have hnext := ih proper.2.2 hhead
      rw [heq] at hnext
      simp only [Node.listing, Below.listing, listingNext, Option.toList_none, List.map_nil,
        List.nil_append, hnext]
      rfl
  | case5 b name rest fresh ih =>
      obtain ⟨-, hslash, -, rfl⟩ := proper
      rw [of_decide_eq_true hslash]
      rfl
  | case6 b rest fresh hrest node fresh' heq ih =>
      have hhead : ∀ name', rest.head? ≠ some (.catchAll name') := by
        intro name' h
        obtain ⟨rest', rfl⟩ := List.head?_eq_some_iff.mp h
        exact hrest name' rest' rfl
      have hnode := ih proper.2 hhead
      obtain ⟨label, existing, below, hshape⟩ := exists_ofTokens_eq handler rest fresh
      rw [heq] at hnode hshape
      dsimp only at hnode hshape ⊢
      rw [hshape] at hnode ⊢
      rw [listing_prepend, hnode]
      rfl

theorem doorway_sound (name : List UInt8) (hits : CounterId) (priority : Nat) (handler : α) :
    (Below.edges [(slash, .catchAll name hits priority handler)]).Sound := by
  rw [Below.sound_edges_iff]
  refine ⟨List.pairwise_singleton _ _, ?_⟩
  intro edge hedge
  rw [List.mem_singleton] at hedge
  rw [hedge, Node.Sound]

/-- The chain of nodes of a route is sound below its first byte. -/
theorem sound_ofTokens (handler : α) (rest : List Token) (fresh : CounterId) {slashed : Bool}
    (proper : Proper slashed rest) :
    ∃ label existing below,
      (Node.ofTokens handler rest fresh).1 = .static label 1 existing below ∧ below.Sound ∧
        (existing = none → below ≠ .edges []) ∧
        ∀ b, rest.head? = some (.byte b) → (Node.ofTokens handler rest fresh).1.Sound b := by
  fun_induction Node.ofTokens handler rest fresh generalizing slashed with
  | case1 fresh =>
      refine ⟨_, _, _, rfl, ⟨List.nodup_nil, True.intro⟩, nofun, nofun⟩
  | case2 name rest fresh =>
      exact ⟨_, _, _, rfl, doorway_sound name fresh 1 handler, nofun, nofun⟩
  | case3 name fresh =>
      exact ⟨_, _, _, rfl, ⟨nofun, True.intro⟩, nofun, nofun⟩
  | case4 name rest fresh hrest next fresh' heq ih =>
      obtain ⟨label, existing, below, hnode, -, -, hsound⟩ := ih proper.2.2
      refine ⟨_, _, _, rfl, ⟨nofun, ?_⟩, nofun, nofun⟩
      obtain ⟨token, rest', rfl⟩ := List.exists_cons_of_ne_nil hrest
      rw [heq] at hsound
      exact hsound slash (by rw [proper.2.1 token rfl]; rfl)
  | case5 b name rest fresh ih =>
      obtain ⟨-, hslash, -, rfl⟩ := proper
      refine ⟨_, _, _, rfl, doorway_sound name fresh 1 handler, nofun, ?_⟩
      intro b' hb'
      cases hb'
      exact ⟨doorway_sound name fresh 1 handler, nofun,
        Or.inr ⟨rfl, of_decide_eq_true hslash, rfl, name, fresh, 1, handler, rfl⟩⟩
  | case6 b rest fresh hrest node fresh' heq ih =>
      obtain ⟨label, existing, below, hshape, hbelow, hroute, -⟩ := ih proper.2
      rw [heq] at hshape
      dsimp only at hshape ⊢
      rw [hshape]
      refine ⟨_, _, _, rfl, hbelow, hroute, ?_⟩
      intro b' hb'
      cases hb'
      exact ⟨hbelow, hroute, Or.inl rfl⟩

theorem raise_perm (index : UInt8) (es : List (Edge α)) : (raise index es).Perm es := by
  have hcut : es.takeWhile (·.1 ≠ index) ++ es.dropWhile (·.1 ≠ index) = es :=
    List.takeWhile_append_dropWhile
  unfold raise
  cases hafter : es.dropWhile (·.1 ≠ index) with
  | nil => exact List.Perm.refl _
  | cons edge after =>
      rw [hafter] at hcut
      dsimp only
      generalize es.takeWhile (·.1 ≠ index) = before at hcut
      generalize (fun sibling : Edge α => decide (sibling.2.priority < edge.2.priority)) = fewer
      have hbefore :
          (before.reverse.dropWhile fewer).reverse ++ (before.reverse.takeWhile fewer).reverse =
            before := by
        rw [← List.reverse_append, List.takeWhile_append_dropWhile, List.reverse_reverse]
      calc
        _ = (before.reverse.dropWhile fewer).reverse ++
            edge :: ((before.reverse.takeWhile fewer).reverse ++ after) := by
          rw [List.append_assoc, List.cons_append]
        (List.Perm _ (edge :: ((before.reverse.dropWhile fewer).reverse ++
            ((before.reverse.takeWhile fewer).reverse ++ after)))) := List.perm_middle
        _ = edge :: (before ++ after) := by rw [← List.append_assoc, hbefore]
        (List.Perm _ (before ++ edge :: after)) := List.perm_middle.symm
        _ = es := hcut

theorem place_perm (edge : Edge α) (es : List (Edge α)) : (place edge es).Perm (edge :: es) := by
  induction es with
  | nil => exact List.Perm.refl _
  | cons other es ih =>
      rw [place]
      split
      · exact List.Perm.refl _
      · exact (ih.cons other).trans (List.Perm.swap edge other es)

theorem rank_perm (es : List (Edge α)) : (rank es).Perm es := by
  induction es with
  | nil => exact List.Perm.refl _
  | cons edge es ih => exact (place_perm edge (rank es)).trans (ih.cons edge)

variable {handler : α} {fresh : CounterId} {es : List (Edge α)} {rest : List Token}
  {slashed : Bool}

/-- What stands below a new node that starts with a parameter. -/
theorem ofTokens_param (handler : α) (name : List UInt8) (rest : List Token)
    (fresh : CounterId) :
    ∃ hits existing next, (Node.ofTokens handler (.param name :: rest) fresh).1 =
      .static [] 1 none (.param name hits 1 existing next) := by
  cases rest with
  | nil => exact ⟨_, _, _, rfl⟩
  | cons token rest => exact ⟨_, _, _, rfl⟩

/-- A sprout adds its route, unless something is in its way. -/
theorem listing_sprout (proper : Proper slashed rest) (hrest : rest ≠ []) :
    (sprout handler fresh es rest).tree.listing.Perm
      (enlarged (sprout handler fresh es rest).verdict (rest, handler) (listingEdges es)) := by
  cases rest with
  | nil => exact absurd rfl hrest
  | cons token rest =>
      cases token with
      | byte b =>
          have hnode := listing_ofTokens handler _ fresh proper (head_byte_ne_catchAll b rest)
          apply (listingEdges_perm (raise_perm b _)).trans
          rw [listingEdges_append, listingEdges, hnode]
          exact List.perm_append_comm
      | param name =>
          cases es with
          | cons edge es => exact List.Perm.refl _
          | nil =>
              have hnode := listing_ofTokens handler _ fresh proper
                (head_param_ne_catchAll name rest)
              obtain ⟨hits, existing, next, hshape⟩ := ofTokens_param handler name rest fresh
              show (Node.ofTokens handler (.param name :: rest) fresh).1.under.listing.Perm
                [(.param name :: rest, handler)]
              rw [hshape] at hnode ⊢
              rw [← hnode, Node.listing, Option.toList_none, List.map_nil, List.map_nil,
                List.nil_append, prependTokens_nil]
              exact List.Perm.refl _
      | catchAll name => exact List.Perm.refl _

/-- A sprout leaves sound edges sound. -/
theorem sound_sprout (sound : (Below.edges es).Sound) (proper : Proper slashed rest)
    (free : ∀ b, rest.head? = some (.byte b) → b ∉ es.map (·.1)) :
    (sprout handler fresh es rest).tree.Sound := by
  cases rest with
  | nil => exact sound
  | cons token rest =>
      cases token with
      | byte b =>
          obtain ⟨_, _, _, -, -, -, hnode⟩ :=
            sound_ofTokens handler (.byte b :: rest) fresh proper
          have hall : (Below.edges
              (es ++ [(b, (Node.ofTokens handler (.byte b :: rest) fresh).1)])).Sound := by
            rw [Below.sound_edges_iff] at sound ⊢
            apply And.intro
            · rw [List.map_append, List.nodup_append]
              refine ⟨sound.1, List.pairwise_singleton _ _, ?_⟩
              intro index hindex other hother
              rintro rfl
              obtain rfl : index = b := List.mem_singleton.mp hother
              exact free index rfl hindex
            · intro edge hedge
              rcases List.mem_append.mp hedge with h | h
              · exact sound.2 edge h
              · rw [List.mem_singleton.mp h]
                exact hnode b rfl
          exact hall.perm (raise_perm b _).symm
      | param name =>
          cases es with
          | cons edge es => exact sound
          | nil =>
              obtain ⟨_, _, _, heq, hbelow, -, -⟩ :=
                sound_ofTokens handler (.param name :: rest) fresh proper
              show (Node.ofTokens handler (.param name :: rest) fresh).1.under.Sound
              rw [heq]
              exact hbelow
      | catchAll name => exact sound

/-- Edges with other bytes are not rival to a new one. -/
theorem standing_edges_eq_none {es : List (Edge α)} {b : UInt8} {rest : List Token}
    (sound : ∀ edge ∈ es, edge.2.Sound edge.1) (free : b ∉ es.map (·.1)) :
    standing (listingEdges es) (.byte b :: rest) = none := by
  rw [standing_eq_none_iff]
  rintro ⟨route, existing⟩ hroute
  obtain ⟨edge, hedge, hmem⟩ := mem_listingEdges.mp hroute
  obtain ⟨tail, rfl⟩ := (sound edge hedge).head_listing hmem
  have hne : edge.1 ≠ b := fun h => free (List.mem_map.mpr ⟨edge, hedge, h⟩)
  rw [rivalry, if_neg (by simpa using hne)]
  rfl

/-- A sprout is refused for the gravest rivalry with what is there. -/
theorem verdict_sprout (sound : (Below.edges es).Sound) (hrest : rest ≠ [])
    (hcatchAll : ∀ name, rest.head? = some (.catchAll name) → es ≠ [])
    (free : ∀ b, rest.head? = some (.byte b) → b ∉ es.map (·.1)) :
    refusal? (sprout handler fresh es rest).verdict = standing (listingEdges es) rest := by
  cases rest with
  | nil => exact absurd rfl hrest
  | cons token rest =>
      cases token with
      | byte b =>
          exact (standing_edges_eq_none (Below.sound_edges_iff.mp sound).2 (free b rfl)).symm
      | param name =>
          cases es with
          | nil => rfl
          | cons edge es =>
              symm
              apply standing_eq_of_forall (listing_ne_nil.2 _ sound (edges_cons_ne_nil edge es))
              intro route hroute
              obtain ⟨_, _, tail, htail⟩ := sound.head_listing_edges hroute
              rw [htail]
              rfl
      | catchAll name =>
          obtain ⟨edge, es, rfl⟩ := List.exists_cons_of_ne_nil (hcatchAll name rfl)
          symm
          apply standing_eq_of_forall (listing_ne_nil.2 _ sound (edges_cons_ne_nil edge es))
          intro route hroute
          obtain ⟨_, _, tail, htail⟩ := sound.head_listing_edges hroute
          rw [htail]
          rfl

end RadixRouter

/-
# What a route tree holds, and the shape it keeps

`Node.listing` reads a tree as a list: every route at or below a node with the tokens it adds
from there on.  Searching and inserting are specified against this list, so that cuts inside
labels, the order of edges and the counts of routes drop out of every statement.

`Node.Sound` is the shape that insertion keeps.  A node reached by a byte starts its label
with that byte; the one exception is the node with an empty label in front of a catch-all,
which is reached by a slash and leaves that slash to the value.  Edges have different bytes,
and nothing ends without a route.
-/

import RadixRouter.Tree.Basic

namespace RadixRouter

variable {α : Type}

/-- What passes from the parts of a tree to the node above them. -/
structure Passes (P : Node α → Prop) (Q : Below α → Prop) : Prop where
  static : ∀ label priority handler below, Q below → P (.static label priority handler below)
  catchAll : ∀ name hits priority handler, P (.catchAll name hits priority handler)
  edges : ∀ es, (∀ edge ∈ es, P edge.2) → Q (.edges es)
  param : ∀ name hits priority handler next, (∀ node ∈ next, P node) →
    Q (.param name hits priority handler next)

mutual

private theorem Passes.node {P : Node α → Prop} {Q : Below α → Prop} (passes : Passes P Q) :
    ∀ node : Node α, P node
  | .static label priority handler below =>
      passes.static label priority handler below (passes.below below)
  | .catchAll name hits priority handler => passes.catchAll name hits priority handler

private theorem Passes.below {P : Node α → Prop} {Q : Below α → Prop} (passes : Passes P Q) :
    ∀ below : Below α, Q below
  | .edges es => passes.edges es (passes.along es)
  | .param name hits priority handler next =>
      passes.param name hits priority handler next (passes.behind next)

private theorem Passes.along {P : Node α → Prop} {Q : Below α → Prop} (passes : Passes P Q) :
    ∀ (es : List (UInt8 × Node α)), ∀ edge ∈ es, P edge.2
  | [], _, h => nomatch h
  | (_, node) :: es, edge, h => by
      rcases List.mem_cons.mp h with rfl | h
      · exact passes.node node
      · exact passes.along es edge h

private theorem Passes.behind {P : Node α → Prop} {Q : Below α → Prop} (passes : Passes P Q) :
    ∀ (next : Option (Node α)), ∀ node ∈ next, P node
  | none, _, h => nomatch h
  | some node, _, h => by
      cases h
      exact passes.node node

end

/-- What passes from all edges, or from what follows a parameter, up to the node above holds
of every node and of all that follows a label. -/
theorem tree_induction {P : Node α → Prop} {Q : Below α → Prop}
    (static : ∀ label priority handler below, Q below → P (.static label priority handler below))
    (catchAll : ∀ name hits priority handler, P (.catchAll name hits priority handler))
    (edges : ∀ es, (∀ edge ∈ es, P edge.2) → Q (.edges es))
    (param : ∀ name hits priority handler next, (∀ node ∈ next, P node) →
      Q (.param name hits priority handler next)) :
    (∀ node : Node α, P node) ∧ ∀ below : Below α, Q below := by
  have passes : Passes P Q := ⟨static, catchAll, edges, param⟩
  exact ⟨passes.node, passes.below⟩

/-- Puts tokens in front of every route of a listing. -/
def prependTokens (tokens : List Token) (listing : List (List Token × α)) :
    List (List Token × α) :=
  listing.map fun (route, handler) => (tokens ++ route, handler)

mutual

/-- The routes at or below a node, each with the tokens it reads from here on. -/
def Node.listing : Node α → List (List Token × α)
  | .static label _ handler below =>
    prependTokens (label.map .byte) (handler.toList.map (([], ·)) ++ below.listing)
  | .catchAll name _ _ handler => [([.byte slash, .catchAll name], handler)]

/-- The routes that go on below a label. -/
def Below.listing : Below α → List (List Token × α)
  | .edges es => listingEdges es
  | .param name _ _ handler next =>
    prependTokens [.param name] (handler.toList.map (([], ·)) ++ listingNext next)

def listingEdges : List (UInt8 × Node α) → List (List Token × α)
  | [] => []
  | (_, node) :: es => node.listing ++ listingEdges es

def listingNext : Option (Node α) → List (List Token × α)
  | none => []
  | some node => node.listing

end

theorem listingEdges_eq_flatMap (es : List (Edge α)) :
    listingEdges es = es.flatMap fun edge => edge.2.listing := by
  induction es with
  | nil => rfl
  | cons edge es ih =>
      rw [List.flatMap_cons, ← ih]
      rfl

theorem listingEdges_append (es es' : List (Edge α)) :
    listingEdges (es ++ es') = listingEdges es ++ listingEdges es' := by
  simp [listingEdges_eq_flatMap]

/-- The order of edges does not matter to the routes below them. -/
theorem listingEdges_perm {es es' : List (Edge α)} (same : es.Perm es') :
    (listingEdges es).Perm (listingEdges es') := by
  rw [listingEdges_eq_flatMap, listingEdges_eq_flatMap]
  exact same.flatMap_right _

theorem mem_listingEdges {es : List (Edge α)} {route : List Token × α} :
    route ∈ listingEdges es ↔ ∃ edge ∈ es, route ∈ edge.2.listing := by
  rw [listingEdges_eq_flatMap, List.mem_flatMap]

theorem listing_subset_edges {es : List (Edge α)} {edge : Edge α} (inside : edge ∈ es) :
    edge.2.listing ⊆ (Below.edges es).listing :=
  fun _ hroute => mem_listingEdges.mpr ⟨edge, inside, hroute⟩

theorem mem_listingNext {next : Option (Node α)} {route : List Token × α} :
    route ∈ listingNext next ↔ ∃ node ∈ next, route ∈ node.listing := by
  cases next <;> simp [listingNext]

theorem prependTokens_nil (listing : List (List Token × α)) :
    prependTokens [] listing = listing := List.map_id listing

theorem prependTokens_append (tokens : List Token) (first second : List (List Token × α)) :
    prependTokens tokens (first ++ second) =
      prependTokens tokens first ++ prependTokens tokens second := List.map_append

theorem prependTokens_prependTokens (first second : List Token)
    (listing : List (List Token × α)) :
    prependTokens first (prependTokens second listing) =
      prependTokens (first ++ second) listing := by
  simp [prependTokens, List.append_assoc, Function.comp_def]

theorem prependTokens_perm (tokens : List Token) {first second : List (List Token × α)}
    (same : first.Perm second) :
    (prependTokens tokens first).Perm (prependTokens tokens second) := same.map _

theorem mem_prependTokens {tokens : List Token} {listing : List (List Token × α)}
    {route : List Token} {handler : α} :
    (route, handler) ∈ prependTokens tokens listing ↔
      ∃ rest, route = tokens ++ rest ∧ (rest, handler) ∈ listing := by
  apply Iff.intro
  · intro h
    obtain ⟨⟨rest, handler'⟩, hmem, heq⟩ := List.mem_map.mp h
    obtain ⟨rfl, rfl⟩ := Prod.mk.inj heq
    exact ⟨rest, rfl, hmem⟩
  · rintro ⟨rest, rfl, hmem⟩
    exact List.mem_map.mpr ⟨(rest, handler), hmem, rfl⟩

theorem listing_static_some (label : List UInt8) (priority : Nat) (handler : α)
    (below : Below α) :
    (Node.static label priority (some handler) below).listing =
      (label.map .byte, handler) :: prependTokens (label.map .byte) below.listing := by
  rw [Node.listing, prependTokens_append]
  simp [prependTokens]

theorem listing_static_none (label : List UInt8) (priority : Nat) (below : Below α) :
    (Node.static label priority none below).listing =
      prependTokens (label.map .byte) below.listing := by
  rw [Node.listing]
  rfl

theorem listing_param_some (name : List UInt8) (hits : CounterId) (priority : Nat)
    (handler : α) (next : Option (Node α)) :
    (Below.param name hits priority (some handler) next).listing =
      ([.param name], handler) :: prependTokens [.param name] (listingNext next) := by
  rw [Below.listing, prependTokens_append]
  simp [prependTokens]

theorem listing_param_none (name : List UInt8) (hits : CounterId) (priority : Nat)
    (next : Option (Node α)) :
    (Below.param name hits priority none next).listing =
      prependTokens [.param name] (listingNext next) := by
  rw [Below.listing]
  rfl

mutual

/-- The shape of a node that the byte `index` leads to. -/
def Node.Sound : (index : UInt8) → Node α → Prop
  | index, .static label _ handler below =>
    below.Sound ∧ (handler = none → below ≠ .edges []) ∧
      (label.head? = some index ∨
        label = [] ∧ index = slash ∧ handler = none ∧
          ∃ name hits priority existing,
            below = .edges [(slash, .catchAll name hits priority existing)])
  | index, .catchAll .. => index = slash

/-- The shape of what follows a label. -/
def Below.Sound : Below α → Prop
  | .edges es => (es.map (·.1)).Nodup ∧ soundEdges es
  | .param _ _ _ handler next => (handler = none → next ≠ none) ∧ soundNext next

def soundEdges : List (UInt8 × Node α) → Prop
  | [] => True
  | (index, node) :: es => node.Sound index ∧ soundEdges es

def soundNext : Option (Node α) → Prop
  | none => True
  | some node => node.Sound slash

end

theorem soundEdges_iff {es : List (Edge α)} :
    soundEdges es ↔ ∀ edge ∈ es, edge.2.Sound edge.1 := by
  induction es with
  | nil => simp [soundEdges]
  | cons edge es ih =>
      rw [List.forall_mem_cons, ← ih]
      rfl

theorem soundNext_iff {next : Option (Node α)} :
    soundNext next ↔ ∀ node ∈ next, node.Sound slash := by
  cases next <;> simp [soundNext]

theorem Below.sound_edges_iff {es : List (Edge α)} :
    (Below.edges es).Sound ↔
      (es.map (·.1)).Nodup ∧ ∀ edge ∈ es, edge.2.Sound edge.1 := by
  rw [Below.Sound, soundEdges_iff]

/-- Among edges of different bytes, the byte of an edge leads nowhere else. -/
theorem free_of_nodup {before after : List (Edge α)} {edge : Edge α}
    (distinct : ((before ++ edge :: after).map (·.1)).Nodup) :
    edge.1 ∉ before.map (·.1) ∧ edge.1 ∉ after.map (·.1) := by
  rw [List.map_append, List.map_cons, List.perm_middle.nodup_iff, List.nodup_cons,
    List.mem_append, not_or] at distinct
  exact distinct.1

/-- The edges of a sound node may stand in any order. -/
theorem Below.Sound.perm {es es' : List (Edge α)} (sound : (Below.edges es).Sound)
    (same : es.Perm es') : (Below.edges es').Sound := by
  rw [Below.sound_edges_iff] at sound ⊢
  refine ⟨(same.map _).nodup_iff.mp sound.1, ?_⟩
  intro edge hedge
  exact sound.2 edge (same.mem_iff.mpr hedge)

theorem edges_cons_ne_nil (edge : Edge α) (es : List (Edge α)) :
    Below.edges (edge :: es) ≠ .edges [] := nofun

theorem param_ne_edges {name : List UInt8} {hits : CounterId} {priority : Nat}
    {handler : Option α} {next : Option (Node α)} (es : List (Edge α)) :
    Below.param name hits priority handler next ≠ .edges es := nofun

/-- Every sound node leads to a route. -/
theorem listing_ne_nil :
    (∀ (node : Node α) index, node.Sound index → node.listing ≠ []) ∧
    ∀ below : Below α, below.Sound → below ≠ .edges [] → below.listing ≠ [] := by
  refine tree_induction ?static ?catchAll ?edges ?param
  case static =>
    intro label priority handler below ih index sound
    obtain ⟨hbelow, hroute, -⟩ := sound
    cases handler with
    | some handler => simp [Node.listing, prependTokens]
    | none => simpa [Node.listing, prependTokens] using ih hbelow (hroute rfl)
  case catchAll =>
    intro name hits priority handler index _
    exact List.cons_ne_nil _ _
  case edges =>
    intro es ih sound hes
    cases es with
    | nil => exact absurd rfl hes
    | cons edge es =>
        have hnode := ih edge (List.mem_cons_self ..) edge.1 sound.2.1
        exact fun h => hnode (List.append_eq_nil_iff.mp h).1
  case param =>
    intro name hits priority handler next ih sound _
    obtain ⟨hroute, hnext⟩ := sound
    cases handler with
    | some handler => simp [Below.listing, prependTokens]
    | none =>
        cases next with
        | none => exact absurd rfl (hroute rfl)
        | some node =>
            simpa [Below.listing, listingNext, prependTokens] using ih node rfl slash hnext

/-- Where a route is listed, something follows. -/
theorem Below.ne_edges_nil {below : Below α} (routes : below.listing ≠ []) :
    below ≠ .edges [] := by
  rintro rfl
  exact routes rfl

/-- The routes of a node start with the byte that leads to it. -/
theorem Node.Sound.head_listing {index : UInt8} {node : Node α} (sound : node.Sound index)
    {route : List Token} {handler : α} (registered : (route, handler) ∈ node.listing) :
    ∃ rest, route = .byte index :: rest := by
  cases node with
  | catchAll name hits priority existing =>
      rw [Node.Sound] at sound
      rw [Node.listing, List.mem_singleton] at registered
      cases registered
      exact ⟨[.catchAll name], by rw [sound]⟩
  | static label priority existing below =>
      obtain ⟨-, -, hlabel | ⟨rfl, rfl, rfl, name, hits, priority', existing', rfl⟩⟩ := sound
      · obtain ⟨rest, rfl, -⟩ := mem_prependTokens.mp registered
        obtain ⟨label', rfl⟩ := List.head?_eq_some_iff.mp hlabel
        exact ⟨label'.map .byte ++ rest, rfl⟩
      · simp [Node.listing, Below.listing, listingEdges, prependTokens] at registered
        exact ⟨[.catchAll name], registered.1⟩

/-- The routes along edges start with the byte of one of them. -/
theorem Below.Sound.head_listing_edges {es : List (Edge α)} (sound : (Below.edges es).Sound)
    {route : List Token × α} (registered : route ∈ (Below.edges es).listing) :
    ∃ edge ∈ es, ∃ rest, route.1 = .byte edge.1 :: rest := by
  obtain ⟨edge, hedge, hmem⟩ := mem_listingEdges.mp registered
  obtain ⟨rest, hrest⟩ := ((Below.sound_edges_iff.mp sound).2 edge hedge).head_listing hmem
  exact ⟨edge, hedge, rest, hrest⟩

/-- The routes below a parameter start with it. -/
theorem head_listing_param {name : List UInt8} {hits : CounterId} {priority : Nat}
    {handler : Option α} {next : Option (Node α)} {route : List Token × α}
    (registered : route ∈ (Below.param name hits priority handler next).listing) :
    ∃ rest, route.1 = .param name :: rest := by
  obtain ⟨rest, hrest, -⟩ := mem_prependTokens.mp registered
  exact ⟨rest, hrest⟩

end RadixRouter

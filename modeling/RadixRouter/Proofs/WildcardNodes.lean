/-
# Wildcard nodes

Routes that agree up to a wildcard share its node, and every such node has a hit counter.
`Node.wildcards` lists the nodes of a tree with their counters, each by the tokens that lead to it
and the wildcard itself.  A walk that finds a route hands back the counter of the node of its last
wildcard: the one that stands under `upToWildcard` of the route.
-/

import Mathlib.Data.List.DropRight
import RadixRouter.Proofs.TreeSearch

namespace RadixRouter

open Pattern (fromSlash_eq slash_not_mem_untilSlash untilSlash_append_fromSlash)

variable {α : Type}

/-- Whether a token is literal. -/
def Token.isByte : Token → Bool
  | .byte _ => true
  | _ => false

/-- A route up to its last wildcard; nothing of a route without one. -/
def upToWildcard (route : List Token) : List Token := route.rdropWhile Token.isByte

theorem upToWildcard_eq_nil_iff {route : List Token} :
    upToWildcard route = [] ↔ ∀ token ∈ route, token.isByte = true := List.rdropWhile_eq_nil_iff

theorem upToWildcard_cons (token : Token) (route : List Token) :
    upToWildcard (token :: route) =
      if upToWildcard route = [] ∧ token.isByte = true then [] else token :: upToWildcard route := by
  unfold upToWildcard List.rdropWhile
  rw [List.reverse_cons, List.dropWhile_append]
  cases hrest : route.reverse.dropWhile Token.isByte with
  | nil => cases hbyte : token.isByte <;> simp [List.dropWhile, hbyte]
  | cons last rest => simp

/-- A wildcard at the front is kept. -/
theorem upToWildcard_cons_wild {token : Token} (wild : token.isByte = false)
    (route : List Token) : upToWildcard (token :: route) = token :: upToWildcard route := by
  rw [upToWildcard_cons, if_neg]
  rw [wild]
  exact fun h => Bool.false_ne_true h.2

/-- Literal text in front of a wildcard is kept. -/
theorem upToWildcard_literal_append {route : List Token} (wild : upToWildcard route ≠ [])
    (literal : List UInt8) :
    upToWildcard (literal.map .byte ++ route) = literal.map .byte ++ upToWildcard route := by
  induction literal with
  | nil => rfl
  | cons b literal ih =>
      rw [List.map_cons, List.cons_append, upToWildcard_cons, ih, if_neg, List.cons_append]
      exact fun h => wild (List.append_eq_nil_iff.mp h.1).2

/-- Literal text alone has no wildcard. -/
theorem upToWildcard_literal (literal : List UInt8) : upToWildcard (literal.map .byte) = [] := by
  rw [upToWildcard_eq_nil_iff]
  intro token htoken
  obtain ⟨b, -, rfl⟩ := List.mem_map.mp htoken
  rfl

theorem upToWildcard_literal_append_nil {route : List Token} (plain : upToWildcard route = [])
    (literal : List UInt8) : upToWildcard (literal.map .byte ++ route) = [] := by
  rw [upToWildcard_eq_nil_iff] at plain ⊢
  intro token htoken
  rcases List.mem_append.mp htoken with h | h
  · exact upToWildcard_eq_nil_iff.mp (upToWildcard_literal literal) token h
  · exact plain token h

mutual

/-- The wildcard nodes at or below a node, each with the tokens that lead to it from here on, and
their counters. -/
def Node.wildcards : Node α → List (List Token × CounterId)
  | .static label _ _ below => prependTokens (label.map .byte) below.wildcards
  | .catchAll name hits _ _ => [([.byte slash, .catchAll name], hits)]

/-- The wildcard nodes below a label. -/
def Below.wildcards : Below α → List (List Token × CounterId)
  | .edges es => wildcardsEdges es
  | .param name hits _ _ next =>
    ([.param name], hits) :: prependTokens [.param name] (wildcardsNext next)

def wildcardsEdges : List (UInt8 × Node α) → List (List Token × CounterId)
  | [] => []
  | (_, node) :: es => node.wildcards ++ wildcardsEdges es

def wildcardsNext : Option (Node α) → List (List Token × CounterId)
  | none => []
  | some node => node.wildcards

end

theorem wildcardsEdges_eq_flatMap (es : List (Edge α)) :
    wildcardsEdges es = es.flatMap fun edge => edge.2.wildcards := by
  induction es with
  | nil => rfl
  | cons edge es ih =>
      rw [List.flatMap_cons, ← ih]
      rfl

theorem wildcardsEdges_append (es es' : List (Edge α)) :
    wildcardsEdges (es ++ es') = wildcardsEdges es ++ wildcardsEdges es' := by
  simp [wildcardsEdges_eq_flatMap]

/-- The order of edges does not matter to the nodes below them. -/
theorem wildcardsEdges_perm {es es' : List (Edge α)} (same : es.Perm es') :
    (wildcardsEdges es).Perm (wildcardsEdges es') := by
  rw [wildcardsEdges_eq_flatMap, wildcardsEdges_eq_flatMap]
  exact same.flatMap_right _

theorem mem_wildcardsEdges {es : List (Edge α)} {wildcard : List Token × CounterId} :
    wildcard ∈ wildcardsEdges es ↔ ∃ edge ∈ es, wildcard ∈ edge.2.wildcards := by
  rw [wildcardsEdges_eq_flatMap, List.mem_flatMap]

/-- Something leads to every wildcard. -/
theorem way_ne_nil :
    (∀ node : Node α, ∀ wildcard ∈ node.wildcards, wildcard.1 ≠ []) ∧
      ∀ below : Below α, ∀ wildcard ∈ below.wildcards, wildcard.1 ≠ [] := by
  refine tree_induction ?static ?catchAll ?edges ?param
  case static =>
    intro label priority handler below ih wildcard hwildcard
    obtain ⟨way, hway, hmem⟩ := mem_prependTokens.mp hwildcard
    rw [hway]
    exact List.append_ne_nil_of_right_ne_nil _ (ih _ hmem)
  case catchAll =>
    intro name hits priority handler wildcard hwildcard
    rw [List.mem_singleton.mp hwildcard]
    exact List.cons_ne_nil _ _
  case edges =>
    intro es ih wildcard hwildcard
    obtain ⟨edge, hedge, hmem⟩ := mem_wildcardsEdges.mp hwildcard
    exact ih edge hedge wildcard hmem
  case param =>
    intro name hits priority handler next ih wildcard hwildcard
    rcases List.mem_cons.mp hwildcard with rfl | h
    · exact List.cons_ne_nil _ _
    · obtain ⟨way, hway, -⟩ := mem_prependTokens.mp h
      rw [hway]
      exact List.cons_ne_nil _ _

/-- The wildcards of a parameter: itself, and those after it. -/
theorem mem_wildcards_param {name : List UInt8} {hits : CounterId} {priority : Nat}
    {handler : Option α} {next : Option (Node α)} {way : List Token} {counter : CounterId} :
    (way, counter) ∈ (Below.param name hits priority handler next).wildcards ↔
      ∃ rest, way = .param name :: rest ∧
        (rest = [] ∧ counter = hits ∨ rest ≠ [] ∧ (rest, counter) ∈ wildcardsNext next) := by
  have hway (rest : List Token) (inside : (rest, counter) ∈ wildcardsNext next) : rest ≠ [] := by
    cases next with
    | none => cases inside
    | some node => exact way_ne_nil.1 node _ inside
  rw [Below.wildcards, List.mem_cons, mem_prependTokens, Prod.mk.injEq]
  constructor
  · rintro (⟨rfl, rfl⟩ | ⟨rest, rfl, inside⟩)
    · exact ⟨[], rfl, Or.inl ⟨rfl, rfl⟩⟩
    · exact ⟨rest, rfl, Or.inr ⟨hway rest inside, inside⟩⟩
  · rintro ⟨rest, rfl, ⟨rfl, rfl⟩ | ⟨-, inside⟩⟩
    · exact Or.inl ⟨rfl, rfl⟩
    · exact Or.inr ⟨rest, rfl, inside⟩

/-- The way to a wildcard starts with the byte that leads to its node. -/
theorem Node.Sound.head_wildcards {index : UInt8} {node : Node α} (sound : node.Sound index)
    {way : List Token} {counter : CounterId} (inside : (way, counter) ∈ node.wildcards) :
    ∃ rest, way = .byte index :: rest := by
  cases node with
  | catchAll name hits priority existing =>
      rw [Node.Sound] at sound
      cases List.mem_singleton.mp inside
      exact ⟨[.catchAll name], by rw [sound]⟩
  | static label priority existing below =>
      obtain ⟨-, -, hlabel | ⟨rfl, rfl, rfl, name, hits, priority', existing', rfl⟩⟩ := sound
      · obtain ⟨rest, rfl, -⟩ := mem_prependTokens.mp inside
        obtain ⟨label', rfl⟩ := List.head?_eq_some_iff.mp hlabel
        exact ⟨label'.map .byte ++ rest, rfl⟩
      · simp [Node.wildcards, Below.wildcards, wildcardsEdges, prependTokens] at inside
        exact ⟨[.catchAll name], inside.1⟩

/-- One way leads to one node. -/
theorem counter_unique :
    (∀ (node : Node α) (index : UInt8), node.Sound index → ∀ way counter counter',
      (way, counter) ∈ node.wildcards → (way, counter') ∈ node.wildcards → counter = counter') ∧
    ∀ below : Below α, below.Sound → ∀ way counter counter',
      (way, counter) ∈ below.wildcards → (way, counter') ∈ below.wildcards →
        counter = counter' := by
  refine tree_induction ?static ?catchAll ?edges ?param
  case static =>
    intro label priority handler below ih index sound way counter counter' h h'
    obtain ⟨rest, rfl, hrest⟩ := mem_prependTokens.mp h
    obtain ⟨rest', hsame, hrest'⟩ := mem_prependTokens.mp h'
    obtain rfl := List.append_cancel_left hsame
    exact ih sound.1 rest counter counter' hrest hrest'
  case catchAll =>
    intro name hits priority handler index sound way counter counter' h h'
    cases List.mem_singleton.mp h
    cases List.mem_singleton.mp h'
    rfl
  case edges =>
    intro es ih sound way counter counter' h h'
    obtain ⟨hkeys, hsound⟩ := Below.sound_edges_iff.mp sound
    obtain ⟨edge, hedge, hmem⟩ := mem_wildcardsEdges.mp h
    obtain ⟨edge', hedge', hmem'⟩ := mem_wildcardsEdges.mp h'
    -- the first byte of the way decides the edge
    obtain ⟨rest, rfl⟩ := (hsound edge hedge).head_wildcards hmem
    obtain ⟨rest', hrest'⟩ := (hsound edge' hedge').head_wildcards hmem'
    have hindex : edge.1 = edge'.1 := Token.byte.inj (List.cons.inj hrest').1
    have hsame : edge = edge' := List.inj_on_of_nodup_map hkeys hedge hedge' hindex
    subst hsame
    exact ih edge hedge edge.1 (hsound edge hedge) _ counter counter' hmem hmem'
  case param =>
    intro name hits priority handler next ih sound way counter counter' h h'
    obtain ⟨rest, rfl, hrest⟩ := mem_wildcards_param.mp h
    obtain ⟨rest', hsame, hrest'⟩ := mem_wildcards_param.mp h'
    obtain rfl := (List.cons.inj hsame).2
    rcases hrest with ⟨rfl, rfl⟩ | ⟨hwild, hmem⟩ <;>
      rcases hrest' with ⟨hnil, rfl⟩ | ⟨hwild', hmem'⟩
    · rfl
    · exact absurd rfl hwild'
    · exact absurd hnil hwild
    · cases next with
      | none => cases hmem
      | some node => exact ih node rfl slash sound.2 rest counter counter' hmem hmem'

/-- The counter that is due for a route: that of the node of its last wildcard, if it has one. -/
def Due (wildcards : List (List Token × CounterId)) (route : List Token) :
    Option CounterId → Prop
  | none => upToWildcard route = []
  | some counter => (upToWildcard route, counter) ∈ wildcards

/-- What is due for a route is due for it behind literal text. -/
theorem Due.static {label : List UInt8} {priority : Nat} {handler : Option α} {below : Below α}
    {route : List Token} {deepest : Option CounterId} (due : Due below.wildcards route deepest) :
    Due (Node.static label priority handler below).wildcards (label.map .byte ++ route)
      deepest := by
  cases deepest with
  | none => exact upToWildcard_literal_append_nil due label
  | some counter =>
      rw [Due, upToWildcard_literal_append (way_ne_nil.2 below _ due)]
      exact mem_prependTokens.mpr ⟨_, rfl, due⟩

theorem Due.of_edge {es : List (Edge α)} {edge : Edge α} {route : List Token}
    {deepest : Option CounterId} (due : Due edge.2.wildcards route deepest) (inside : edge ∈ es) :
    Due (Below.edges es).wildcards route deepest := by
  cases deepest with
  | none => exact due
  | some counter => exact mem_wildcardsEdges.mpr ⟨edge, inside, due⟩

/-- Behind a parameter, its own counter is due where no other is. -/
theorem Due.param {name : List UInt8} {hits : CounterId} {priority : Nat} {handler : Option α}
    {next : Option (Node α)} {route : List Token} {deepest : Option CounterId}
    (due : Due (wildcardsNext next) route deepest) :
    Due (Below.param name hits priority handler next).wildcards (.param name :: route)
      (deepest.or (some hits)) := by
  have hwild : upToWildcard (.param name :: route) = .param name :: upToWildcard route :=
    upToWildcard_cons_wild rfl route
  cases deepest with
  | none =>
      rw [Option.none_or, Due, hwild, show upToWildcard route = [] from due]
      exact List.mem_cons_self
  | some counter =>
      rw [Option.some_or, Due, hwild]
      exact List.mem_cons_of_mem _ (mem_prependTokens.mpr ⟨_, rfl, due⟩)

/-- The counter of a parameter is due for the route that ends there. -/
theorem due_param (name : List UInt8) (hits : CounterId) (priority : Nat) (handler : Option α)
    (next : Option (Node α)) :
    Due (Below.param name hits priority handler next).wildcards [.param name] (some hits) :=
  List.mem_cons_self

/-- Every route of a tree has the nodes of its wildcards there. -/
theorem exists_due :
    (∀ node : Node α, ∀ route ∈ node.listing, ∃ deepest, Due node.wildcards route.1 deepest) ∧
      ∀ below : Below α, ∀ route ∈ below.listing, ∃ deepest,
        Due below.wildcards route.1 deepest := by
  refine tree_induction ?static ?catchAll ?edges ?param
  case static =>
    intro label priority handler below ih route hroute
    obtain ⟨rest, hrest, hmem⟩ := mem_prependTokens.mp hroute
    rw [hrest]
    rcases List.mem_append.mp hmem with h | h
    · obtain ⟨existing, -, heq⟩ := List.mem_map.mp h
      cases heq
      exact ⟨none, upToWildcard_literal_append_nil rfl label⟩
    · obtain ⟨deepest, due⟩ := ih _ h
      exact ⟨deepest, due.static⟩
  case catchAll =>
    intro name hits priority handler route hroute
    rw [List.mem_singleton.mp hroute]
    exact ⟨some hits, List.mem_singleton.mpr rfl⟩
  case edges =>
    intro es ih route hroute
    obtain ⟨edge, hedge, hmem⟩ := mem_listingEdges.mp hroute
    obtain ⟨deepest, due⟩ := ih edge hedge route hmem
    exact ⟨deepest, due.of_edge hedge⟩
  case param =>
    intro name hits priority handler next ih route hroute
    obtain ⟨rest, hrest, hmem⟩ := mem_prependTokens.mp hroute
    rw [hrest]
    rcases List.mem_append.mp hmem with h | h
    · obtain ⟨existing, -, heq⟩ := List.mem_map.mp h
      cases heq
      exact ⟨some hits, due_param name hits priority handler next⟩
    · obtain ⟨node, hnode, hlisted⟩ := mem_listingNext.mp h
      cases hnode
      obtain ⟨deepest, due⟩ := ih node rfl _ hlisted
      have due' : Due (wildcardsNext (some node)) rest deepest := due
      exact ⟨_, due'.param⟩

/-- A walk that reaches a node hands back the counter that is due for the route it finds. -/
def Node.FindsDue (node : Node α) : Prop :=
  ∀ (index : UInt8) (parent : Option Bool) (path : List UInt8) (handler : α)
      (captures : List (List UInt8 × List UInt8)) (deepest : Option CounterId),
    node.Sound index →
      (path.head? = some index ∨ ∀ name hits priority existing,
        node ≠ .catchAll name hits priority existing) →
      node.search parent path = .found handler captures deepest →
        ∃ route, (route, handler) ∈ node.listing ∧ Fits route path captures ∧
          Due node.wildcards route deepest

/-- A walk that goes on below a label hands back the counter that is due for the route it finds. -/
def Below.FindsDue (below : Below α) : Prop :=
  ∀ (ends : Bool) (path : List UInt8) (handler : α)
      (captures : List (List UInt8 × List UInt8)) (deepest : Option CounterId),
    below.Sound → below.search ends path = .found handler captures deepest →
      ∃ route, (route, handler) ∈ below.listing ∧ Fits route path captures ∧
        Due below.wildcards route deepest

theorem findsDue_static {below : Below α} (ih : below.FindsDue) (label : List UInt8)
    (priority : Nat) (existing : Option α) :
    (Node.static label priority existing below).FindsDue := by
  intro index parent path handler captures deepest sound _ found
  rw [Node.search.eq_def] at found
  dsimp only at found
  cases hafter : afterLabel label path with
  | none =>
      rw [hafter] at found
      cases found
  | some rest =>
      obtain rfl := afterLabel_eq_some_iff.mp hafter
      rw [hafter] at found
      cases rest with
      | nil =>
          cases existing with
          | some existing =>
              cases found
              refine ⟨label.map .byte, ?_, ?_, upToWildcard_literal label⟩
              · rw [listing_static_some]
                exact List.mem_cons_self
              · have fits := Fits.done.literal_append label
                rwa [List.append_nil] at fits
          | none => cases parent <;> cases found
      | cons b rest =>
          obtain ⟨route, hroute, fits, due⟩ :=
            ih existing.isSome (b :: rest) handler captures deepest sound.1 found
          exact ⟨label.map .byte ++ route,
            mem_prependTokens.mpr ⟨route, rfl, List.mem_append_right _ hroute⟩,
            fits.literal_append label, due.static⟩

theorem findsDue_catchAll (name : List UInt8) (hits : CounterId) (priority : Nat)
    (existing : α) : (Node.catchAll name hits priority existing).FindsDue := by
  intro index parent path handler captures deepest sound reached found
  rw [Node.Sound] at sound
  have hhead : path.head? = some slash := by
    rcases reached with h | h
    · rw [h, sound]
    · exact absurd rfl (h name hits priority existing)
  cases found
  exact ⟨_, List.mem_singleton.mpr rfl, fits_catchAll.mpr ⟨rfl, hhead, rfl⟩,
    List.mem_singleton.mpr rfl⟩

theorem findsDue_edges {es : List (Edge α)} (ih : ∀ edge ∈ es, edge.2.FindsDue) :
    (Below.edges es).FindsDue := by
  intro ends path handler captures deepest sound found
  obtain ⟨hkeys, hsound⟩ := Below.sound_edges_iff.mp sound
  rw [Below.search] at found
  by_cases hedge : ∃ edge ∈ es, path.head? = some edge.1
  · obtain ⟨edge, hmem, hhead⟩ := hedge
    rw [searchEdges_of_mem hkeys hmem hhead] at found
    obtain ⟨route, hroute, fits, due⟩ := ih edge hmem edge.1 (some ends) path handler captures
      deepest (hsound edge hmem) (Or.inl hhead) found
    exact ⟨route, mem_listingEdges.mpr ⟨edge, hmem, hroute⟩, fits, due.of_edge hmem⟩
  · have hnowhere : ∀ edge ∈ es, path.head? ≠ some edge.1 := by
      intro edge hmem h
      exact hedge ⟨edge, hmem, h⟩
    rw [searchEdges_eq_none hnowhere] at found
    cases found

theorem findsDue_param {next : Option (Node α)}
    (ih : ∀ node, next = some node → node.FindsDue) (name : List UInt8) (hits : CounterId)
    (priority : Nat) (existing : Option α) :
    (Below.param name hits priority existing next).FindsDue := by
  intro ends path handler captures deepest sound found
  have hvalue := slash_not_mem_untilSlash path
  have hpath := untilSlash_append_fromSlash path
  rw [Below.search.eq_def] at found
  dsimp only at found
  by_cases hempty : untilSlash path = []
  · rw [if_pos hempty] at found
    cases found
  · rw [if_neg hempty] at found
    rcases fromSlash_eq path with hfrom | ⟨rest, hfrom⟩
    · -- the route ends with the parameter
      rw [hfrom] at found hpath
      cases existing with
      | none => cases found
      | some existing =>
          cases found
          refine ⟨[.param name], ?_, ?_, due_param name hits priority _ next⟩
          · rw [listing_param_some]
            exact List.mem_cons_self
          · have fits : Fits [.param name] (untilSlash path ++ []) [(name, untilSlash path)] :=
              .param hempty hvalue .done
            rwa [hpath] at fits
    · rw [hfrom] at found hpath
      cases next with
      | none => cases found
      | some node =>
          dsimp only [searchNext] at found
          cases hnode : node.search (some existing.isSome) (slash :: rest) with
          | missed hint =>
              rw [hnode] at found
              cases found
          | found handler' captures' deepest' =>
              rw [hnode] at found
              cases found
              obtain ⟨route, hroute, fits, due⟩ := ih node rfl slash _ _ _ _ _ sound.2
                (Or.inl rfl) hnode
              have due' : Due (wildcardsNext (some node)) route deepest' := due
              refine ⟨.param name :: route, ?_, ?_, due'.param⟩
              · exact mem_prependTokens.mpr ⟨route, rfl, List.mem_append_right _ hroute⟩
              · have fits' : Fits (.param name :: route) (untilSlash path ++ slash :: rest)
                    ((name, untilSlash path) :: captures') := .param hempty hvalue fits
                rwa [hpath] at fits'

/-- A walk hands back the counter that is due for the route it finds. -/
theorem search_due :
    (∀ node : Node α, node.FindsDue) ∧ ∀ below : Below α, below.FindsDue := by
  refine tree_induction ?static ?catchAll ?edges ?param
  case static =>
    intro label priority existing below ih
    exact findsDue_static ih label priority existing
  case catchAll => exact findsDue_catchAll
  case edges =>
    intro es ih
    exact findsDue_edges ih
  case param =>
    intro name hits priority existing next ih
    exact findsDue_param ih name hits priority existing

end RadixRouter

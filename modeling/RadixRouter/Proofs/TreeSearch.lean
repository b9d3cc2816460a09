/-
# What a search finds

In a sound tree the walk finds a route exactly when a route of the tree fits the path, and
with the values that the fit gives its wildcards.  The walk never goes back; that it needs not
to is the content of the induction: every token of a route decides the way down.
-/

import Mathlib.Data.List.Nodup
import RadixRouter.Proofs.Fitting
import RadixRouter.Tree.Search

namespace RadixRouter

open Pattern (fromSlash_eq)

variable {α : Type}

/-- What a search gives when it finds a route, without the counter. -/
def Search.result? : Search α → Option (α × List (List UInt8 × List UInt8))
  | .found handler captures _ => some (handler, captures)
  | .missed _ => none

theorem Search.result?_under (name value : List UInt8) (hits : CounterId) (result : Search α) :
    (result.under name value hits).result? =
      result.result?.map fun found => (found.1, (name, value) :: found.2) := by
  cases result <;> rfl

/-- The walk follows the edge of the next byte, wherever it stands. -/
theorem searchEdges_of_mem {ends : Bool} {es : List (Edge α)} {path : List UInt8} {edge : Edge α}
    (distinct : (es.map (·.1)).Nodup) (inside : edge ∈ es) (next : path.head? = some edge.1) :
    searchEdges ends es path = some (edge.2.search (some ends) path) := by
  induction es with
  | nil => cases inside
  | cons first es ih =>
      obtain ⟨index, node⟩ := first
      rw [List.map_cons, List.nodup_cons] at distinct
      rw [searchEdges]
      rcases List.mem_cons.mp inside with rfl | later
      · rw [if_pos next]
      · have hindex : edge.1 ≠ index := by
          rintro rfl
          exact distinct.1 (List.mem_map.mpr ⟨edge, later, rfl⟩)
        rw [if_neg (by rwa [next, Option.some.injEq]), ih distinct.2 later]

theorem searchEdges_eq_none {ends : Bool} {es : List (Edge α)} {path : List UInt8}
    (nowhere : ∀ edge ∈ es, path.head? ≠ some edge.1) : searchEdges ends es path = none := by
  induction es with
  | nil => rfl
  | cons first es ih =>
      obtain ⟨index, node⟩ := first
      rw [List.forall_mem_cons] at nowhere
      rw [searchEdges, if_neg nowhere.1]
      exact ih nowhere.2

/-- No route goes on with a catch-all right below a label. -/
theorem Below.Sound.head_ne_catchAll {below : Below α} (sound : below.Sound)
    {route : List Token × α} (registered : route ∈ below.listing) (name : List UInt8) :
    route.1.head? ≠ some (.catchAll name) := by
  cases below with
  | edges es =>
      obtain ⟨_, _, rest, hrest⟩ := sound.head_listing_edges registered
      rw [hrest]
      exact nofun
  | param name' hits priority handler next =>
      obtain ⟨rest, hrest⟩ := head_listing_param registered
      rw [hrest]
      exact nofun

/-- Below a label every route goes on. -/
theorem Below.Sound.route_ne_nil {below : Below α} (sound : below.Sound)
    {route : List Token × α} (registered : route ∈ below.listing) : route.1 ≠ [] := by
  cases below with
  | edges es =>
      obtain ⟨_, _, rest, hrest⟩ := sound.head_listing_edges registered
      rw [hrest]
      exact List.cons_ne_nil _ _
  | param name hits priority handler next =>
      obtain ⟨rest, hrest⟩ := head_listing_param registered
      rw [hrest]
      exact List.cons_ne_nil _ _

/-- After a parameter, a route ends or goes on with a slash. -/
theorem head_listing_next {handler : Option α} {next : Option (Node α)} (sound : soundNext next)
    {route : List Token × α}
    (registered : route ∈ handler.toList.map (([], ·)) ++ listingNext next) :
    ∀ token ∈ route.1.head?, token = .byte slash := by
  obtain ⟨tokens, found⟩ := route
  rcases List.mem_append.mp registered with h | h
  · obtain ⟨_, _, heq⟩ := List.mem_map.mp h
    cases heq
    exact nofun
  · obtain ⟨node, hnode, hmem⟩ := mem_listingNext.mp h
    obtain ⟨rest, rfl⟩ := (soundNext_iff.mp sound node hnode).head_listing hmem
    intro token htoken
    exact (Option.some.inj htoken).symm

/-- A path fits a route of a literal node exactly when it starts with the label and its rest
fits what comes after. -/
theorem fits_static {label : List UInt8} {priority : Nat} {existing : Option α} {below : Below α}
    (sound : below.Sound) {path : List UInt8} {handler : α}
    {captures : List (List UInt8 × List UInt8)} :
    (∃ route, (route, handler) ∈ (Node.static label priority existing below).listing ∧
        Fits route path captures) ↔
      ∃ rest, path = label ++ rest ∧
        ((existing = some handler ∧ rest = [] ∧ captures = []) ∨
          ∃ route, (route, handler) ∈ below.listing ∧ Fits route rest captures) := by
  have hend : slash ∈ label → ∀ name, ([] : List Token).head? ≠ some (.catchAll name) :=
    fun _ => nofun
  rw [Node.listing]
  apply Iff.intro
  · rintro ⟨route, registered, fits⟩
    obtain ⟨tail, rfl, hmem⟩ := mem_prependTokens.mp registered
    rcases List.mem_append.mp hmem with h | h
    · obtain ⟨existing', hexisting, heq⟩ := List.mem_map.mp h
      cases heq
      obtain ⟨rest, rfl, hrest⟩ := (fits_literal_append hend).mp fits
      exact ⟨rest, rfl, Or.inl ⟨Option.mem_toList.mp hexisting, fits_nil.mp hrest⟩⟩
    · obtain ⟨rest, rfl, hrest⟩ := (fits_literal_append fun _ => sound.head_ne_catchAll h).mp fits
      exact ⟨rest, rfl, Or.inr ⟨tail, h, hrest⟩⟩
  · rintro ⟨rest, rfl, ⟨rfl, rfl, rfl⟩ | ⟨tail, h, hrest⟩⟩
    · refine ⟨label.map .byte ++ [], mem_prependTokens.mpr ⟨[], rfl, ?_⟩, ?_⟩
      · exact List.mem_append_left _ (List.mem_singleton.mpr rfl)
      · exact (fits_literal_append hend).mpr ⟨[], rfl, .done⟩
    · refine ⟨label.map .byte ++ tail, mem_prependTokens.mpr ⟨tail, rfl, ?_⟩, ?_⟩
      · exact List.mem_append_right _ h
      · exact (fits_literal_append fun _ => sound.head_ne_catchAll h).mpr ⟨rest, rfl, hrest⟩

/-- Where the path ends with the label, only a route that ends there fits. -/
theorem fits_static_end {label : List UInt8} {existing : Option α} {below : Below α}
    (sound : below.Sound) {handler : α} {captures : List (List UInt8 × List UInt8)} :
    (∃ rest, label ++ [] = label ++ rest ∧
        ((existing = some handler ∧ rest = [] ∧ captures = []) ∨
          ∃ route, (route, handler) ∈ below.listing ∧ Fits route rest captures)) ↔
      existing = some handler ∧ captures = [] := by
  apply Iff.intro
  · rintro ⟨rest, hrest, h⟩
    obtain rfl := List.append_cancel_left hrest
    rcases h with ⟨hexisting, -, hcaptures⟩ | ⟨route, hmem, fits⟩
    · exact ⟨hexisting, hcaptures⟩
    · obtain ⟨token, route, rfl⟩ := List.exists_cons_of_ne_nil (sound.route_ne_nil hmem)
      exact absurd rfl fits.path_ne_nil
  · rintro ⟨hexisting, hcaptures⟩
    exact ⟨[], rfl, Or.inl ⟨hexisting, rfl, hcaptures⟩⟩

section Param

variable {name : List UInt8} {hits : CounterId} {priority : Nat} {existing : Option α}
  {next : Option (Node α)} {path : List UInt8} {handler : α}
  {captures : List (List UInt8 × List UInt8)}

/-- A path fits a route below a parameter exactly when it starts with a value and its rest fits
what comes after. -/
theorem fits_below_param (sound : soundNext next) :
    (∃ route, (route, handler) ∈ (Below.param name hits priority existing next).listing ∧
        Fits route path captures) ↔
      untilSlash path ≠ [] ∧ ∃ captures', captures = (name, untilSlash path) :: captures' ∧
        ∃ route, (route, handler) ∈ existing.toList.map (([], ·)) ++ listingNext next ∧
          Fits route (fromSlash path) captures' := by
  apply Iff.intro
  · rintro ⟨route, hmem, fits⟩
    obtain ⟨rest, rfl, hrest⟩ := mem_prependTokens.mp hmem
    obtain ⟨hvalue, captures', hcaptures, fits'⟩ :=
      (fits_param (head_listing_next sound hrest)).mp fits
    exact ⟨hvalue, captures', hcaptures, rest, hrest, fits'⟩
  · rintro ⟨hvalue, captures', hcaptures, rest, hrest, fits'⟩
    refine ⟨.param name :: rest, mem_prependTokens.mpr ⟨rest, rfl, hrest⟩, ?_⟩
    exact (fits_param (head_listing_next sound hrest)).mpr ⟨hvalue, captures', hcaptures, fits'⟩

/-- Where the path ends with the value, only a route that ends with the parameter fits. -/
theorem fits_param_end (sound : soundNext next) :
    (∃ route, (route, handler) ∈ existing.toList.map (([], ·)) ++ listingNext next ∧
        Fits route [] captures) ↔
      existing = some handler ∧ captures = [] := by
  apply Iff.intro
  · rintro ⟨route, hmem, fits⟩
    rcases List.mem_append.mp hmem with h | h
    · obtain ⟨existing', hexisting, heq⟩ := List.mem_map.mp h
      cases heq
      exact ⟨Option.mem_toList.mp hexisting, (fits_nil.mp fits).2⟩
    · obtain ⟨node, hnode, hlisted⟩ := mem_listingNext.mp h
      obtain ⟨rest, rfl⟩ := (soundNext_iff.mp sound node hnode).head_listing hlisted
      exact absurd rfl fits.path_ne_nil
  · rintro ⟨rfl, rfl⟩
    exact ⟨[], List.mem_append_left _ (List.mem_singleton.mpr rfl), .done⟩

/-- Where the path goes on after the value, only a route of the next node fits. -/
theorem fits_param_next {b : UInt8} :
    (∃ route, (route, handler) ∈ existing.toList.map (([], ·)) ++ listingNext next ∧
        Fits route (b :: path) captures) ↔
      ∃ node ∈ next, ∃ route, (route, handler) ∈ node.listing ∧
        Fits route (b :: path) captures := by
  apply Iff.intro
  · rintro ⟨route, hmem, fits⟩
    rcases List.mem_append.mp hmem with h | h
    · obtain ⟨_, _, heq⟩ := List.mem_map.mp h
      cases heq
      cases fits
    · obtain ⟨node, hnode, hlisted⟩ := mem_listingNext.mp h
      exact ⟨node, hnode, route, hlisted, fits⟩
  · rintro ⟨node, hnode, route, hlisted, fits⟩
    exact ⟨route, List.mem_append_right _ (mem_listingNext.mpr ⟨node, hnode, hlisted⟩), fits⟩

end Param

/-- A walk that reaches a node finds what fits its routes.  A catch-all is only reached by its
byte. -/
def Node.FindsFits (node : Node α) : Prop :=
  ∀ (index : UInt8) (parent : Option Bool) (path : List UInt8) (handler : α)
      (captures : List (List UInt8 × List UInt8)),
    node.Sound index →
      (path.head? = some index ∨ ∀ name hits priority existing,
        node ≠ .catchAll name hits priority existing) →
      ((node.search parent path).result? = some (handler, captures) ↔
        ∃ route, (route, handler) ∈ node.listing ∧ Fits route path captures)

/-- A walk that goes on below a label finds what fits the routes there. -/
def Below.FindsFits (below : Below α) : Prop :=
  ∀ (ends : Bool) (path : List UInt8) (handler : α) (captures : List (List UInt8 × List UInt8)),
    below.Sound → path ≠ [] →
      ((below.search ends path).result? = some (handler, captures) ↔
        ∃ route, (route, handler) ∈ below.listing ∧ Fits route path captures)

theorem findsFits_static {below : Below α} (ih : below.FindsFits) (label : List UInt8)
    (priority : Nat) (existing : Option α) :
    (Node.static label priority existing below).FindsFits := by
  intro index parent path handler captures sound _
  obtain ⟨hbelow, -, -⟩ := sound
  rw [fits_static hbelow, Node.search.eq_def]
  dsimp only
  cases hafter : afterLabel label path with
  | none =>
      apply Iff.intro
      · intro h
        cases h
      · rintro ⟨rest, hpath, -⟩
        rw [afterLabel_eq_some_iff.mpr hpath] at hafter
        cases hafter
  | some rest =>
      obtain rfl := afterLabel_eq_some_iff.mp hafter
      cases rest with
      | nil =>
          rw [fits_static_end hbelow]
          cases existing with
          | some existing => simp [Search.result?, eq_comm]
          | none => cases parent <;> simp [Search.result?]
      | cons b rest =>
          have hstep := ih existing.isSome (b :: rest) handler captures hbelow
            (List.cons_ne_nil _ _)
          apply Iff.intro
          · intro h
            exact ⟨b :: rest, rfl, Or.inr (hstep.mp h)⟩
          · rintro ⟨rest', hrest, h⟩
            obtain rfl := List.append_cancel_left hrest
            rcases h with ⟨-, h, -⟩ | h
            · cases h
            · exact hstep.mpr h

theorem findsFits_catchAll (name : List UInt8) (hits : CounterId) (priority : Nat)
    (existing : α) : (Node.catchAll name hits priority existing).FindsFits := by
  intro index parent path handler captures sound reached
  rw [Node.Sound] at sound
  have hhead : path.head? = some slash := by
    rcases reached with h | h
    · rw [h, sound]
    · exact absurd rfl (h name hits priority existing)
  rw [Node.search, Node.listing]
  apply Iff.intro
  · intro h
    cases h
    exact ⟨_, List.mem_singleton.mpr rfl, fits_catchAll.mpr ⟨rfl, hhead, rfl⟩⟩
  · rintro ⟨route, hmem, fits⟩
    cases List.mem_singleton.mp hmem
    obtain ⟨-, -, rfl⟩ := fits_catchAll.mp fits
    rfl

theorem findsFits_edges {es : List (Edge α)} (ih : ∀ edge ∈ es, edge.2.FindsFits) :
    (Below.edges es).FindsFits := by
  intro ends path handler captures sound hpath
  obtain ⟨hkeys, hsound⟩ := Below.sound_edges_iff.mp sound
  rw [Below.search, Below.listing]
  by_cases hedge : ∃ edge ∈ es, path.head? = some edge.1
  · obtain ⟨edge, hmem, hhead⟩ := hedge
    have hnode := ih edge hmem edge.1 (some ends) path handler captures (hsound edge hmem)
      (Or.inl hhead)
    rw [searchEdges_of_mem hkeys hmem hhead]
    apply Iff.intro
    · intro h
      obtain ⟨route, hroute, fits⟩ := hnode.mp h
      exact ⟨route, mem_listingEdges.mpr ⟨edge, hmem, hroute⟩, fits⟩
    · rintro ⟨route, hroute, fits⟩
      obtain ⟨other, hother, hlisted⟩ := mem_listingEdges.mp hroute
      obtain ⟨tail, rfl⟩ := (hsound other hother).head_listing hlisted
      -- the byte of the path decides the edge
      have hindex : other.1 = edge.1 := Option.some.inj (fits.head_path.symm.trans hhead)
      have hsame : other = edge := List.inj_on_of_nodup_map hkeys hother hmem hindex
      subst hsame
      exact hnode.mpr ⟨_, hlisted, fits⟩
  · have hnowhere : ∀ edge ∈ es, path.head? ≠ some edge.1 := by
      intro edge hmem h
      exact hedge ⟨edge, hmem, h⟩
    rw [searchEdges_eq_none hnowhere]
    apply Iff.intro
    · intro h
      cases h
    · rintro ⟨route, hroute, fits⟩
      obtain ⟨edge, hmem, hlisted⟩ := mem_listingEdges.mp hroute
      obtain ⟨tail, rfl⟩ := (hsound edge hmem).head_listing hlisted
      exact absurd fits.head_path (hnowhere edge hmem)

theorem findsFits_param {next : Option (Node α)}
    (ih : ∀ node, next = some node → node.FindsFits) (name : List UInt8) (hits : CounterId)
    (priority : Nat) (existing : Option α) :
    (Below.param name hits priority existing next).FindsFits := by
  intro ends path handler captures sound hpath
  rw [fits_below_param sound.2, Below.search.eq_def]
  dsimp only
  by_cases hvalue : untilSlash path = []
  · simp only [hvalue, if_true]
    apply Iff.intro
    · intro h
      cases h
    · rintro ⟨h, -⟩
      exact absurd rfl h
  · simp only [hvalue, if_false, ne_eq, not_false_eq_true, true_and]
    cases hfrom : fromSlash path with
    | nil =>
        simp only [fits_param_end sound.2]
        cases existing with
        | some existing => simp [Search.result?, eq_comm, and_comm]
        | none => simp [Search.result?]
    | cons b rest =>
        obtain rfl : b = slash := by
          rcases fromSlash_eq path with h | ⟨rest', h⟩
          · rw [h] at hfrom
            cases hfrom
          · rw [h] at hfrom
            exact (List.cons.inj hfrom).1.symm
        simp only [fits_param_next]
        cases next with
        | none =>
            apply Iff.intro
            · intro h
              cases h
            · rintro ⟨_, _, _, h, _⟩
              cases h
        | some node =>
            have hnode := ih node rfl slash (some existing.isSome) (slash :: rest) handler
            rw [searchNext]
            dsimp only
            rw [Search.result?_under, Option.map_eq_some_iff]
            apply Iff.intro
            · rintro ⟨⟨found, captures'⟩, hfound, heq⟩
              cases heq
              exact ⟨captures', rfl, node, rfl, (hnode captures' sound.2 (Or.inl rfl)).mp hfound⟩
            · rintro ⟨captures', rfl, node', hnode', h⟩
              cases hnode'
              exact ⟨_, (hnode captures' sound.2 (Or.inl rfl)).mpr h, rfl⟩

/-- A walk finds what fits: at a node that was reached by its byte, and below a label where the
path goes on. -/
theorem search_result :
    (∀ node : Node α, node.FindsFits) ∧ ∀ below : Below α, below.FindsFits := by
  refine tree_induction ?static ?catchAll ?edges ?param
  case static =>
    intro label priority existing below ih
    exact findsFits_static ih label priority existing
  case catchAll => exact findsFits_catchAll
  case edges =>
    intro es ih
    exact findsFits_edges ih
  case param =>
    intro name hits priority existing next ih
    exact findsFits_param ih name hits priority existing

end RadixRouter

/-
# When a failed walk names the other slash

A walk that fails compares with what stands right there: a slash below, a handler above, a
label that is one slash longer.  `Hinted` is the law this obeys.  If the path with one slash
more fits a route, the hint is given unless the path ends before an empty node; if the path
without its last slash fits a route, the hint is given unless a parameter may follow that route.
-/

import RadixRouter.Proofs.Doorways
import RadixRouter.Proofs.LabelCut

namespace RadixRouter

open Pattern (fromSlash_eq untilSlash_append untilSlash_append_fromSlash slash_not_mem_untilSlash)

variable {α : Type}

/-! ## Routes that a path suits -/

/-- A path is a route with something in place of each wildcard. -/
def Suits (route : List Token) (path : List UInt8) : Prop := ∃ captures, Fits route path captures

theorem suits_nil {path : List UInt8} : Suits [] path ↔ path = [] := by
  simp [Suits, fits_nil]

theorem Suits.path_ne_nil {token : Token} {route : List Token} {path : List UInt8}
    (suits : Suits (token :: route) path) : path ≠ [] := by
  obtain ⟨captures, fits⟩ := suits
  exact fits.path_ne_nil

theorem Suits.head_path {b : UInt8} {route : List Token} {path : List UInt8}
    (suits : Suits (.byte b :: route) path) : path.head? = some b := by
  obtain ⟨captures, fits⟩ := suits
  exact fits.head_path

theorem suits_literal {label : List UInt8} {route : List Token} {path : List UInt8}
    (follow : ∀ name, route.head? ≠ some (.catchAll name)) :
    Suits (label.map .byte ++ route) path ↔ ∃ rest, path = label ++ rest ∧ Suits route rest := by
  simp only [Suits, fits_literal_append fun _ => follow]
  constructor
  · rintro ⟨captures, rest, hpath, fits⟩
    exact ⟨rest, hpath, captures, fits⟩
  · rintro ⟨rest, hpath, captures, fits⟩
    exact ⟨captures, rest, hpath, fits⟩

theorem suits_literal_append {label : List UInt8} {route : List Token} {rest : List UInt8}
    (follow : ∀ name, route.head? ≠ some (.catchAll name)) :
    Suits (label.map .byte ++ route) (label ++ rest) ↔ Suits route rest := by
  simp [suits_literal follow]

theorem suits_param {name : List UInt8} {route : List Token} {path : List UInt8}
    (slashed : ∀ token ∈ route.head?, token = .byte slash) :
    Suits (.param name :: route) path ↔ untilSlash path ≠ [] ∧ Suits route (fromSlash path) := by
  simp only [Suits, fits_param slashed]
  constructor
  · rintro ⟨captures, hvalue, captures', -, fits⟩
    exact ⟨hvalue, captures', fits⟩
  · rintro ⟨hvalue, captures', fits⟩
    exact ⟨_, hvalue, captures', rfl, fits⟩

/-- Some route goes on with a parameter right after these tokens. -/
def Forks (listing : List (List Token × α)) (route : List Token) : Prop :=
  ∃ name, Begun listing (route ++ [.param name])

/-- What the hint of a failed walk says about its path with the last slash toggled, given the
routes of the tree and the ways to its empty nodes. -/
structure Hinted (hint : Bool) (listing : List (List Token × α)) (ways : List (List Token))
    (path : List UInt8) : Prop where
  longer : ∀ entry ∈ listing, Suits entry.1 (path ++ [slash]) →
    (hint = true ↔ ¬ ∃ way ∈ ways, Suits way path)
  shorter : ∀ before, path = before ++ [slash] → ∀ entry ∈ listing, Suits entry.1 before →
    (hint = true ↔ ¬ Forks listing entry.1)

/-- A walk that fails at a node hints as it should, also at a lone slash after a route that ends
above. -/
def Node.HintsRight (node : Node α) : Prop :=
  ∀ (index : UInt8) (parent : Option Bool) (path : List UInt8) (hint : Bool),
    node.Sound index →
      (path.head? = some index ∨ ∀ name hits priority existing,
        node ≠ .catchAll name hits priority existing) →
      (∀ route ∈ node.listing, ¬ Doubled route.1) → node.search parent path = .missed hint →
        Hinted hint node.listing node.doorways path ∧
          (path = [slash] → parent = some true → hint = true)

/-- The same below a label, where a parameter is overlooked after a route that ends above. -/
def Below.HintsRight (below : Below α) : Prop :=
  ∀ (ends : Bool) (path : List UInt8) (hint : Bool), below.Sound → path ≠ [] →
    (∀ route ∈ below.listing, ¬ Doubled route.1) → below.search ends path = .missed hint →
      Hinted hint below.listing below.doorways path ∧
        (path = [slash] → ends = true → (hint = true ↔ ¬ Forks below.listing []))

theorem forks_prependTokens {tokens route : List Token} {listing : List (List Token × α)} :
    Forks (prependTokens tokens listing) (tokens ++ route) ↔ Forks listing route := by
  simp only [Forks, List.append_assoc, begun_prependTokens]

/-- A route that ends does not go on with a parameter. -/
theorem forks_ending {existing : Option α} {listing : List (List Token × α)}
    {route : List Token} :
    Forks (existing.toList.map (([], ·)) ++ listing) route ↔ Forks listing route := by
  refine exists_congr fun name => ?_
  constructor
  · rintro ⟨old, hold, hprefix⟩
    rcases List.mem_append.mp hold with h | h
    · obtain ⟨_, -, rfl⟩ := List.mem_map.mp h
      exact absurd (List.prefix_nil.mp hprefix) (List.append_ne_nil_of_right_ne_nil _ nofun)
    · exact ⟨old, h, hprefix⟩
  · rintro ⟨old, hold, hprefix⟩
    exact ⟨old, List.mem_append_right _ hold, hprefix⟩

/-- Along an edge the same routes go on. -/
theorem forks_along {es : List (Edge α)} {edge : Edge α} {tail : List Token}
    (sound : (Below.edges es).Sound) (inside : edge ∈ es) :
    Forks (listingEdges es) (.byte edge.1 :: tail) ↔ Forks edge.2.listing (.byte edge.1 :: tail) :=
  exists_congr fun _ => begun_along sound inside

/-- No parameter follows where a label goes on with edges. -/
theorem not_forks_edges {es : List (Edge α)} (sound : (Below.edges es).Sound) :
    ¬ Forks (listingEdges es) [] := by
  rintro ⟨name, old, hold, hprefix⟩
  obtain ⟨edge, -, tail, htail⟩ := sound.head_listing_edges hold
  rw [htail] at hprefix
  cases (List.cons_prefix_cons.mp hprefix).1

section Static

variable {label : List UInt8} {priority : Nat} {existing : Option α} {below : Below α}

/-- The routes of a literal node are its own, and those below its label. -/
theorem exists_of_mem_listing_static {entry : List Token × α}
    (inside : entry ∈ (Node.static label priority existing below).listing) :
    ∃ tail, entry.1 = label.map .byte ++ tail ∧
      (tail = [] ∧ existing = some entry.2 ∨ (tail, entry.2) ∈ below.listing) := by
  obtain ⟨tail, hroute, hmem⟩ := mem_prependTokens.mp inside
  refine ⟨tail, hroute, ?_⟩
  rcases List.mem_append.mp hmem with h | h
  · obtain ⟨handler, hexisting, heq⟩ := List.mem_map.mp h
    cases heq
    exact Or.inl ⟨rfl, Option.mem_toList.mp hexisting⟩
  · exact Or.inr h

/-- A path that suits a route of a literal node starts with its label. -/
theorem exists_of_suits_static (sound : below.Sound) {entry : List Token × α} {path : List UInt8}
    (inside : entry ∈ (Node.static label priority existing below).listing)
    (suits : Suits entry.1 path) :
    ∃ rest tail, path = label ++ rest ∧ entry.1 = label.map .byte ++ tail ∧ Suits tail rest ∧
      (tail = [] ∧ existing = some entry.2 ∨ (tail, entry.2) ∈ below.listing) := by
  obtain ⟨tail, hroute, hmem⟩ := exists_of_mem_listing_static inside
  have follow : ∀ name, tail.head? ≠ some (.catchAll name) := by
    rcases hmem with ⟨rfl, -⟩ | h
    · exact fun _ => nofun
    · exact sound.head_ne_catchAll h
  rw [hroute, suits_literal follow] at suits
  obtain ⟨rest, hpath, hrest⟩ := suits
  exact ⟨rest, tail, hpath, hroute, hrest, hmem⟩

/-- No route goes on below a label without a path that does. -/
theorem not_suits_below_nil (sound : below.Sound) {tail : List Token} {handler : α}
    (inside : (tail, handler) ∈ below.listing) : ¬ Suits tail [] := by
  obtain ⟨token, tail, rfl⟩ := List.exists_cons_of_ne_nil (sound.route_ne_nil inside)
  exact fun suits => suits.path_ne_nil rfl

/-- An empty node is reached along a way past a label exactly when it is from below it. -/
theorem suits_way_static (sound : below.Sound) {rest : List UInt8} :
    (∃ way ∈ (Node.static label priority existing below).doorways, Suits way (label ++ rest)) ↔
      ∃ way ∈ below.doorways, Suits way rest := by
  constructor
  · rintro ⟨way, hway, suits⟩
    obtain ⟨tail, htail, rfl⟩ := mem_doorways_static.mp hway
    exact ⟨tail, htail, (suits_literal_append (sound.head_doorways_ne_catchAll htail)).mp suits⟩
  · rintro ⟨tail, htail, suits⟩
    exact ⟨_, mem_doorways_static.mpr ⟨tail, htail, rfl⟩,
      (suits_literal_append (sound.head_doorways_ne_catchAll htail)).mpr suits⟩

/-- A path that does not go on past a label leads to no empty node past it. -/
theorem not_suits_way_static (sound : below.Sound) {path : List UInt8}
    (apart : afterLabel label path = none) :
    ¬ ∃ way ∈ (Node.static label priority existing below).doorways, Suits way path := by
  rintro ⟨way, hway, suits⟩
  obtain ⟨tail, htail, rfl⟩ := mem_doorways_static.mp hway
  obtain ⟨rest, rfl, -⟩ := (suits_literal (sound.head_doorways_ne_catchAll htail)).mp suits
  rw [afterLabel_eq_some_iff.mpr rfl] at apart
  cases apart

end Static

/-! ## A lone slash -/

theorem not_suits_param_slash {name path : List UInt8} {route : List Token} :
    ¬ Suits (.param name :: route) (slash :: path) := by
  rintro ⟨captures, fits⟩
  generalize hpath : slash :: path = path' at fits
  cases fits with
  | @param _ value _ rest _ nonempty noSlash fits =>
      obtain ⟨b, value, rfl⟩ := List.exists_cons_of_ne_nil nonempty
      obtain rfl : slash = b := (List.cons.inj hpath).1
      exact noSlash (List.mem_cons_self ..)

/-- A lone slash suits a route of an empty node or of a catch-all, or is the whole label of one. -/
theorem label_of_suits_slash {node : Node α} (sound : node.Sound slash) {entry : List Token × α}
    (inside : entry ∈ node.listing) (suits : Suits entry.1 [slash]) :
    node.label = [] ∨ node.label = [slash] ∧ node.endsSlash = true := by
  cases node with
  | catchAll name hits priority existing => exact Or.inl rfl
  | static label priority existing below =>
      obtain ⟨rest, tail, hpath, -, hsuits, hmem⟩ := exists_of_suits_static sound.1 inside suits
      cases label with
      | nil => exact Or.inl rfl
      | cons b label =>
          obtain ⟨rfl, hnil⟩ := List.cons.inj hpath
          obtain ⟨rfl, rfl⟩ := List.append_eq_nil_iff.mp hnil.symm
          rcases hmem with ⟨-, hexisting⟩ | hmem
          · exact Or.inr ⟨rfl, by rw [Node.endsSlash, hexisting]; rfl⟩
          · exact absurd hsuits (not_suits_below_nil sound.1 hmem)

/-- A node that ends a slash is not empty. -/
theorem endsSlash_eq_not_isDoorway {node : Node α} (sound : node.Sound slash)
    {entry : List Token × α} (inside : entry ∈ node.listing) (suits : Suits entry.1 [slash]) :
    node.endsSlash = !node.isDoorway := by
  cases node with
  | catchAll name hits priority existing => rfl
  | static label priority existing below =>
      rcases label_of_suits_slash sound inside suits with h | ⟨h, hends⟩
      · obtain rfl : label = [] := h
        rfl
      · obtain rfl : label = [slash] := h
        exact hends

/-- Below a label, one slash more is offered to a path exactly if no empty node takes it. -/
theorem offersSlash_iff_of_suits {below : Below α} (sound : below.Sound)
    {entry : List Token × α} (inside : entry ∈ below.listing) (suits : Suits entry.1 [slash]) :
    below.offersSlash = true ↔ ¬ ∃ way ∈ below.doorways, Suits way [] := by
  cases below with
  | param name hits priority existing next =>
      obtain ⟨rest, hrest⟩ := head_listing_param inside
      rw [hrest] at suits
      exact absurd suits not_suits_param_slash
  | edges es =>
      obtain ⟨hkeys, hsound⟩ := Below.sound_edges_iff.mp sound
      obtain ⟨edge, hedge, hlisted⟩ := mem_listingEdges.mp inside
      obtain ⟨tail, htail⟩ := (hsound edge hedge).head_listing hlisted
      have hindex : edge.1 = slash := by
        rw [htail] at suits
        exact (Option.some.inj suits.head_path).symm
      have hnode := hsound edge hedge
      rw [hindex] at hnode
      have only {other : Edge α} (hother : other ∈ es) (h : other.1 = slash) : other = edge :=
        List.inj_on_of_nodup_map hkeys hother hedge (h.trans hindex.symm)
      have hoffers : (Below.edges es).offersSlash = true ↔ edge.2.endsSlash = true := by
        rw [offersSlash_iff hkeys]
        constructor
        · rintro ⟨other, hother, h, hends⟩
          rwa [only hother h] at hends
        · exact fun hends => ⟨edge, hedge, hindex, hends⟩
      have hways : (∃ way ∈ (Below.edges es).doorways, Suits way []) ↔
          edge.2.isDoorway = true := by
        constructor
        · rintro ⟨way, hway, hsuits⟩
          obtain ⟨other, hother, hleads⟩ := mem_doorwaysEdges.mp hway
          split at hleads
          · next h =>
              obtain ⟨priority, existing, below, hshape⟩ := isDoorway_eq_true_iff.mp h
              have hslash : other.1 = slash := by
                have := hsound other hother
                rw [hshape] at this
                obtain ⟨-, -, h | ⟨-, h, -⟩⟩ := this
                · cases h
                · exact h
              rwa [only hother hslash] at h
          · obtain ⟨tail, rfl⟩ := (hsound other hother).head_doorways hleads
            exact absurd rfl hsuits.path_ne_nil
        · intro h
          refine ⟨[], mem_doorwaysEdges.mpr ⟨edge, hedge, ?_⟩, suits_nil.mpr rfl⟩
          rw [if_pos h]
          exact List.mem_singleton.mpr rfl
      rw [hoffers, hways, endsSlash_eq_not_isDoorway hnode hlisted suits]
      simp

/-- A route that a lone slash suits starts with a slash. -/
theorem head_of_suits_slash {route : List Token} (suits : Suits route [slash]) :
    ∃ rest, route = .byte slash :: rest := by
  cases route with
  | nil => cases suits_nil.mp suits
  | cons token rest =>
      cases token with
      | byte b => exact ⟨rest, by rw [Option.some.inj suits.head_path]⟩
      | param name => exact absurd suits not_suits_param_slash
      | catchAll name =>
          obtain ⟨captures, fits⟩ := suits
          exact absurd fits not_fits_catchAll

section Static

variable {index : UInt8} {label : List UInt8} {priority : Nat} {existing : Option α}
  {below : Below α} {parent : Option Bool} {path : List UInt8} {hint : Bool}

/-- The path parts from the label. -/
theorem hinted_apart (sound : below.Sound) (apart : afterLabel label path = none)
    (missed : (decide (path = [slash]) && decide (parent = some true) ||
      decide (label = path ++ [slash]) && existing.isSome) = hint) :
    Hinted hint (Node.static label priority existing below).listing
      (Node.static label priority existing below).doorways path where
  longer := by
    intro entry inside suits
    obtain ⟨rest, tail, hpath, -, hsuits, hmem⟩ := exists_of_suits_static sound inside suits
    have hlabel : label = path ++ [slash] ∧ rest = [] := by
      rcases List.eq_nil_or_concat rest with rfl | ⟨rest, b, rfl⟩
      · exact ⟨(hpath.trans (List.append_nil _)).symm, rfl⟩
      · rw [List.concat_eq_append, ← List.append_assoc] at hpath
        obtain ⟨rfl, -⟩ := List.append_inj' hpath rfl
        rw [afterLabel_eq_some_iff.mpr rfl] at apart
        cases apart
    obtain ⟨hlabel, rfl⟩ := hlabel
    rcases hmem with ⟨-, hexisting⟩ | hmem
    · have hgiven : hint = true := by
        rw [← missed, decide_eq_true hlabel, hexisting]
        exact Bool.or_true _
      exact iff_of_true hgiven (not_suits_way_static sound apart)
    · exact absurd hsuits (not_suits_below_nil sound hmem)
  shorter := by
    rintro before rfl entry inside suits
    obtain ⟨rest, tail, rfl, -⟩ := exists_of_suits_static sound inside suits
    rw [List.append_assoc, afterLabel_eq_some_iff.mpr rfl] at apart
    cases apart

/-- The path ends with the label, where no route does. -/
theorem hinted_end (sound : below.Sound)
    (single : ∀ route ∈ (Node.static label priority none below).listing, ¬ Doubled route.1)
    (missed : hint = below.offersSlash ∨ label = [slash]) :
    Hinted hint (Node.static label priority none below).listing
      (Node.static label priority none below).doorways label where
  longer := by
    intro entry inside suits
    obtain ⟨rest, tail, hpath, hroute, hsuits, ⟨-, hnone⟩ | hmem⟩ :=
      exists_of_suits_static sound inside suits
    · cases hnone
    · obtain rfl := List.append_cancel_left hpath
      have hlabel : label ≠ [slash] := by
        rintro rfl
        obtain ⟨tail, rfl⟩ := head_of_suits_slash hsuits
        refine single entry inside ⟨[], tail, ?_⟩
        rw [hroute]
        rfl
      have hways : (∃ way ∈ (Node.static label priority none below).doorways, Suits way label) ↔
          ∃ way ∈ below.doorways, Suits way [] := by
        have h := @suits_way_static _ label priority none _ sound []
        rwa [List.append_nil] at h
      rw [missed.resolve_right hlabel, hways]
      exact offersSlash_iff_of_suits sound hmem hsuits
  shorter := by
    rintro before hpath entry inside suits
    obtain ⟨rest, tail, rfl, -⟩ := exists_of_suits_static sound inside suits
    have hlength := congrArg List.length hpath
    simp at hlength

/-- The path goes on below the label. -/
theorem hinted_below {c : UInt8} {rest : List UInt8} (sound : below.Sound)
    (hinted : Hinted hint below.listing below.doorways (c :: rest))
    (lone : c :: rest = [slash] → existing.isSome = true →
      (hint = true ↔ ¬ Forks below.listing [])) :
    Hinted hint (Node.static label priority existing below).listing
      (Node.static label priority existing below).doorways (label ++ c :: rest) where
  longer := by
    intro entry inside suits
    obtain ⟨rest', tail, hpath, -, hsuits, hmem⟩ := exists_of_suits_static sound inside suits
    rw [List.append_assoc] at hpath
    obtain rfl := List.append_cancel_left hpath
    rcases hmem with ⟨rfl, -⟩ | hmem
    · cases suits_nil.mp hsuits
    · rw [suits_way_static sound]
      exact hinted.longer _ hmem hsuits
  shorter := by
    rintro before hpath entry inside suits
    obtain ⟨rest', tail, rfl, hroute, hsuits, hmem⟩ := exists_of_suits_static sound inside suits
    rw [List.append_assoc] at hpath
    have hrest := List.append_cancel_left hpath
    rw [Node.listing, hroute, forks_prependTokens, forks_ending]
    rcases hmem with ⟨rfl, hexisting⟩ | hmem
    · rw [suits_nil.mp hsuits] at hrest
      exact lone hrest (by rw [hexisting]; rfl)
    · exact hinted.shorter rest' hrest _ hmem hsuits

end Static

theorem hintsRight_static {below : Below α} (ih : below.HintsRight) (label : List UInt8)
    (priority : Nat) (existing : Option α) :
    (Node.static label priority existing below).HintsRight := by
  intro index parent path hint sound reached single missed
  have ⟨hbelow, _, hshape⟩ := sound
  rw [Node.search.eq_def] at missed
  dsimp only at missed
  cases hafter : afterLabel label path with
  | none =>
      rw [hafter] at missed
      have hhint := Search.missed.inj missed
      refine ⟨hinted_apart hbelow hafter hhint, ?_⟩
      rintro rfl rfl
      rw [← hhint]
      simp
  | some rest =>
      obtain rfl := afterLabel_eq_some_iff.mp hafter
      rw [hafter] at missed
      cases rest with
      | nil =>
          cases existing with
          | some existing => cases missed
          | none =>
              rw [List.append_nil] at missed ⊢
              cases parent with
              | none =>
                  have hhint := Search.missed.inj missed
                  exact ⟨hinted_end hbelow single (Or.inl hhint.symm),
                    fun _ h => absurd h.symm (Option.some_ne_none true)⟩
              | some above =>
                  have hhint := Search.missed.inj missed
                  by_cases hlabel : label = [slash]
                  · rw [if_pos hlabel] at hhint
                    refine ⟨hinted_end hbelow single (Or.inr hlabel), ?_⟩
                    rintro - hparent
                    exact hhint.symm.trans (Option.some.inj hparent)
                  · rw [if_neg hlabel] at hhint
                    exact ⟨hinted_end hbelow single (Or.inl hhint.symm),
                      fun h => absurd h hlabel⟩
      | cons c rest =>
          have hsingle : ∀ route ∈ below.listing, ¬ Doubled route.1 := fun route hroute =>
            not_doubled_of_prependTokens single route (List.mem_append_right _ hroute)
          obtain ⟨hinted, hlone⟩ :=
            ih existing.isSome (c :: rest) hint hbelow (List.cons_ne_nil _ _) hsingle missed
          refine ⟨hinted_below hbelow hinted hlone, ?_⟩
          rintro hlabel -
          -- only an empty node lets the path go on, and then to a catch-all
          rcases hshape with h | ⟨h, -, -, name, hits, priority', existing', rfl⟩
          · obtain ⟨label', rfl⟩ := List.head?_eq_some_iff.mp h
            have hlength := congrArg List.length hlabel
            simp at hlength
          · rw [h] at hlabel
            obtain ⟨rfl, rfl⟩ := List.cons.inj hlabel
            cases missed

section Edges

variable {es : List (Edge α)} {path : List UInt8} {hint : Bool}

/-- A path that suits a route along edges goes on with the byte of its edge. -/
theorem exists_of_suits_edges (sound : (Below.edges es).Sound) {entry : List Token × α}
    (inside : entry ∈ listingEdges es) (suits : Suits entry.1 path) :
    ∃ edge ∈ es, path.head? = some edge.1 ∧ entry ∈ edge.2.listing ∧
      ∃ tail, entry.1 = .byte edge.1 :: tail := by
  obtain ⟨edge, hedge, hlisted⟩ := mem_listingEdges.mp inside
  obtain ⟨tail, htail⟩ := ((Below.sound_edges_iff.mp sound).2 edge hedge).head_listing hlisted
  rw [htail] at suits
  exact ⟨edge, hedge, suits.head_path, hlisted, tail, htail⟩

/-- The byte of a path decides its edge. -/
theorem edge_eq_of_head (sound : (Below.edges es).Sound) {edge other : Edge α}
    (inside : edge ∈ es) (inside' : other ∈ es) (head : path.head? = some edge.1)
    (head' : path.head? = some other.1) : other = edge :=
  List.inj_on_of_nodup_map (Below.sound_edges_iff.mp sound).1 inside' inside
    (Option.some.inj (head'.symm.trans head))

/-- A path with a byte for an edge comes to the empty nodes along it only. -/
theorem suits_way_along (sound : (Below.edges es).Sound) {edge : Edge α} (inside : edge ∈ es)
    (head : path.head? = some edge.1) :
    (∃ way ∈ (Below.edges es).doorways, Suits way path) ↔
      ∃ way ∈ edge.2.doorways, Suits way path := by
  have hsound := (Below.sound_edges_iff.mp sound).2
  constructor
  · rintro ⟨way, hway, suits⟩
    obtain ⟨other, hother, hleads⟩ := mem_doorwaysEdges.mp hway
    split at hleads
    · rw [List.mem_singleton.mp hleads, suits_nil] at suits
      rw [suits] at head
      cases head
    · obtain ⟨tail, rfl⟩ := (hsound other hother).head_doorways hleads
      obtain rfl := edge_eq_of_head sound inside hother head suits.head_path
      exact ⟨_, hleads, suits⟩
  · rintro ⟨way, hway, suits⟩
    refine ⟨way, mem_doorwaysEdges.mpr ⟨edge, inside, ?_⟩, suits⟩
    split
    · next h =>
        obtain ⟨priority, existing, below, hshape⟩ := isDoorway_eq_true_iff.mp h
        rw [(hsound edge inside).doorways_eq_nil (by rw [hshape]; rfl)] at hway
        cases hway
    · exact hway

theorem head?_append_slash (goesOn : path ≠ []) : (path ++ [slash]).head? = path.head? := by
  obtain ⟨b, path, rfl⟩ := List.exists_cons_of_ne_nil goesOn
  rfl

/-- The path follows an edge. -/
theorem hinted_along (sound : (Below.edges es).Sound) {edge : Edge α} (inside : edge ∈ es)
    (head : path.head? = some edge.1)
    (hinted : Hinted hint edge.2.listing edge.2.doorways path) :
    Hinted hint (Below.edges es).listing (Below.edges es).doorways path where
  longer := by
    intro entry hentry suits
    have goesOn : path ≠ [] := by
      rintro rfl
      cases head
    obtain ⟨other, hother, hhead, hlisted, -⟩ := exists_of_suits_edges sound hentry suits
    rw [head?_append_slash goesOn] at hhead
    obtain rfl := edge_eq_of_head sound inside hother head hhead
    rw [suits_way_along sound inside head]
    exact hinted.longer entry hlisted suits
  shorter := by
    rintro before rfl entry hentry suits
    obtain ⟨other, hother, hhead, hlisted, tail, htail⟩ := exists_of_suits_edges sound hentry suits
    have goesOn : before ≠ [] := by
      rintro rfl
      cases hhead
    rw [head?_append_slash goesOn] at head
    obtain rfl := edge_eq_of_head sound inside hother head hhead
    rw [htail, Below.listing, forks_along sound inside, ← htail]
    exact hinted.shorter before rfl entry hlisted suits

/-- The path follows no edge. -/
theorem hinted_nowhere (sound : (Below.edges es).Sound) (goesOn : path ≠ [])
    (nowhere : ∀ edge ∈ es, path.head? ≠ some edge.1) :
    Hinted hint (Below.edges es).listing (Below.edges es).doorways path where
  longer := by
    intro entry hentry suits
    obtain ⟨edge, hedge, hhead, -⟩ := exists_of_suits_edges sound hentry suits
    rw [head?_append_slash goesOn] at hhead
    exact absurd hhead (nowhere edge hedge)
  shorter := by
    rintro before rfl entry hentry suits
    obtain ⟨edge, hedge, hhead, -⟩ := exists_of_suits_edges sound hentry suits
    have hbefore : before ≠ [] := by
      rintro rfl
      cases hhead
    refine absurd ?_ (nowhere edge hedge)
    rwa [head?_append_slash hbefore]

end Edges

theorem hintsRight_edges {es : List (Edge α)} (ih : ∀ edge ∈ es, edge.2.HintsRight) :
    (Below.edges es).HintsRight := by
  intro ends path hint sound goesOn single missed
  obtain ⟨hkeys, hsound⟩ := Below.sound_edges_iff.mp sound
  rw [Below.search] at missed
  by_cases hedge : ∃ edge ∈ es, path.head? = some edge.1
  · obtain ⟨edge, hmem, hhead⟩ := hedge
    rw [searchEdges_of_mem hkeys hmem hhead] at missed
    have hsingle : ∀ route ∈ edge.2.listing, ¬ Doubled route.1 := fun route hroute =>
      single route (mem_listingEdges.mpr ⟨edge, hmem, hroute⟩)
    obtain ⟨hinted, hlone⟩ := ih edge hmem edge.1 (some ends) path hint (hsound edge hmem)
      (Or.inl hhead) hsingle missed
    refine ⟨hinted_along sound hmem hhead hinted, ?_⟩
    intro hslash hends
    exact iff_of_true (hlone hslash (congrArg some hends)) (not_forks_edges sound)
  · have hnowhere : ∀ edge ∈ es, path.head? ≠ some edge.1 := by
      intro edge hmem h
      exact hedge ⟨edge, hmem, h⟩
    rw [searchEdges_eq_none hnowhere] at missed
    have hhint : (decide (path = [slash]) && ends) = hint := Search.missed.inj missed
    refine ⟨hinted_nowhere sound goesOn hnowhere, ?_⟩
    rintro rfl rfl
    exact iff_of_true hhint.symm (not_forks_edges sound)

/-! ## Walks at a parameter -/

section Param

variable {name value : List UInt8} {hits : CounterId} {priority : Nat} {existing : Option α}
  {next : Option (Node α)} {path : List UInt8} {hint : Bool}

/-- A parameter takes a value, and the rest of the path goes on after it. -/
theorem suits_value {route : List Token} {rest : List UInt8} (nonempty : value ≠ [])
    (noSlash : slash ∉ value) (after : rest = [] ∨ ∃ rest', rest = slash :: rest')
    (slashed : ∀ token ∈ route.head?, token = .byte slash) :
    Suits (.param name :: route) (value ++ rest) ↔ Suits route rest := by
  obtain ⟨huntil, hfrom⟩ := untilSlash_append noSlash after
  rw [suits_param slashed, huntil, hfrom, and_iff_right nonempty]

/-- A path that suits a route after a parameter is a value and what suits the rest of it. -/
theorem exists_of_suits_param (sound : soundNext next) {entry : List Token × α}
    (inside : entry ∈ (Below.param name hits priority existing next).listing)
    (suits : Suits entry.1 path) :
    ∃ tail, entry.1 = .param name :: tail ∧ untilSlash path ≠ [] ∧ Suits tail (fromSlash path) ∧
      (tail = [] ∧ existing = some entry.2 ∨ ∃ node ∈ next, (tail, entry.2) ∈ node.listing) := by
  obtain ⟨tail, hroute, hmem⟩ := mem_prependTokens.mp inside
  rw [hroute, List.singleton_append, suits_param (head_listing_next sound hmem)] at suits
  refine ⟨tail, hroute, suits.1, suits.2, ?_⟩
  rcases List.mem_append.mp hmem with h | h
  · obtain ⟨handler, hexisting, heq⟩ := List.mem_map.mp h
    cases heq
    exact Or.inl ⟨rfl, Option.mem_toList.mp hexisting⟩
  · exact Or.inr (mem_listingNext.mp h)

/-- No route goes on after a parameter without a path that does. -/
theorem not_suits_next_nil (sound : soundNext next) {node : Node α} (inside : node ∈ next)
    {tail : List Token} {handler : α} (listed : (tail, handler) ∈ node.listing) :
    ¬ Suits tail [] := by
  obtain ⟨rest, rfl⟩ := (soundNext_iff.mp sound node inside).head_listing listed
  exact fun suits => suits.path_ne_nil rfl

/-- A path with a value comes to the empty nodes that its rest comes to. -/
theorem suits_way_param (sound : soundNext next) {rest : List UInt8} (nonempty : value ≠ [])
    (noSlash : slash ∉ value) (after : rest = [] ∨ ∃ rest', rest = slash :: rest') :
    (∃ way ∈ (Below.param name hits priority existing next).doorways,
        Suits way (value ++ rest)) ↔ ∃ way ∈ doorwaysNext next, Suits way rest := by
  constructor
  · rintro ⟨way, hway, suits⟩
    obtain ⟨tail, htail, rfl⟩ := mem_doorways_param.mp hway
    exact ⟨tail, htail,
      (suits_value nonempty noSlash after (head_doorwaysNext sound htail)).mp suits⟩
  · rintro ⟨tail, htail, suits⟩
    exact ⟨_, mem_doorways_param.mpr ⟨tail, htail, rfl⟩,
      (suits_value nonempty noSlash after (head_doorwaysNext sound htail)).mpr suits⟩

/-- The path goes on with a slash where a parameter stands. -/
theorem hinted_slash {rest : List UInt8} :
    Hinted hint (Below.param name hits priority existing next).listing
      (Below.param name hits priority existing next).doorways (slash :: rest) where
  longer := by
    intro entry inside suits
    obtain ⟨tail, htail⟩ := head_listing_param inside
    rw [htail] at suits
    exact absurd suits not_suits_param_slash
  shorter := by
    intro before hpath entry inside suits
    obtain ⟨tail, htail⟩ := head_listing_param inside
    rw [htail] at suits
    obtain ⟨b, before, rfl⟩ := List.exists_cons_of_ne_nil suits.path_ne_nil
    obtain rfl : slash = b := (List.cons.inj hpath).1
    exact absurd suits not_suits_param_slash

/-- The path ends with the value, where no route does. -/
theorem hinted_value (sound : soundNext next) (nonempty : value ≠ []) (noSlash : slash ∉ value) :
    Hinted (next.any fun node => node.label = [slash] && node.endsSlash)
      (Below.param name hits priority none next).listing
      (Below.param name hits priority none next).doorways value where
  longer := by
    intro entry inside suits
    obtain ⟨tail, -, -, hsuits, ⟨-, hnone⟩ | ⟨node, hnode, hlisted⟩⟩ :=
      exists_of_suits_param sound inside suits
    · cases hnone
    · rw [(untilSlash_append noSlash (Or.inr ⟨[], rfl⟩)).2] at hsuits
      obtain rfl : next = some node := hnode
      have hlabel := label_of_suits_slash sound hlisted hsuits
      have hways : (∃ way ∈ (Below.param name hits priority none (some node)).doorways,
          Suits way value) ↔ node.label = [] := by
        have h := @suits_way_param _ name value hits priority none _ sound [] nonempty noSlash
          (Or.inl rfl)
        rw [List.append_nil] at h
        rw [h, doorwaysNext]
        constructor
        · rintro ⟨way, hway, hends⟩
          split at hway
          · assumption
          · obtain ⟨tail, rfl⟩ := Node.Sound.head_doorways sound hway
            exact absurd rfl hends.path_ne_nil
        · intro hempty
          rw [if_pos hempty]
          exact ⟨[], List.mem_singleton.mpr rfl, suits_nil.mpr rfl⟩
      rw [hways]
      rcases hlabel with hempty | ⟨hslash, hends⟩
      · simp [hempty]
      · simp [hslash, hends]
  shorter := by
    rintro before rfl
    simp at noSlash

/-- No parameter follows a parameter. -/
theorem not_forks_next (sound : soundNext next) : ¬ Forks (listingNext next) [] := by
  rintro ⟨name, old, hold, hprefix⟩
  obtain ⟨node, hnode, hlisted⟩ := mem_listingNext.mp hold
  obtain ⟨tail, htail⟩ := (soundNext_iff.mp sound node hnode).head_listing hlisted
  rw [htail] at hprefix
  cases (List.cons_prefix_cons.mp hprefix).1

/-- The last slash of a path is the one after the value, or comes later. -/
theorem before_slash_eq {before rest : List UInt8}
    (same : value ++ slash :: rest = before ++ [slash]) :
    (rest = [] ∧ before = value) ∨
      ∃ rest', rest = rest' ++ [slash] ∧ before = value ++ slash :: rest' := by
  rcases List.eq_nil_or_concat rest with rfl | ⟨rest, b, rfl⟩
  · exact Or.inl ⟨rfl, (List.append_inj' same rfl).1.symm⟩
  · rw [List.concat_eq_append, ← List.cons_append, ← List.append_assoc] at same
    obtain ⟨hbefore, hlast⟩ := List.append_inj' same rfl
    exact Or.inr ⟨rest, by rw [List.concat_eq_append, (List.cons.inj hlast).1], hbefore.symm⟩

/-- The path goes on after the value. -/
theorem hinted_past {rest : List UInt8} (sound : soundNext next) (nonempty : value ≠ [])
    (noSlash : slash ∉ value)
    (hinted : ∀ node ∈ next, Hinted hint node.listing node.doorways (slash :: rest))
    (lone : rest = [] → existing.isSome = true → hint = true) :
    Hinted hint (Below.param name hits priority existing next).listing
      (Below.param name hits priority existing next).doorways (value ++ slash :: rest) where
  longer := by
    intro entry inside suits
    obtain ⟨tail, -, -, hsuits, hmem⟩ := exists_of_suits_param sound inside suits
    rw [List.append_assoc, List.cons_append, (untilSlash_append noSlash (Or.inr ⟨_, rfl⟩)).2]
      at hsuits
    rcases hmem with ⟨rfl, -⟩ | ⟨node, hnode, hlisted⟩
    · cases suits_nil.mp hsuits
    · obtain rfl : next = some node := hnode
      have hways : (∃ way ∈ doorwaysNext (some node), Suits way (slash :: rest)) ↔
          ∃ way ∈ node.doorways, Suits way (slash :: rest) := by
        rw [doorwaysNext]
        split
        · next hempty => simp [Node.Sound.doorways_eq_nil sound hempty, suits_nil]
        · exact Iff.rfl
      rw [suits_way_param sound nonempty noSlash (Or.inr ⟨rest, rfl⟩), hways]
      exact (hinted node rfl).longer _ hlisted hsuits
  shorter := by
    intro before hpath entry inside suits
    obtain ⟨tail, htail, -, hsuits, hmem⟩ := exists_of_suits_param sound inside suits
    rw [htail, ← List.singleton_append, Below.listing, forks_prependTokens, forks_ending]
    rcases before_slash_eq hpath with ⟨hrest, rfl⟩ | ⟨rest', rfl, rfl⟩
    · have hfrom : fromSlash before = [] := by
        have h := (untilSlash_append noSlash (Or.inl rfl)).2
        rwa [List.append_nil] at h
      rw [hfrom] at hsuits
      rcases hmem with ⟨rfl, hexisting⟩ | ⟨node, hnode, hlisted⟩
      · exact iff_of_true (lone hrest (by rw [hexisting]; rfl)) (not_forks_next sound)
      · exact absurd hsuits (not_suits_next_nil sound hnode hlisted)
    · rw [(untilSlash_append noSlash (Or.inr ⟨_, rfl⟩)).2] at hsuits
      rcases hmem with ⟨rfl, -⟩ | ⟨node, hnode, hlisted⟩
      · cases suits_nil.mp hsuits
      · obtain rfl : next = some node := hnode
        exact (hinted node rfl).shorter (slash :: rest') rfl _ hlisted hsuits

end Param

/-- A value in front of a walk that fails changes nothing. -/
theorem Search.missed_of_under {result : Search α} {name value : List UInt8} {hits : CounterId}
    {hint : Bool} (missed : result.under name value hits = .missed hint) :
    result = .missed hint := by
  cases result with
  | found handler captures deepest => cases missed
  | missed hint' => rw [Search.missed.inj missed]

theorem hintsRight_param {next : Option (Node α)}
    (ih : ∀ node, next = some node → node.HintsRight) (name : List UInt8) (hits : CounterId)
    (priority : Nat) (existing : Option α) :
    (Below.param name hits priority existing next).HintsRight := by
  intro ends path hint sound goesOn single missed
  have hnext : ∀ node, next = some node → ∀ route ∈ node.listing, ¬ Doubled route.1 := by
    rintro node rfl route hroute
    exact not_doubled_of_prependTokens single route (List.mem_append_right _ hroute)
  rw [Below.search.eq_def] at missed
  dsimp only at missed
  by_cases hvalue : untilSlash path = []
  · rw [if_pos hvalue] at missed
    obtain rfl := Search.missed.inj missed
    obtain ⟨rest, rfl⟩ : ∃ rest, path = slash :: rest := by
      have hpath := untilSlash_append_fromSlash path
      rw [hvalue, List.nil_append] at hpath
      rcases fromSlash_eq path with h | ⟨rest, h⟩
      · exact absurd (hpath.symm.trans h) goesOn
      · exact ⟨rest, hpath.symm.trans h⟩
    refine ⟨hinted_slash, ?_⟩
    rintro - -
    -- the parameter is what the route above goes on with
    obtain ⟨entry, hentry⟩ :=
      List.exists_mem_of_ne_nil _ (listing_ne_nil.2 _ sound (param_ne_edges []))
    obtain ⟨rest, hrest⟩ := head_listing_param hentry
    exact iff_of_false Bool.false_ne_true (not_not_intro ⟨name, entry, hentry, rest, hrest.symm⟩)
  · rw [if_neg hvalue] at missed
    have hlone : path = [slash] → ends = true →
        (hint = true ↔ ¬ Forks (Below.param name hits priority existing next).listing []) := by
      rintro rfl
      exact absurd rfl hvalue
    refine ⟨?_, hlone⟩
    have noSlash := slash_not_mem_untilSlash path
    have hpath := untilSlash_append_fromSlash path
    rcases fromSlash_eq path with hfrom | ⟨rest, hfrom⟩
    · rw [hfrom, List.append_nil] at hpath
      rw [hfrom] at missed
      cases existing with
      | some existing => cases missed
      | none =>
          obtain rfl := Search.missed.inj missed
          have hinted := @hinted_value _ name _ hits priority _ sound.2 hvalue noSlash
          rwa [hpath] at hinted
    · rw [hfrom] at missed hpath
      dsimp only at missed
      rw [← hpath]
      cases next with
      | none =>
          obtain rfl := Search.missed.inj missed
          refine hinted_past trivial hvalue noSlash (fun _ h => absurd h (Option.not_mem_none _)) ?_
          rintro rfl -
          rfl
      | some node =>
          rw [searchNext] at missed
          have hsearch := Search.missed_of_under missed
          obtain ⟨hinted, hslash⟩ := ih node rfl slash (some existing.isSome) (slash :: rest) hint
            sound.2 (Or.inl rfl) (hnext node rfl) hsearch
          refine hinted_past sound.2 hvalue noSlash ?_ ?_
          · rintro _ ⟨⟩
            exact hinted
          · rintro rfl hends
            exact hslash rfl (congrArg some hends)

/-- Every walk that fails hints as it should. -/
theorem hints_right :
    (∀ node : Node α, node.HintsRight) ∧ ∀ below : Below α, below.HintsRight := by
  refine tree_induction ?static ?catchAll ?edges ?param
  case static =>
    intro label priority existing below ih
    exact hintsRight_static ih label priority existing
  case catchAll =>
    intro name hits priority existing index parent path hint _ _ _ missed
    cases missed
  case edges =>
    intro es ih
    exact hintsRight_edges ih
  case param =>
    intro name hits priority existing next ih
    exact hintsRight_param ih name hits priority existing

end RadixRouter

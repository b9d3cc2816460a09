/-
# A corrected path is a path of the tree

The walk that corrects letter case takes text from labels and values from the request, and it
may lose its place inside a character on the way.  Whatever it puts together fits a route all
the same: labels are taken whole, a value holds no slash, and a catch-all is only reached where
the request has the slash that its value starts with.
-/

import RadixRouter.Proofs.CaseMapping
import RadixRouter.Proofs.TreeSearch
import RadixRouter.Tree.Respell

namespace RadixRouter

open Pattern (fromSlash_eq slash_not_mem_untilSlash untilSlash_append_fromSlash)
open SimpleCase (lower upper eq_slash_of_lower eq_slash_of_upper)

variable {α : Type}

theorem characterAt_eq_some {path : List UInt8} {n back : Nat} {c : Char}
    (found : characterAt path n = some (c, back)) :
    back ≤ n ∧ c = Utf8.firstChar (path.drop (n - back)) := by
  obtain ⟨k, hk, hfound⟩ := List.exists_of_findSome?_eq_some found
  rw [List.mem_range] at hk
  split at hfound
  · next b rest hdrop =>
      split at hfound
      · cases hfound
        exact ⟨by omega, by rw [hdrop]⟩
      · cases hfound
  · cases hfound

/-- A slash that is found at a position is the byte there. -/
theorem head_of_characterAt_slash {path : List UInt8} {n : Nat}
    (found : characterAt path n = some ('/', 0)) : (path.drop n).head? = some slash := by
  obtain ⟨-, hfirst⟩ := characterAt_eq_some found
  rw [Nat.sub_zero] at hfirst
  have whole : Utf8.firstChar (path.drop n) ≠ Utf8.replacement := by
    rw [← hfirst]
    decide
  obtain ⟨rest, hrest⟩ := Utf8.exists_of_firstChar whole
  rw [hrest, ← hfirst]
  rfl

/-- Carried bytes lead along a slash only where the path has one. -/
structure Carries (carry path : List UInt8) : Prop where
  tail : slash ∉ carry.tail
  head : carry.head? = some slash → path.head? = some slash

theorem carries_nil (path : List UInt8) : Carries [] path := ⟨nofun, nofun⟩

/-- What remains of a carried character holds no slash. -/
theorem Carries.drop {carry path : List UInt8} (carries : Carries carry path) {n : Nat}
    (pos : n ≠ 0) : Carries (carry.drop n) (path.drop n) := by
  have hfree : slash ∉ carry.drop n := by
    obtain ⟨n, rfl⟩ := Nat.exists_eq_succ_of_ne_zero pos
    rw [Nat.succ_eq_add_one, ← List.drop_tail]
    exact fun h => carries.tail (List.mem_of_mem_drop h)
  exact ⟨fun h => hfree (List.mem_of_mem_tail h), fun h => absurd (List.mem_of_mem_head? h) hfree⟩

/-- The bytes of a mapped character, from the position in it on, are fit to be carried. -/
theorem carries_form {form : Char → Char} (only : ∀ c, form c = '/' → c = '/')
    {path : List UInt8} {n back : Nat} {c : Char} (found : characterAt path n = some (c, back)) :
    Carries ((Utf8.encodeChar (form c)).drop back) (path.drop n) := by
  by_cases hslash : form c = '/'
  · obtain rfl := only c hslash
    rw [hslash, Utf8.encodeChar_slash]
    cases back with
    | zero => exact ⟨nofun, fun _ => head_of_characterAt_slash found⟩
    | succ back =>
        rw [List.drop_succ_cons, List.drop_nil]
        exact carries_nil _
  · have hfree : slash ∉ (Utf8.encodeChar (form c)).drop back := fun h =>
      hslash (Utf8.slash_mem_encodeChar.mp (List.mem_of_mem_drop h))
    exact ⟨fun h => hfree (List.mem_of_mem_tail h),
      fun h => absurd (List.mem_of_mem_head? h) hfree⟩

/-- A path fits one of the routes. -/
def Takes (listing : List (List Token × α)) (path : List UInt8) : Prop :=
  ∃ handler captures, ∃ route, (route, handler) ∈ listing ∧ Fits route path captures

/-- What a node adds to a corrected path fits a route there, or is nothing where a route ends
above.  The byte that leads to the node is the slash only where the path has one. -/
def Node.RespellsRoutes (fix : Bool) (node : Node α) : Prop :=
  ∀ (index : UInt8) (path carry : List UInt8) (ends : Bool) (spelling : List UInt8),
    node.Sound index → Carries carry path → (index = slash → path.head? = some slash) →
      node.respell fix path carry ends = some spelling →
        ends = true ∧ spelling = [] ∨ Takes node.listing spelling

/-- The same of what follows a label of `n` bytes. -/
def Below.RespellsRoutes (fix : Bool) (below : Below α) : Prop :=
  ∀ (path : List UInt8) (n : Nat) (carry : List UInt8) (ends : Bool) (spelling : List UInt8),
    below.Sound → Carries (carry.drop n) (path.drop n) →
      below.respell fix path n carry ends = some spelling →
        ends = true ∧ spelling = [] ∨ Takes below.listing spelling

/-- A route of a literal node starts with its label. -/
theorem takes_static {label : List UInt8} {priority : Nat} {existing : Option α} {below : Below α}
    (sound : below.Sound) {rest : List UInt8}
    (taken : existing.isSome = true ∧ rest = [] ∨ Takes below.listing rest) :
    Takes (Node.static label priority existing below).listing (label ++ rest) := by
  rcases taken with ⟨hexisting, rfl⟩ | ⟨handler, captures, hroute⟩
  · obtain ⟨handler, hhandler⟩ := Option.isSome_iff_exists.mp hexisting
    exact ⟨handler, [], (fits_static sound).mpr ⟨[], rfl, Or.inl ⟨hhandler, rfl, rfl⟩⟩⟩
  · exact ⟨handler, captures, (fits_static sound).mpr ⟨rest, rfl, Or.inr hroute⟩⟩

theorem respellsRoutes_static {fix : Bool} {below : Below α} (ih : below.RespellsRoutes fix)
    (label : List UInt8) (priority : Nat) (existing : Option α) :
    (Node.static label priority existing below).RespellsRoutes fix := by
  intro index path carry ends spelling sound carries reached respelled
  obtain ⟨hbelow, -, hshape⟩ := sound
  rw [Node.respell] at respelled
  split at respelled
  · obtain ⟨rest, hrest, rfl⟩ := Option.map_eq_some_iff.mp respelled
    have hcarries : Carries (carry.drop label.length) (path.drop label.length) := by
      cases label with
      | nil => exact carries
      | cons b label => exact carries.drop (Nat.succ_ne_zero _)
    exact Or.inr (takes_static hbelow (ih path label.length carry _ rest hbelow hcarries hrest))
  · split at respelled
    · split at respelled
      · next hends => exact Or.inl ⟨hends, (Option.some.inj respelled).symm⟩
      · cases respelled
    · split at respelled
      · next h =>
          simp only [Bool.and_eq_true] at h
          obtain rfl := Option.some.inj respelled
          have taken : Takes (Node.static label priority existing below).listing (label ++ []) :=
            takes_static hbelow (Or.inl ⟨h.1.2, rfl⟩)
          rw [List.append_nil] at taken
          exact Or.inr taken
      · cases respelled

theorem respellsRoutes_catchAll (fix : Bool) (name : List UInt8) (hits : CounterId)
    (priority : Nat) (existing : α) :
    (Node.catchAll name hits priority existing).RespellsRoutes fix := by
  intro index path carry ends spelling sound _ reached respelled
  rw [Node.Sound] at sound
  rw [Node.respell] at respelled
  obtain rfl := Option.some.inj respelled
  exact Or.inr ⟨existing, [(name, path)], _, List.mem_singleton.mpr rfl,
    fits_catchAll.mpr ⟨rfl, reached sound, rfl⟩⟩

/-- Where one slash more would end a route, that slash fits it. -/
theorem takes_of_offersSlash {es : List (Edge α)} (sound : (Below.edges es).Sound)
    (offers : Below.offersSlash (.edges es) = true) : Takes (Below.edges es).listing [slash] := by
  rw [Below.offersSlash] at offers
  split at offers
  · next index node hfind =>
      have hindex : index = slash := by simpa using List.find?_some hfind
      have hmem := List.mem_of_find?_eq_some hfind
      have hsound := (Below.sound_edges_iff.mp sound).2 _ hmem
      suffices taken : Takes node.listing [slash] by
        obtain ⟨handler, captures, route, hroute, fits⟩ := taken
        exact ⟨handler, captures, route, mem_listingEdges.mpr ⟨_, hmem, hroute⟩, fits⟩
      cases node with
      | catchAll name hits priority existing =>
          exact ⟨existing, _, _, List.mem_singleton.mpr rfl, fits_catchAll.mpr ⟨rfl, rfl, rfl⟩⟩
      | static label priority existing below =>
          simp only [Node.endsSlash, Bool.and_eq_true, decide_eq_true_eq] at offers
          obtain ⟨hbelow, -, hlabel | ⟨rfl, -⟩⟩ := hsound
          · obtain ⟨b, rfl⟩ := List.length_eq_one_iff.mp offers.1
            obtain rfl : b = slash := (Option.some.inj hlabel).trans hindex
            exact takes_static hbelow (Or.inl ⟨offers.2, rfl⟩)
          · cases offers.1
  · cases offers

/-- A slash that is offered below a label leads to the end of a route. -/
theorem takes_of_offered {below : Below α} (sound : below.Sound)
    (offers : below.offersSlash = true) : Takes below.listing [slash] := by
  cases below with
  | edges es => exact takes_of_offersSlash sound offers
  | param name hits priority existing next => cases offers

/-- A walk along edges follows one of them. -/
theorem respellEdges_eq_some {fix : Bool} {es : List (Edge α)} {path carry : List UInt8}
    {ends : Bool} {spelling : List UInt8}
    (respelled : respellEdges fix es path carry ends = some spelling) :
    ∃ edge ∈ es, edge.1 = carriedByte carry ∧
      edge.2.respell fix path carry ends = some spelling := by
  induction es with
  | nil => cases respelled
  | cons edge es ih =>
      obtain ⟨index, node⟩ := edge
      rw [respellEdges] at respelled
      split at respelled
      · next hindex => exact ⟨_, List.mem_cons_self .., hindex, respelled⟩
      · obtain ⟨edge, hmem, h⟩ := ih respelled
        exact ⟨edge, List.mem_cons_of_mem _ hmem, h⟩

/-- Along the edges the walk takes the one of the carried byte, if there is one. -/
theorem respellEdges_of_index {fix : Bool} {es : List (Edge α)} (keys : (es.map (·.1)).Nodup)
    {edge : Edge α} (inside : edge ∈ es) {path carry : List UInt8} {ends : Bool}
    (index : edge.1 = carriedByte carry) :
    respellEdges fix es path carry ends = edge.2.respell fix path carry ends := by
  induction es with
  | nil => cases inside
  | cons first es ih =>
      obtain ⟨index', node⟩ := first
      rw [List.map_cons, List.nodup_cons] at keys
      rw [respellEdges]
      rcases List.mem_cons.mp inside with rfl | h
      · exact if_pos index
      · have apart : index' ≠ carriedByte carry := fun same =>
          keys.1 (List.mem_map.mpr ⟨edge, h, index.trans same.symm⟩)
        rw [if_neg apart]
        exact ih keys.2 h

/-- The byte of a carry is the slash only where the path has one. -/
theorem Carries.reached {carry path : List UInt8} (carries : Carries carry path)
    (slashed : carriedByte carry = slash) : path.head? = some slash := by
  apply carries.head
  cases carry with
  | nil => cases slashed
  | cons b carry => exact congrArg some slashed

theorem respellsRoutes_along {fix : Bool} {es : List (Edge α)}
    (ih : ∀ edge ∈ es, edge.2.RespellsRoutes fix) (sound : (Below.edges es).Sound)
    {path carry : List UInt8} {ends : Bool} {spelling : List UInt8} (carries : Carries carry path)
    (respelled : respellEdges fix es path carry ends = some spelling) :
    ends = true ∧ spelling = [] ∨ Takes (Below.edges es).listing spelling := by
  obtain ⟨edge, hmem, hindex, hnode⟩ := respellEdges_eq_some respelled
  rcases ih edge hmem edge.1 path carry ends spelling ((Below.sound_edges_iff.mp sound).2 _ hmem)
    carries (fun h => carries.reached (hindex.symm.trans h)) hnode with
      h | ⟨handler, captures, route, hroute, fits⟩
  · exact Or.inl h
  · exact Or.inr ⟨handler, captures, route, mem_listingEdges.mpr ⟨edge, hmem, hroute⟩, fits⟩

/-- At the end of the path the walk stops where a route ends, or offers a slash. -/
theorem respell_end_eq_some {fix : Bool} {below : Below α} {path carry : List UInt8} {n : Nat}
    {ends : Bool} {spelling : List UInt8} (here : path.drop n = [])
    (respelled : below.respell fix path n carry ends = some spelling) :
    ends = true ∧ spelling = [] ∨
      fix = true ∧ below.offersSlash = true ∧ spelling = [slash] := by
  cases below with
  | edges es =>
      rw [Below.respell, here] at respelled
      dsimp only at respelled
      rw [if_pos (by rfl)] at respelled
      split at respelled
      · next hends => exact Or.inl ⟨hends, (Option.some.inj respelled).symm⟩
      · split at respelled
        · next h =>
            rw [Bool.and_eq_true] at h
            exact Or.inr ⟨h.1, h.2, (Option.some.inj respelled).symm⟩
        · cases respelled
  | param name hits priority existing next =>
      rw [Below.respell, here] at respelled
      dsimp only at respelled
      rw [if_pos (by rfl)] at respelled
      split at respelled
      · next hends => exact Or.inl ⟨hends, (Option.some.inj respelled).symm⟩
      · cases respelled

/-- What is carried along the edges from a position on: the rest of a mapped character, or a form
of the character there. -/
def CarriesOn (path : List UInt8) (n : Nat) (carry carried : List UInt8) : Prop :=
  carriedByte (carry.drop n) ≠ 0 ∧ carried = carry.drop n ∨
    carriedByte (carry.drop n) = 0 ∧ ∃ c back, characterAt path n = some (c, back) ∧
      (carried = (Utf8.encodeChar (lower c)).drop back ∨
        carried = (Utf8.encodeChar (upper c)).drop back)

/-- Below a label the walk follows an edge, or gives up the last slash where a route ends. -/
theorem respell_edges_eq_some {fix : Bool} {es : List (Edge α)} {path carry : List UInt8} {n : Nat}
    {ends : Bool} {spelling : List UInt8} (goesOn : path.drop n ≠ [])
    (respelled : (Below.edges es).respell fix path n carry ends = some spelling) :
    (∃ carried, CarriesOn path n carry carried ∧
      respellEdges fix es (path.drop n) carried ends = some spelling) ∨
      (fix = true ∧ path.drop n = [slash]) ∧ ends = true ∧ spelling = [] := by
  have unslashed (h : (if fix && path.drop n = [slash] && ends then some [] else none) =
      some spelling) : (fix = true ∧ path.drop n = [slash]) ∧ ends = true ∧ spelling = [] := by
    split at h
    · next hall =>
        rw [Bool.and_eq_true, Bool.and_eq_true, decide_eq_true_eq] at hall
        exact ⟨hall.1, hall.2, (Option.some.inj h).symm⟩
    · cases h
  rw [Below.respell] at respelled
  dsimp only at respelled
  rw [if_neg (by rwa [List.isEmpty_iff])] at respelled
  split at respelled
  · next hcarry =>
      split at respelled
      · exact Or.inl ⟨_, Or.inl ⟨hcarry, rfl⟩, respelled⟩
      · exact Or.inr (unslashed respelled)
  · next hcarry =>
      rw [not_not] at hcarry
      split at respelled
      · exact Or.inr (unslashed respelled)
      · next c back hfound =>
          split at respelled
          · next low hlow =>
              rw [respelled] at hlow
              exact Or.inl ⟨_, Or.inr ⟨hcarry, c, back, hfound, Or.inl rfl⟩, hlow⟩
          · split at respelled
            · exact Or.inl ⟨_, Or.inr ⟨hcarry, c, back, hfound, Or.inr rfl⟩, respelled⟩
            · exact Or.inr (unslashed respelled)

/-- The empty node in front of a catch-all takes the path as it is. -/
theorem eq_of_respell_doorway {fix : Bool} {name : List UInt8} {hits : CounterId}
    {priority priority' : Nat} {existing : α} {path carry : List UInt8} {ends : Bool}
    {spelling : List UInt8} (goesOn : path ≠ [])
    (respelled : (Node.static [] priority none (Below.edges
      [(slash, Node.catchAll name hits priority' existing)])).respell fix path carry ends =
        some spelling) :
    spelling = path := by
  rw [Node.respell, if_pos (by rfl)] at respelled
  obtain ⟨tail, htail, rfl⟩ := Option.map_eq_some_iff.mp respelled
  have remains : path.drop 0 ≠ [] := goesOn
  rcases respell_edges_eq_some remains htail with ⟨carried, -, hfollowed⟩ | ⟨-, h, -⟩
  · obtain ⟨edge, hedge, -, htaken⟩ := respellEdges_eq_some hfollowed
    rw [List.mem_singleton.mp hedge, Node.respell] at htaken
    exact (Option.some.inj htaken).symm
  · cases h

/-- What is carried on is fit to be carried. -/
theorem Carries.on {path carry carried : List UInt8} {n : Nat}
    (carries : Carries (carry.drop n) (path.drop n)) (on : CarriesOn path n carry carried) :
    Carries carried (path.drop n) := by
  rcases on with ⟨-, rfl⟩ | ⟨-, c, back, hfound, rfl | rfl⟩
  · exact carries
  · exact carries_form @eq_slash_of_lower hfound
  · exact carries_form @eq_slash_of_upper hfound

theorem respellsRoutes_edges {fix : Bool} {es : List (Edge α)}
    (ih : ∀ edge ∈ es, edge.2.RespellsRoutes fix) : (Below.edges es).RespellsRoutes fix := by
  intro path n carry ends spelling sound carries respelled
  by_cases hrest : path.drop n = []
  · rcases respell_end_eq_some hrest respelled with h | ⟨-, hoffers, rfl⟩
    · exact Or.inl h
    · exact Or.inr (takes_of_offersSlash sound hoffers)
  · rcases respell_edges_eq_some hrest respelled with ⟨carried, hon, hfollowed⟩ | ⟨-, h⟩
    · exact respellsRoutes_along ih sound (carries.on hon) hfollowed
    · exact Or.inl h

/-- A value followed by what a route goes on with after a parameter. -/
theorem takes_param {name value : List UInt8} {hits : CounterId} {priority : Nat}
    {existing : Option α} {next : Option (Node α)} {rest : List UInt8} (nonempty : value ≠ [])
    (noSlash : slash ∉ value)
    (taken : existing.isSome = true ∧ rest = [] ∨ Takes (listingNext next) rest) :
    Takes (Below.param name hits priority existing next).listing (value ++ rest) := by
  rcases taken with ⟨hexisting, rfl⟩ | ⟨handler, captures, route, hroute, fits⟩
  · obtain ⟨handler, rfl⟩ := Option.isSome_iff_exists.mp hexisting
    refine ⟨handler, _, _, mem_prependTokens.mpr ⟨[], rfl, ?_⟩, .param nonempty noSlash .done⟩
    exact List.mem_append_left _ (List.mem_singleton.mpr rfl)
  · refine ⟨handler, _, _, mem_prependTokens.mpr ⟨route, rfl, ?_⟩, .param nonempty noSlash fits⟩
    exact List.mem_append_right _ hroute

/-- The node of a lone slash that ends a route takes that slash. -/
theorem takes_lone_slash {node : Node α} (sound : node.Sound slash)
    (lone : (decide (node.label = [slash]) && node.endsSlash) = true) :
    Takes node.listing [slash] := by
  simp only [Bool.and_eq_true, decide_eq_true_eq] at lone
  cases node with
  | catchAll name hits priority existing => cases lone.1
  | static label priority existing below =>
      obtain ⟨hlabel, hends⟩ := lone
      obtain rfl : label = [slash] := hlabel
      rw [Node.endsSlash, Bool.and_eq_true] at hends
      exact takes_static sound.1 (Or.inl ⟨hends.2, rfl⟩)

/-- What the walk puts behind a value: nothing where a route ends, a slash that a route goes on
with, what the next node makes of the rest, or nothing for a last slash that no route has. -/
inductive Trails (fix : Bool) (existing : Option α) (next : Option (Node α)) :
    (after tail : List UInt8) → Prop
  | ends (existent : existing.isSome = true) : Trails fix existing next [] []
  | slashed (fixing : fix = true)
      (lone : next.any (fun node => node.label = [slash] && node.endsSlash) = true) :
      Trails fix existing next [] [slash]
  | next {node : Node α} {after tail : List UInt8} (goesOn : next = some node)
      (respelled : node.respell fix (slash :: after) [] existing.isSome = some tail) :
      Trails fix existing next (slash :: after) tail
  | unslashed (fixing : fix = true) (last : next = none) : Trails fix existing next [slash] []

/-- Below a parameter the walk takes a value as it is. -/
theorem respell_param_eq_some {fix : Bool} {name : List UInt8} {hits : CounterId} {priority : Nat}
    {existing : Option α} {next : Option (Node α)} {path carry : List UInt8} {n : Nat} {ends : Bool}
    {spelling : List UInt8} (goesOn : path.drop n ≠ [])
    (respelled : (Below.param name hits priority existing next).respell fix path n carry ends =
      some spelling) :
    untilSlash (path.drop n) ≠ [] ∧ ∃ tail, spelling = untilSlash (path.drop n) ++ tail ∧
      Trails fix existing next (fromSlash (path.drop n)) tail := by
  rw [Below.respell] at respelled
  dsimp only at respelled
  rw [if_neg (by rwa [List.isEmpty_iff])] at respelled
  split at respelled
  · cases respelled
  · next hvalue =>
      refine ⟨hvalue, ?_⟩
      rcases fromSlash_eq (path.drop n) with hfrom | ⟨after, hfrom⟩
      · rw [hfrom] at respelled ⊢
        dsimp only at respelled
        split at respelled
        · next hexisting =>
            exact ⟨[], by rw [List.append_nil, Option.some.inj respelled], .ends hexisting⟩
        · split at respelled
          · next h =>
              rw [Bool.and_eq_true] at h
              exact ⟨[slash], (Option.some.inj respelled).symm, .slashed h.1 h.2⟩
          · cases respelled
      · rw [hfrom] at respelled ⊢
        cases next with
        | some node =>
            obtain ⟨tail, htail, rfl⟩ := Option.map_eq_some_iff.mp respelled
            exact ⟨tail, rfl, .next rfl htail⟩
        | none =>
            dsimp only at respelled
            split at respelled
            · next h =>
                rw [Bool.and_eq_true, List.isEmpty_iff] at h
                rw [h.2]
                exact ⟨[], by rw [List.append_nil, Option.some.inj respelled],
                  .unslashed h.1 rfl⟩
            · cases respelled

theorem respellsRoutes_param {fix : Bool} {next : Option (Node α)}
    (ih : ∀ node, next = some node → node.RespellsRoutes fix) (name : List UInt8)
    (hits : CounterId) (priority : Nat) (existing : Option α) :
    (Below.param name hits priority existing next).RespellsRoutes fix := by
  intro path n carry ends spelling sound carries respelled
  by_cases hrest : path.drop n = []
  · rcases respell_end_eq_some hrest respelled with h | ⟨-, hoffers, -⟩
    · exact Or.inl h
    · cases hoffers
  · obtain ⟨hvalue, tail, rfl, trails⟩ := respell_param_eq_some hrest respelled
    refine Or.inr (takes_param hvalue (slash_not_mem_untilSlash _) ?_)
    generalize fromSlash (path.drop n) = after at trails
    cases trails with
    | ends hexisting => exact Or.inl ⟨hexisting, rfl⟩
    | slashed _ lone =>
        obtain ⟨node, rfl, hlone⟩ := Option.any_eq_true _ _ |>.mp lone
        exact Or.inr (takes_lone_slash sound.2 hlone)
    | next goesOn htail =>
        subst goesOn
        exact ih _ rfl slash _ [] _ tail sound.2 (carries_nil _) (fun _ => rfl) htail
    | unslashed _ last =>
        refine Or.inl ⟨Option.isSome_iff_ne_none.mpr fun hexisting => ?_, rfl⟩
        exact sound.1 hexisting last

/-- Whatever the corrector puts together fits a route of the tree. -/
theorem respell_takes (fix : Bool) :
    (∀ node : Node α, node.RespellsRoutes fix) ∧ ∀ below : Below α, below.RespellsRoutes fix := by
  refine tree_induction ?static ?catchAll ?edges ?param
  case static =>
    intro label priority existing below ih
    exact respellsRoutes_static ih label priority existing
  case catchAll => exact respellsRoutes_catchAll fix
  case edges =>
    intro es ih
    exact respellsRoutes_edges ih
  case param =>
    intro name hits priority existing next ih
    exact respellsRoutes_param ih name hits priority existing

/-- The corrector answers with what the walk puts together from the first slash on, if that is
text. -/
theorem Node.respelling?_eq_some_iff {tree : Node α} {path corrected : String} {fix : Bool} :
    tree.respelling? path fix = some corrected ↔
      ∃ rest, Utf8.encode path = slash :: rest ∧
        tree.respell fix (slash :: rest) [] false = some (Utf8.encode corrected) := by
  unfold Node.respelling?
  cases hpath : Utf8.encode path with
  | nil => exact ⟨nofun, fun ⟨_, h, _⟩ => nomatch h⟩
  | cons b rest =>
      dsimp only
      by_cases hslash : b = slash
      · subst hslash
        rw [if_pos rfl, Option.bind_eq_some_iff]
        constructor
        · rintro ⟨spelling, hspelling, hdecoded⟩
          rw [Utf8.decode?_eq_some_iff.mp hdecoded]
          exact ⟨rest, rfl, hspelling⟩
        · rintro ⟨rest, hrest, hspelling⟩
          rw [(List.cons.inj hrest).2]
          exact ⟨_, hspelling, Utf8.decode?_eq_some_iff.mpr rfl⟩
      · rw [if_neg hslash]
        exact ⟨nofun, fun ⟨_, h, _⟩ => absurd (List.cons.inj h).1 hslash⟩

end RadixRouter

/-
# Empty nodes in front of a catch-all

A catch-all that a route brings to the end of other text, or to a parameter, is put behind a node
with an empty label; one that comes with literal text of its own hangs below that text at once.
The two look the same to a path that goes on with a slash, and different to one that ends before
it.

`Node.doorways` lists the ways from a node to its empty nodes.  A route adds a way exactly when
it is a catch-all, and the text before its slash ends in a parameter or is already in the tree.
-/

import RadixRouter.Proofs.Conflict
import RadixRouter.Proofs.Insertion

namespace RadixRouter

open Pattern (Proper head_byte_ne_catchAll)

variable {α : Type}

/-- A literal node without text. -/
def Node.isDoorway : Node α → Bool
  | .static [] _ _ _ => true
  | _ => false

mutual

/-- The tokens from a node down to each empty node in front of a catch-all. -/
def Node.doorways : Node α → List (List Token)
  | .static label _ _ below => below.doorways.map (label.map .byte ++ ·)
  | .catchAll .. => []

/-- The same from below a label. -/
def Below.doorways : Below α → List (List Token)
  | .edges es => doorwaysEdges es
  | .param name _ _ _ next => (doorwaysNext next).map (.param name :: ·)

def doorwaysEdges : List (UInt8 × Node α) → List (List Token)
  | [] => []
  | (_, node) :: es => (if node.isDoorway then [[]] else node.doorways) ++ doorwaysEdges es

/-- After a parameter a catch-all is in the place of its empty node. -/
def doorwaysNext : Option (Node α) → List (List Token)
  | none => []
  | some node => if node.label = [] then [[]] else node.doorways

end

theorem mem_doorwaysEdges {es : List (Edge α)} {way : List Token} :
    way ∈ doorwaysEdges es ↔
      ∃ edge ∈ es, way ∈ if edge.2.isDoorway then [[]] else edge.2.doorways := by
  induction es with
  | nil => simp [doorwaysEdges]
  | cons edge es ih =>
      rw [doorwaysEdges, List.mem_append, ih]
      simp

theorem mem_doorways_static {label : List UInt8} {priority : Nat} {existing : Option α}
    {below : Below α} {way : List Token} :
    way ∈ (Node.static label priority existing below).doorways ↔
      ∃ tail ∈ below.doorways, label.map .byte ++ tail = way := by
  rw [Node.doorways, List.mem_map]

theorem mem_doorways_param {name : List UInt8} {hits : CounterId} {priority : Nat}
    {existing : Option α} {next : Option (Node α)} {way : List Token} :
    way ∈ (Below.param name hits priority existing next).doorways ↔
      ∃ tail ∈ doorwaysNext next, .param name :: tail = way := by
  rw [Below.doorways, List.mem_map]

/-- An empty node is one in front of a catch-all, and has no other below it. -/
theorem Node.Sound.doorways_eq_nil {index : UInt8} {node : Node α} (sound : node.Sound index)
    (empty : node.label = []) : node.doorways = [] := by
  cases node with
  | catchAll name hits priority existing => rfl
  | static label priority existing below =>
      obtain rfl : label = [] := empty
      obtain ⟨-, -, hlabel | ⟨-, -, -, name, hits, priority', existing', rfl⟩⟩ := sound
      · cases hlabel
      · rfl

/-- The ways from a node start with the byte that leads to it. -/
theorem Node.Sound.head_doorways {index : UInt8} {node : Node α} (sound : node.Sound index)
    {way : List Token} (leads : way ∈ node.doorways) : ∃ tail, way = .byte index :: tail := by
  cases hlabel : node.label with
  | nil =>
      rw [sound.doorways_eq_nil hlabel] at leads
      cases leads
  | cons b label =>
      cases node with
      | catchAll name hits priority existing => cases leads
      | static label' priority existing below =>
          obtain rfl : label' = b :: label := hlabel
          obtain ⟨tail, -, rfl⟩ := mem_doorways_static.mp leads
          obtain ⟨-, -, h | ⟨h, -⟩⟩ := sound
          · obtain rfl : b = index := Option.some.inj h
            exact ⟨label.map .byte ++ tail, rfl⟩
          · cases h

/-- No way goes through a catch-all. -/
theorem Below.Sound.head_doorways_ne_catchAll {below : Below α} (sound : below.Sound)
    {way : List Token} (leads : way ∈ below.doorways) (name : List UInt8) :
    way.head? ≠ some (.catchAll name) := by
  cases below with
  | edges es =>
      obtain ⟨edge, hedge, hway⟩ := mem_doorwaysEdges.mp leads
      split at hway
      · rw [List.mem_singleton.mp hway]
        exact nofun
      · obtain ⟨tail, rfl⟩ := ((Below.sound_edges_iff.mp sound).2 edge hedge).head_doorways hway
        exact nofun
  | param name' hits priority existing next =>
      obtain ⟨tail, -, rfl⟩ := mem_doorways_param.mp leads
      exact nofun

/-- After a parameter, a way ends or goes on with a slash. -/
theorem head_doorwaysNext {next : Option (Node α)} (sound : soundNext next) {way : List Token}
    (leads : way ∈ doorwaysNext next) : ∀ token ∈ way.head?, token = .byte slash := by
  cases next with
  | none => cases leads
  | some node =>
      rw [doorwaysNext] at leads
      split at leads
      · rw [List.mem_singleton.mp leads]
        exact nofun
      · obtain ⟨tail, rfl⟩ := Node.Sound.head_doorways sound leads
        intro token htoken
        exact (Option.some.inj htoken).symm

/-- Whether tokens end with a parameter. -/
def EndsParam (way : List Token) : Prop := ∃ name, way.getLast? = some (.param name)

theorem not_endsParam_nil : ¬ EndsParam [] := nofun

theorem endsParam_cons {token : Token} {way : List Token} :
    EndsParam (token :: way) ↔ (way = [] ∧ ∃ name, token = .param name) ∨ EndsParam way := by
  cases way with
  | nil => simp [EndsParam]
  | cons token' way => simp [EndsParam]

theorem endsParam_literal_append {label : List UInt8} {way : List Token} :
    EndsParam (label.map .byte ++ way) ↔ EndsParam way := by
  induction label with
  | nil => rfl
  | cons b label ih =>
      rw [List.map_cons, List.cons_append, endsParam_cons, ih]
      simp

/-- Whether a route that was accepted is a catch-all whose slash comes after these tokens, and they
end with a parameter or are in the tree. -/
def Opens (held : List Token → Prop) (verdict : Except Clash CounterId)
    (route way : List Token) : Prop :=
  (∃ used, verdict = .ok used) ∧
    ∃ name, route = way ++ [.byte slash, .catchAll name] ∧ (EndsParam way ∨ held way)

/-- Whether a listed route starts with these tokens. -/
def Begun (listing : List (List Token × α)) (way : List Token) : Prop :=
  ∃ old ∈ listing, way <+: old.1

theorem not_opens_error {held : List Token → Prop} {clash : Clash} {route way : List Token} :
    ¬ Opens held (.error clash) route way := by
  rintro ⟨⟨used, h⟩, -⟩
  cases h

/-- A route that does not end with a catch-all opens nothing. -/
theorem not_opens_literal {held : List Token → Prop} {verdict : Except Clash CounterId}
    {label : List UInt8} {way : List Token} : ¬ Opens held verdict (label.map .byte) way := by
  rintro ⟨-, name, h, -⟩
  have hmem : Token.catchAll name ∈ label.map Token.byte := by
    rw [h]
    simp
  obtain ⟨b, -, hb⟩ := List.mem_map.mp hmem
  cases hb

theorem begun_prependTokens {tokens tail : List Token} {listing : List (List Token × α)} :
    Begun (prependTokens tokens listing) (tokens ++ tail) ↔ Begun listing tail := by
  constructor
  · rintro ⟨⟨route, handler⟩, hroute, hprefix⟩
    obtain ⟨rest, rfl, hmem⟩ := mem_prependTokens.mp hroute
    exact ⟨_, hmem, (List.prefix_append_right_inj tokens).mp hprefix⟩
  · rintro ⟨⟨route, handler⟩, hroute, hprefix⟩
    exact ⟨_, mem_prependTokens.mpr ⟨route, rfl, hroute⟩,
      (List.prefix_append_right_inj tokens).mpr hprefix⟩

theorem begun_ending {existing : Option α} {listing : List (List Token × α)} {tail : List Token}
    (nonempty : existing.toList.map (([], ·)) ++ listing ≠ []) :
    Begun (existing.toList.map (([], ·)) ++ listing) tail ↔ tail = [] ∨ Begun listing tail := by
  constructor
  · rintro ⟨⟨route, handler⟩, hroute, hprefix⟩
    rcases List.mem_append.mp hroute with h | h
    · obtain ⟨_, -, heq⟩ := List.mem_map.mp h
      cases heq
      exact Or.inl (List.prefix_nil.mp hprefix)
    · exact Or.inr ⟨_, h, hprefix⟩
  · rintro (rfl | ⟨route, hroute, hprefix⟩)
    · obtain ⟨route, hroute⟩ := List.exists_mem_of_ne_nil _ nonempty
      exact ⟨route, hroute, List.nil_prefix⟩
    · exact ⟨route, List.mem_append_right _ hroute, hprefix⟩

/-- What is in the tree along an edge is in the tree below the edges. -/
theorem begun_along {es : List (Edge α)} {edge : Edge α} {tail : List Token}
    (sound : (Below.edges es).Sound) (inside : edge ∈ es) :
    Begun (listingEdges es) (.byte edge.1 :: tail) ↔
      Begun edge.2.listing (.byte edge.1 :: tail) := by
  obtain ⟨hkeys, hsound⟩ := Below.sound_edges_iff.mp sound
  constructor
  · rintro ⟨old, hold, hprefix⟩
    obtain ⟨other, hother, hlisted⟩ := mem_listingEdges.mp hold
    obtain ⟨rest, hrest⟩ := (hsound other hother).head_listing hlisted
    have hindex : edge.1 = other.1 := by
      rw [hrest] at hprefix
      exact Token.byte.inj (List.cons_prefix_cons.mp hprefix).1
    obtain rfl : edge = other := List.inj_on_of_nodup_map hkeys inside hother hindex
    exact ⟨old, hlisted, hprefix⟩
  · rintro ⟨old, hold, hprefix⟩
    exact ⟨old, mem_listingEdges.mpr ⟨edge, inside, hold⟩, hprefix⟩

theorem isDoorway_eq_true_iff {node : Node α} :
    node.isDoorway = true ↔
      ∃ priority existing below, node = .static [] priority existing below := by
  cases node with
  | catchAll name hits priority existing => simp [Node.isDoorway]
  | static label priority existing below => cases label <;> simp [Node.isDoorway]

/-- A chain of nodes starts with an empty node exactly where its route starts with a catch-all. -/
theorem label_ofTokens_byte (handler : α) (b : UInt8) (rest : List Token) (fresh : CounterId)
    {slashed : Bool} (proper : Proper slashed (.byte b :: rest)) :
    (Node.ofTokens handler (.byte b :: rest) fresh).1.label = [] ↔
      ∃ name, (.byte b :: rest : List Token) = [.byte slash, .catchAll name] := by
  cases rest with
  | nil => simp [Node.ofTokens, Node.prepend, Node.label]
  | cons token rest =>
      cases token with
      | catchAll name =>
          obtain ⟨-, hslash, -, rfl⟩ := proper
          simp [Node.ofTokens, Node.label, of_decide_eq_true hslash]
      | byte c =>
          obtain ⟨label, existing, below, hnode⟩ :=
            exists_ofTokens_eq handler (.byte c :: rest) fresh
          simp [Node.ofTokens, hnode, Node.prepend, Node.label]
      | param name =>
          obtain ⟨label, existing, below, hnode⟩ :=
            exists_ofTokens_eq handler (.param name :: rest) fresh
          simp [Node.ofTokens, hnode, Node.prepend, Node.label]

/-- Tokens that end with a parameter start as the route does that goes on after them. -/
theorem exists_of_catchAll_append {token : Token} {rest way : List Token} {last : List UInt8}
    (route : token :: rest = way ++ [.byte slash, .catchAll last]) (ends : EndsParam way) :
    ∃ tail, way = token :: tail := by
  cases way with
  | nil => exact absurd ends not_endsParam_nil
  | cons token' way => exact ⟨way, by rw [(List.cons.inj route).1]⟩

/-- A way that goes on after a parameter. -/
theorem exists_catchAll_param_iff {name : List UInt8} {rest way : List Token} :
    (∃ last, .param name :: rest = .param name :: way ++ [.byte slash, .catchAll last] ∧
        EndsParam (.param name :: way)) ↔
      (way = [] ∧ ∃ last, rest = [.byte slash, .catchAll last]) ∨
        ∃ last, rest = way ++ [.byte slash, .catchAll last] ∧ EndsParam way := by
  simp only [endsParam_cons, List.cons_append, List.cons.injEq, true_and]
  constructor
  · rintro ⟨last, hrest, ⟨rfl, -⟩ | h⟩
    · exact Or.inl ⟨rfl, last, hrest⟩
    · exact Or.inr ⟨last, hrest, h⟩
  · rintro (⟨rfl, last, hrest⟩ | ⟨last, hrest, h⟩)
    · exact ⟨last, hrest, Or.inl ⟨rfl, name, rfl⟩⟩
    · exact ⟨last, hrest, Or.inr h⟩

/-- What a new node after a parameter opens. -/
theorem mem_doorwaysNext_ofTokens {handler : α} {b : UInt8} {rest : List Token}
    {fresh : CounterId} {slashed : Bool} (proper : Proper slashed (.byte b :: rest))
    {way : List Token}
    (ih : way ∈ (Node.ofTokens handler (.byte b :: rest) fresh).1.doorways ↔
      ∃ last, .byte b :: rest = way ++ [.byte slash, .catchAll last] ∧ EndsParam way) :
    way ∈ doorwaysNext (some (Node.ofTokens handler (.byte b :: rest) fresh).1) ↔
      (way = [] ∧ ∃ last, (.byte b :: rest : List Token) = [.byte slash, .catchAll last]) ∨
        ∃ last, .byte b :: rest = way ++ [.byte slash, .catchAll last] ∧ EndsParam way := by
  have hempty := label_ofTokens_byte handler b rest fresh proper
  rw [doorwaysNext]
  split
  · next h =>
      obtain ⟨name, hname⟩ := hempty.mp h
      rw [hname, List.mem_singleton]
      constructor
      · rintro rfl
        exact Or.inl ⟨rfl, name, rfl⟩
      · rintro (⟨rfl, -⟩ | ⟨last, hway, hends⟩)
        · rfl
        · have hlength := congrArg List.length hway
          simp only [List.length_append, List.length_cons, List.length_nil] at hlength
          exact List.length_eq_zero_iff.mp (by omega)
  · next h =>
      rw [ih]
      constructor
      · exact Or.inr
      · rintro (⟨-, hlast⟩ | hways)
        · exact absurd (hempty.mpr hlast) h
        · exact hways

/-- The chain of nodes of a route has an empty node where a catch-all follows a parameter. -/
theorem mem_doorways_ofTokens (handler : α) (rest : List Token) (fresh : CounterId)
    {slashed : Bool} (proper : Proper slashed rest)
    (literal : ∀ name, rest.head? ≠ some (.catchAll name)) {way : List Token} :
    way ∈ (Node.ofTokens handler rest fresh).1.doorways ↔
      ∃ last, rest = way ++ [.byte slash, .catchAll last] ∧ EndsParam way := by
  fun_induction Node.ofTokens handler rest fresh generalizing slashed way with
  | case1 fresh => simp [Node.doorways, Below.doorways, doorwaysEdges]
  | case2 name rest fresh => exact absurd rfl (literal name)
  | case3 name fresh =>
      constructor
      · intro h
        simp [Node.doorways, Below.doorways, doorwaysNext] at h
      · rintro ⟨last, hway, -⟩
        have hlength := congrArg List.length hway
        simp at hlength
  | case4 name rest fresh hrest next fresh' heq ih =>
      obtain ⟨-, hslash, hproper⟩ := proper
      obtain ⟨token, rest, rfl⟩ := List.exists_cons_of_ne_nil hrest
      obtain rfl : token = .byte slash := hslash token rfl
      have hnext {way : List Token} :=
        mem_doorwaysNext_ofTokens hproper (@ih true hproper (head_byte_ne_catchAll _ _) way)
      rw [heq] at hnext
      rw [mem_doorways_static]
      simp only [mem_doorways_param, List.map_nil, List.nil_append, exists_eq_right]
      constructor
      · rintro ⟨tail, htail, rfl⟩
        exact exists_catchAll_param_iff.mpr (hnext.mp htail)
      · rintro ⟨last, hway, hends⟩
        obtain ⟨tail, rfl⟩ := exists_of_catchAll_append hway hends
        exact ⟨tail, hnext.mpr (exists_catchAll_param_iff.mp ⟨last, hway, hends⟩), rfl⟩
  | case5 b name rest fresh ih =>
      obtain ⟨-, hslash, -, rfl⟩ := proper
      constructor
      · intro h
        simp [Node.ofTokens, Node.doorways, Below.doorways, doorwaysEdges, Node.isDoorway] at h
      · rintro ⟨last, hway, hends⟩
        have hlength := congrArg List.length hway
        obtain rfl : way = [] := by simpa using hlength
        exact absurd hends not_endsParam_nil
  | case6 b rest fresh hrest node fresh' heq ih =>
      have hhead : ∀ name, rest.head? ≠ some (.catchAll name) := by
        intro name h
        obtain ⟨rest', rfl⟩ := List.head?_eq_some_iff.mp h
        exact hrest name rest' rfl
      have hnode {way : List Token} := @ih _ proper.2 hhead way
      obtain ⟨label, existing, below, hshape⟩ := exists_ofTokens_eq handler rest fresh
      rw [heq] at hnode hshape
      dsimp only at hnode hshape ⊢
      rw [hshape] at hnode ⊢
      simp only [mem_doorways_static] at hnode
      rw [Node.prepend, mem_doorways_static]
      constructor
      · rintro ⟨tail, htail, rfl⟩
        obtain ⟨last, hrest, hends⟩ := hnode.mp ⟨tail, htail, rfl⟩
        exact ⟨last, congrArg (.byte b :: ·) hrest, endsParam_cons.mpr (Or.inr hends)⟩
      · rintro ⟨last, hway, hends⟩
        obtain ⟨way, rfl⟩ := exists_of_catchAll_append hway hends
        have hends' : EndsParam way := by simpa [endsParam_cons] using hends
        obtain ⟨tail, htail, rfl⟩ := hnode.mpr ⟨last, (List.cons.inj hway).2, hends'⟩
        exact ⟨tail, htail, rfl⟩

end RadixRouter

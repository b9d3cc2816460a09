/-
# Grafts that open empty nodes

A graft adds an empty node in front of a catch-all exactly where the new route opens one, and keeps
all that were there.  The law is shown of each kind of node and then of all trees; ranking edges
and counting afresh do not touch it, so it is the law of an insertion too.
-/

import RadixRouter.Proofs.Doorways

namespace RadixRouter

open Pattern (Proper head_byte_ne_catchAll)

variable {α : Type}

section Refused

variable {handler : α} {fresh used : CounterId} {name : List UInt8} {rest : List Token}

/-- A catch-all does not go on right after a label. -/
theorem graft_catchAll_refused (below : Below α) :
    (below.graft handler fresh (.catchAll name :: rest)).verdict ≠ .ok used := by
  cases below with
  | edges es => exact nofun
  | param name' hits priority existing next =>
      have hother : (.catchAll name : Token) ≠ .param name' := nofun
      obtain ⟨clash, hclash, -⟩ := graft_param_clash hother
      rw [hclash]
      exact nofun

/-- Nothing goes on where an empty node leads to a catch-all. -/
theorem graft_doorway_refused {index : UInt8} {node : Node α} (sound : node.Sound index)
    (empty : node.label = []) (head : rest.head? = some (.byte index)) :
    (node.graft handler fresh rest).verdict ≠ .ok used := by
  cases node with
  | catchAll name' hits priority existing => exact nofun
  | static label priority existing below =>
      obtain rfl : label = [] := empty
      obtain ⟨-, -, hlabel | ⟨-, rfl, -, name', hits, priority', existing', rfl⟩⟩ := sound
      · cases hlabel
      · obtain ⟨rest, rfl⟩ := List.head?_eq_some_iff.mp head
        exact nofun

/-- A catch-all has no place where its slash already leads on. -/
theorem graft_lone_catchAll_refused {node : Node α} (sound : node.Sound slash) :
    (node.graft handler fresh [.byte slash, .catchAll name]).verdict ≠ .ok used := by
  cases node with
  | catchAll name' hits priority existing => exact nofun
  | static label priority existing below =>
      cases label with
      | nil => exact graft_doorway_refused sound rfl rfl
      | cons b suffix =>
          obtain ⟨-, -, hlabel | ⟨h, -⟩⟩ := sound
          · obtain rfl : b = slash := Option.some.inj hlabel
            have hmet : overlap (slash :: suffix) [.byte slash, .catchAll name] =
                ([slash], suffix, [.catchAll name]) := by
              rw [overlap, if_pos rfl]
              cases suffix <;> rfl
            cases suffix with
            | nil =>
                rw [graft_below hmet]
                exact graft_catchAll_refused below
            | cons c suffix =>
                rw [graft_cut_sprout hmet]
                exact nofun
          · cases h

end Refused

/-- Tokens that a label has led to, or that routes below it start with. -/
def Reached (listing : List (List Token × α)) (way : List Token) : Prop :=
  way = [] ∨ Begun listing way

/-- What a route opens below a label, seen from above the label. -/
theorem opens_literal {label : List UInt8} {existing : Option α}
    {listing : List (List Token × α)} {verdict : Except Clash CounterId} {rest way : List Token}
    (nonempty : existing.toList.map (([], ·)) ++ listing ≠ []) (goesOn : rest ≠ [])
    (refused : ∀ name used, rest = [.catchAll name] → verdict ≠ .ok used) :
    Opens (Begun (prependTokens (label.map .byte) (existing.toList.map (([], ·)) ++ listing)))
        verdict (label.map .byte ++ rest) way ↔
      ∃ tail, Opens (Reached listing) verdict rest tail ∧ label.map .byte ++ tail = way := by
  constructor
  · rintro ⟨⟨used, hused⟩, last, hroute, hheld⟩
    rcases List.append_eq_append_iff.mp hroute with ⟨tail, rfl, hrest⟩ | ⟨tail, hlabel, hlast⟩
    · rw [endsParam_literal_append, begun_prependTokens, begun_ending nonempty] at hheld
      exact ⟨tail, ⟨⟨used, hused⟩, last, hrest, hheld⟩, rfl⟩
    · -- the slash of the catch-all would be the end of the label
      cases tail with
      | nil =>
          rw [List.append_nil] at hlabel
          exact ⟨[], ⟨⟨used, hused⟩, last, hlast.symm, Or.inr (Or.inl rfl)⟩,
            (List.append_nil _).trans hlabel⟩
      | cons token tail =>
          obtain ⟨-, htail⟩ := List.cons.inj hlast
          cases tail with
          | nil => exact absurd hused (refused last used htail.symm)
          | cons token' tail =>
              exact absurd (List.append_eq_nil_iff.mp (List.cons.inj htail).2.symm).2 goesOn
  · rintro ⟨tail, ⟨hused, last, rfl, hheld⟩, rfl⟩
    refine ⟨hused, last, (List.append_assoc _ _ _).symm, ?_⟩
    rwa [endsParam_literal_append, begun_prependTokens, begun_ending nonempty]

/-- What a route opens that no other route here starts like. -/
theorem opens_apart {listing : List (List Token × α)} {used : CounterId} {route way : List Token}
    (apart : ∀ old ∈ listing, old.1.head? ≠ route.head?) :
    Opens (Reached listing) (.ok used) route way ↔
      (way = [] ∧ ∃ last, route = [.byte slash, .catchAll last]) ∨
        ∃ last, route = way ++ [.byte slash, .catchAll last] ∧ EndsParam way := by
  constructor
  · rintro ⟨-, last, rfl, hends | rfl | ⟨old, hold, hprefix⟩⟩
    · exact Or.inr ⟨last, rfl, hends⟩
    · exact Or.inl ⟨rfl, last, rfl⟩
    · cases way with
      | nil => exact Or.inl ⟨rfl, last, rfl⟩
      | cons token way =>
          obtain ⟨rest, hrest⟩ := hprefix
          refine absurd ?_ (apart old hold)
          rw [← hrest]
          rfl
  · rintro (⟨rfl, last, hroute⟩ | ⟨last, hroute, hends⟩)
    · exact ⟨⟨used, rfl⟩, last, hroute, Or.inr (Or.inl rfl)⟩
    · exact ⟨⟨used, rfl⟩, last, hroute, Or.inl hends⟩

/-- For a literal node it makes no difference what leads to it. -/
theorem doorwaysNext_static {label : List UInt8} {priority : Nat} {existing : Option α}
    {below : Below α} :
    doorwaysNext (some (.static label priority existing below)) =
      if (Node.static label priority existing below).isDoorway then [[]]
      else (Node.static label priority existing below).doorways := by
  cases label <;> rfl

theorem mem_doorways_sprout {handler : α} {fresh : CounterId} {es : List (Edge α)}
    {rest : List Token} {slashed : Bool} (sound : (Below.edges es).Sound)
    (proper : Proper slashed rest) (goesOn : rest ≠ [])
    (free : ∀ b, rest.head? = some (.byte b) → b ∉ es.map (·.1)) {way : List Token} :
    way ∈ (sprout handler fresh es rest).tree.doorways ↔
      way ∈ doorwaysEdges es ∨
        Opens (Reached (listingEdges es)) (sprout handler fresh es rest).verdict rest way := by
  cases rest with
  | nil => exact absurd rfl goesOn
  | cons token rest =>
      cases token with
      | catchAll name => exact (or_iff_left not_opens_error).symm
      | param name =>
          cases es with
          | cons edge es => exact (or_iff_left not_opens_error).symm
          | nil =>
              have hnode :
                  way ∈ (Node.ofTokens handler (.param name :: rest) fresh).1.doorways ↔ _ :=
                mem_doorways_ofTokens handler (.param name :: rest) fresh proper
                  (Pattern.head_param_ne_catchAll name rest)
              obtain ⟨hits, existing, next, hshape⟩ := ofTokens_param handler name rest fresh
              have hunder : (Node.ofTokens handler (.param name :: rest) fresh).1.under.doorways =
                  (Node.ofTokens handler (.param name :: rest) fresh).1.doorways := by
                rw [hshape, Node.doorways]
                exact (List.map_id _).symm
              show way ∈ (Node.ofTokens handler (.param name :: rest) fresh).1.under.doorways ↔
                way ∈ [] ∨ Opens (Reached []) (.ok _) (.param name :: rest) way
              rw [hunder, hnode, opens_apart fun _ h => absurd h List.not_mem_nil]
              simp
      | byte b =>
          have apart : ∀ old ∈ listingEdges es,
              old.1.head? ≠ (.byte b :: rest : List Token).head? := by
            intro old hold
            obtain ⟨edge, hedge, tail, htail⟩ := sound.head_listing_edges hold
            rw [htail, List.head?_cons, List.head?_cons]
            intro h
            cases h
            exact free edge.1 rfl (List.mem_map.mpr ⟨edge, hedge, rfl⟩)
          show way ∈ doorwaysEdges (raise b (es ++ [(b, _)])) ↔
            way ∈ doorwaysEdges es ∨ Opens (Reached _) (.ok _) (.byte b :: rest) way
          rw [opens_apart apart, ← mem_doorwaysNext_ofTokens proper
            (mem_doorways_ofTokens handler _ fresh proper (head_byte_ne_catchAll b rest))]
          obtain ⟨label, existing, below, hshape⟩ :=
            exists_ofTokens_eq handler (.byte b :: rest) fresh
          rw [hshape, doorwaysNext_static, ← hshape]
          rw [mem_doorwaysEdges, mem_doorwaysEdges]
          simp only [(raise_perm b _).mem_iff, List.mem_append, List.mem_singleton, or_and_right,
            exists_or, exists_eq_left]

/-- A graft keeps the text of a node from being empty, and from becoming empty. -/
theorem label_graft {handler : α} {fresh : CounterId} {index : UInt8} {node : Node α}
    {rest : List Token} (sound : node.Sound index) (head : rest.head? = some (.byte index)) :
    ((node.graft handler fresh rest).tree.label = [] ↔ node.label = []) ∧
      (node.graft handler fresh rest).tree.isDoorway = node.isDoorway := by
  cases node with
  | catchAll name hits priority existing => exact ⟨Iff.rfl, rfl⟩
  | static label priority existing below =>
      rcases hmet : overlap label rest with ⟨common, label', rest'⟩
      obtain ⟨hlabel, -, -⟩ := overlap_eq hmet
      cases label' with
      | nil =>
          cases rest' with
          | nil =>
              rw [graft_here hmet]
              cases existing <;> cases label <;> exact ⟨Iff.rfl, rfl⟩
          | cons token rest' =>
              rw [graft_below hmet]
              cases label <;> exact ⟨Iff.rfl, rfl⟩
      | cons b suffix =>
          have hcommon := head_common hmet sound head
          cases common with
          | nil => cases hcommon
          | cons c common =>
              subst hlabel
              cases rest' with
              | nil =>
                  rw [graft_cut_end hmet]
                  exact ⟨iff_of_false nofun nofun, rfl⟩
              | cons token rest' =>
                  rw [graft_cut_sprout hmet]
                  exact ⟨iff_of_false nofun nofun, rfl⟩

/-- A graft onto a node leads to the empty nodes that it led to, and to the one that its route
opens. -/
def Node.KeepsDoorways (handler : α) (node : Node α) : Prop :=
  ∀ (index : UInt8) (fresh : CounterId) (rest : List Token) (slashed : Bool) (way : List Token),
    node.Sound index → Proper slashed rest → rest.head? = some (.byte index) →
      (way ∈ (node.graft handler fresh rest).tree.doorways ↔
        way ∈ node.doorways ∨
          Opens (Begun node.listing) (node.graft handler fresh rest).verdict rest way)

/-- The same of a graft below a label. -/
def Below.KeepsDoorways (handler : α) (below : Below α) : Prop :=
  ∀ (fresh : CounterId) (rest : List Token) (slashed : Bool) (way : List Token),
    below.Sound → Proper slashed rest → rest ≠ [] →
      (way ∈ (below.graft handler fresh rest).tree.doorways ↔
        way ∈ below.doorways ∨
          Opens (Reached below.listing) (below.graft handler fresh rest).verdict rest way)

/-- From what is below a label to the node of the label. -/
theorem mem_doorways_literal {label : List UInt8} {priority priority' : Nat}
    {existing existing' : Option α} {below below' : Below α} {verdict : Except Clash CounterId}
    {rest : List Token} (goesOn : rest ≠ [])
    (nonempty : existing.toList.map (([], ·)) ++ below.listing ≠ [])
    (refused : ∀ name used, rest = [.catchAll name] → verdict ≠ .ok used)
    (law : ∀ way, way ∈ below'.doorways ↔
      way ∈ below.doorways ∨ Opens (Reached below.listing) verdict rest way) (way : List Token) :
    way ∈ (Node.static label priority' existing' below').doorways ↔
      way ∈ (Node.static label priority existing below).doorways ∨
        Opens (Begun (Node.static label priority existing below).listing) verdict
          (label.map .byte ++ rest) way := by
  rw [mem_doorways_static, mem_doorways_static, Node.listing,
    opens_literal nonempty goesOn refused, ← exists_or]
  simp only [law, or_and_right]

/-- A cut label leads where the whole label led. -/
theorem doorways_cut (common : List UInt8) (b : UInt8) (suffix : List UInt8) (priority : Nat)
    (existing : Option α) (below : Below α) (priority' : Nat) (existing' : Option α) :
    (Node.static (common ++ b :: suffix) priority existing below).doorways =
      (Node.static common priority' existing'
        (.edges [(b, .static (b :: suffix) priority existing below)])).doorways := by
  simp [Node.doorways, Below.doorways, doorwaysEdges, Node.isDoorway]

theorem keepsDoorways_static {handler : α} {below : Below α} (ih : below.KeepsDoorways handler)
    (label : List UInt8) (priority : Nat) (existing : Option α) :
    (Node.static label priority existing below).KeepsDoorways handler := by
  intro index fresh rest slashed way sound proper head
  have hlisted := listing_ne_nil.1 _ index sound
  obtain ⟨hbelow, hroute, -⟩ := sound
  rcases hmet : overlap label rest with ⟨common, label', rest'⟩
  obtain ⟨hlabel, hrest, -⟩ := overlap_eq hmet
  rw [hrest] at proper
  obtain ⟨slashed', proper'⟩ := Proper.drop_literal proper
  cases label' with
  | nil =>
      rw [List.append_nil] at hlabel
      subst hlabel
      cases rest' with
      | nil =>
          rw [graft_here hmet, hrest, List.append_nil]
          cases existing <;> exact (or_iff_left not_opens_literal).symm
      | cons token rest' =>
          rw [graft_below hmet]
          dsimp only
          rw [hrest]
          refine mem_doorways_literal (List.cons_ne_nil _ _) ?_ ?_
            (fun way => ih fresh _ slashed' way hbelow proper' (List.cons_ne_nil _ _)) way
          · intro hnone
            rw [Node.listing, hnone] at hlisted
            exact hlisted rfl
          · rintro name used hname
            rw [hname]
            exact graft_catchAll_refused below
  | cons b suffix =>
      subst hlabel
      cases rest' with
      | nil =>
          rw [graft_cut_end hmet, hrest, List.append_nil, doorways_cut]
          exact (or_iff_left not_opens_literal).symm
      | cons token rest' =>
          have hlower : (Below.edges [(b, .static (b :: suffix) priority existing below)]).Sound :=
            sound_cut hbelow hroute
          have hlisted' := listing_ne_nil.2 _ hlower (edges_cons_ne_nil _ _)
          rw [graft_cut_sprout hmet, listing_cut, ← Below.listing,
            ← listing_static_none common priority, doorways_cut common b suffix priority existing
              below priority none, hrest]
          refine mem_doorways_literal (List.cons_ne_nil _ _) ?_ ?_ (fun way => ?_) way
          · exact hlisted'
          · rintro name used hname
            rw [hname]
            intro accepted
            cases accepted
          · exact mem_doorways_sprout hlower proper' (List.cons_ne_nil _ _) (free_of_overlap hmet)

/-- A catch-all that is accepted at a node has text before its slash there. -/
theorem not_opens_nil {handler : α} {fresh : CounterId} {index : UInt8} {node : Node α}
    {held : List Token → Prop} {rest : List Token} (sound : node.Sound index)
    (head : rest.head? = some (.byte index)) :
    ¬ Opens held (node.graft handler fresh rest).verdict rest [] := by
  rintro ⟨⟨used, hused⟩, last, rfl, -⟩
  obtain rfl : slash = index := Token.byte.inj (Option.some.inj head)
  exact graft_lone_catchAll_refused sound hused

theorem reached_cons {listing : List (List Token × α)} {token : Token} {tail : List Token} :
    Reached listing (token :: tail) ↔ Begun listing (token :: tail) :=
  or_iff_right (List.cons_ne_nil _ _)

/-- A route that follows an edge opens what it opens at the node there. -/
theorem opens_along {handler : α} {fresh : CounterId} {es : List (Edge α)} {edge : Edge α}
    {rest way : List Token} (sound : (Below.edges es).Sound) (inside : edge ∈ es)
    (head : rest.head? = some (.byte edge.1)) :
    Opens (Reached (listingEdges es)) (edge.2.graft handler fresh rest).verdict rest way ↔
      Opens (Begun edge.2.listing) (edge.2.graft handler fresh rest).verdict rest way := by
  have hedge := (Below.sound_edges_iff.mp sound).2 edge inside
  cases way with
  | nil => exact iff_of_false (not_opens_nil hedge head) (not_opens_nil hedge head)
  | cons token tail =>
      refine and_congr_right fun _ => exists_congr fun last => and_congr_right fun hrest => ?_
      rw [hrest] at head
      obtain rfl : token = .byte edge.1 := Option.some.inj head
      rw [reached_cons, begun_along sound inside]

theorem keepsDoorways_edges {handler : α} {es : List (Edge α)}
    (ih : ∀ edge ∈ es, edge.2.KeepsDoorways handler) :
    (Below.edges es).KeepsDoorways handler := by
  intro fresh rest slashed way sound proper goesOn
  rcases graft_edges handler fresh es rest with
    ⟨hsprout, hfree⟩ | ⟨before, b, node, after, head, rfl, hfollow⟩
  · rw [hsprout]
    exact mem_doorways_sprout sound proper goesOn hfree
  · have hmem : (b, node) ∈ before ++ (b, node) :: after :=
      List.mem_append_right _ (List.mem_cons_self ..)
    have hnode := (Below.sound_edges_iff.mp sound).2 _ hmem
    have hstep : (way ∈ if (node.graft handler fresh rest).tree.isDoorway then [[]]
          else (node.graft handler fresh rest).tree.doorways) ↔
        (way ∈ if node.isDoorway then [[]] else node.doorways) ∨
          Opens (Begun node.listing) (node.graft handler fresh rest).verdict rest way := by
      rw [(label_graft hnode head).2]
      split
      · next h =>
          obtain ⟨priority, existing, below, rfl⟩ := isDoorway_eq_true_iff.mp h
          refine (or_iff_left ?_).symm
          rintro ⟨⟨used, hused⟩, -⟩
          exact graft_doorway_refused hnode rfl head hused
      · exact ih _ hmem b fresh rest slashed way hnode proper head
    rw [hfollow]
    dsimp only
    rw [Below.listing, opens_along sound hmem head, Below.doorways, Below.doorways,
      mem_doorwaysEdges, mem_doorwaysEdges]
    simp only [(raise_perm b _).mem_iff, List.mem_append, List.mem_cons, or_and_right, exists_or,
      exists_eq_left, hstep]
    grind

/-- What a route opens after a parameter. -/
theorem opens_param {name : List UInt8} {hits : CounterId} {priority : Nat}
    {existing : Option α} {next : Option (Node α)} {verdict : Except Clash CounterId}
    {rest way : List Token} :
    Opens (Reached (Below.param name hits priority existing next).listing) verdict
        (.param name :: rest) way ↔
      ∃ tail, Opens (Reached (listingNext next)) verdict rest tail ∧ .param name :: tail = way := by
  constructor
  · rintro ⟨hused, last, hroute, hheld⟩
    cases way with
    | nil => cases hroute
    | cons token tail =>
        obtain ⟨rfl, rfl⟩ := List.cons.inj hroute
        refine ⟨tail, ⟨hused, last, rfl, ?_⟩, rfl⟩
        rcases hheld with hends | hnil | ⟨old, hold, hprefix⟩
        · rcases endsParam_cons.mp hends with ⟨rfl, -⟩ | h
          · exact Or.inr (Or.inl rfl)
          · exact Or.inl h
        · cases hnil
        · obtain ⟨route, hroute, hmem⟩ := mem_prependTokens.mp hold
          rw [hroute] at hprefix
          have hprefix' := (List.prefix_append_right_inj [Token.param name]).mp hprefix
          rcases List.mem_append.mp hmem with h | h
          · obtain ⟨_, -, heq⟩ := List.mem_map.mp h
            cases heq
            exact Or.inr (Or.inl (List.prefix_nil.mp hprefix'))
          · exact Or.inr (Or.inr ⟨_, h, hprefix'⟩)
  · rintro ⟨tail, ⟨hused, last, rfl, hheld⟩, rfl⟩
    refine ⟨hused, last, rfl, ?_⟩
    rcases hheld with hends | rfl | ⟨old, hold, hprefix⟩
    · exact Or.inl (endsParam_cons.mpr (Or.inr hends))
    · exact Or.inl ⟨name, rfl⟩
    · exact Or.inr (Or.inr ⟨(.param name :: old.1, old.2),
        mem_prependTokens.mpr ⟨old.1, rfl, List.mem_append_right _ hold⟩,
        (List.prefix_append_right_inj [Token.param name]).mpr hprefix⟩)

/-- A graft after a parameter keeps the empty nodes there. -/
theorem mem_doorwaysNext_graft {handler : α} {fresh : CounterId} {next : Option (Node α)}
    (ih : ∀ node, next = some node → node.KeepsDoorways handler) {rest way : List Token}
    {slashed : Bool} (sound : soundNext next) (proper : Proper slashed (.byte slash :: rest)) :
    way ∈ doorwaysNext (some (graftNext handler fresh next (.byte slash :: rest)).tree) ↔
      way ∈ doorwaysNext next ∨
        Opens (Reached (listingNext next))
          (graftNext handler fresh next (.byte slash :: rest)).verdict (.byte slash :: rest)
          way := by
  cases next with
  | none =>
      show _ ↔ way ∈ [] ∨ Opens (Reached []) (.ok _) (.byte slash :: rest) way
      rw [opens_apart fun _ h => absurd h List.not_mem_nil]
      rw [← mem_doorwaysNext_ofTokens proper
        (mem_doorways_ofTokens handler _ fresh proper (head_byte_ne_catchAll slash rest))]
      exact (or_iff_right List.not_mem_nil).symm
  | some node =>
      have head : (.byte slash :: rest : List Token).head? = some (.byte slash) := rfl
      have hempty : (node.graft handler fresh (.byte slash :: rest)).tree.label = [] ↔
          node.label = [] := (label_graft sound head).1
      have hopens : Opens (Reached node.listing)
            (node.graft handler fresh (.byte slash :: rest)).verdict (.byte slash :: rest) way ↔
          Opens (Begun node.listing)
            (node.graft handler fresh (.byte slash :: rest)).verdict (.byte slash :: rest) way := by
        cases way with
        | nil => exact iff_of_false (not_opens_nil sound head) (not_opens_nil sound head)
        | cons token tail => simp only [Opens, reached_cons]
      rw [graftNext, doorwaysNext, doorwaysNext, listingNext, hopens]
      by_cases hlabel : node.label = []
      · rw [if_pos hlabel, if_pos (hempty.mpr hlabel)]
        refine (or_iff_left ?_).symm
        rintro ⟨⟨used, hused⟩, -⟩
        exact graft_doorway_refused sound hlabel head hused
      · rw [if_neg hlabel, if_neg (hempty.not.mpr hlabel)]
        exact ih node rfl slash fresh _ slashed way sound proper head

theorem keepsDoorways_param {handler : α} {next : Option (Node α)}
    (ih : ∀ node, next = some node → node.KeepsDoorways handler) (name : List UInt8)
    (hits : CounterId) (priority : Nat) (existing : Option α) :
    (Below.param name hits priority existing next).KeepsDoorways handler := by
  intro fresh rest slashed way sound proper goesOn
  obtain ⟨token, rest, rfl⟩ := List.exists_cons_of_ne_nil goesOn
  by_cases htoken : token = .param name
  · subst htoken
    cases rest with
    | nil =>
        have hnone {verdict : Except Clash CounterId} :
            ¬ Opens (Reached (Below.param name hits priority existing next).listing) verdict
              [.param name] way := by
          rintro ⟨-, last, hroute, -⟩
          have hlength := congrArg List.length hroute
          simp at hlength
        rw [graft_param_here]
        cases existing <;> exact (or_iff_left hnone).symm
    | cons token rest =>
        obtain ⟨-, hslash, hproper⟩ := proper
        obtain rfl : token = .byte slash := hslash token rfl
        rw [graft_param_next]
        dsimp only
        rw [opens_param, mem_doorways_param, mem_doorways_param, ← exists_or]
        simp only [mem_doorwaysNext_graft ih sound.2 hproper, or_and_right]
  · obtain ⟨clash, hclash, -⟩ := graft_param_clash htoken
    rw [hclash]
    exact (or_iff_left not_opens_error).symm

/-- A graft adds the empty node that its route opens, and no other. -/
theorem doorways_graft (handler : α) :
    (∀ node : Node α, node.KeepsDoorways handler) ∧
      ∀ below : Below α, below.KeepsDoorways handler := by
  refine tree_induction ?static ?catchAll ?edges ?param
  case static =>
    intro label priority existing below ih
    exact keepsDoorways_static ih label priority existing
  case catchAll =>
    intro name hits priority existing index fresh rest slashed way _ _ _
    exact (or_iff_left not_opens_error).symm
  case edges =>
    intro es ih
    exact keepsDoorways_edges ih
  case param =>
    intro name hits priority existing next ih
    exact keepsDoorways_param ih name hits priority existing

theorem label_recount (node : Node α) :
    node.recount.label = node.label ∧ node.recount.isDoorway = node.isDoorway := by
  cases node with
  | catchAll name hits priority existing => exact ⟨rfl, rfl⟩
  | static label priority existing below => cases label <;> exact ⟨rfl, rfl⟩

/-- Counting afresh moves no empty node. -/
theorem mem_doorways_recount :
    (∀ (node : Node α) way, way ∈ node.recount.doorways ↔ way ∈ node.doorways) ∧
      ∀ (below : Below α) way, way ∈ below.recount.doorways ↔ way ∈ below.doorways := by
  refine tree_induction ?static ?catchAll ?edges ?param
  case static =>
    intro label priority existing below ih way
    rw [Node.recount]
    simp only [mem_doorways_static, ih]
  case catchAll =>
    intro name hits priority existing way
    exact Iff.rfl
  case edges =>
    intro es ih way
    rw [Below.recount, Below.doorways, Below.doorways, mem_doorwaysEdges, mem_doorwaysEdges]
    simp only [(rank_perm _).mem_iff, recountEdges_eq_map, List.mem_map,
      exists_exists_and_eq_and]
    refine exists_congr fun edge => and_congr_right fun hedge => ?_
    rw [(label_recount edge.2).2]
    split
    · exact Iff.rfl
    · exact ih edge hedge way
  case param =>
    intro name hits priority existing next ih way
    rw [Below.recount, mem_doorways_param, mem_doorways_param]
    refine exists_congr fun tail => and_congr_left fun _ => ?_
    cases next with
    | none => exact Iff.rfl
    | some node =>
        rw [recountNext, doorwaysNext, doorwaysNext, (label_recount node).1]
        split
        · exact Iff.rfl
        · exact ih node rfl tail

/-- Insertion adds the empty node that its route opens, and no other. -/
theorem Node.Rooted.doorways_insert {tree : Node α} (rooted : tree.Rooted) (handler : α)
    (fresh : CounterId) {rest : List Token} (proper : Proper true rest) {way : List Token} :
    way ∈ (tree.insert handler fresh (.byte slash :: rest)).tree.doorways ↔
      way ∈ tree.doorways ∨
        Opens (Begun tree.listing) (tree.insert handler fresh (.byte slash :: rest)).verdict
          (.byte slash :: rest) way := by
  have hgraft := (doorways_graft handler).1 tree slash fresh (.byte slash :: rest) false way
    rooted.sound ⟨rfl, proper⟩ rfl
  obtain ⟨hverdict, htree⟩ := insert_eq tree handler fresh (.byte slash :: rest)
  rw [hverdict, ← hgraft]
  rcases htree with h | h
  · rw [h]
  · rw [h]
    exact mem_doorways_recount.1 _ way

end RadixRouter

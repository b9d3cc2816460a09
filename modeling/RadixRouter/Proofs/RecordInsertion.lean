/-
# Insertion by positions

`RawNode.insert?` checks a pattern, carries it down the records of a tree and, if it is refused
there, counts the records afresh.

In a tree that counts its routes, with room for one more, no guard fails on any pattern: the
descent answers as `Node.graft` does, and the records that it leaves stand for the tree that the
graft leaves.  As for the graft, this is a property of nodes that passes from what is below a
node up to the node.
-/

import RadixRouter.Proofs.RecordDescent

namespace RadixRouter

open Guard
open Pattern (IsName Proper head_byte_ne_catchAll)

variable {α : Type}

/-- A node that one more route can be added to. -/
structure Node.Admits (index : UInt8) (node : Node α) : Prop where
  sound : node.Sound index
  tallied : node.Tallied
  /-- The routes, and one more, can be counted in 32 bits. -/
  room : node.listing.length + 1 < 2 ^ 32
  proper : ∀ route ∈ node.listing, ∃ slashed, Proper slashed route.1

/-- The same of what follows a label. -/
structure Below.Admits (below : Below α) : Prop where
  sound : below.Sound
  tallied : below.Tallied
  room : below.listing.length + 1 < 2 ^ 32
  proper : ∀ route ∈ below.listing, ∃ slashed, Proper slashed route.1

section Admits

variable {index : UInt8} {label name : List UInt8} {priority : Nat} {hits : CounterId}
  {existing : Option α} {below : Below α} {es : List (Edge α)} {edge : Edge α} {node : Node α}
  {next : Option (Node α)}

/-- The rest of a proper route after literal text. -/
theorem exists_proper_of_prependTokens {listing : List (List Token × α)}
    (proper : ∀ route ∈ prependTokens (label.map .byte) listing,
      ∃ slashed, Proper slashed route.1) :
    ∀ route ∈ listing, ∃ slashed, Proper slashed route.1 := by
  rintro ⟨route, handler⟩ hroute
  obtain ⟨slashed, h⟩ := proper _ (mem_prependTokens.mpr ⟨route, rfl, hroute⟩)
  exact Proper.drop_literal h

theorem Node.Admits.of_static
    (admits : (Node.static label priority existing below).Admits index) : below.Admits := by
  obtain ⟨sound, tallied, room, proper⟩ := admits
  rw [length_listing_static] at room
  refine ⟨sound.1, tallied.2, by omega, fun route hroute => ?_⟩
  rw [Node.listing] at proper
  exact exists_proper_of_prependTokens proper route (List.mem_append_right _ hroute)

theorem Node.Admits.count_fits (admits : node.Admits index) : node.priority + 1 < 2 ^ 32 := by
  rw [admits.tallied.priority_eq]
  exact admits.room

/-- A label is free of markers. -/
theorem Node.Admits.unmarked (admits : (Node.static label priority existing below).Admits index) :
    ∀ b ∈ label, isMarker b = false := by
  obtain ⟨⟨route, handler⟩, hroute⟩ :=
    List.exists_mem_of_ne_nil _ (listing_ne_nil.1 _ _ admits.sound)
  obtain ⟨slashed, hproper⟩ := admits.proper _ hroute
  rw [Node.listing] at hroute
  obtain ⟨tail, rfl, -⟩ := mem_prependTokens.mp hroute
  clear * - hproper
  induction label generalizing slashed with
  | nil => exact List.forall_mem_nil _
  | cons b label ih => exact List.forall_mem_cons.mpr ⟨hproper.1, ih _ hproper.2⟩

/-- A byte that leads to a node is no marker. -/
theorem Node.Admits.plain (admits : node.Admits index) : isMarker index = false := by
  obtain ⟨⟨route, handler⟩, hroute⟩ :=
    List.exists_mem_of_ne_nil _ (listing_ne_nil.1 _ _ admits.sound)
  obtain ⟨slashed, hproper⟩ := admits.proper _ hroute
  obtain ⟨rest, rfl⟩ := admits.sound.head_listing hroute
  exact hproper.1

theorem Below.Admits.of_edge (admits : (Below.edges es).Admits) (inside : edge ∈ es) :
    edge.2.Admits edge.1 := by
  obtain ⟨sound, tallied, room, proper⟩ := admits
  have hlisting : edge.2.listing.Sublist (listingEdges es) := by
    rw [listingEdges_eq_flatMap, List.flatMap_def]
    exact List.sublist_flatten_of_mem (List.mem_map_of_mem inside)
  refine ⟨(Below.sound_edges_iff.mp sound).2 edge inside,
    (Below.tallied_edges_iff.mp tallied).2 edge inside, ?_, fun route hroute => ?_⟩
  · have := hlisting.length_le
    rw [Below.listing] at room
    omega
  · exact proper route (hlisting.subset hroute)

theorem Below.Admits.isName (admits : (Below.param name hits priority existing next).Admits) :
    IsName name := by
  obtain ⟨⟨route, handler⟩, hroute⟩ :=
    List.exists_mem_of_ne_nil _ (listing_ne_nil.2 _ admits.sound (param_ne_edges []))
  obtain ⟨slashed, hproper⟩ := admits.proper _ hroute
  rw [Below.listing] at hroute
  obtain ⟨tail, rfl, -⟩ := mem_prependTokens.mp hroute
  exact hproper.1

theorem Below.Admits.of_next
    (admits : (Below.param name hits priority existing (some node)).Admits) :
    node.Admits slash := by
  obtain ⟨sound, tallied, room, proper⟩ := admits
  rw [length_listing_param] at room
  have hnext : (listingNext (some node)).length = node.listing.length := rfl
  refine ⟨sound.2, tallied.2, by omega, fun route hroute => ?_⟩
  rw [Below.listing] at proper
  obtain ⟨slashed, h⟩ :=
    proper _ (mem_prependTokens.mpr ⟨route.1, rfl, List.mem_append_right _ hroute⟩)
  exact ⟨_, h.2.2⟩

theorem Below.Admits.count_fits
    (admits : (Below.param name hits priority existing next).Admits) : priority + 1 < 2 ^ 32 := by
  rw [show priority = _ from admits.tallied.1]
  exact admits.room

end Admits

/-- The answer to a registration and the number of counters then, beside its verdict. -/
def Answers (fresh : CounterId) (answer : Except RouteError Unit) (tracked : Nat) :
    Except RouteError CounterId → Prop
  | .ok used => answer = .ok () ∧ tracked = used
  | .error error => answer = .error error ∧ tracked = fresh

/-- A descent into a record follows the graft onto its node. -/
def Follows (pattern : String) (fresh : CounterId) (top : Bool) (grafted : Grafted (Node α))
    (result : Option (Inserted α)) : Prop :=
  ∃ record tracked answer, result = some ⟨record, tracked, answer⟩ ∧
    Stored top grafted.tree record ∧
      Answers fresh answer tracked (grafted.verdict.mapError (Router.refusal pattern))

/-- A descent below the label of a record follows the graft there and leaves all else of the
record as it is. -/
def FollowsBelow (pattern : String) (fresh : CounterId) (n : RawNode α)
    (grafted : Grafted (Below α)) (result : Option (Inserted α)) : Prop :=
  ∃ indices wildChild children tracked answer,
    result = some ⟨{ n with indices, wildChild, children }, tracked, answer⟩ ∧
      StoredBelow grafted.tree indices wildChild children ∧
      Answers fresh answer tracked (grafted.verdict.mapError (Router.refusal pattern))

section Sprout

variable {pattern : String} {handler : α} {n : RawNode α} {fresh : CounterId}
  {es : List (Edge α)} {slashed : Bool} {rest : List Token}

/-- A catch-all has a slash in front of it. -/
theorem getLast?_of_proper {literal name : List UInt8} {rest : List Token}
    (proper : Proper slashed (literal.map .byte ++ .catchAll name :: rest))
    (nonempty : literal ≠ []) : literal.getLast? = some slash := by
  induction literal generalizing slashed with
  | nil => exact absurd rfl nonempty
  | cons b literal ih =>
      cases literal with
      | nil =>
          obtain ⟨-, hslash, -⟩ := proper
          rw [List.getLast?_singleton, of_decide_eq_true hslash]
      | cons c literal =>
          rw [List.getLast?_cons_cons]
          exact ih proper.2 (List.cons_ne_nil _ _)

/-- A wildcard is refused where there are children. -/
theorem extend_refused_of_edges {marker : UInt8} {name after : List UInt8} {edge : Edge α}
    (stored : StoredEdges (edge :: es) n.children) (opens : isMarker marker = true)
    (named : IsName name) (ended : after = [] ∨ ∃ rest, after = slash :: rest)
    (written : Pattern.bytes rest = marker :: (name ++ after))
    (within : (Pattern.bytes rest).length ≤ (Utf8.encode pattern).length) :
    n.extend pattern handler (Pattern.bytes rest) fresh =
      some ⟨n, fresh, .error <|
        if marker = colon then
          .conflictingWildcard pattern (Utf8.decodeLossy (marker :: name))
            (Router.refusal.inTheWay pattern rest (sampleEdges (edge :: es)))
        else .catchAllConflictsWithChildren pattern
          (Router.refusal.inTheWay pattern rest (sampleEdges (edge :: es)))⟩ := by
  obtain ⟨first, children, hfirst, -, hchildren⟩ := List.forall₂_cons_left_iff.mp stored
  have hrefused : n.extend pattern handler ([] ++ marker :: (name ++ after)) fresh = _ :=
    extend_refused pattern handler fresh (List.forall_mem_nil _) opens named ended
      (by rw [hchildren]; rfl)
  rw [List.nil_append, ← written, inTheWay?_eq within, sample_eq.1 _ _ _ hfirst] at hrefused
  exact hrefused

theorem followsBelow_refused {below : Below α} {clash : Clash}
    (stored : StoredBelow below n.indices n.wildChild n.children) :
    FollowsBelow pattern fresh n ⟨below, .error clash⟩
      (some ⟨n, fresh, .error (Router.refusal pattern clash)⟩) := by
  cases n
  exact ⟨_, _, _, _, _, rfl, stored, rfl, rfl⟩

/-- Edges and their records stand for what follows a label. -/
theorem storedBelow_edges (hes : StoredEdges es n.children) (hindices : n.indices = es.map (·.1))
    (closed : n.wildChild = false) :
    StoredBelow (.edges es) n.indices n.wildChild n.children := by
  rw [hindices, closed]
  exact .edges hes

/-- A byte sprouts a new record. -/
theorem goOn_sprout_byte {b : UInt8} (hes : StoredEdges es n.children)
    (hindices : n.indices = es.map (·.1)) (closed : n.wildChild = false)
    (noParam : n.kind.isParam = false ∨ n.children = [])
    (proper : Proper slashed (.byte b :: rest)) (free : b ∉ es.map (·.1)) :
    FollowsBelow pattern fresh n (sprout handler fresh es (.byte b :: rest))
      (n.goOn pattern handler (Pattern.bytes (.byte b :: rest)) fresh) := by
  obtain ⟨record, hbuilt, hrecord⟩ := growsTo pattern handler proper
    (head_byte_ne_catchAll b rest) fresh
  obtain ⟨label, existing, below, hnode⟩ := exists_ofTokens_eq handler (.byte b :: rest) fresh
  obtain ⟨indices', children', hgoOn, hstored⟩ := goOn_new closed noParam proper.1 free
    hindices hes hbuilt hrecord (by rw [hnode]; rfl)
  exact ⟨indices', n.wildChild, children', _, _, hgoOn, hstored, rfl, rfl⟩

/-- A parameter sprouts where there are no children, and is refused where there are. -/
theorem goOn_sprout_param {name : List UInt8} (hes : StoredEdges es n.children)
    (hindices : n.indices = es.map (·.1)) (closed : n.wildChild = false)
    (unindexed : colon ∉ n.indices) (proper : Proper slashed (.param name :: rest))
    (within : (Pattern.bytes (.param name :: rest)).length ≤ (Utf8.encode pattern).length) :
    FollowsBelow pattern fresh n (sprout handler fresh es (.param name :: rest))
      (n.goOn pattern handler (Pattern.bytes (.param name :: rest)) fresh) := by
  have unchanged := storedBelow_edges hes hindices closed
  obtain ⟨named, hslash, hafter⟩ := proper
  have hmarker : n.goOn pattern handler (Pattern.bytes (.param name :: rest)) fresh =
      n.extend pattern handler (Pattern.bytes (.param name :: rest)) fresh :=
    goOn_marker rfl unindexed closed
  rw [hmarker]
  cases es with
  | nil =>
      have hgrows : GrowsTo pattern handler rest :=
        growsTo pattern handler hafter fun name' h => by cases hslash _ h
      have hnothing : ∀ b ∈ ([] : List UInt8), isMarker b = false := List.forall_mem_nil _
      obtain ⟨below, used, child, hbuilt, hextend, stored⟩ := extend_param_grown hnothing named
        hslash (List.forall₂_nil_left_iff.mp hes) hgrows fresh
      have hempty : n.indices = [] := hindices
      refine ⟨n.indices, true, [child], used, .ok (), hextend, ?_, ?_⟩
      · show StoredBelow (Node.ofTokens handler (.param name :: rest) fresh).1.under _ _ _
        rw [hbuilt, hempty]
        exact stored
      · rw [sprout, if_pos List.isEmpty_nil, hbuilt]
        exact ⟨rfl, rfl⟩
  | cons edge es =>
      rw [extend_refused_of_edges hes rfl named (ended_of_slash hslash) rfl within, if_pos rfl]
      exact followsBelow_refused unchanged

/-- A catch-all is refused: other routes go on behind its slash, or end there. -/
theorem goOn_sprout_catchAll {name : List UInt8} (hes : StoredEdges es n.children)
    (hindices : n.indices = es.map (·.1)) (closed : n.wildChild = false)
    (unindexed : star ∉ n.indices) (named : IsName name) (slashed : n.label.getLast? = some slash)
    (within : (Pattern.bytes [.catchAll name]).length ≤ (Utf8.encode pattern).length) :
    FollowsBelow pattern fresh n (sprout handler fresh es [.catchAll name])
      (n.goOn pattern handler (Pattern.bytes [.catchAll name]) fresh) := by
  have unchanged := storedBelow_edges hes hindices closed
  have hbytes : Pattern.bytes [.catchAll name] = star :: (name ++ []) := rfl
  have hmarker : n.goOn pattern handler (Pattern.bytes [.catchAll name]) fresh =
      n.extend pattern handler (Pattern.bytes [.catchAll name]) fresh :=
    goOn_marker rfl unindexed closed
  rw [hmarker]
  cases es with
  | nil =>
      have hplaced := placed?_eq within
      rw [hbytes, List.append_nil] at hplaced ⊢
      rw [extend_catchAll_closed pattern handler fresh named (List.forall₂_nil_left_iff.mp hes)
        slashed, hplaced]
      exact followsBelow_refused unchanged
  | cons edge es =>
      rw [extend_refused_of_edges hes rfl named (Or.inl rfl) hbytes within, if_neg (by decide)]
      exact followsBelow_refused unchanged

/-- Where no child takes the next token, the descent follows the sprout. -/
theorem goOn_sprout (hes : StoredEdges es n.children) (hindices : n.indices = es.map (·.1))
    (closed : n.wildChild = false) (noParam : n.kind.isParam = false ∨ n.children = [])
    (plain : ∀ b ∈ es.map (·.1), isMarker b = false) (proper : Proper slashed rest)
    (goesOn : rest ≠ []) (free : ∀ b, rest.head? = some (.byte b) → b ∉ es.map (·.1))
    (after : ∀ name, rest.head? = some (.catchAll name) → n.label.getLast? = some slash)
    (within : (Pattern.bytes rest).length ≤ (Utf8.encode pattern).length) :
    FollowsBelow pattern fresh n (sprout handler fresh es rest)
      (n.goOn pattern handler (Pattern.bytes rest) fresh) := by
  obtain ⟨token, rest, rfl⟩ := List.exists_cons_of_ne_nil goesOn
  have unindexed {marker : UInt8} (opens : isMarker marker = true) : marker ∉ n.indices := by
    rw [hindices]
    intro h
    cases opens.symm.trans (plain _ h)
  cases token with
  | byte b => exact goOn_sprout_byte hes hindices closed noParam proper (free b rfl)
  | param name => exact goOn_sprout_param hes hindices closed (unindexed rfl) proper within
  | catchAll name =>
      obtain ⟨-, named, rfl⟩ := proper
      exact goOn_sprout_catchAll hes hindices closed (unindexed rfl) named (after name rfl) within

end Sprout

/-- A descent into the record of a node follows the graft onto the node. -/
def Node.DescendedAlike (handler : α) (node : Node α) : Prop :=
  ∀ (pattern : String) (top : Bool) (record : RawNode α) (index : UInt8) (fresh : CounterId)
    (rest : List Token) (slashed : Bool),
    Stored top node record → node.Admits index → Proper slashed rest →
      rest.head? = some (.byte index) →
        (Pattern.bytes rest).length ≤ (Utf8.encode pattern).length →
          Follows pattern fresh top (node.graft handler fresh rest)
            (RawNode.descend pattern handler { record with priority := record.priority + 1 }
              (Pattern.bytes rest) fresh)

/-- The same below a label. -/
def Below.DescendedAlike (handler : α) (below : Below α) : Prop :=
  ∀ (pattern : String) (n : RawNode α) (fresh : CounterId) (rest : List Token) (slashed : Bool),
    StoredBelow below n.indices n.wildChild n.children → n.kind.isParam = false → below.Admits →
      Proper slashed rest → rest ≠ [] →
        (∀ name, rest.head? = some (.catchAll name) → n.label.getLast? = some slash) →
          (Pattern.bytes rest).length ≤ (Utf8.encode pattern).length →
            FollowsBelow pattern fresh n (below.graft handler fresh rest)
              (n.goOn pattern handler (Pattern.bytes rest) fresh)

section Descent

variable {handler : α}

theorem bytes_ne_nil (token : Token) (rest : List Token) : Pattern.bytes (token :: rest) ≠ [] := by
  cases token <;> exact List.cons_ne_nil _ _

/-- Text that goes on with another byte than the label, goes on so in bytes. -/
theorem head?_bytes_ne {b : UInt8} (plain : isMarker b = false) {rest : List Token}
    (apart : rest.head? ≠ some (.byte b)) : (Pattern.bytes rest).head? ≠ some b := by
  intro h
  rcases rest with _ | ⟨c | name | name, rest⟩
  · cases h
  · obtain rfl : c = b := Option.some.inj h
    exact apart rfl
  · obtain rfl : colon = b := Option.some.inj h
    cases plain
  · obtain rfl : star = b := Option.some.inj h
    cases plain

/-- What is left below the label of a literal record, is left of its node. -/
theorem FollowsBelow.static {pattern : String} {fresh : CounterId} {top : Bool}
    {label indices : List UInt8} {wildChild : Bool} {priority : Nat} {children : List (RawNode α)}
    {own : Option α} {grafted : Grafted (Below α)} {result : Option (Inserted α)}
    (follows : FollowsBelow pattern fresh
      ⟨label, indices, wildChild, .literal top, priority, children, own⟩ grafted result) :
    Follows pattern fresh top ⟨.static label priority own grafted.tree, grafted.verdict⟩
      result := by
  obtain ⟨indices', wildChild', children', tracked, answer, hresult, stored, answers⟩ := follows
  exact ⟨_, tracked, answer, hresult, .static stored, answers⟩

section Static

variable {pattern : String} {top : Bool} {common label suffix indices : List UInt8} {b : UInt8}
  {wildChild : Bool} {children : List (RawNode α)} {priority : Nat} {existing : Option α}
  {below : Below α} {index : UInt8} {fresh : CounterId} {rest rest' : List Token} {slashed : Bool}

/-- The label is cut. -/
theorem follows_cut (met : overlap label rest = (common, b :: suffix, rest'))
    (stored : StoredBelow below indices wildChild children)
    (admits : (Node.static label priority existing below).Admits index)
    (proper : Proper slashed rest) (head : rest.head? = some (.byte index))
    (within : (Pattern.bytes rest').length ≤ (Utf8.encode pattern).length) :
    Follows pattern fresh top ((Node.static label priority existing below).graft handler fresh rest)
      (RawNode.descend pattern handler
        ⟨label, indices, wildChild, .literal top, priority + 1, children, existing⟩
        (Pattern.bytes rest) fresh) := by
  have hcommon : common ≠ [] := by
    rintro rfl
    cases head_common met admits.sound head
  have hfree : ∀ c, rest'.head? = some (.byte c) →
      c ∉ [(b, Node.static (b :: suffix) priority existing below)].map (·.1) :=
    free_of_overlap met
  obtain ⟨hlabel, hrest, hparting⟩ := overlap_eq met
  have hplain : isMarker b = false := admits.unmarked b (by rw [hlabel]; simp)
  have hlower : Stored false (.static (b :: suffix) priority existing below)
      ⟨b :: suffix, indices, wildChild, .static, priority, children, existing⟩ := .static stored
  have hcut := descend_cut pattern handler (head?_bytes_ne hplain (hparting b rfl)) common suffix
    indices wildChild (.literal top) priority children existing fresh
  rw [← bytes_literal_append, ← hrest, ← hlabel] at hcut
  rw [hcut]
  cases rest' with
  | nil =>
      rw [graft_cut_end met]
      exact ⟨_, _, _, rfl, .static (.edges (.cons hlower .nil)), rfl, rfl⟩
  | cons token rest' =>
      rw [hrest] at proper
      obtain ⟨slashed', hproper⟩ := Proper.drop_literal proper
      rw [graft_cut_sprout met, if_neg (bytes_ne_nil token rest')]
      refine FollowsBelow.static (goOn_sprout (.cons hlower .nil) rfl rfl
        (Or.inl (Kind.isParam_literal top)) (by simpa using hplain) hproper (List.cons_ne_nil _ _)
        hfree ?_ within)
      intro name hname
      obtain ⟨rest'', hrest''⟩ := List.head?_eq_some_iff.mp hname
      rw [hrest''] at proper
      exact getLast?_of_proper proper hcommon

/-- The label is passed. -/
theorem follows_whole (ih : below.DescendedAlike handler)
    (met : overlap label rest = (common, [], rest'))
    (stored : StoredBelow below indices wildChild children)
    (admits : (Node.static label priority existing below).Admits index)
    (proper : Proper slashed rest) (head : rest.head? = some (.byte index))
    (within : (Pattern.bytes rest').length ≤ (Utf8.encode pattern).length) :
    Follows pattern fresh top ((Node.static label priority existing below).graft handler fresh rest)
      (RawNode.descend pattern handler
        ⟨label, indices, wildChild, .literal top, priority + 1, children, existing⟩
        (Pattern.bytes rest) fresh) := by
  obtain ⟨hlabel, hrest, -⟩ := overlap_eq met
  rw [List.append_nil] at hlabel
  subst hlabel
  have hwhole := descend_whole pattern handler
    ⟨label, indices, wildChild, .literal top, priority + 1, children, existing⟩
    (Pattern.bytes rest') fresh
  dsimp only at hwhole
  rw [← bytes_literal_append, ← hrest] at hwhole
  rw [hwhole]
  cases rest' with
  | nil =>
      rw [graft_here met]
      cases existing with
      | some _ => exact ⟨_, _, _, rfl, .static stored, rfl, rfl⟩
      | none => exact ⟨_, _, _, rfl, .static stored, rfl, rfl⟩
  | cons token rest' =>
      have hproper := proper
      rw [hrest] at hproper
      obtain ⟨slashed', hproper'⟩ := Proper.drop_literal hproper
      rw [graft_below met, if_neg (bytes_ne_nil token rest')]
      refine FollowsBelow.static (ih pattern _ fresh _ slashed' stored (Kind.isParam_literal top)
        admits.of_static hproper' (List.cons_ne_nil _ _) ?_ within)
      intro name hname
      obtain ⟨rest'', hrest''⟩ := List.head?_eq_some_iff.mp hname
      rw [hrest''] at hproper hrest
      refine getLast?_of_proper hproper ?_
      -- with an empty label, a catch-all would be the first token
      rintro rfl
      rw [hrest] at head
      cases head

end Static

theorem descendedAlike_static {below : Below α} (ih : below.DescendedAlike handler)
    (label : List UInt8) (priority : Nat) (existing : Option α) :
    (Node.static label priority existing below).DescendedAlike handler := by
  intro pattern top record index fresh rest slashed stored admits proper head within
  obtain ⟨_, indices, wildChild, _, _, children, _⟩ := record
  cases stored with
  | static stored =>
      rcases hmet : overlap label rest with ⟨common, label', rest'⟩
      have hwithin : (Pattern.bytes rest').length ≤ (Utf8.encode pattern).length := by
        rw [(overlap_eq hmet).2.1, bytes_literal_append, List.length_append] at within
        omega
      cases label' with
      | cons b suffix => exact follows_cut hmet stored admits proper head hwithin
      | nil => exact follows_whole ih hmet stored admits proper head hwithin

theorem descendedAlike_catchAll (name : List UInt8) (hits : CounterId) (priority : Nat)
    (existing : α) : (Node.catchAll name hits priority existing).DescendedAlike handler := by
  intro pattern top record index fresh rest slashed stored admits proper head within
  cases stored with
  | catchAll =>
      obtain rfl : index = slash := admits.sound
      have fits : priority + 1 < 2 ^ 32 := admits.count_fits
      exact ⟨_, _, _, descend_slot proper head within fits, .catchAll, rfl, rfl⟩

theorem descendedAlike_edges {es : List (Edge α)}
    (ih : ∀ edge ∈ es, edge.2.DescendedAlike handler) :
    (Below.edges es).DescendedAlike handler := by
  intro pattern n fresh rest slashed stored noParam admits proper goesOn closed within
  obtain ⟨label, indices, wildChild, kind, count, children, own⟩ := n
  cases stored with
  | edges stored =>
      rcases graft_edges handler fresh es rest with
        ⟨hsprout, hfree⟩ | ⟨before, b, node, after, hhead, rfl, hfollow⟩
      · rw [hsprout]
        refine goOn_sprout stored rfl rfl (Or.inl noParam) ?_ proper goesOn hfree closed within
        intro b hb
        obtain ⟨edge, hedge, rfl⟩ := List.mem_map.mp hb
        exact (admits.of_edge hedge).plain
      · rw [hfollow]
        have hmem : (b, node) ∈ before ++ (b, node) :: after :=
          List.mem_append_right _ (List.mem_cons_self ..)
        have hnode := admits.of_edge hmem
        obtain ⟨front, child, back, rfl, hfront, hchild, hback⟩ := split_at_edge stored
        obtain ⟨record, tracked, answer, hdescend, hrecord, answers⟩ :=
          ih _ hmem pattern false child b fresh rest slashed hchild hnode proper hhead within
        have hfree := (free_of_nodup (Below.sound_edges_iff.mp admits.sound).1).1
        obtain ⟨rest', rfl⟩ := List.head?_eq_some_iff.mp hhead
        obtain ⟨indices', children', hgoOn, hstored⟩ := goOn_edge
          (n := ⟨label, (before ++ (b, node) :: after).map (·.1), false, kind, count,
            front ++ child :: back, own⟩) rfl noParam hfree List.map_append rfl hfront hback
          (by rw [hchild.priority_eq]; exact hnode.count_fits) hdescend hrecord
          (by rw [priority_graft, hchild.priority_eq])
        exact ⟨indices', false, children', tracked, answer, hgoOn, hstored, answers⟩

/-- The index bytes and the children that stand for what follows a parameter. -/
inductive StoredNext : Option (Node α) → List UInt8 → List (RawNode α) → Prop
  | last : StoredNext none [] []
  | next {node : Node α} {child : RawNode α} {indices : List UInt8} :
      Stored false node child → StoredNext (some node) indices [child]

section Param

variable {pattern : String} {name indices : List UInt8} {hits priority fresh : Nat}
  {existing : Option α} {next : Option (Node α)} {children : List (RawNode α)} {rest : List Token}

theorem StoredNext.below (stored : StoredNext next indices children) :
    StoredBelow (.param name hits priority existing next) [] true
      [.value name indices hits priority children existing] := by
  cases stored with
  | last => exact .last
  | next stored => exact .next stored

theorem StoredBelow.wild {indices' : List UInt8} {wildChild : Bool}
    (stored : StoredBelow (.param name hits priority existing next) indices' wildChild children) :
    indices' = [] ∧ wildChild = true ∧ ∃ indices below, StoredNext next indices below ∧
      children = [.value name indices hits priority below existing] := by
  cases stored with
  | last => exact ⟨rfl, rfl, _, _, .last, rfl⟩
  | next stored => exact ⟨rfl, rfl, _, _, .next stored, rfl⟩

/-- Behind a parameter the descent follows the graft. -/
theorem goOn_next (name : List UInt8) (hits priority fresh : Nat) (existing : Option α)
    (ih : ∀ node, next = some node → node.DescendedAlike handler)
    (stored : StoredNext next indices children)
    (admits : ∀ node, next = some node → node.Admits slash)
    (proper : Proper false (.byte slash :: rest))
    (within : (Pattern.bytes (.byte slash :: rest)).length ≤ (Utf8.encode pattern).length) :
    ∃ indices' children' tracked answer,
      (RawNode.value name indices hits priority children existing).goOn pattern handler
          (Pattern.bytes (.byte slash :: rest)) fresh =
        some ⟨.value name indices' hits priority children' existing, tracked, answer⟩ ∧
      StoredNext (some (graftNext handler fresh next (.byte slash :: rest)).tree) indices'
        children' ∧
      Answers fresh answer tracked
        ((graftNext handler fresh next (.byte slash :: rest)).verdict.mapError
          (Router.refusal pattern)) := by
  cases stored with
  | last =>
      have hsprouts : FollowsBelow pattern fresh (.value name [] hits priority [] existing)
          (sprout handler fresh [] (.byte slash :: rest))
          ((RawNode.value name [] hits priority [] existing).goOn pattern handler
            (Pattern.bytes (.byte slash :: rest)) fresh) :=
        goOn_sprout .nil rfl rfl (Or.inr rfl) (List.forall_mem_nil _) proper (List.cons_ne_nil _ _)
          (fun _ _ => List.not_mem_nil) nofun within
      obtain ⟨indices', wildChild, children', tracked, answer, hgoOn, hstored, answers⟩ := hsprouts
      have hsprout : (sprout handler fresh [] (.byte slash :: rest)).tree =
          .edges [(slash, (Node.ofTokens handler (.byte slash :: rest) fresh).1)] := rfl
      rw [hsprout] at hstored
      cases hstored with
      | edges hstored =>
          obtain ⟨child, _, hchild, ⟨⟩, rfl⟩ := List.forall₂_cons_left_iff.mp hstored
          exact ⟨_, _, tracked, answer, hgoOn, .next hchild, answers⟩
  | @next node child indices stored =>
      have hnode := admits node rfl
      obtain ⟨record, tracked, answer, hdescend, hrecord, answers⟩ :=
        ih node rfl pattern false child slash fresh _ false stored hnode proper rfl within
      have hgoOn : (RawNode.value name indices hits priority [child] existing).goOn pattern handler
          (slash :: Pattern.bytes rest) fresh = _ :=
        goOn_value (by rw [stored.priority_eq]; exact hnode.count_fits)
      have hbytes : Pattern.bytes (.byte slash :: rest) = slash :: Pattern.bytes rest := rfl
      rw [hbytes] at hdescend ⊢
      rw [hgoOn, hdescend]
      exact ⟨_, _, tracked, answer, rfl, .next hrecord, answers⟩

end Param

theorem descendedAlike_param {next : Option (Node α)}
    (ih : ∀ node, next = some node → node.DescendedAlike handler) (name : List UInt8)
    (hits : CounterId) (priority : Nat) (existing : Option α) :
    (Below.param name hits priority existing next).DescendedAlike handler := by
  intro pattern n fresh rest slashed stored noParam admits proper goesOn closed within
  obtain ⟨label, _, _, kind, count, _, own⟩ := n
  obtain ⟨rfl, rfl, indices, children, hnext, rfl⟩ := stored.wild
  have hsample := sample_eq.2 _ _ _ _ stored
  obtain ⟨token, rest, rfl⟩ := List.exists_cons_of_ne_nil goesOn
  by_cases same : token = .param name
  · subst same
    obtain ⟨-, hslash, hproper⟩ := proper
    have hgoOn : RawNode.goOn pattern handler
        ⟨label, [], true, kind, count, [.value name indices hits priority children existing], own⟩
        (colon :: (name ++ Pattern.bytes rest)) fresh = _ :=
      goOn_same (ended_of_slash hslash) admits.count_fits
    have hwhole := descend_whole pattern handler
      (.value name indices hits (priority + 1) children existing) (Pattern.bytes rest) fresh
    have hlabel : (RawNode.value name indices hits (priority + 1) children existing).label ++
        Pattern.bytes rest = Pattern.bytes (.param name :: rest) := rfl
    have hbytes : colon :: (name ++ Pattern.bytes rest) = Pattern.bytes (.param name :: rest) := rfl
    rw [hlabel] at hwhole
    rw [hbytes] at hgoOn
    rw [hgoOn, hwhole]
    cases rest with
    | nil =>
        rw [graft_param_here]
        cases existing with
        | some _ => exact ⟨_, _, _, _, _, rfl, hnext.below, rfl, rfl⟩
        | none => exact ⟨_, _, _, _, _, rfl, hnext.below, rfl, rfl⟩
    | cons token rest =>
        obtain rfl : token = .byte slash := hslash token rfl
        rw [graft_param_next, if_neg (bytes_ne_nil _ _)]
        have hwithin : (Pattern.bytes (.byte slash :: rest)).length ≤
            (Utf8.encode pattern).length := by
          rw [← hbytes, List.length_cons, List.length_append] at within
          omega
        obtain ⟨indices', children', tracked, answer, hbelow, hstored, answers⟩ := goOn_next
          name hits (priority + 1) fresh existing ih hnext
          (fun node hnode => by subst hnode; exact admits.of_next) hproper hwithin
        rw [hbelow]
        exact ⟨_, _, _, tracked, answer, rfl, hstored.below, answers⟩
  · rw [graft_param_other same, goOn_other admits.isName proper same within admits.count_fits]
    refine ⟨_, _, _, _, _, rfl, hnext.below, ?_, rfl⟩
    rw [← hsample]
    rfl

/-- The descent follows the graft, and no access is out of bounds on the way. -/
theorem descend_eq_graft (handler : α) :
    (∀ node : Node α, node.DescendedAlike handler) ∧
      ∀ below : Below α, below.DescendedAlike handler := by
  refine tree_induction ?static ?catchAll ?edges ?param
  case static =>
    intro label priority existing below ih
    exact descendedAlike_static ih label priority existing
  case catchAll =>
    intro name hits priority existing
    exact descendedAlike_catchAll name hits priority existing
  case edges =>
    intro es ih
    exact descendedAlike_edges ih
  case param =>
    intro name hits priority existing next ih
    exact descendedAlike_param ih name hits priority existing

end Descent

end RadixRouter

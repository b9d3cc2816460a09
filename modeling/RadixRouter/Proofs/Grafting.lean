/-
# What an insertion does to a tree

Three laws of `Node.graft`.  Its verdict is the gravest rivalry of the new route with the routes
of the tree; the routes afterwards are those before, and the new one if it was accepted; and
the tree stays sound.  Each law is a predicate of nodes that passes from what is below a node
up to the node, shown for one kind of node at a time and then for all trees by induction.
-/

import RadixRouter.Proofs.NewNodes

namespace RadixRouter

open Pattern (Proper head_byte_ne_catchAll head_param_ne_catchAll)

variable {α : Type}

/-! ## The edge that is followed -/

/-- Either no edge takes the next byte, or the first one that does is grafted onto in place. -/
theorem graftEdges_cases (handler : α) (fresh : CounterId) (es : List (Edge α)) (b : UInt8)
    (rest : List Token) :
    (graftEdges handler fresh es b rest = none ∧ b ∉ es.map (·.1)) ∨
      ∃ before node after, es = before ++ (b, node) :: after ∧
        graftEdges handler fresh es b rest =
          some ⟨before ++ (b, (node.graft handler fresh rest).tree) :: after,
            (node.graft handler fresh rest).verdict⟩ := by
  induction es with
  | nil => exact Or.inl ⟨rfl, List.not_mem_nil⟩
  | cons edge es ih =>
      obtain ⟨index, node⟩ := edge
      rw [graftEdges]
      by_cases hindex : index = b
      · subst hindex
        rw [if_pos rfl]
        exact Or.inr ⟨[], node, es, rfl, rfl⟩
      · rw [if_neg hindex]
        rcases ih with ⟨hnone, hfree⟩ | ⟨before, node', after, rfl, hsome⟩
        · refine Or.inl ⟨by rw [hnone]; rfl, ?_⟩
          rw [List.map_cons, List.mem_cons, not_or]
          exact ⟨Ne.symm hindex, hfree⟩
        · exact Or.inr ⟨(index, node) :: before, node', after, rfl, by rw [hsome]; rfl⟩

section Static

variable {handler : α} {fresh : CounterId} {label : List UInt8} {priority : Nat}
  {existing : Option α} {below : Below α} {rest : List Token} {common suffix : List UInt8}
  {b : UInt8} {token : Token} {rest' : List Token}

/-- The pattern ends inside the label. -/
theorem graft_cut_end (met : overlap label rest = (common, b :: suffix, [])) :
    (Node.static label priority existing below).graft handler fresh rest =
      ⟨.static common (priority + 1) (some handler)
        (.edges [(b, .static (b :: suffix) priority existing below)]), .ok fresh⟩ := by
  rw [Node.graft.eq_def]
  simp only [met]

/-- The pattern leaves the label in the middle. -/
theorem graft_cut_sprout (met : overlap label rest = (common, b :: suffix, token :: rest')) :
    (Node.static label priority existing below).graft handler fresh rest =
      let grafted := sprout handler fresh
        [(b, .static (b :: suffix) priority existing below)] (token :: rest')
      ⟨.static common (priority + 1) none grafted.tree, grafted.verdict⟩ := by
  rw [Node.graft.eq_def]
  simp only [met]

/-- The pattern ends with the label. -/
theorem graft_here (met : overlap label rest = (common, [], [])) :
    (Node.static label priority existing below).graft handler fresh rest =
      match existing with
      | some _ => ⟨.static label (priority + 1) existing below, .error .duplicate⟩
      | none => ⟨.static label (priority + 1) (some handler) below, .ok fresh⟩ := by
  rw [Node.graft.eq_def]
  cases existing <;> simp only [met]

/-- The pattern goes on below the label. -/
theorem graft_below (met : overlap label rest = (common, [], token :: rest')) :
    (Node.static label priority existing below).graft handler fresh rest =
      let grafted := below.graft handler fresh (token :: rest')
      ⟨.static label (priority + 1) existing grafted.tree, grafted.verdict⟩ := by
  rw [Node.graft.eq_def]
  simp only [met]

end Static

/-- A literal node stays one, and counts the route. -/
theorem exists_graft_static (handler : α) (fresh : CounterId) (label : List UInt8) (priority : Nat)
    (existing : Option α) (below : Below α) (rest : List Token) :
    ∃ label' existing' below',
      ((Node.static label priority existing below).graft handler fresh rest).tree =
        .static label' (priority + 1) existing' below' := by
  rcases hmet : overlap label rest with ⟨common, _ | ⟨b, suffix⟩, _ | ⟨token, rest'⟩⟩
  · rw [graft_here hmet]
    cases existing <;> exact ⟨_, _, _, rfl⟩
  · rw [graft_below hmet]
    exact ⟨_, _, _, rfl⟩
  · rw [graft_cut_end hmet]
    exact ⟨_, _, _, rfl⟩
  · rw [graft_cut_sprout hmet]
    exact ⟨_, _, _, rfl⟩

/-! ## One step below a label -/

/-- A pattern that goes on below edges follows the edge of its first byte, if there is one, and
sprouts otherwise. -/
theorem graft_edges (handler : α) (fresh : CounterId) (es : List (Edge α)) (rest : List Token) :
    ((Below.edges es).graft handler fresh rest = sprout handler fresh es rest ∧
        ∀ b, rest.head? = some (.byte b) → b ∉ es.map (·.1)) ∨
      ∃ before b node after, rest.head? = some (.byte b) ∧ es = before ++ (b, node) :: after ∧
        (Below.edges es).graft handler fresh rest =
          ⟨.edges (raise b (before ++ (b, (node.graft handler fresh rest).tree) :: after)),
            (node.graft handler fresh rest).verdict⟩ := by
  cases rest with
  | nil => exact Or.inl ⟨rfl, nofun⟩
  | cons token rest =>
      cases token with
      | param name => exact Or.inl ⟨rfl, nofun⟩
      | catchAll name => exact Or.inl ⟨rfl, nofun⟩
      | byte b =>
          rw [Below.graft.eq_def]
          dsimp only
          rcases graftEdges_cases handler fresh es b (.byte b :: rest) with
            ⟨hnone, hfree⟩ | ⟨before, node, after, hes, hsome⟩
          · rw [hnone]
            refine Or.inl ⟨rfl, ?_⟩
            intro c hc
            obtain rfl : b = c := Token.byte.inj (Option.some.inj hc)
            exact hfree
          · rw [hsome]
            exact Or.inr ⟨before, b, node, after, rfl, hes, rfl⟩

section Param

variable {handler : α} {fresh : CounterId} {name : List UInt8} {hits : CounterId}
  {priority : Nat} {existing : Option α} {next : Option (Node α)} {token : Token}
  {rest : List Token}

/-- Only the same parameter can follow where a parameter does. -/
theorem graft_param_other (different : token ≠ .param name) :
    (Below.param name hits priority existing next).graft handler fresh (token :: rest) =
      ⟨.param name hits (priority + 1) existing next,
        .error (.wildcard (token :: rest) (untilSlash (Pattern.bytes (token :: rest)))
          (Below.sample (.param name hits priority existing next)))⟩ := by
  rw [Below.graft.eq_def]
  cases token with
  | byte b => rfl
  | catchAll name' => rfl
  | param name' =>
      dsimp only
      exact if_neg fun h => different (congrArg Token.param h)

theorem graft_param_clash (different : token ≠ .param name) :
    ∃ clash, (Below.param name hits priority existing next).graft handler fresh (token :: rest) =
      ⟨.param name hits (priority + 1) existing next, .error clash⟩ ∧
        clash.kind = .wildcard := ⟨_, graft_param_other different, rfl⟩

/-- The pattern ends with the parameter. -/
theorem graft_param_here :
    (Below.param name hits priority existing next).graft handler fresh [.param name] =
      match existing with
      | some _ => ⟨.param name hits (priority + 1) existing next, .error .duplicate⟩
      | none => ⟨.param name hits (priority + 1) (some handler) next, .ok fresh⟩ := by
  rw [Below.graft.eq_def]
  dsimp only
  cases existing <;> exact if_pos rfl

/-- The pattern goes on after the parameter. -/
theorem graft_param_next :
    (Below.param name hits priority existing next).graft handler fresh
        (.param name :: token :: rest) =
      let grafted := graftNext handler fresh next (token :: rest)
      ⟨.param name hits (priority + 1) existing (some grafted.tree), grafted.verdict⟩ := by
  rw [Below.graft.eq_def]
  dsimp only
  rw [if_pos rfl]

end Param

/-- The routes of a node are those of its two halves when its label is cut. -/
theorem listing_cut (common : List UInt8) (b : UInt8) (suffix : List UInt8) (priority : Nat)
    (existing : Option α) (below : Below α) :
    (Node.static (common ++ b :: suffix) priority existing below).listing =
      prependTokens (common.map .byte)
        (listingEdges [(b, .static (b :: suffix) priority existing below)]) := by
  rw [listingEdges, listingEdges, List.append_nil, Node.listing, Node.listing,
    prependTokens_prependTokens, List.map_append]

/-- A graft onto a node adds the route it accepts, and no other. -/
def Node.Records (handler : α) (node : Node α) : Prop :=
  ∀ (fresh : CounterId) (rest : List Token) (slashed : Bool), Proper slashed rest →
    (node.graft handler fresh rest).tree.listing.Perm
      (enlarged (node.graft handler fresh rest).verdict (rest, handler) node.listing)

/-- A graft below a label adds the route it accepts, and no other. -/
def Below.Records (handler : α) (below : Below α) : Prop :=
  ∀ (fresh : CounterId) (rest : List Token) (slashed : Bool), Proper slashed rest → rest ≠ [] →
    (below.graft handler fresh rest).tree.listing.Perm
      (enlarged (below.graft handler fresh rest).verdict (rest, handler) below.listing)

theorem records_static {handler : α} {below : Below α} (ih : below.Records handler)
    (label : List UInt8) (priority : Nat) (existing : Option α) :
    (Node.static label priority existing below).Records handler := by
  intro fresh rest slashed proper
  rcases hmet : overlap label rest with ⟨common, label', rest'⟩
  obtain ⟨hlabel, rfl, -⟩ := overlap_eq hmet
  obtain ⟨slashed', proper'⟩ := Proper.drop_literal proper
  cases label' with
  | cons b suffix =>
      subst hlabel
      rw [listing_cut]
      cases rest' with
      | nil =>
          rw [graft_cut_end hmet, List.append_nil, listing_static_some]
          exact List.Perm.refl _
      | cons token rest' =>
          rw [graft_cut_sprout hmet, ← enlarged_prependTokens]
          exact prependTokens_perm _ (listing_sprout proper' (List.cons_ne_nil _ _))
  | nil =>
      rw [List.append_nil] at hlabel
      subst hlabel
      cases rest' with
      | nil =>
          rw [graft_here hmet, List.append_nil]
          cases existing with
          | some _ => exact List.Perm.refl _
          | none =>
              rw [listing_static_none, listing_static_some]
              exact List.Perm.refl _
      | cons token rest' =>
          rw [graft_below hmet, Node.listing, Node.listing, ← enlarged_prependTokens]
          refine prependTokens_perm _ (List.Perm.trans ?_ (enlarged_append_left _ _ _ _))
          exact (ih fresh _ slashed' proper' (List.cons_ne_nil _ _)).append_left _

theorem records_edges {handler : α} {es : List (Edge α)}
    (ih : ∀ edge ∈ es, edge.2.Records handler) : (Below.edges es).Records handler := by
  intro fresh rest slashed proper hrest
  rcases graft_edges handler fresh es rest with
    ⟨hsprout, -⟩ | ⟨before, b, node, after, -, rfl, hfollow⟩
  · rw [hsprout]
    exact listing_sprout proper hrest
  · rw [hfollow]
    have hnode := ih (b, node) (List.mem_append_right _ (List.mem_cons_self ..)) fresh rest
      slashed proper
    apply (listingEdges_perm (raise_perm b _)).trans
    rw [Below.listing, listingEdges_append, listingEdges_append, listingEdges, listingEdges]
    refine List.Perm.trans ?_ (enlarged_append_left _ _ _ _)
    rw [← enlarged_append_right]
    exact (hnode.append_right _).append_left _

theorem records_param {handler : α} {next : Option (Node α)}
    (ih : ∀ node, next = some node → node.Records handler) (name : List UInt8)
    (hits : CounterId) (priority : Nat) (existing : Option α) :
    (Below.param name hits priority existing next).Records handler := by
  intro fresh rest slashed proper hrest
  obtain ⟨token, rest, rfl⟩ := List.exists_cons_of_ne_nil hrest
  by_cases htoken : token = .param name
  · subst htoken
    cases rest with
    | nil =>
        rw [graft_param_here]
        cases existing with
        | some _ => exact List.Perm.refl _
        | none =>
            dsimp only
            rw [listing_param_none, listing_param_some]
            exact List.Perm.refl _
    | cons token rest =>
        obtain ⟨-, hslash, hproper⟩ := proper
        rw [graft_param_next]
        dsimp only
        rw [Below.listing, Below.listing]
        refine List.Perm.trans (prependTokens_perm _ ?_) (List.Perm.of_eq
          (enlarged_prependTokens _ [.param name] (token :: rest) handler _))
        refine List.Perm.trans (List.Perm.append_left _ ?_) (enlarged_append_left _ _ _ _)
        cases next with
        | some node => exact ih node rfl fresh _ false hproper
        | none =>
            have hhead : ∀ name, (token :: rest).head? ≠ some (.catchAll name) := by
              intro name h
              exact Token.noConfusion (hslash _ h)
            exact List.Perm.of_eq
              (listing_ofTokens handler (token :: rest) fresh hproper hhead)
  · obtain ⟨clash, hclash, -⟩ := graft_param_clash htoken
    rw [hclash]
    exact List.Perm.refl _

/-- An attempt to add a route adds that route and no other, or leaves the routes as they are. -/
theorem listing_graft (handler : α) :
    (∀ node : Node α, node.Records handler) ∧ ∀ below : Below α, below.Records handler := by
  refine tree_induction ?static ?catchAll ?edges ?param
  case static =>
    intro label priority existing below ih
    exact records_static ih label priority existing
  case catchAll =>
    intro name hits priority existing fresh rest slashed _
    exact List.Perm.refl _
  case edges =>
    intro es ih
    exact records_edges ih
  case param =>
    intro name hits priority existing next ih
    exact records_param ih name hits priority existing

/-- The lower half of a cut label is sound below its first byte. -/
theorem sound_cut {b : UInt8} {suffix : List UInt8} {priority : Nat} {existing : Option α}
    {below : Below α} (sound : below.Sound) (route : existing = none → below ≠ .edges []) :
    (Below.edges [(b, .static (b :: suffix) priority existing below)]).Sound := by
  rw [Below.sound_edges_iff]
  refine ⟨List.pairwise_singleton _ _, ?_⟩
  intro edge hedge
  rw [List.mem_singleton.mp hedge]
  exact ⟨sound, route, Or.inl rfl⟩

/-- A label that goes on past what it shares with the pattern is not empty, and so label and
pattern share the byte that leads to it. -/
theorem head_common {index b : UInt8} {label common suffix : List UInt8} {rest rest' : List Token}
    {priority : Nat} {existing : Option α} {below : Below α}
    (met : overlap label rest = (common, b :: suffix, rest'))
    (sound : (Node.static label priority existing below).Sound index)
    (hrest : rest.head? = some (.byte index)) : common.head? = some index := by
  obtain ⟨rfl, rfl, hparting⟩ := overlap_eq met
  obtain ⟨-, -, hlabel | ⟨hempty, -⟩⟩ := sound
  · cases common with
    | nil =>
        obtain rfl : b = index := Option.some.inj hlabel
        exact absurd hrest (hparting b rfl)
    | cons c common => exact hlabel
  · exact absurd (List.append_eq_nil_iff.mp hempty).2 (List.cons_ne_nil _ _)

/-- A pattern that leaves a label does so by a byte that the label does not go on with. -/
theorem free_of_overlap {b : UInt8} {common suffix : List UInt8} {rest rest' : List Token}
    {label : List UInt8} (met : overlap label rest = (common, b :: suffix, rest'))
    {priority : Nat} {existing : Option α} {below : Below α} :
    ∀ c, rest'.head? = some (.byte c) →
      c ∉ [(b, Node.static (b :: suffix) priority existing below)].map (·.1) := by
  obtain ⟨-, -, hparting⟩ := overlap_eq met
  intro c hc hmem
  obtain rfl : c = b := List.mem_singleton.mp hmem
  exact hparting c rfl hc

/-- A graft onto a node keeps it sound for the byte that leads to it. -/
def Node.StaysSound (handler : α) (node : Node α) : Prop :=
  ∀ (index : UInt8) (fresh : CounterId) (rest : List Token) (slashed : Bool),
    node.Sound index → Proper slashed rest → rest.head? = some (.byte index) →
      (node.graft handler fresh rest).tree.Sound index

/-- A graft below a label keeps what is there sound. -/
def Below.StaysSound (handler : α) (below : Below α) : Prop :=
  ∀ (fresh : CounterId) (rest : List Token) (slashed : Bool),
    below.Sound → Proper slashed rest → rest ≠ [] →
      (below.graft handler fresh rest).tree.Sound

theorem staysSound_static {handler : α} {below : Below α} (ih : below.StaysSound handler)
    (label : List UInt8) (priority : Nat) (existing : Option α) :
    (Node.static label priority existing below).StaysSound handler := by
  intro index fresh rest slashed sound proper hhead
  have ⟨hbelow, hroute, hshape⟩ := sound
  rcases hmet : overlap label rest with ⟨common, label', rest'⟩
  obtain ⟨hlabel, hrest, -⟩ := overlap_eq hmet
  rw [hrest] at proper
  obtain ⟨slashed', proper'⟩ := Proper.drop_literal proper
  cases label' with
  | cons b suffix =>
      have hcommon := head_common hmet sound hhead
      have hlower : (Below.edges [(b, .static (b :: suffix) priority existing below)]).Sound :=
        sound_cut hbelow hroute
      cases rest' with
      | nil =>
          rw [graft_cut_end hmet]
          exact ⟨hlower, nofun, Or.inl hcommon⟩
      | cons token rest' =>
          rw [graft_cut_sprout hmet]
          have hroutes := listing_ne_nil.2 _ hlower (edges_cons_ne_nil _ _)
          exact ⟨sound_sprout hlower proper' (free_of_overlap hmet),
            fun _ => ne_edges_nil_of_enlarged hroutes (listing_sprout proper' (List.cons_ne_nil _ _)),
            Or.inl hcommon⟩
  | nil =>
      rw [List.append_nil] at hlabel
      subst hlabel
      cases rest' with
      | nil =>
          rw [graft_here hmet]
          cases existing with
          | some _ => exact ⟨hbelow, nofun, hshape⟩
          | none =>
              refine ⟨hbelow, nofun, ?_⟩
              rcases hshape with h | ⟨rfl, -⟩
              · exact Or.inl h
              · rw [hrest] at hhead
                cases hhead
      | cons token rest' =>
          rw [graft_below hmet]
          rcases hshape with h | ⟨rfl, rfl, rfl, name, hits, priority', existing', rfl⟩
          · refine ⟨ih fresh _ slashed' hbelow proper' (List.cons_ne_nil _ _), ?_, Or.inl h⟩
            intro hnone
            exact ne_edges_nil_of_enlarged (listing_ne_nil.2 _ hbelow (hroute hnone))
              ((listing_graft handler).2 below fresh _ slashed' proper' (List.cons_ne_nil _ _))
          · -- whatever comes to a doorway meets the catch-all behind it
            rw [hrest] at hhead
            obtain rfl : token = .byte slash := Option.some.inj hhead
            exact ⟨doorway_sound name hits (priority' + 1) existing', nofun,
              Or.inr ⟨rfl, rfl, rfl, name, hits, priority' + 1, existing', rfl⟩⟩

theorem staysSound_edges {handler : α} {es : List (Edge α)}
    (ih : ∀ edge ∈ es, edge.2.StaysSound handler) : (Below.edges es).StaysSound handler := by
  intro fresh rest slashed sound proper hrest
  rcases graft_edges handler fresh es rest with
    ⟨hsprout, hfree⟩ | ⟨before, b, node, after, hhead, rfl, hfollow⟩
  · rw [hsprout]
    exact sound_sprout sound proper hfree
  · rw [hfollow]
    refine Below.Sound.perm ?_ (raise_perm b _).symm
    rw [Below.sound_edges_iff] at sound ⊢
    refine ⟨?_, ?_⟩
    · simpa only [List.map_append, List.map_cons] using sound.1
    · intro edge hedge
      rcases List.mem_append.mp hedge with h | h
      · exact sound.2 edge (List.mem_append_left _ h)
      · rcases List.mem_cons.mp h with rfl | h
        · have hmem : (b, node) ∈ before ++ (b, node) :: after :=
            List.mem_append_right _ (List.mem_cons_self ..)
          exact ih _ hmem b fresh _ slashed (sound.2 _ hmem) proper hhead
        · exact sound.2 edge (List.mem_append_right _ (List.mem_cons_of_mem _ h))

theorem staysSound_param {handler : α} {next : Option (Node α)}
    (ih : ∀ node, next = some node → node.StaysSound handler) (name : List UInt8)
    (hits : CounterId) (priority : Nat) (existing : Option α) :
    (Below.param name hits priority existing next).StaysSound handler := by
  intro fresh rest slashed sound proper hrest
  obtain ⟨token, rest, rfl⟩ := List.exists_cons_of_ne_nil hrest
  by_cases htoken : token = .param name
  · subst htoken
    cases rest with
    | nil =>
        rw [graft_param_here]
        cases existing with
        | some _ => exact sound
        | none => exact ⟨nofun, sound.2⟩
    | cons token rest =>
        obtain ⟨-, hslash, hproper⟩ := proper
        obtain rfl : token = .byte slash := hslash token rfl
        rw [graft_param_next]
        refine ⟨nofun, ?_⟩
        cases next with
        | some node => exact ih node rfl slash fresh _ false sound.2 hproper rfl
        | none =>
            obtain ⟨_, _, _, -, -, -, hnode⟩ :=
              sound_ofTokens handler (.byte slash :: rest) fresh hproper
            exact hnode slash rfl
  · obtain ⟨clash, hclash, -⟩ := graft_param_clash htoken
    rw [hclash]
    exact sound

/-- Insertion keeps trees sound, also when it is refused. -/
theorem sound_graft (handler : α) :
    (∀ node : Node α, node.StaysSound handler) ∧
      ∀ below : Below α, below.StaysSound handler := by
  refine tree_induction ?static ?catchAll ?edges ?param
  case static =>
    intro label priority existing below ih
    exact staysSound_static ih label priority existing
  case catchAll =>
    intro name hits priority existing index fresh rest slashed sound _ _
    exact sound
  case edges =>
    intro es ih
    exact staysSound_edges ih
  case param =>
    intro name hits priority existing next ih
    exact staysSound_param ih name hits priority existing

/-! ## Verdict -/

/-- Every route of an edge goes on with a byte, so none of them is rival to ending here. -/
theorem standing_end {below : Below α} (sound : below.Sound) :
    standing below.listing [] = none := by
  rw [standing_eq_none_iff]
  intro route hroute
  cases below with
  | edges es =>
      obtain ⟨_, _, rest, hrest⟩ := sound.head_listing_edges hroute
      rw [hrest]
      rfl
  | param name hits priority handler next =>
      obtain ⟨rest, hrest⟩ := head_listing_param hroute
      rw [hrest]
      rfl

theorem standing_end_next {next : Option (Node α)} (sound : soundNext next) :
    standing (listingNext next) [] = none := by
  rw [standing_eq_none_iff]
  rintro ⟨route, handler⟩ hroute
  obtain ⟨node, hnode, hmem⟩ := mem_listingNext.mp hroute
  obtain ⟨rest, rfl⟩ := (soundNext_iff.mp sound node hnode).head_listing hmem
  rfl

/-- A parameter is rival to every other token. -/
theorem standing_param {name : List UInt8} {hits : CounterId} {priority : Nat}
    {handler : Option α} {next : Option (Node α)}
    (sound : (Below.param name hits priority handler next).Sound) {token : Token}
    (different : .param name ≠ token) (rest : List Token) :
    standing (Below.param name hits priority handler next).listing (token :: rest) =
      some .wildcard := by
  apply standing_eq_of_forall (listing_ne_nil.2 _ sound (param_ne_edges []))
  intro route hroute
  obtain ⟨tail, htail⟩ := head_listing_param hroute
  rw [htail, rivalry_of_ne different]
  rfl

/-- The route that ends with a label is rival to a new one that goes on with a catch-all. -/
theorem standing_here (existing : Option α) (token : Token) (rest : List Token) :
    standing (existing.toList.map (([], ·))) (token :: rest) =
      match existing, token with
      | some _, .catchAll _ => some .catchAll
      | _, _ => none := by
  cases existing <;> cases token <;> rfl

/-- The verdict at a node is the standing of the new route with the routes of the node. -/
def Node.Judges (handler : α) (node : Node α) : Prop :=
  ∀ (index : UInt8) (fresh : CounterId) (rest : List Token) (slashed : Bool),
    node.Sound index → Proper slashed rest → rest.head? = some (.byte index) →
      refusal? (node.graft handler fresh rest).verdict = standing node.listing rest

/-- The verdict below a label is the standing of the new route with the routes there.  A
catch-all gets here only where some route goes on. -/
def Below.Judges (handler : α) (below : Below α) : Prop :=
  ∀ (fresh : CounterId) (rest : List Token) (slashed : Bool),
    below.Sound → Proper slashed rest → rest ≠ [] →
      (∀ name, rest.head? = some (.catchAll name) → below ≠ .edges []) →
        refusal? (below.graft handler fresh rest).verdict = standing below.listing rest

theorem judges_static {handler : α} {below : Below α} (ih : below.Judges handler)
    (label : List UInt8) (priority : Nat) (existing : Option α) :
    (Node.static label priority existing below).Judges handler := by
  intro index fresh rest slashed sound proper hhead
  obtain ⟨hbelow, hroute, -⟩ := sound
  rcases hmet : overlap label rest with ⟨common, label', rest'⟩
  obtain ⟨hlabel, rfl, -⟩ := overlap_eq hmet
  obtain ⟨slashed', proper'⟩ := Proper.drop_literal proper
  cases label' with
  | cons b suffix =>
      subst hlabel
      have hlower : (Below.edges [(b, .static (b :: suffix) priority existing below)]).Sound :=
        sound_cut hbelow hroute
      rw [listing_cut, standing_prependTokens]
      cases rest' with
      | nil =>
          rw [graft_cut_end hmet]
          exact (standing_end hlower).symm
      | cons token rest' =>
          rw [graft_cut_sprout hmet]
          exact verdict_sprout hlower (List.cons_ne_nil _ _) (fun _ _ => List.cons_ne_nil _ _)
            (free_of_overlap hmet)
  | nil =>
      rw [List.append_nil] at hlabel
      subst hlabel
      rw [Node.listing, standing_prependTokens, standing_append]
      cases rest' with
      | nil =>
          rw [graft_here hmet, standing_end hbelow, graver_none]
          cases existing <;> rfl
      | cons token rest' =>
          rw [graft_below hmet, standing_here]
          cases existing with
          | none =>
              dsimp only
              rw [none_graver]
              exact ih fresh _ slashed' hbelow proper' (List.cons_ne_nil _ _)
                fun _ _ => hroute rfl
          | some existing =>
              cases token with
              | byte b =>
                  dsimp only
                  rw [none_graver]
                  exact ih fresh _ slashed' hbelow proper' (List.cons_ne_nil _ _)
                    fun name h => absurd h (head_byte_ne_catchAll b rest' name)
              | param name' =>
                  dsimp only
                  rw [none_graver]
                  exact ih fresh _ slashed' hbelow proper' (List.cons_ne_nil _ _)
                    fun name h => absurd h (head_param_ne_catchAll name' rest' name)
              | catchAll name =>
                  -- the route that ends here is in the way, whatever else is
                  cases below with
                  | param _ _ _ _ _ =>
                      rw [standing_param hbelow Token.noConfusion]
                      rfl
                  | edges es =>
                      cases es with
                      | nil => rfl
                      | cons edge es =>
                          rw [← ih fresh _ slashed' hbelow proper' (List.cons_ne_nil _ _)
                            fun _ _ => edges_cons_ne_nil edge es]
                          rfl

theorem judges_catchAll (handler : α) (name : List UInt8) (hits : CounterId) (priority : Nat)
    (existing : α) : (Node.catchAll name hits priority existing).Judges handler := by
  intro index fresh rest slashed sound proper hhead
  rw [Node.Sound] at sound
  subst sound
  obtain ⟨rest, rfl⟩ := List.head?_eq_some_iff.mp hhead
  rw [Node.listing, standing_cons, standing_nil, graver_none, rivalry_cons_self, Node.graft]
  cases rest with
  | nil => rfl
  | cons token rest =>
      by_cases htoken : token = .catchAll name
      · subst htoken
        obtain ⟨-, -, -, rfl⟩ := proper
        rw [if_pos rfl, rivalry_cons_self]
        rfl
      · have hne : (.byte slash :: token :: rest : List Token) ≠
            [.byte slash, .catchAll name] := by
          intro h
          exact htoken (List.cons.inj (List.cons.inj h).2).1
        rw [if_neg hne, rivalry_of_ne (Ne.symm htoken)]
        rfl

theorem judges_edges {handler : α} {es : List (Edge α)}
    (ih : ∀ edge ∈ es, edge.2.Judges handler) : (Below.edges es).Judges handler := by
  intro fresh rest slashed sound proper hrest hcatchAll
  rcases graft_edges handler fresh es rest with
    ⟨hsprout, hfree⟩ | ⟨before, b, node, after, hhead, rfl, hfollow⟩
  · rw [hsprout]
    refine verdict_sprout sound hrest ?_ hfree
    intro name hname hes
    exact hcatchAll name hname (congrArg Below.edges hes)
  · rw [hfollow]
    obtain ⟨rest, rfl⟩ := List.head?_eq_some_iff.mp hhead
    obtain ⟨hkeys, hsound⟩ := Below.sound_edges_iff.mp sound
    obtain ⟨hbefore, hafter⟩ := free_of_nodup hkeys
    have hmem : (b, node) ∈ before ++ (b, node) :: after :=
      List.mem_append_right _ (List.mem_cons_self ..)
    -- only the edge that is followed can be in the way
    rw [Below.listing, listingEdges_append, listingEdges, standing_append, standing_append,
      standing_edges_eq_none (fun edge h => hsound edge (List.mem_append_left _ h)) hbefore,
      standing_edges_eq_none
        (fun edge h => hsound edge (List.mem_append_right _ (List.mem_cons_of_mem _ h))) hafter,
      none_graver, graver_none]
    exact ih _ hmem b fresh _ slashed (hsound _ hmem) proper rfl

theorem judges_param {handler : α} {next : Option (Node α)}
    (ih : ∀ node, next = some node → node.Judges handler) (name : List UInt8)
    (hits : CounterId) (priority : Nat) (existing : Option α) :
    (Below.param name hits priority existing next).Judges handler := by
  intro fresh rest slashed sound proper hrest _
  obtain ⟨token, rest, rfl⟩ := List.exists_cons_of_ne_nil hrest
  by_cases htoken : token = .param name
  · subst htoken
    obtain ⟨-, hslash, hproper⟩ := proper
    have hshared := standing_prependTokens [.param name]
      (existing.toList.map (([], ·)) ++ listingNext next) rest
    rw [Below.listing, ← List.singleton_append, hshared, standing_append]
    cases rest with
    | nil =>
        rw [List.append_nil, graft_param_here, standing_end_next sound.2, graver_none]
        cases existing <;> rfl
    | cons token rest =>
        obtain rfl : token = .byte slash := hslash token rfl
        rw [List.singleton_append, graft_param_next, standing_here]
        cases next with
        | none => cases existing <;> rfl
        | some node =>
            have hnode := ih node rfl slash fresh _ false sound.2 hproper rfl
            cases existing <;> exact hnode.trans (none_graver _).symm
  · obtain ⟨clash, hclash, hkind⟩ := graft_param_clash htoken
    rw [hclash, standing_param sound (Ne.symm htoken)]
    exact congrArg some hkind

/-- An insertion is refused for the gravest rivalry with the routes that are there. -/
theorem verdict_graft (handler : α) :
    (∀ node : Node α, node.Judges handler) ∧ ∀ below : Below α, below.Judges handler := by
  refine tree_induction ?static ?catchAll ?edges ?param
  case static =>
    intro label priority existing below ih
    exact judges_static ih label priority existing
  case catchAll =>
    intro name hits priority existing
    exact judges_catchAll handler name hits priority existing
  case edges =>
    intro es ih
    exact judges_edges ih
  case param =>
    intro name hits priority existing next ih
    exact judges_param ih name hits priority existing

end RadixRouter

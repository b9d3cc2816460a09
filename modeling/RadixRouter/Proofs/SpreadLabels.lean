/-
# Trees apart from where their labels are cut

An attempt to add a route may cut a label in two, also when it is refused.  `Node.spread` cuts
every label into single bytes, so two trees that are alike when spread out differ in nothing but
where their labels are cut: the edges of every node stand in the same order, and so do the routes.

What an insertion answers, and what it makes of a tree, depend on the tree only as it is spread
out.  Insertions into two trees that are alike have the same verdicts, texts included, and leave
trees that are alike.
-/

import RadixRouter.Proofs.Insertion
import RadixRouter.Router.Basic

namespace RadixRouter

variable {α : Type}

/-! ## Labels of single bytes -/

/-- Literal text as a chain of nodes with one byte each. -/
def spreadLabel : List UInt8 → (priority : Nat) → (handler : Option α) → Below α → Node α
  | b :: c :: label, priority, handler, below =>
    .static [b] priority none (.edges [(c, spreadLabel (c :: label) priority handler below)])
  | label, priority, handler, below => .static label priority handler below

mutual

/-- A tree with every label cut into single bytes. -/
def Node.spread : Node α → Node α
  | .static label priority handler below => spreadLabel label priority handler below.spread
  | .catchAll name hits priority handler => .catchAll name hits priority handler

def Below.spread : Below α → Below α
  | .edges es => .edges (spreadEdges es)
  | .param name hits priority handler next =>
    .param name hits priority handler (spreadNext next)

def spreadEdges : List (UInt8 × Node α) → List (UInt8 × Node α)
  | [] => []
  | (index, node) :: es => (index, node.spread) :: spreadEdges es

def spreadNext : Option (Node α) → Option (Node α)
  | none => none
  | some node => some node.spread

end

theorem spreadEdges_eq_map (es : List (Edge α)) :
    spreadEdges es = es.map fun edge => (edge.1, edge.2.spread) := by
  induction es with
  | nil => rfl
  | cons edge es ih =>
      rw [List.map_cons, ← ih]
      rfl

theorem spreadEdges_append (es es' : List (Edge α)) :
    spreadEdges (es ++ es') = spreadEdges es ++ spreadEdges es' := by
  simp [spreadEdges_eq_map]

/-- A chain of single bytes counts what its label counted. -/
@[simp]
theorem priority_spreadLabel (label : List UInt8) (priority : Nat) (handler : Option α)
    (below : Below α) : (spreadLabel label priority handler below).priority = priority := by
  rcases label with _ | ⟨b, _ | ⟨c, label⟩⟩ <;> rfl

@[simp]
theorem Node.priority_spread (node : Node α) : node.spread.priority = node.priority := by
  cases node with
  | static label priority handler below => exact priority_spreadLabel label priority handler _
  | catchAll name hits priority handler => rfl

theorem sample_spreadLabel (label : List UInt8) (priority : Nat) (handler : Option α)
    (below : Below α) : (spreadLabel label priority handler below).sample =
      (Node.static label priority handler below).sample := by
  fun_induction spreadLabel label priority handler below with
  | case1 b c label priority handler below ih =>
      rw [Node.sample, Below.sample, sampleEdges, ih]
      rfl
  | case2 => rfl

/-- Cutting labels keeps the first route below. -/
theorem sample_spread :
    (∀ node : Node α, node.spread.sample = node.sample) ∧
      ∀ below : Below α, below.spread.sample = below.sample := by
  refine tree_induction ?static ?catchAll ?edges ?param
  case static =>
    intro label priority handler below ih
    rw [Node.spread, sample_spreadLabel, Node.sample, ih, Node.sample]
  case catchAll =>
    intro name hits priority handler
    rfl
  case edges =>
    intro es ih
    cases es with
    | nil => rfl
    | cons edge es => exact ih edge (List.mem_cons_self ..)
  case param =>
    intro name hits priority handler next ih
    cases next with
    | none => rfl
    | some node => exact congrArg (colon :: name ++ if handler.isSome then [] else ·) (ih node rfl)

theorem spread_spreadLabel (label : List UInt8) (priority : Nat) (handler : Option α)
    (below : Below α) : (spreadLabel label priority handler below).spread =
      spreadLabel label priority handler below.spread := by
  fun_induction spreadLabel label priority handler below with
  | case1 b c label priority handler below ih =>
      rw [Node.spread, Below.spread, spreadEdges, spreadEdges, ih]
      rfl
  | case2 => rfl

/-- A label of single bytes is not cut further. -/
theorem spread_spread :
    (∀ node : Node α, node.spread.spread = node.spread) ∧
      ∀ below : Below α, below.spread.spread = below.spread := by
  refine tree_induction ?static ?catchAll ?edges ?param
  case static =>
    intro label priority handler below ih
    rw [Node.spread, spread_spreadLabel, ih]
  case catchAll =>
    intro name hits priority handler
    rfl
  case edges =>
    intro es ih
    rw [Below.spread, Below.spread, spreadEdges_eq_map, spreadEdges_eq_map, List.map_map]
    refine congrArg Below.edges (List.map_congr_left fun edge hedge => ?_)
    exact congrArg (Prod.mk edge.1) (ih edge hedge)
  case param =>
    intro name hits priority handler next ih
    cases next with
    | none => rfl
    | some node => exact congrArg (Below.param name hits priority handler ∘ some) (ih node rfl)

/-- The two halves of a label that is cut are spread out as the whole was. -/
theorem spread_cut (b : UInt8) {label suffix : List UInt8} {c : UInt8} (common : List UInt8)
    (cut : label = b :: common ++ c :: suffix) (priority : Nat) (handler : Option α)
    (below : Below α) :
    (Node.static (b :: common) priority none
        (.edges [(c, .static (c :: suffix) priority handler below)])).spread =
      (Node.static label priority handler below).spread := by
  subst cut
  induction common generalizing b with
  | nil => rfl
  | cons d common ih =>
      have h := ih d
      rw [Node.spread, Node.spread] at h ⊢
      rw [spreadLabel, h]
      rfl

section Map

variable {f : Node α → Node α}

theorem raise_map (keeps : ∀ node, (f node).priority = node.priority) (index : UInt8)
    (es : List (Edge α)) :
    raise index (es.map fun edge => (edge.1, f edge.2)) =
      (raise index es).map fun edge => (edge.1, f edge.2) := by
  have drops : (es.map fun edge => (edge.1, f edge.2)).dropWhile (·.1 ≠ index) =
      (es.dropWhile (·.1 ≠ index)).map fun edge => (edge.1, f edge.2) := List.dropWhile_map ..
  have takes : (es.map fun edge => (edge.1, f edge.2)).takeWhile (·.1 ≠ index) =
      (es.takeWhile (·.1 ≠ index)).map fun edge => (edge.1, f edge.2) := List.takeWhile_map ..
  unfold raise
  rw [drops, takes]
  cases es.dropWhile (·.1 ≠ index) with
  | nil => rfl
  | cons edge after =>
      simp only [List.map_cons, ← List.map_reverse, List.dropWhile_map, List.takeWhile_map,
        Function.comp_def, keeps, List.map_append]

theorem place_map (keeps : ∀ node, (f node).priority = node.priority) (edge : Edge α)
    (es : List (Edge α)) :
    place (edge.1, f edge.2) (es.map fun edge => (edge.1, f edge.2)) =
      (place edge es).map fun edge => (edge.1, f edge.2) := by
  induction es with
  | nil => rfl
  | cons other es ih =>
      rw [List.map_cons, place, place, ih, keeps, keeps]
      split <;> rfl

theorem rank_map (keeps : ∀ node, (f node).priority = node.priority) (es : List (Edge α)) :
    rank (es.map fun edge => (edge.1, f edge.2)) =
      (rank es).map fun edge => (edge.1, f edge.2) := by
  induction es with
  | nil => rfl
  | cons edge es ih =>
      show place (edge.1, f edge.2) (rank (es.map fun edge => (edge.1, f edge.2))) = _
      rw [ih, place_map keeps]
      rfl

end Map

theorem raise_spreadEdges (index : UInt8) (es : List (Edge α)) :
    raise index (spreadEdges es) = spreadEdges (raise index es) := by
  rw [spreadEdges_eq_map, spreadEdges_eq_map, raise_map Node.priority_spread]

/-! ## One step of a graft -/

section Step

variable {handler : α} {fresh : CounterId} {priority : Nat} {existing : Option α}
  {below : Below α} {rest : List Token}

/-- Edges that are spread out the same make sprouts of the same verdict, and are spread out the
same after it. -/
theorem sprout_alike (handler : α) (fresh : CounterId) {es es' : List (Edge α)}
    (alike : spreadEdges es = spreadEdges es') (rest : List Token) :
    (sprout handler fresh es rest).verdict = (sprout handler fresh es' rest).verdict ∧
      (sprout handler fresh es rest).tree.spread = (sprout handler fresh es' rest).tree.spread := by
  have kept : (Below.edges es).spread = (Below.edges es').spread := congrArg Below.edges alike
  have sampled : sampleEdges es = sampleEdges es' := by
    show (Below.edges es).sample = (Below.edges es').sample
    rw [← sample_spread.2, kept, sample_spread.2]
  have empty : es.isEmpty = es'.isEmpty := by
    rw [spreadEdges_eq_map, spreadEdges_eq_map] at alike
    rw [← List.isEmpty_map, alike, List.isEmpty_map]
  cases rest with
  | nil => exact ⟨rfl, kept⟩
  | cons token rest =>
      cases token with
      | byte b =>
          refine ⟨rfl, congrArg Below.edges ?_⟩
          rw [← raise_spreadEdges, ← raise_spreadEdges, spreadEdges_append, spreadEdges_append, alike]
      | param name =>
          unfold sprout
          dsimp only
          rw [empty, sampled]
          split
          · exact ⟨rfl, rfl⟩
          · exact ⟨rfl, kept⟩
      | catchAll name =>
          unfold sprout
          dsimp only
          rw [sampled]
          exact ⟨rfl, kept⟩

/-- A byte that label and route share is passed before anything else. -/
theorem graft_prepend (b : UInt8) (label : List UInt8) :
    (Node.static (b :: label) priority existing below).graft handler fresh (.byte b :: rest) =
      ⟨((Node.static label priority existing below).graft handler fresh rest).tree.prepend b,
        ((Node.static label priority existing below).graft handler fresh rest).verdict⟩ := by
  rcases hmet : overlap label rest with ⟨common, label', rest'⟩
  have hmet' : overlap (b :: label) (.byte b :: rest) = (b :: common, label', rest') := by
    rw [overlap, if_pos rfl, hmet]
  rcases label' with _ | ⟨c, suffix⟩ <;> rcases rest' with _ | ⟨token, rest'⟩
  · rw [graft_here hmet, graft_here hmet']
    cases existing <;> rfl
  · rw [graft_below hmet, graft_below hmet']
    rfl
  · rw [graft_cut_end hmet, graft_cut_end hmet']
    rfl
  · rw [graft_cut_sprout hmet, graft_cut_sprout hmet']
    rfl

/-- A label of which the route does not share the first byte is cut before it. -/
theorem overlap_of_head {b : UInt8} (label : List UInt8) (apart : rest.head? ≠ some (.byte b)) :
    overlap (b :: label) rest = ([], b :: label, rest) := by
  cases rest with
  | nil => rfl
  | cons token rest =>
      cases token with
      | byte c =>
          rw [overlap, if_neg]
          rintro rfl
          exact apart rfl
      | param name => rfl
      | catchAll name => rfl

theorem overlap_nil (rest : List Token) : overlap [] rest = ([], [], rest) := by
  rw [overlap]
  exact nofun

/-- A single edge is followed by its byte. -/
theorem graft_single (c : UInt8) (node : Node α) :
    (Below.edges [(c, node)]).graft handler fresh (.byte c :: rest) =
      ⟨.edges [(c, (node.graft handler fresh (.byte c :: rest)).tree)],
        (node.graft handler fresh (.byte c :: rest)).verdict⟩ := by
  rw [Below.graft.eq_def]
  simp [graftEdges, raise]

theorem graft_single_other {c : UInt8} (node : Node α) (apart : rest.head? ≠ some (.byte c)) :
    (Below.edges [(c, node)]).graft handler fresh rest =
      sprout handler fresh [(c, node)] rest := by
  rcases graft_edges handler fresh [(c, node)] rest with
    ⟨h, -⟩ | ⟨before, b, taken, after, hb, hes, -⟩
  · exact h
  · have inside : (b, taken) ∈ [(c, node)] := by
      rw [hes]
      exact List.mem_append_right _ (List.mem_cons_self ..)
    cases List.mem_singleton.mp inside
    exact absurd hb apart

end Step

/-- Onto either node, a route is grafted with the same verdict and with trees that are alike. -/
def Node.GraftsLike (handler : α) (node node' : Node α) : Prop :=
  ∀ (fresh : CounterId) (rest : List Token),
    (node.graft handler fresh rest).verdict = (node'.graft handler fresh rest).verdict ∧
      (node.graft handler fresh rest).tree.spread = (node'.graft handler fresh rest).tree.spread

/-- The same below a label. -/
def Below.GraftsLike (handler : α) (below below' : Below α) : Prop :=
  ∀ (fresh : CounterId) (rest : List Token),
    (below.graft handler fresh rest).verdict = (below'.graft handler fresh rest).verdict ∧
      (below.graft handler fresh rest).tree.spread = (below'.graft handler fresh rest).tree.spread

section Alike

variable {handler : α}

theorem Node.GraftsLike.trans {first second third : Node α}
    (one : first.GraftsLike handler second) (two : second.GraftsLike handler third) :
    first.GraftsLike handler third := fun fresh rest =>
  ⟨(one fresh rest).1.trans (two fresh rest).1, (one fresh rest).2.trans (two fresh rest).2⟩

theorem spread_static {below below' : Below α} (alike : below.spread = below'.spread)
    (label : List UInt8) (priority : Nat) (existing : Option α) :
    (Node.static label priority existing below).spread =
      (Node.static label priority existing below').spread := by
  rw [Node.spread, Node.spread, alike]

/-- Under the same label, a route is grafted alike onto what is alike. -/
theorem graftsLike_static {below : Below α} (ih : below.GraftsLike handler below.spread)
    (label : List UInt8) (priority : Nat) (existing : Option α) :
    (Node.static label priority existing below).GraftsLike handler
      (.static label priority existing below.spread) := by
  intro fresh rest
  have under := (spread_spread.2 below).symm
  rcases hmet : overlap label rest with ⟨common, label', rest'⟩
  rcases label' with _ | ⟨b, suffix⟩ <;> rcases rest' with _ | ⟨token, rest'⟩
  · rw [graft_here hmet, graft_here hmet]
    cases existing with
    | none => exact ⟨rfl, spread_static under ..⟩
    | some existing => exact ⟨rfl, spread_static under ..⟩
  · rw [graft_below hmet, graft_below hmet]
    obtain ⟨hverdict, htree⟩ := ih fresh (token :: rest')
    exact ⟨hverdict, spread_static htree ..⟩
  · rw [graft_cut_end hmet, graft_cut_end hmet]
    refine ⟨rfl, spread_static ?_ ..⟩
    rw [Below.spread, spreadEdges, spread_static under]
    rfl
  · rw [graft_cut_sprout hmet, graft_cut_sprout hmet]
    have lower : spreadEdges [(b, .static (b :: suffix) priority existing below)] =
        spreadEdges [(b, .static (b :: suffix) priority existing below.spread)] := by
      rw [spreadEdges, spread_static under]
      rfl
    obtain ⟨hverdict, htree⟩ := sprout_alike handler fresh lower (token :: rest')
    exact ⟨hverdict, spread_static htree ..⟩

/-- The first byte of a label on an edge of its own leads to the rest of the label. -/
theorem spread_prepend {c : UInt8} {node : Node α} {label : List UInt8} {existing : Option α}
    {priority : Nat} {below : Below α} (shape : node = .static (c :: label) priority existing below)
    (b : UInt8) : (node.prepend b).spread =
      Node.static [b] priority none (.edges [(c, node.spread)]) := by
  subst shape
  rfl

/-- A route that does not start with the first byte of two labels is grafted alike onto them when
they are spread out the same. -/
theorem graft_apart {b : UInt8} {label label' : List UInt8} {priority : Nat}
    {existing existing' : Option α} {below below' : Below α}
    (whole : (Node.static (b :: label) priority existing below).spread =
      (Node.static (b :: label') priority existing' below').spread)
    {rest : List Token} (apart : rest.head? ≠ some (.byte b)) (fresh : CounterId) :
    ((Node.static (b :: label) priority existing below).graft handler fresh rest).verdict =
        ((Node.static (b :: label') priority existing' below').graft handler fresh rest).verdict ∧
      ((Node.static (b :: label) priority existing below).graft handler fresh rest).tree.spread =
        ((Node.static (b :: label') priority existing' below').graft handler fresh
          rest).tree.spread := by
  have lower : spreadEdges [(b, .static (b :: label) priority existing below)] =
      spreadEdges [(b, .static (b :: label') priority existing' below')] :=
    congrArg (fun node => [(b, node)]) whole
  cases rest with
  | nil =>
      rw [graft_cut_end (overlap_of_head _ apart), graft_cut_end (overlap_of_head _ apart)]
      refine ⟨rfl, spread_static ?_ ..⟩
      exact congrArg Below.edges lower
  | cons token rest =>
      rw [graft_cut_sprout (overlap_of_head _ apart), graft_cut_sprout (overlap_of_head _ apart)]
      obtain ⟨hverdict, htree⟩ := sprout_alike handler fresh lower (token :: rest)
      exact ⟨hverdict, spread_static htree ..⟩

/-- A route is grafted alike onto a label and onto the chain of its bytes. -/
theorem graftsLike_spreadLabel (label : List UInt8) (priority : Nat) (existing : Option α)
    (below : Below α) :
    (Node.static label priority existing below).GraftsLike handler
      (spreadLabel label priority existing below) := by
  fun_induction spreadLabel label priority existing below with
  | case2 => exact fun fresh rest => ⟨rfl, rfl⟩
  | case1 b c label priority existing below ih =>
      intro fresh rest
      have chained : (spreadLabel (c :: label) priority existing below).spread =
          (Node.static (c :: label) priority existing below).spread := spread_spreadLabel ..
      have lower : spreadEdges [(c, .static (c :: label) priority existing below)] =
          spreadEdges [(c, spreadLabel (c :: label) priority existing below)] := by
        rw [spreadEdges, ← chained]
        rfl
      by_cases hb : rest.head? = some (.byte b)
      case neg =>
        refine graft_apart ?_ hb fresh
        exact congrArg (fun es => Node.static [b] priority none (.edges es)) lower
      obtain ⟨rest, rfl⟩ := List.head?_eq_some_iff.mp hb
      rw [graft_prepend, graft_prepend]
      by_cases hc : rest.head? = some (.byte c)
      · -- both bytes are shared, so the cut between them is passed
        obtain ⟨hverdict, htree⟩ := ih fresh rest
        obtain ⟨rest, rfl⟩ := List.head?_eq_some_iff.mp hc
        rw [graft_below (overlap_nil _), graft_single]
        refine ⟨hverdict, ?_⟩
        obtain ⟨label', existing', below', hshape⟩ : ∃ label' existing' below',
            ((Node.static (c :: label) priority existing below).graft handler fresh
              (.byte c :: rest)).tree =
              .static (c :: label') (priority + 1) existing' below' := by
          rw [graft_prepend]
          obtain ⟨label', existing', below', h⟩ := exists_graft_static handler fresh label priority
            existing below rest
          exact ⟨label', existing', below', by rw [h]; rfl⟩
        rw [spread_prepend hshape]
        exact congrArg (fun node => Node.static [b] (priority + 1) none (.edges [(c, node)])) htree
      · cases rest with
        | nil =>
            rw [graft_cut_end (overlap_of_head label hc), graft_here (overlap_nil _)]
            exact ⟨rfl, congrArg (fun es => Node.static [b] (priority + 1) (some handler)
              (.edges es)) lower⟩
        | cons token rest =>
            rw [graft_cut_sprout (overlap_of_head label hc), graft_below (overlap_nil _),
              graft_single_other _ hc]
            obtain ⟨hverdict, htree⟩ := sprout_alike handler fresh lower (token :: rest)
            exact ⟨hverdict, spread_static htree ..⟩

/-- The same edge is followed in edges that are spread out. -/
theorem graftEdges_spread {es : List (Edge α)}
    (ih : ∀ edge ∈ es, edge.2.GraftsLike handler edge.2.spread) (fresh : CounterId) (b : UInt8)
    (rest : List Token) :
    (graftEdges handler fresh es b rest).map (fun grafted =>
        (spreadEdges grafted.tree, grafted.verdict)) =
      (graftEdges handler fresh (spreadEdges es) b rest).map fun grafted =>
        (spreadEdges grafted.tree, grafted.verdict) := by
  induction es with
  | nil => rfl
  | cons edge es ihes =>
      obtain ⟨index, node⟩ := edge
      rw [List.forall_mem_cons] at ih
      have kept : spreadEdges (spreadEdges es) = spreadEdges es :=
        Below.edges.inj (spread_spread.2 (.edges es))
      rw [spreadEdges, graftEdges, graftEdges]
      by_cases hindex : index = b
      · obtain ⟨hverdict, htree⟩ := ih.1 fresh rest
        simp only [if_pos hindex, Option.map_some, spreadEdges, hverdict, htree, kept]
      · simp only [if_neg hindex, Option.map_map, Function.comp_def, spreadEdges,
          spread_spread.1 node]
        have later := congrArg (Option.map fun grafted : List (Edge α) × Except Clash CounterId =>
          ((index, node.spread) :: grafted.1, grafted.2)) (ihes ih.2)
        simpa only [Option.map_map, Function.comp_def] using later

theorem graftsLike_edges {es : List (Edge α)}
    (ih : ∀ edge ∈ es, edge.2.GraftsLike handler edge.2.spread) :
    (Below.edges es).GraftsLike handler (Below.edges es).spread := by
  intro fresh rest
  have kept : spreadEdges es = spreadEdges (spreadEdges es) :=
    (Below.edges.inj (spread_spread.2 (.edges es))).symm
  have sprouts := sprout_alike handler fresh kept rest
  rw [Below.spread, Below.graft.eq_def, Below.graft.eq_def]
  rcases rest with _ | ⟨b | name | name, rest⟩
  case cons.byte =>
    have same := graftEdges_spread ih fresh b (.byte b :: rest)
    dsimp only
    cases hfirst : graftEdges handler fresh es b (.byte b :: rest) with
    | none =>
        rw [hfirst, Option.map_none, eq_comm, Option.map_eq_none_iff] at same
        rw [same]
        exact sprouts
    | some grafted =>
        rw [hfirst, Option.map_some, eq_comm, Option.map_eq_some_iff] at same
        obtain ⟨grafted', hsecond, heq⟩ := same
        obtain ⟨htree, hverdict⟩ := Prod.mk.inj heq
        rw [hsecond]
        refine ⟨hverdict.symm, congrArg Below.edges ?_⟩
        rw [← raise_spreadEdges, ← raise_spreadEdges, htree]
  all_goals exact sprouts

theorem graftsLike_param {next : Option (Node α)}
    (ih : ∀ node, next = some node → node.GraftsLike handler node.spread) (name : List UInt8)
    (hits : CounterId) (priority : Nat) (existing : Option α) :
    (Below.param name hits priority existing next).GraftsLike handler
      (Below.param name hits priority existing next).spread := by
  intro fresh rest
  have kept (priority : Nat) (existing : Option α) :
      (Below.param name hits priority existing next).spread =
        (Below.param name hits priority existing next).spread.spread := (spread_spread.2 _).symm
  have sampled := sample_spread.2 (.param name hits priority existing next)
  rw [Below.spread] at sampled ⊢
  rcases rest with _ | ⟨token, rest⟩
  · rw [Below.graft.eq_def, Below.graft.eq_def]
    dsimp only
    rw [sampled]
    exact ⟨rfl, kept _ _⟩
  · by_cases htoken : token = .param name
    · subst htoken
      rcases rest with _ | ⟨token, rest⟩
      · rw [graft_param_here, graft_param_here]
        cases existing <;> exact ⟨rfl, kept _ _⟩
      · rw [graft_param_next, graft_param_next]
        cases next with
        | none => exact ⟨rfl, rfl⟩
        | some node =>
            obtain ⟨hverdict, htree⟩ := ih node rfl fresh (token :: rest)
            exact ⟨hverdict, congrArg (Below.param name hits _ existing ∘ some) htree⟩
    · rw [graft_param_other htoken, graft_param_other htoken, sampled]
      exact ⟨rfl, kept _ _⟩

/-- What a graft makes of a tree depends on the tree as it is spread out. -/
theorem graft_spread (handler : α) :
    (∀ node : Node α, node.GraftsLike handler node.spread) ∧
      ∀ below : Below α, below.GraftsLike handler below.spread := by
  refine tree_induction ?static ?catchAll ?edges ?param
  case static =>
    intro label priority existing below ih
    exact (graftsLike_static ih label priority existing).trans
      (graftsLike_spreadLabel label priority existing below.spread)
  case catchAll =>
    intro name hits priority existing fresh rest
    exact ⟨rfl, rfl⟩
  case edges =>
    intro es ih
    exact graftsLike_edges ih
  case param =>
    intro name hits priority existing next ih
    exact graftsLike_param ih name hits priority existing

end Alike

theorem weight_map {f : Node α → Node α} (keeps : ∀ node, (f node).priority = node.priority)
    (es : List (Edge α)) :
    (Below.edges (es.map fun edge => (edge.1, f edge.2))).weight = (Below.edges es).weight := by
  rw [Below.weight, Below.weight, List.foldr_map]
  simp only [keeps]

@[simp]
theorem Below.weight_spread (below : Below α) : below.spread.weight = below.weight := by
  cases below with
  | edges es =>
      rw [Below.spread, spreadEdges_eq_map]
      exact weight_map Node.priority_spread es
  | param name hits priority handler next => rfl

/-- Every byte of a label counts what the label counts. -/
theorem recount_spreadLabel (label : List UInt8) (priority : Nat) (handler : Option α)
    (below : Below α) : (spreadLabel label priority handler below).recount =
      spreadLabel label (handler.toList.length + below.recount.weight) handler below.recount := by
  fun_induction spreadLabel label priority handler below with
  | case1 b c label priority handler below ih =>
      rw [Node.recount, Below.recount, recountEdges, recountEdges, ih, spreadLabel]
      show Node.static [b] (0 + (_ + 0)) none _ = _
      rw [priority_spreadLabel, Nat.add_zero, Nat.zero_add]
      rfl
  | case2 label priority handler below hlabel =>
      rw [Node.recount, spreadLabel]
      exact hlabel

/-- Counts do not depend on where labels are cut. -/
theorem recount_spread :
    (∀ node : Node α, node.recount.spread = node.spread.recount) ∧
      ∀ below : Below α, below.recount.spread = below.spread.recount := by
  refine tree_induction ?static ?catchAll ?edges ?param
  case static =>
    intro label priority handler below ih
    rw [Node.spread, recount_spreadLabel, ← ih, Below.weight_spread]
    rfl
  case catchAll =>
    intro name hits priority handler
    rfl
  case edges =>
    intro es ih
    rw [Below.recount, Below.spread, Below.spread, Below.recount, spreadEdges_eq_map,
      spreadEdges_eq_map, recountEdges_eq_map, recountEdges_eq_map, ← rank_map Node.priority_spread,
      List.map_map, List.map_map]
    refine congrArg (Below.edges ∘ rank) (List.map_congr_left fun edge hedge => ?_)
    exact congrArg (Prod.mk edge.1) (ih edge hedge)
  case param =>
    intro name hits priority handler next ih
    cases next with
    | none => rfl
    | some node =>
        have hnode := ih node rfl
        have hcount : node.spread.recount.priority = node.recount.priority := by
          rw [← hnode, Node.priority_spread]
        show Below.param name hits (handler.toList.length + node.recount.priority) handler
            (some node.recount.spread) =
          Below.param name hits (handler.toList.length + node.spread.recount.priority) handler
            (some node.spread.recount)
        rw [hnode, hcount]

/-! ## Insertion -/

/-- Insertions into two trees that are alike have the same verdict and leave trees that are
alike. -/
theorem insert_alike {tree tree' : Node α} (alike : tree.spread = tree'.spread) (handler : α)
    (fresh : CounterId) (route : List Token) :
    (tree.insert handler fresh route).verdict = (tree'.insert handler fresh route).verdict ∧
      (tree.insert handler fresh route).tree.spread =
        (tree'.insert handler fresh route).tree.spread := by
  obtain ⟨hverdict, htree⟩ := (graft_spread handler).1 tree fresh route
  obtain ⟨hverdict', htree'⟩ := (graft_spread handler).1 tree' fresh route
  rw [alike] at hverdict htree
  have verdicts := hverdict.trans hverdict'.symm
  have trees := htree.trans htree'.symm
  unfold Node.insert
  dsimp only
  rw [← verdicts]
  cases (tree.graft handler fresh route).verdict with
  | ok used => exact ⟨verdicts, trees⟩
  | error clash =>
      refine ⟨rfl, ?_⟩
      dsimp only
      rw [recount_spread.1, recount_spread.1, trees]

/-- Trees of a method that differ in nothing but where their labels are cut: the same nodes in
the same order, with the same counts. -/
def SameBranches (tree tree' : Option (Node α)) : Prop :=
  tree.map Node.spread = tree'.map Node.spread

/-- A registration is answered the same in trees that differ in nothing but cuts, texts included,
and leaves such trees. -/
theorem SameBranches.insertRoute {tree tree' : Option (Node α)} (same : SameBranches tree tree')
    (pattern : String) (handler : α) (fresh : CounterId) :
    (Router.insertRoute tree pattern handler fresh).2 =
        (Router.insertRoute tree' pattern handler fresh).2 ∧
      SameBranches (Router.insertRoute tree pattern handler fresh).1
        (Router.insertRoute tree' pattern handler fresh).1 := by
  unfold Router.insertRoute
  dsimp only
  cases Pattern.fault? (Utf8.encode pattern) with
  | some fault => exact ⟨rfl, same⟩
  | none =>
      cases tree with
      | none =>
          cases tree' with
          | none => exact ⟨rfl, rfl⟩
          | some tree' => cases same
      | some tree =>
          cases tree' with
          | none => cases same
          | some tree' =>
              obtain ⟨hverdict, htree⟩ := insert_alike (Option.some.inj same) handler fresh
                (Pattern.tokens (Utf8.encode pattern))
              exact ⟨congrArg (Except.mapError (Router.refusal pattern)) hverdict,
                congrArg some htree⟩

end RadixRouter

/-
# Counts of routes and the order of edges

A tree is tallied when every node counts the routes at or below it and edges stand by falling
count.  An accepted insertion keeps a tree tallied: each node that it passes counts one route
more, and the edge that it follows moves in front of the siblings with fewer.  A refused one
does not, since the counts were raised before the clash was met; but counting afresh tallies
any tree.
-/

import RadixRouter.Proofs.Insertion

namespace RadixRouter

open Pattern (Proper)

variable {α : Type}

/-- Edges by falling number of routes. -/
def Falling (es : List (Edge α)) : Prop :=
  es.Pairwise fun edge later => later.2.priority ≤ edge.2.priority

mutual

/-- Every node counts the routes at or below it, and edges stand by falling count. -/
def Node.Tallied : Node α → Prop
  | .static label priority handler below =>
    priority = (Node.static label priority handler below).listing.length ∧ below.Tallied
  | .catchAll _ _ priority _ => priority = 1

/-- The same of what follows a label. -/
def Below.Tallied : Below α → Prop
  | .edges es => Falling es ∧ talliedEdges es
  | .param name hits priority handler next =>
    priority = (Below.param name hits priority handler next).listing.length ∧ talliedNext next

def talliedEdges : List (UInt8 × Node α) → Prop
  | [] => True
  | (_, node) :: es => node.Tallied ∧ talliedEdges es

def talliedNext : Option (Node α) → Prop
  | none => True
  | some node => node.Tallied

end

theorem talliedEdges_iff {es : List (Edge α)} : talliedEdges es ↔ ∀ edge ∈ es, edge.2.Tallied := by
  induction es with
  | nil => simp [talliedEdges]
  | cons edge es ih =>
      rw [List.forall_mem_cons, ← ih]
      rfl

theorem Below.tallied_edges_iff {es : List (Edge α)} :
    (Below.edges es).Tallied ↔ Falling es ∧ ∀ edge ∈ es, edge.2.Tallied := by
  rw [Below.Tallied, talliedEdges_iff]

theorem Node.Tallied.priority_eq {node : Node α} (tallied : node.Tallied) :
    node.priority = node.listing.length := by
  cases node with
  | static label priority handler below => exact tallied.1
  | catchAll name hits priority handler => exact tallied

@[simp]
theorem length_prependTokens (tokens : List Token) (listing : List (List Token × α)) :
    (prependTokens tokens listing).length = listing.length := List.length_map _

theorem length_listing_static (label : List UInt8) (priority : Nat) (handler : Option α)
    (below : Below α) :
    (Node.static label priority handler below).listing.length =
      handler.toList.length + below.listing.length := by
  rw [Node.listing, length_prependTokens, List.length_append, List.length_map]

theorem length_listing_param (name : List UInt8) (hits : CounterId) (priority : Nat)
    (handler : Option α) (next : Option (Node α)) :
    (Below.param name hits priority handler next).listing.length =
      handler.toList.length + (listingNext next).length := by
  rw [Below.listing, length_prependTokens, List.length_append, List.length_map]

/-- An attempt that was accepted adds one route. -/
theorem length_of_enlarged {verdict : Except Clash CounterId} {used : CounterId}
    {route : List Token × α} {before after : List (List Token × α)} (accepted : verdict = .ok used)
    (same : after.Perm (enlarged verdict route before)) : after.length = before.length + 1 := by
  rw [same.length_eq, accepted]
  rfl

/-- Without one edge the others still fall, and those behind it count no more than it. -/
theorem Falling.middle {before after : List (Edge α)} {edge : Edge α}
    (falling : Falling (before ++ edge :: after)) :
    Falling (before ++ after) ∧ ∀ later ∈ after, later.2.priority ≤ edge.2.priority :=
  ⟨falling.sublist ((List.sublist_cons_self _ _).append_left _),
    (List.pairwise_cons.mp (List.pairwise_append.mp falling).2.1).1⟩

/-- In a rising list nothing is smaller after the first that is not smaller. -/
theorem le_of_mem_dropWhile (count : Nat) {es : List (Edge α)}
    (rising : es.Pairwise fun edge later => edge.2.priority ≤ later.2.priority) :
    ∀ edge ∈ es.dropWhile (fun sibling => decide (sibling.2.priority < count)),
      count ≤ edge.2.priority := by
  induction es with
  | nil => exact nofun
  | cons first es ih =>
      rw [List.pairwise_cons] at rising
      by_cases hfirst : first.2.priority < count
      · simp only [List.dropWhile_cons, hfirst, decide_true, if_true]
        exact ih rising.2
      · simp only [List.dropWhile_cons, hfirst, decide_false, Bool.false_eq_true, if_false]
        intro edge hedge
        rcases List.mem_cons.mp hedge with rfl | later
        · exact Nat.le_of_not_lt hfirst
        · exact (Nat.le_of_not_lt hfirst).trans (rising.1 edge later)

/-- The edge that is raised goes between the siblings that stay and those that it passes. -/
theorem raise_middle (before after : List (Edge α)) (edge : Edge α)
    (free : edge.1 ∉ before.map (·.1)) :
    raise edge.1 (before ++ edge :: after) =
      (before.reverse.dropWhile fun sibling => sibling.2.priority < edge.2.priority).reverse ++
        edge :: ((before.reverse.takeWhile fun sibling =>
          sibling.2.priority < edge.2.priority).reverse ++ after) := by
  have hpass : ∀ sibling ∈ before, decide (sibling.1 ≠ edge.1) = true := by
    intro sibling hsibling
    exact decide_eq_true fun h => free (List.mem_map.mpr ⟨sibling, hsibling, h⟩)
  rw [raise, List.dropWhile_append_of_pos hpass, List.takeWhile_append_of_pos hpass]
  simp only [List.dropWhile_cons, List.takeWhile_cons, ne_eq, not_true_eq_false, decide_false,
    Bool.false_eq_true, if_false, List.append_nil, List.append_assoc, List.cons_append]

/-- What is passed from the end of a list, and what is not, are the whole list. -/
theorem dropWhile_append_takeWhile_reverse (passed : Edge α → Bool) (es : List (Edge α)) :
    (es.reverse.dropWhile passed).reverse ++ (es.reverse.takeWhile passed).reverse = es := by
  rw [← List.reverse_append, List.takeWhile_append_dropWhile, List.reverse_reverse]

/-- Raising an edge puts edges in order that were in order apart from it, as long as it does
not count less than those behind it. -/
theorem falling_raise {before after : List (Edge α)} (edge : Edge α)
    (free : edge.1 ∉ before.map (·.1)) (rest : Falling (before ++ after))
    (least : ∀ later ∈ after, later.2.priority ≤ edge.2.priority) :
    Falling (raise edge.1 (before ++ edge :: after)) := by
  obtain ⟨hbefore, hafter, hacross⟩ := List.pairwise_append.mp rest
  rw [raise_middle before after edge free]
  have hrising : before.reverse.Pairwise fun edge later => edge.2.priority ≤ later.2.priority :=
    List.pairwise_reverse.mpr hbefore
  have hkept := le_of_mem_dropWhile edge.2.priority hrising
  have hcut := dropWhile_append_takeWhile_reverse
    (fun sibling => sibling.2.priority < edge.2.priority) before
  generalize hfewer : (fun sibling : Edge α => decide (sibling.2.priority < edge.2.priority)) =
    fewer at hkept hcut ⊢
  have hmoved : ∀ sibling ∈ before.reverse.takeWhile fewer,
      sibling.2.priority ≤ edge.2.priority := by
    intro sibling hsibling
    have h := List.mem_takeWhile_imp hsibling
    rw [← hfewer] at h
    exact Nat.le_of_lt (of_decide_eq_true h)
  generalize (before.reverse.dropWhile fewer) = kept at hkept hcut
  generalize (before.reverse.takeWhile fewer) = moved at hmoved hcut
  rw [← hcut] at hbefore hacross
  obtain ⟨hkeptOrder, hmovedOrder, hkeptMoved⟩ := List.pairwise_append.mp hbefore
  refine List.pairwise_append.mpr ⟨hkeptOrder, List.pairwise_cons.mpr ⟨?_, ?_⟩, ?_⟩
  · intro later hlater
    rcases List.mem_append.mp hlater with h | h
    · exact hmoved later (List.mem_reverse.mp h)
    · exact least later h
  · refine List.pairwise_append.mpr ⟨hmovedOrder, hafter, ?_⟩
    intro sibling hsibling later hlater
    exact hacross sibling (List.mem_append_right _ hsibling) later hlater
  · intro sibling hsibling later hlater
    rcases List.mem_cons.mp hlater with rfl | h
    · exact hkept sibling (List.mem_reverse.mp hsibling)
    · rcases List.mem_append.mp h with h | h
      · exact hkeptMoved sibling hsibling later h
      · exact hacross sibling (List.mem_append_left _ hsibling) later h

theorem falling_place {edge : Edge α} {es : List (Edge α)} (falling : Falling es) :
    Falling (place edge es) := by
  induction es with
  | nil => exact List.pairwise_singleton _ _
  | cons other es ih =>
      obtain ⟨hother, hes⟩ := List.pairwise_cons.mp falling
      rw [place]
      split
      · next hle =>
          refine List.pairwise_cons.mpr ⟨?_, falling⟩
          intro later hlater
          rcases List.mem_cons.mp hlater with rfl | h
          · exact hle
          · exact (hother later h).trans hle
      · next hlt =>
          refine List.pairwise_cons.mpr ⟨?_, ih hes⟩
          intro later hlater
          rcases List.mem_cons.mp ((place_perm edge es).mem_iff.mp hlater) with rfl | h
          · exact Nat.le_of_lt (Nat.lt_of_not_le hlt)
          · exact hother later h

theorem falling_rank (es : List (Edge α)) : Falling (rank es) := by
  induction es with
  | nil => exact List.Pairwise.nil
  | cons edge es ih => exact falling_place ih

/-- An edge is placed behind those that count more and in front of those that do not. -/
theorem place_between {ahead later : List (Edge α)} {edge : Edge α}
    (more : ∀ sibling ∈ ahead, edge.2.priority < sibling.2.priority)
    (noMore : ∀ sibling ∈ later, sibling.2.priority ≤ edge.2.priority) :
    place edge (ahead ++ later) = ahead ++ edge :: later := by
  induction ahead with
  | nil =>
      cases later with
      | nil => rfl
      | cons other later => exact if_pos (noMore other (List.mem_cons_self ..))
  | cons first ahead ih =>
      rw [List.forall_mem_cons] at more
      rw [List.cons_append, place, if_neg (Nat.not_le_of_lt more.1), ih more.2]
      rfl

/-- Ranking keeps edges that are in order. -/
theorem rank_of_falling {es : List (Edge α)} (falling : Falling es) : rank es = es := by
  induction es with
  | nil => rfl
  | cons edge es ih =>
      obtain ⟨hedge, hes⟩ := List.pairwise_cons.mp falling
      have first : place edge ([] ++ es) = [] ++ edge :: es := place_between nofun hedge
      show place edge (rank es) = edge :: es
      rw [ih hes]
      exact first

theorem tallied_prepend {b : UInt8} {node : Node α} (tallied : node.Tallied) :
    (node.prepend b).Tallied := by
  cases node with
  | static label priority handler below =>
      refine ⟨?_, tallied.2⟩
      rw [length_listing_static, ← length_listing_static label priority]
      exact tallied.1
  | catchAll name hits priority handler => exact tallied

/-- The chain of nodes of a single route counts that route. -/
theorem tallied_ofTokens (handler : α) (rest : List Token) (fresh : CounterId) :
    (Node.ofTokens handler rest fresh).1.Tallied := by
  fun_induction Node.ofTokens handler rest fresh with
  | case1 fresh => exact ⟨rfl, List.Pairwise.nil, True.intro⟩
  | case2 name rest fresh => exact ⟨rfl, List.pairwise_singleton _ _, rfl, True.intro⟩
  | case3 name fresh => exact ⟨rfl, rfl, True.intro⟩
  | case4 name rest fresh hrest next fresh' heq ih =>
      obtain ⟨label, existing, below, hnode⟩ := exists_ofTokens_eq handler rest (fresh + 1)
      rw [heq] at ih hnode
      have hone : next.listing.length = 1 := by
        rw [← ih.priority_eq]
        exact congrArg Node.priority hnode
      have hbelow : (Below.param name fresh 1 none (some next)).listing.length = 1 := by
        rw [length_listing_param, Option.toList_none, List.length_nil, Nat.zero_add]
        exact hone
      refine ⟨?_, hbelow.symm, ih⟩
      rw [length_listing_static, hbelow]
      rfl
  | case5 b name rest fresh ih => exact ih
  | case6 b rest fresh hrest node fresh' heq ih =>
      rw [heq] at ih
      exact tallied_prepend ih

/-- A sprout that was accepted leaves edges tallied. -/
theorem tallied_sprout {handler : α} {fresh used : CounterId} {es : List (Edge α)}
    {rest : List Token} (tallied : (Below.edges es).Tallied)
    (free : ∀ b, rest.head? = some (.byte b) → b ∉ es.map (·.1))
    (accepted : (sprout handler fresh es rest).verdict = .ok used) :
    (sprout handler fresh es rest).tree.Tallied := by
  obtain ⟨hfalling, hes⟩ := Below.tallied_edges_iff.mp tallied
  cases rest with
  | nil => exact tallied
  | cons token rest =>
      cases token with
      | byte b =>
          have hnode := tallied_ofTokens handler (.byte b :: rest) fresh
          refine Below.tallied_edges_iff.mpr ⟨?_, ?_⟩
          · refine falling_raise (b, _) (free b rfl) ?_ nofun
            rw [List.append_nil]
            exact hfalling
          · intro edge hedge
            rcases List.mem_append.mp ((raise_perm b _).mem_iff.mp hedge) with h | h
            · exact hes edge h
            · rw [List.mem_singleton.mp h]
              exact hnode
      | param name =>
          cases es with
          | cons edge es => cases accepted
          | nil =>
              have hnode := tallied_ofTokens handler (.param name :: rest) fresh
              obtain ⟨hits, existing, next, hshape⟩ := ofTokens_param handler name rest fresh
              show (Node.ofTokens handler (.param name :: rest) fresh).1.under.Tallied
              rw [hshape] at hnode ⊢
              exact hnode.2
      | catchAll name => cases accepted

/-- A graft counts the route at the node before it looks further. -/
theorem priority_graft (handler : α) (node : Node α) (fresh : CounterId) (rest : List Token) :
    (node.graft handler fresh rest).tree.priority = node.priority + 1 := by
  cases node with
  | catchAll name hits priority existing => rfl
  | static label priority existing below =>
      obtain ⟨label', existing', below', h⟩ :=
        exists_graft_static handler fresh label priority existing below rest
      rw [h]
      rfl

/-- A graft onto a node that is accepted keeps it tallied. -/
def Node.StaysTallied (handler : α) (node : Node α) : Prop :=
  ∀ (index : UInt8) (fresh used : CounterId) (rest : List Token) (slashed : Bool),
    node.Sound index → node.Tallied → Proper slashed rest → rest.head? = some (.byte index) →
      (node.graft handler fresh rest).verdict = .ok used →
        (node.graft handler fresh rest).tree.Tallied

/-- A graft below a label that is accepted keeps what is there tallied. -/
def Below.StaysTallied (handler : α) (below : Below α) : Prop :=
  ∀ (fresh used : CounterId) (rest : List Token) (slashed : Bool),
    below.Sound → below.Tallied → Proper slashed rest → rest ≠ [] →
      (below.graft handler fresh rest).verdict = .ok used →
        (below.graft handler fresh rest).tree.Tallied

/-- The lower half of a cut label counts what the whole node counted. -/
theorem tallied_cut {common : List UInt8} {b : UInt8} {suffix : List UInt8} {priority : Nat}
    {existing : Option α} {below : Below α}
    (tallied : (Node.static (common ++ b :: suffix) priority existing below).Tallied) :
    (Below.edges [(b, .static (b :: suffix) priority existing below)]).Tallied := by
  refine ⟨List.pairwise_singleton _ _, ⟨?_, tallied.2⟩, True.intro⟩
  rw [length_listing_static, ← length_listing_static (common ++ b :: suffix) priority]
  exact tallied.1

theorem staysTallied_static {handler : α} {below : Below α} (ih : below.StaysTallied handler)
    (label : List UInt8) (priority : Nat) (existing : Option α) :
    (Node.static label priority existing below).StaysTallied handler := by
  intro index fresh used rest slashed sound tallied proper hhead accepted
  have hcount := length_of_enlarged accepted
    ((listing_graft handler).1 _ fresh rest slashed proper)
  rw [← tallied.priority_eq, Node.priority] at hcount
  rcases hmet : overlap label rest with ⟨common, label', rest'⟩
  obtain ⟨hlabel, hrest, -⟩ := overlap_eq hmet
  rw [hrest] at proper
  obtain ⟨slashed', proper'⟩ := Proper.drop_literal proper
  cases label' with
  | cons b suffix =>
      subst hlabel
      have hlower := tallied_cut tallied
      cases rest' with
      | nil =>
          rw [graft_cut_end hmet] at hcount ⊢
          exact ⟨hcount.symm, hlower⟩
      | cons token rest' =>
          rw [graft_cut_sprout hmet] at hcount accepted ⊢
          exact ⟨hcount.symm, tallied_sprout hlower (free_of_overlap hmet) accepted⟩
  | nil =>
      cases rest' with
      | nil =>
          rw [graft_here hmet] at hcount accepted ⊢
          cases existing with
          | some _ => cases accepted
          | none => exact ⟨hcount.symm, tallied.2⟩
      | cons token rest' =>
          rw [graft_below hmet] at hcount accepted ⊢
          exact ⟨hcount.symm,
            ih fresh used _ slashed' sound.1 tallied.2 proper' (List.cons_ne_nil _ _) accepted⟩

theorem staysTallied_edges {handler : α} {es : List (Edge α)}
    (ih : ∀ edge ∈ es, edge.2.StaysTallied handler) : (Below.edges es).StaysTallied handler := by
  intro fresh used rest slashed sound tallied proper hrest accepted
  rcases graft_edges handler fresh es rest with
    ⟨hsprout, hfree⟩ | ⟨before, b, node, after, hhead, rfl, hfollow⟩
  · rw [hsprout] at accepted ⊢
    exact tallied_sprout tallied hfree accepted
  · rw [hfollow] at accepted ⊢
    obtain ⟨hkeys, hsound⟩ := Below.sound_edges_iff.mp sound
    obtain ⟨hfalling, hes⟩ := Below.tallied_edges_iff.mp tallied
    have hmem : (b, node) ∈ before ++ (b, node) :: after :=
      List.mem_append_right _ (List.mem_cons_self ..)
    have hnode := ih _ hmem b fresh used rest slashed (hsound _ hmem) (hes _ hmem) proper hhead
      accepted
    obtain ⟨hrest', hleast⟩ := hfalling.middle
    refine Below.tallied_edges_iff.mpr ⟨?_, ?_⟩
    · refine falling_raise (b, _) (free_of_nodup hkeys).1 hrest' ?_
      intro later hlater
      rw [priority_graft]
      exact Nat.le_succ_of_le (hleast later hlater)
    · intro edge hedge
      rcases List.mem_append.mp ((raise_perm b _).mem_iff.mp hedge) with h | h
      · exact hes edge (List.mem_append_left _ h)
      · rcases List.mem_cons.mp h with rfl | h
        · exact hnode
        · exact hes edge (List.mem_append_right _ (List.mem_cons_of_mem _ h))

theorem staysTallied_param {handler : α} {next : Option (Node α)}
    (ih : ∀ node, next = some node → node.StaysTallied handler) (name : List UInt8)
    (hits : CounterId) (priority : Nat) (existing : Option α) :
    (Below.param name hits priority existing next).StaysTallied handler := by
  intro fresh used rest slashed sound tallied proper hrest accepted
  have hcount := length_of_enlarged accepted
    ((listing_graft handler).2 _ fresh rest slashed proper hrest)
  rw [← tallied.1] at hcount
  obtain ⟨token, rest, rfl⟩ := List.exists_cons_of_ne_nil hrest
  by_cases htoken : token = .param name
  · subst htoken
    cases rest with
    | nil =>
        rw [graft_param_here] at hcount accepted ⊢
        cases existing with
        | some _ => cases accepted
        | none => exact ⟨hcount.symm, tallied.2⟩
    | cons token rest =>
        obtain ⟨-, hslash, hproper⟩ := proper
        obtain rfl : token = .byte slash := hslash token rfl
        rw [graft_param_next] at hcount accepted ⊢
        refine ⟨hcount.symm, ?_⟩
        cases next with
        | none => exact tallied_ofTokens handler _ fresh
        | some node =>
            exact ih node rfl slash fresh used _ false sound.2 tallied.2 hproper rfl accepted
  · obtain ⟨clash, hclash, -⟩ := graft_param_clash htoken
    rw [hclash] at accepted
    cases accepted

/-- An insertion that is accepted keeps a tree tallied. -/
theorem tallied_graft (handler : α) :
    (∀ node : Node α, node.StaysTallied handler) ∧
      ∀ below : Below α, below.StaysTallied handler := by
  refine tree_induction ?static ?catchAll ?edges ?param
  case static =>
    intro label priority existing below ih
    exact staysTallied_static ih label priority existing
  case catchAll =>
    intro name hits priority existing index fresh used rest slashed _ _ _ _ accepted
    cases accepted
  case edges =>
    intro es ih
    exact staysTallied_edges ih
  case param =>
    intro name hits priority existing next ih
    exact staysTallied_param ih name hits priority existing

theorem weight_edges {es : List (Edge α)} (tallied : ∀ edge ∈ es, edge.2.Tallied) :
    (Below.edges es).weight = (listingEdges es).length := by
  induction es with
  | nil => rfl
  | cons edge es ih =>
      rw [List.forall_mem_cons] at tallied
      rw [listingEdges, List.length_append, ← tallied.1.priority_eq, ← ih tallied.2]
      rfl

theorem Below.Tallied.weight_eq {below : Below α} (tallied : below.Tallied) :
    below.weight = below.listing.length := by
  cases below with
  | edges es => exact weight_edges (Below.tallied_edges_iff.mp tallied).2
  | param name hits priority handler next => exact tallied.1

/-- Counting afresh tallies any tree. -/
theorem tallied_recount :
    (∀ node : Node α, node.recount.Tallied) ∧ ∀ below : Below α, below.recount.Tallied := by
  refine tree_induction ?static ?catchAll ?edges ?param
  case static =>
    intro label priority handler below ih
    refine ⟨?_, ih⟩
    rw [length_listing_static, ih.weight_eq]
  case catchAll =>
    intro name hits priority handler
    exact rfl
  case edges =>
    intro es ih
    refine Below.tallied_edges_iff.mpr ⟨falling_rank _, ?_⟩
    intro edge hedge
    have hmem := (rank_perm _).mem_iff.mp hedge
    rw [recountEdges_eq_map] at hmem
    obtain ⟨edge', hedge', rfl⟩ := List.mem_map.mp hmem
    exact ih edge' hedge'
  case param =>
    intro name hits priority handler next ih
    cases next with
    | none =>
        refine ⟨?_, True.intro⟩
        rw [length_listing_param]
        rfl
    | some node =>
        refine ⟨?_, ih node rfl⟩
        rw [length_listing_param]
        exact congrArg (handler.toList.length + ·) (ih node rfl).priority_eq

/-- Counting afresh keeps what is tallied. -/
theorem recount_of_tallied :
    (∀ node : Node α, node.Tallied → node.recount = node) ∧
      ∀ below : Below α, below.Tallied → below.recount = below := by
  refine tree_induction ?static ?catchAll ?edges ?param
  case static =>
    intro label priority handler below ih tallied
    rw [Node.recount, ih tallied.2, tallied.2.weight_eq, ← length_listing_static label priority,
      ← tallied.1]
  case catchAll =>
    intro name hits priority handler tallied
    rw [Node.recount]
    exact congrArg (Node.catchAll name hits · handler) (Eq.symm tallied)
  case edges =>
    intro es ih tallied
    obtain ⟨falling, hes⟩ := Below.tallied_edges_iff.mp tallied
    have kept : recountEdges es = es := by
      rw [recountEdges_eq_map]
      refine (List.map_congr_left fun edge hedge => ?_).trans (List.map_id es)
      exact congrArg (Prod.mk edge.1) (ih edge hedge (hes edge hedge))
    rw [Below.recount, kept, rank_of_falling falling]
  case param =>
    intro name hits priority handler next ih tallied
    obtain ⟨count, under⟩ := tallied
    rw [length_listing_param] at count
    cases next with
    | none =>
        rw [count]
        rfl
    | some node =>
        have hcount : handler.toList.length + node.priority = priority := by
          rw [Node.Tallied.priority_eq under, count]
          rfl
        rw [Below.recount, recountNext, ih node rfl under, Option.map_some, Option.getD_some,
          hcount]

/-- Insertion keeps the tree of a method tallied, accepted or refused. -/
theorem Node.Tallied.insert {tree : Node α} (tallied : tree.Tallied) (rooted : tree.Rooted)
    (handler : α) (fresh : CounterId) {rest : List Token} (proper : Proper true rest) :
    (tree.insert handler fresh (.byte slash :: rest)).tree.Tallied := by
  unfold Node.insert
  dsimp only
  split
  · next used accepted =>
      exact (tallied_graft handler).1 tree slash fresh used _ false rooted.sound tallied
        ⟨rfl, proper⟩ rfl accepted
  · exact tallied_recount.1 _

end RadixRouter

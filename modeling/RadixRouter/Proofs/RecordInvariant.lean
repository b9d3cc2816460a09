/-
# What holds of every record

`RawNode.InOrder` is what a record must satisfy beside its children: how the index bytes and the
mark go with them, how many routes it counts, and in which order they stand.  A parameter is a
record of its own, and so are both halves of a catch-all, the empty one that a slash leads to and
the one that holds the text and the handler.

Whatever is inserted into a new record, accepted or refused, every record is in order afterwards,
and the labels read from the top down to the handlers are exactly the patterns that were accepted.
-/

import Mathlib.Data.List.Flatten
import RadixRouter.Proofs.GuardedCalls

namespace RadixRouter

variable {α : Type}

mutual

/-- The records at or below a record. -/
def RawNode.all : RawNode α → List (RawNode α)
  | ⟨label, indices, wildChild, kind, priority, children, handler⟩ =>
    ⟨label, indices, wildChild, kind, priority, children, handler⟩ :: allRecords children

def allRecords : List (RawNode α) → List (RawNode α)
  | [] => []
  | child :: children => child.all ++ allRecords children

end

/-- Puts text in front of every pattern of a list of routes. -/
def prependText (text : List UInt8) (routes : List (List UInt8 × α)) : List (List UInt8 × α) :=
  routes.map fun (pattern, handler) => (text ++ pattern, handler)

mutual

/-- The labels read from a record down to each handler, with the handler. -/
def RawNode.routes : RawNode α → List (List UInt8 × α)
  | ⟨label, _, _, _, _, children, handler⟩ =>
    prependText label (handler.toList.map (([], ·)) ++ routesRecords children)

def routesRecords : List (RawNode α) → List (List UInt8 × α)
  | [] => []
  | child :: children => child.routes ++ routesRecords children

end

namespace RawNode

/-- The byte that leads to a record: the first of its label, a slash where that is empty. -/
def index (n : RawNode α) : UInt8 := n.label.head?.getD slash

/-- The number of handlers at or below a record. -/
def handlers (n : RawNode α) : Nat := n.all.countP (·.handler.isSome)

/-- What holds of a record and its children. -/
structure InOrder (n : RawNode α) : Prop where
  /-- A wildcard is an only child and needs no index byte. -/
  wild : n.wildChild = true →
    n.indices = [] ∧ ∃ child, n.children = [child] ∧
      (child.kind.isParam = true ∨ child.kind.isCatchAll = true)
  /-- After a parameter the text goes on with a slash. -/
  param : n.kind.isParam = true →
    n.children.length ≤ 1 ∧
      ∀ child ∈ n.children, child.label = [] ∨ child.label.head? = some slash
  /-- Index bytes tell the children apart, in their order. -/
  indexed : n.wildChild = false → n.kind.isParam = false →
    n.indices = n.children.map index ∧ n.indices.Nodup
  counted : n.priority = n.handlers
  ordered : n.children.Pairwise fun child later => later.priority ≤ child.priority
  leaf : n.children = [] → n.handler.isSome = true

end RawNode

theorem allRecords_eq_flatMap (children : List (RawNode α)) :
    allRecords children = children.flatMap RawNode.all := by
  induction children with
  | nil => rfl
  | cons child children ih => rw [allRecords, List.flatMap_cons, ih]

theorem routesRecords_eq_flatMap (children : List (RawNode α)) :
    routesRecords children = children.flatMap RawNode.routes := by
  induction children with
  | nil => rfl
  | cons child children ih => rw [routesRecords, List.flatMap_cons, ih]

/-- The records at or below a record are its own and those of its children. -/
theorem RawNode.forall_all {P : RawNode α → Prop} {n : RawNode α} (own : P n)
    (children : ∀ child ∈ n.children, ∀ m ∈ child.all, P m) : ∀ m ∈ n.all, P m := by
  obtain ⟨label, indices, wildChild, kind, priority, cells, handler⟩ := n
  intro m hm
  rw [RawNode.all, allRecords_eq_flatMap] at hm
  rcases List.mem_cons.mp hm with rfl | h
  · exact own
  · obtain ⟨child, hchild, hmem⟩ := List.mem_flatMap.mp h
    exact children child hchild m hmem

/-- What passes from the children of a record to the record holds of all. -/
theorem record_induction {P : RawNode α → Prop}
    (step : ∀ n : RawNode α, (∀ child ∈ n.children, P child) → P n) (n : RawNode α) : P n := by
  obtain ⟨label, indices, wildChild, kind, priority, children, handler⟩ := n
  exact step _ fun child _ => record_induction step child

/-- The records below a record stand together among those of the tree. -/
theorem all_sublist_of_mem_all (root : RawNode α) : ∀ n ∈ root.all, n.all.Sublist root.all := by
  induction root using record_induction with
  | step root ih =>
      obtain ⟨label, indices, wildChild, kind, priority, children, handler⟩ := root
      refine RawNode.forall_all (List.Sublist.refl _) ?_
      intro child hchild n hn
      have hamong := (List.singleton_sublist.mpr hchild).flatMap RawNode.all
      rw [List.flatMap_singleton] at hamong
      rw [RawNode.all, allRecords_eq_flatMap]
      exact (ih child hchild n hn).trans (hamong.cons _)

/-- A record has as many handlers at or below it as routes are read from it. -/
theorem length_routes_record (n : RawNode α) : n.routes.length = n.handlers := by
  induction n using record_induction with
  | step n ih =>
      obtain ⟨label, indices, wildChild, kind, priority, children, handler⟩ := n
      have hchildren : children.map (List.length ∘ RawNode.routes) =
          children.map (List.countP (·.handler.isSome) ∘ RawNode.all) :=
        List.map_congr_left fun child hchild => ih child hchild
      rw [RawNode.handlers, RawNode.all, allRecords_eq_flatMap, List.countP_cons,
        List.countP_flatMap, ← hchildren, RawNode.routes, prependText, List.length_map,
        List.length_append, List.length_map, routesRecords_eq_flatMap, List.length_flatMap,
        Nat.add_comm]
      congr 1
      cases handler <;> rfl

/-- The texts of a list of routes. -/
def written (listing : List (List Token × α)) : List (List UInt8 × α) :=
  listing.map fun (route, handler) => (Pattern.bytes route, handler)

theorem written_append (first second : List (List Token × α)) :
    written (first ++ second) = written first ++ written second := List.map_append

theorem written_prependTokens (tokens : List Token) (listing : List (List Token × α)) :
    written (prependTokens tokens listing) =
      prependText (Pattern.bytes tokens) (written listing) := by
  simp [written, prependTokens, prependText, Pattern.bytes]

/-- What ends here is written with no text. -/
theorem written_ending (handler : Option α) :
    written (handler.toList.map (([], ·))) = handler.toList.map (([], ·)) := by
  cases handler <;> rfl

/-- The labels read in the records of a tree are its routes, written out. -/
theorem routes_stored :
    (∀ (node : Node α) (top : Bool) (record : RawNode α), Stored top node record →
        record.routes = written node.listing) ∧
      ∀ (below : Below α) (indices : List UInt8) (wildChild : Bool) (children : List (RawNode α)),
        StoredBelow below indices wildChild children →
          routesRecords children = written below.listing := by
  refine tree_induction ?static ?catchAll ?edges ?param
  case static =>
    intro label priority handler below ih top record stored
    cases stored with
    | static hbelow =>
        rw [RawNode.routes, ih _ _ _ hbelow, Node.listing, written_prependTokens, written_append,
          written_ending, Pattern.bytes_map_byte]
  case catchAll =>
    intro name hits priority handler top record stored
    cases stored with
    | catchAll =>
        simp [RawNode.slot, RawNode.leaf, RawNode.routes, routesRecords, Node.listing, written,
          prependText, Pattern.bytes, Token.bytes]
  case edges =>
    intro es ih indices wildChild children stored
    cases stored with
    | edges hes =>
        rw [Below.listing]
        induction hes with
        | nil => rfl
        | cons hchild hchildren ihes =>
            rw [List.forall_mem_cons] at ih
            rw [routesRecords, listingEdges, written_append, ih.1 _ _ hchild, ihes ih.2]
  case param =>
    intro name hits count ending next ih indices wildChild children stored
    obtain ⟨-, -, indices, after, hnext, rfl⟩ := stored.wild
    have hafter : routesRecords after = written (listingNext next) := by
      cases hnext with
      | last => rfl
      | @next node child _ hchild =>
          rw [routesRecords, routesRecords, List.append_nil]
          exact ih node rfl false child hchild
    rw [routesRecords, routesRecords, List.append_nil, RawNode.value, RawNode.routes, hafter,
      Below.listing, written_prependTokens, written_append, written_ending]
    simp [Pattern.bytes, Token.bytes]

section InOrder

variable {top : Bool} {node : Node α} {record n : RawNode α} {index : UInt8}

theorem handlers_stored (stored : Stored top node record) :
    record.handlers = node.listing.length := by
  rw [← length_routes_record, routes_stored.1 node top record stored, written, List.length_map]

theorem index_stored (stored : Stored top node record) (sound : node.Sound index) :
    record.index = index := by
  cases stored with
  | catchAll =>
      rw [Node.Sound] at sound
      rw [sound]
      rfl
  | static below =>
      obtain ⟨-, -, h | ⟨rfl, rfl, -⟩⟩ := sound
      · rw [RawNode.index, h]
        rfl
      · rfl

/-- The records of a catch-all are in order. -/
theorem inOrder_slot {name : List UInt8} {hits : CounterId} {handler : α} :
    ∀ n ∈ (RawNode.slot name hits 1 handler).all, n.InOrder := by
  refine RawNode.forall_all ?_ ?_
  · exact ⟨fun _ => ⟨rfl, _, rfl, Or.inr rfl⟩, nofun, nofun, rfl, List.pairwise_singleton _ _,
      nofun⟩
  · intro child hchild
    rw [List.mem_singleton.mp hchild]
    refine RawNode.forall_all ?_ nofun
    exact ⟨nofun, nofun, fun _ _ => ⟨rfl, List.nodup_nil⟩, rfl, List.Pairwise.nil, fun _ => rfl⟩

/-- What is read alike from edges and from their children is the same list. -/
theorem map_storedEdges {β : Type} {es : List (Edge α)} {children : List (RawNode α)}
    (stored : StoredEdges es children) {read : Edge α → β} {reads : RawNode α → β}
    (alike : ∀ edge ∈ es, ∀ child, Stored false edge.2 child → reads child = read edge) :
    children.map reads = es.map read := by
  induction stored with
  | nil => rfl
  | cons hchild hchildren ih =>
      rw [List.forall_mem_cons] at alike
      rw [List.map_cons, List.map_cons, alike.1 _ hchild, ih alike.2]

theorem exists_edge_of_mem {es : List (Edge α)} {children : List (RawNode α)}
    (stored : StoredEdges es children) :
    ∀ child ∈ children, ∃ edge ∈ es, Stored false edge.2 child := by
  induction stored with
  | nil => exact List.forall_mem_nil _
  | @cons edge child es children hchild hchildren ih =>
      refine List.forall_mem_cons.mpr ⟨⟨edge, List.mem_cons_self .., hchild⟩, ?_⟩
      intro child' h
      obtain ⟨edge', hedge', hstored⟩ := ih child' h
      exact ⟨edge', List.mem_cons_of_mem _ hedge', hstored⟩

/-- A literal record is in order when the edges that its children stand for are sound and fall in
count, and the records below it are in order. -/
theorem inOrder_edges {es : List (Edge α)} (stored : StoredEdges es n.children)
    (hindices : n.indices = es.map (·.1)) (closed : n.wildChild = false)
    (noParam : n.kind.isParam = false) (sound : (Below.edges es).Sound)
    (tallied : (Below.edges es).Tallied) (route : n.handler = none → Below.edges es ≠ .edges [])
    (counted : n.priority = n.handlers)
    (below : ∀ edge ∈ es, ∀ child, Stored false edge.2 child → ∀ m ∈ child.all, m.InOrder) :
    ∀ m ∈ n.all, m.InOrder := by
  obtain ⟨hkeys, hsound⟩ := Below.sound_edges_iff.mp sound
  have hfalling := (Below.tallied_edges_iff.mp tallied).1
  refine RawNode.forall_all ⟨?wild, ?param, fun _ _ => ⟨?indexed, hindices ▸ hkeys⟩, counted,
    ?ordered, ?leaf⟩ ?children
  case wild => exact fun h => absurd (closed.symm.trans h) Bool.false_ne_true
  case param => exact fun h => absurd (noParam.symm.trans h) Bool.false_ne_true
  case indexed =>
    rw [hindices]
    exact (map_storedEdges stored fun edge hedge child hchild =>
      index_stored hchild (hsound edge hedge)).symm
  case ordered =>
    have hcounts : n.children.map (·.priority) = es.map (·.2.priority) :=
      map_storedEdges stored fun edge _ child hchild => hchild.priority_eq
    have hpairs : (es.map (·.2.priority)).Pairwise fun count later => later ≤ count :=
      List.pairwise_map.mpr hfalling
    rw [← hcounts] at hpairs
    exact List.pairwise_map.mp hpairs
  case leaf =>
    intro hnone
    rw [hnone] at stored
    have hes : es = [] := List.forall₂_nil_right_iff.mp stored
    cases hhandler : n.handler with
    | some handler => rfl
    | none => exact absurd (congrArg Below.edges hes) (route hhandler)
  case children =>
    intro child hchild
    obtain ⟨edge, hedge, hstored⟩ := exists_edge_of_mem stored child hchild
    exact below edge hedge child hstored

/-- The record of a parameter is in order when the records after its value are. -/
theorem inOrder_value {name indices : List UInt8} {hits : CounterId} {count : Nat}
    {ending : Option α} {next : Option (Node α)} {children : List (RawNode α)}
    (stored : StoredNext next indices children)
    (sound : (Below.param name hits count ending next).Sound)
    (tallied : (Below.param name hits count ending next).Tallied)
    (after : ∀ node, next = some node → ∀ child, Stored false node child →
      ∀ m ∈ child.all, m.InOrder) :
    ∀ m ∈ (RawNode.value name indices hits count children ending).all, m.InOrder := by
  have hcount : count = (RawNode.value name indices hits count children ending).handlers := by
    have hroutes := routes_stored.2 (.param name hits count ending next) _ _ _ stored.below
    rw [routesRecords, routesRecords, List.append_nil] at hroutes
    rw [← length_routes_record, hroutes, written, List.length_map]
    exact tallied.1
  cases stored with
  | last =>
      refine RawNode.forall_all ⟨nofun, fun _ => ⟨Nat.zero_le _, nofun⟩, fun _ => nofun, hcount,
        List.Pairwise.nil, fun _ => ?_⟩ nofun
      cases ending with
      | some handler => rfl
      | none => exact absurd rfl (sound.1 rfl)
  | @next node child _ hchild =>
      refine RawNode.forall_all ⟨nofun, fun _ => ⟨Nat.le_refl _, ?_⟩, fun _ => nofun, hcount,
        List.pairwise_singleton _ _, nofun⟩ ?_
      · refine List.forall_mem_singleton.mpr ?_
        have hindex := index_stored hchild sound.2
        rw [RawNode.index] at hindex
        cases hhead : child.label with
        | nil => exact Or.inl rfl
        | cons b rest =>
            rw [hhead] at hindex
            exact Or.inr (congrArg some hindex)
      · exact List.forall_mem_singleton.mpr (after node rfl child hchild)

/-- In a sound tree that counts its routes every record is in order. -/
theorem inOrder_stored :
    (∀ (node : Node α) (top : Bool) (record : RawNode α) (index : UInt8), Stored top node record →
        node.Sound index → node.Tallied → ∀ m ∈ record.all, m.InOrder) ∧
      ∀ (below : Below α) (n : RawNode α), StoredBelow below n.indices n.wildChild n.children →
        n.kind.isParam = false → below.Sound → below.Tallied →
          (n.handler = none → below ≠ .edges []) → n.priority = n.handlers →
            ∀ m ∈ n.all, m.InOrder := by
  refine tree_induction ?static ?catchAll ?edges ?param
  case static =>
    intro label priority handler below ih top record index stored sound tallied
    have hcount : record.priority = record.handlers := by
      rw [stored.priority_eq, tallied.priority_eq, handlers_stored stored]
    cases stored with
    | static hbelow =>
        exact ih _ hbelow (Kind.isParam_literal top) sound.1 tallied.2 sound.2.1 hcount
  case catchAll =>
    intro name hits priority handler top record index stored _ tallied
    rw [Node.Tallied] at tallied
    subst tallied
    cases stored with
    | catchAll => exact inOrder_slot
  case edges =>
    intro es ih n stored noParam sound tallied route counted
    obtain ⟨label, indices, wildChild, kind, priority, children, handler⟩ := n
    cases stored with
    | edges hes =>
        refine inOrder_edges hes rfl rfl noParam sound tallied route counted ?_
        intro edge hedge child hchild
        exact ih edge hedge false child edge.1 hchild
          ((Below.sound_edges_iff.mp sound).2 edge hedge)
          ((Below.tallied_edges_iff.mp tallied).2 edge hedge)
  case param =>
    intro name hits count ending next ih n stored noParam sound tallied _ counted
    obtain ⟨label, _, _, kind, priority, _, handler⟩ := n
    obtain ⟨rfl, rfl, indices, children, hnext, rfl⟩ := stored.wild
    refine RawNode.forall_all ⟨fun _ => ⟨rfl, _, rfl, Or.inl rfl⟩, ?_, nofun, counted,
      List.pairwise_singleton _ _, nofun⟩ (List.forall_mem_singleton.mpr ?_)
    · exact fun h => absurd (noParam.symm.trans h) Bool.false_ne_true
    · refine inOrder_value hnext sound tallied ?_
      rintro node rfl child hchild
      exact ih node rfl false child slash hchild sound.2 tallied.2

end InOrder

/-- The records of a tree and the patterns that were accepted on the way to them, with their
handlers. -/
structure Planted (α : Type) where
  root : RawNode α
  accepted : List (String × α)

/-- What one attempt leads to. -/
def Planted.insert? (planted : Planted α) (attempt : Attempt α) : Option (Planted α) := do
  let left ← planted.root.insert? attempt.pattern attempt.handler attempt.fresh
  match left.verdict with
  | .ok () => return ⟨left.record, planted.accepted ++ [(attempt.pattern, attempt.handler)]⟩
  | .error _ => return ⟨left.record, planted.accepted⟩

/-- What attempts lead to, one after the other, from a new record. -/
def plant? (attempts : List (Attempt α)) : Option (Planted α) :=
  attempts.foldlM Planted.insert? ⟨.blank, []⟩

/-- Records that stand for a tree, or a new record where there is none. -/
structure Planted.Mirrors (planted : Planted α) (grown : Grown α) : Prop where
  accepted : planted.accepted = grown.accepted
  root : (grown.tree = none ∧ planted.root = .blank) ∨
    ∃ tree, grown.tree = some tree ∧ Stored true tree planted.root

/-- One more route can be added to a tree that has grown to less than can be counted. -/
theorem Grown.Intact.admits {grown : Grown α} (intact : grown.Intact) {tree : Node α}
    (present : grown.tree = some tree) (room : grown.accepted.length + 1 < 2 ^ 32) :
    tree.Admits slash ∧ tree.Rooted := by
  have holds := intact.holds
  rw [present] at holds
  obtain ⟨rooted, same⟩ := holds
  refine ⟨⟨rooted.sound, intact.tallied tree present, ?_, fun route hroute => ?_⟩, rooted⟩
  · rwa [same.length_eq, Grown.listing, List.length_map]
  · obtain ⟨entry, hentry, rfl⟩ := List.mem_map.mp (same.subset hroute)
    exact ⟨false, (intact.faultless entry hentry).proper⟩

/-- The records accept an attempt if the tree does. -/
theorem Planted.insert?_eq {planted : Planted α} {grown : Grown α} {attempt : Attempt α}
    {record : RawNode α} {tracked : Nat} {answer : Except RouteError Unit}
    (accepted : planted.accepted = grown.accepted)
    (inserted : planted.root.insert? attempt.pattern attempt.handler attempt.fresh =
      some ⟨record, tracked, answer⟩)
    (answers : Answers attempt.fresh answer tracked (grown.verdict attempt)) :
    planted.insert? attempt = some ⟨record, (grown.insert attempt).accepted⟩ := by
  rw [Grown.verdict] at answers
  rw [Planted.insert?, inserted, Option.bind_eq_bind, Option.bind_some, accepted, Grown.insert]
  generalize Router.insertRoute grown.tree attempt.pattern attempt.handler attempt.fresh = result
    at answers
  obtain ⟨tree, error | used⟩ := result
  · obtain ⟨rfl, -⟩ := answers
    rfl
  · obtain ⟨rfl, -⟩ := answers
    rfl

/-- An attempt is answered by the records as by the tree, and both go on alike. -/
theorem Planted.Mirrors.insert? {planted : Planted α} {grown : Grown α}
    (mirrors : planted.Mirrors grown) (intact : grown.Intact)
    (room : grown.accepted.length + 1 < 2 ^ 32) (attempt : Attempt α) :
    ∃ planted', planted.insert? attempt = some planted' ∧
      planted'.Mirrors (grown.insert attempt) := by
  obtain ⟨accepted, ⟨hnone, hblank⟩ | ⟨tree, htree, stored⟩⟩ := mirrors
  · obtain ⟨record, tracked, answer, hinsert, answers, hplanted, hrefused⟩ :=
      insert?_first attempt.pattern attempt.handler attempt.fresh
    rw [← hnone, ← Grown.tree_insert] at hplanted
    rw [← hnone] at answers
    rw [← hblank] at hinsert
    refine ⟨_, insert?_eq accepted hinsert answers, rfl, ?_⟩
    generalize (grown.insert attempt).tree = tree at hplanted ⊢
    cases answer with
    | error error =>
        cases hplanted with
        | none => exact Or.inl ⟨rfl, hrefused rfl⟩
    | ok =>
        cases hplanted with
        | some stored => exact Or.inr ⟨_, rfl, stored⟩
  · obtain ⟨admits, rooted⟩ := intact.admits htree room
    obtain ⟨record, tracked, answer, node, hinsert, answers, hnode, hstored⟩ :=
      insert?_next stored admits rooted attempt.pattern attempt.handler attempt.fresh
    rw [← htree] at answers hnode
    refine ⟨_, insert?_eq accepted hinsert answers, rfl, Or.inr ⟨node, ?_, hstored⟩⟩
    rw [Grown.tree_insert, hnode]

/-- What was accepted before stays accepted. -/
theorem Grown.accepted_le_foldl (grown : Grown α) (attempts : List (Attempt α)) :
    grown.accepted.length ≤ (attempts.foldl Grown.insert grown).accepted.length := by
  induction attempts generalizing grown with
  | nil => exact Nat.le_refl _
  | cons attempt attempts ih =>
      refine Nat.le_trans ?_ (ih (grown.insert attempt))
      unfold Grown.insert
      dsimp only
      split
      · simp
      · exact Nat.le_refl _

/-- Attempts are answered by the records as by the tree, one after the other. -/
theorem Planted.Mirrors.foldlM? {planted : Planted α} {grown : Grown α}
    (mirrors : planted.Mirrors grown) (intact : grown.Intact) (attempts : List (Attempt α))
    (room : (attempts.foldl Grown.insert grown).accepted.length < 2 ^ 32 - 1) :
    ∃ planted', attempts.foldlM Planted.insert? planted = some planted' ∧
      planted'.Mirrors (attempts.foldl Grown.insert grown) := by
  induction attempts generalizing planted grown with
  | nil => exact ⟨planted, rfl, mirrors⟩
  | cons attempt attempts ih =>
      have few := grown.accepted_le_foldl (attempt :: attempts)
      obtain ⟨next, hnext, mirrors'⟩ := mirrors.insert? intact (by omega) attempt
      obtain ⟨planted', hplanted, mirrored⟩ := ih mirrors' (intact.insert attempt) room
      exact ⟨planted', by rw [List.foldlM_cons, hnext]; exact hplanted, mirrored⟩

/-- There is no tree while nothing is accepted, and there is one as soon as something is. -/
theorem Grown.Intact.tree_eq_none_iff {grown : Grown α} (intact : grown.Intact) :
    grown.tree = none ↔ grown.accepted = [] := by
  have holds := intact.holds
  cases htree : grown.tree with
  | none =>
      rw [htree] at holds
      exact iff_of_true rfl (List.map_eq_nil_iff.mp holds)
  | some tree =>
      rw [htree] at holds
      obtain ⟨rooted, same⟩ := holds
      refine iff_of_false nofun fun hempty => ?_
      rw [Grown.listing, hempty, List.map_nil] at same
      exact listing_ne_nil.1 tree slash rooted.sound same.eq_nil

/-- What holds of the records of a tree that has grown from attempts. -/
theorem invariant_of_stored {grown : Grown α} (intact : grown.Intact) {tree : Node α}
    (present : grown.tree = some tree) {root : RawNode α} (stored : Stored true tree root) :
    (∀ n ∈ root.all, n.InOrder ∧ n.priority ≤ grown.accepted.length) ∧
      root.routes.Perm (grown.accepted.map fun (pattern, handler) =>
        (Utf8.encode pattern, handler)) := by
  have holds := intact.holds
  rw [present] at holds
  obtain ⟨rooted, same⟩ := holds
  refine ⟨fun n hn => ?_, ?_⟩
  · have inOrder := inOrder_stored.1 tree true root slash stored rooted.sound
      (intact.tallied tree present) n hn
    refine ⟨inOrder, ?_⟩
    calc n.priority = n.handlers := inOrder.counted
      _ ≤ root.handlers := (all_sublist_of_mem_all root n hn).countP_le
      _ = tree.listing.length := handlers_stored stored
      _ = grown.listing.length := same.length_eq
      _ = grown.accepted.length := List.length_map _
  · rw [routes_stored.1 tree true root stored]
    refine (same.map _).trans (List.Perm.of_eq ?_)
    rw [Grown.listing, List.map_map]
    refine List.map_congr_left fun entry _ => ?_
    exact congrArg (·, entry.2) (Pattern.bytes_tokens _)

/-- Whatever is inserted into a new record, accepted or refused, each attempt is answered as long as
the accepted routes can be counted in 32 bits with one to spare.  While none is accepted the record
stays new; then every record is in order and counts no more routes than were accepted, and the
labels down to the handlers are the accepted patterns, each once and with its handler. -/
theorem tree_invariant (attempts : List (Attempt α))
    (room : (grow attempts).accepted.length < 2 ^ 32 - 1) :
    ∃ planted, plant? attempts = some planted ∧ planted.accepted = (grow attempts).accepted ∧
      (planted.accepted = [] → planted.root = .blank) ∧
      (planted.accepted ≠ [] →
        (∀ n ∈ planted.root.all, n.InOrder ∧ n.priority ≤ planted.accepted.length) ∧
          planted.root.routes.Perm (planted.accepted.map fun (pattern, handler) =>
            (Utf8.encode pattern, handler)) ∧
          (planted.accepted.map (·.1)).Nodup) := by
  have start : (⟨.blank, []⟩ : Planted α).Mirrors ⟨none, []⟩ := ⟨rfl, Or.inl ⟨rfl, rfl⟩⟩
  obtain ⟨planted, hplanted, mirrors⟩ := start.foldlM? intact_start attempts room
  have intact := intact_grow attempts
  refine ⟨planted, hplanted, mirrors.accepted, ?_⟩
  rw [mirrors.accepted]
  obtain ⟨hnone, hblank⟩ | ⟨tree, present, stored⟩ := mirrors.root
  · exact ⟨fun _ => hblank, fun h => absurd (intact.tree_eq_none_iff.mp hnone) h⟩
  · have invariant := invariant_of_stored intact present stored
    refine ⟨fun hempty => ?_, fun _ => ⟨invariant.1, invariant.2, intact.distinct⟩⟩
    cases present.symm.trans (intact.tree_eq_none_iff.mpr hempty)

/-- Two of five attempts are refused, one of them after it cut a label inside a character. -/
theorem tree_invariant_mixed :
    let attempts : List (Attempt Nat) := [⟨"/café", 0, 0⟩, ⟨"/caf:e", 1, 0⟩, ⟨"/srcx", 2, 0⟩,
      ⟨"/src/*rest", 3, 0⟩, ⟨"/srcx", 4, 1⟩]
    (grow attempts).accepted.length < 2 ^ 32 - 1 ∧
      ∃ planted, plant? attempts = some planted ∧
        (∀ n ∈ planted.root.all, n.InOrder ∧ n.priority ≤ 3) ∧
        planted.root.routes.Perm [(Utf8.encode "/café", 0), (Utf8.encode "/srcx", 2),
          (Utf8.encode "/src/*rest", 3)] := by
  intro attempts
  have accepted : (grow attempts).accepted = [("/café", 0), ("/srcx", 2), ("/src/*rest", 3)] := by
    decide +kernel
  have room : (grow attempts).accepted.length < 2 ^ 32 - 1 := by
    rw [accepted]
    decide
  obtain ⟨planted, hplanted, same, -, invariant⟩ := tree_invariant attempts room
  rw [accepted] at same
  rw [same] at invariant
  obtain ⟨records, routes, -⟩ := invariant (List.cons_ne_nil _ _)
  exact ⟨room, planted, hplanted, records, routes⟩

end RadixRouter

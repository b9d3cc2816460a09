/-
# What calls leave in a store

A store answers as a router does, and it keeps the records of the router's trees beside the number
of its counters.  So what is known of routers is known of stores, where a registration that is
refused can be seen to leave by each of its exits: the patterns that are accepted, the counters
that are given out, and how little is left of a refusal.
-/

import RadixRouter.Proofs.RecordInvariant
import RadixRouter.Proofs.RefusedRegistration
import RadixRouter.Proofs.TrackedCounters

namespace RadixRouter

open Pattern (WildcardPrefix)

variable {α γ : Type}

/-- The counter that a record names. -/
def Kind.hits? : Kind → Option CounterId
  | .static => none
  | .root => none
  | .param hits => some hits
  | .catchAll hits => some hits

namespace RawNode

/-- The counter of a record that takes a value; the empty record in front of a catch-all takes
none. -/
def ownHits? (n : RawNode α) : Option CounterId := if n.wildChild then none else n.kind.hits?

/-- The counters of the wildcards at or below a record. -/
def counters (n : RawNode α) : List CounterId := n.all.filterMap ownHits?

theorem counters_eq (n : RawNode α) :
    n.counters = n.ownHits?.toList ++ n.children.flatMap counters := by
  obtain ⟨label, indices, wildChild, kind, priority, children, handler⟩ := n
  have hbelow : (allRecords children).filterMap ownHits? = children.flatMap counters := by
    rw [allRecords_eq_flatMap, List.filterMap_flatMap]
    rfl
  rw [counters, RawNode.all, List.filterMap_cons, hbelow]
  cases (RawNode.mk label indices wildChild kind priority children handler).ownHits? <;> rfl

end RawNode

theorem map_snd_prependTokens (tokens : List Token) (wildcards : List (List Token × CounterId)) :
    (prependTokens tokens wildcards).map (·.2) = wildcards.map (·.2) := by
  simp [prependTokens]

/-- The counters in the records of a tree are those of its wildcard nodes. -/
theorem counters_stored :
    (∀ (node : Node α) (top : Bool) (record : RawNode α), Stored top node record →
        record.counters = node.wildcards.map (·.2)) ∧
      ∀ (below : Below α) (indices : List UInt8) (wildChild : Bool) (children : List (RawNode α)),
        StoredBelow below indices wildChild children →
          children.flatMap RawNode.counters = below.wildcards.map (·.2) := by
  refine tree_induction ?static ?catchAll ?edges ?param
  case static =>
    intro label priority handler below ih top record stored
    cases stored with
    | @static _ _ _ _ _ indices wildChild children hbelow =>
        have hown : (RawNode.mk label indices wildChild (.literal top) priority children
            handler).ownHits? = none := by
          cases top <;> cases wildChild <;> rfl
        rw [RawNode.counters_eq, hown, ih _ _ _ hbelow, Node.wildcards, map_snd_prependTokens]
        rfl
  case catchAll =>
    intro name hits priority handler top record stored
    cases stored with
    | catchAll => rfl
  case edges =>
    intro es ih indices wildChild children stored
    cases stored with
    | edges hes =>
        rw [Below.wildcards]
        induction hes with
        | nil => rfl
        | cons hchild hchildren ihes =>
            rw [List.forall_mem_cons] at ih
            rw [List.flatMap_cons, wildcardsEdges, List.map_append, ih.1 _ _ hchild, ihes ih.2]
  case param =>
    intro name hits count ending next ih indices wildChild children stored
    obtain ⟨-, -, indices, after, hnext, rfl⟩ := stored.wild
    have hown : (RawNode.value name indices hits count after ending).ownHits? = some hits := rfl
    have hafter : after.flatMap RawNode.counters = (wildcardsNext next).map (·.2) := by
      cases hnext with
      | last => rfl
      | @next node child _ hchild =>
          rw [List.flatMap_singleton]
          exact ih node rfl false child hchild
    rw [List.flatMap_singleton, RawNode.counters_eq, hown, Below.wildcards, List.map_cons,
      map_snd_prependTokens, ← hafter]
    rfl

/-- Every counter that a record names is one of a record that takes a value: the two records of a
catch-all share theirs. -/
theorem hits_mem_counters :
    (∀ (node : Node α) (top : Bool) (record : RawNode α), Stored top node record →
        ∀ n ∈ record.all, ∀ counter ∈ n.kind.hits?, counter ∈ record.counters) ∧
      ∀ (below : Below α) (indices : List UInt8) (wildChild : Bool) (children : List (RawNode α)),
        StoredBelow below indices wildChild children → ∀ child ∈ children, ∀ n ∈ child.all,
          ∀ counter ∈ n.kind.hits?, counter ∈ children.flatMap RawNode.counters := by
  refine tree_induction ?static ?catchAll ?edges ?param
  case static =>
    intro label priority handler below ih top record stored
    cases stored with
    | @static _ _ _ _ _ indices wildChild children hbelow =>
        refine RawNode.forall_all ?_ fun child hchild n hn counter hits => ?_
        · cases top <;> exact nofun
        · rw [RawNode.counters_eq]
          exact List.mem_append_right _ (ih _ _ _ hbelow child hchild n hn counter hits)
  case catchAll =>
    intro name hits priority handler top record stored
    cases stored with
    | catchAll =>
        have hall : (RawNode.slot name hits priority handler).all =
            [.slot name hits priority handler, .leaf name hits priority handler] := rfl
        have hcounters : (RawNode.slot name hits priority handler).counters = [hits] := rfl
        rw [hall, hcounters]
        intro n hn counter hcounter
        rcases List.mem_pair.mp hn with rfl | rfl
        · exact List.mem_singleton.mpr (Option.some.inj hcounter).symm
        · exact List.mem_singleton.mpr (Option.some.inj hcounter).symm
  case edges =>
    intro es ih indices wildChild children stored child hchild n hn counter hits
    cases stored with
    | edges hes =>
        obtain ⟨edge, hedge, hstored⟩ := exists_edge_of_mem hes child hchild
        exact List.mem_flatMap.mpr
          ⟨child, hchild, ih edge hedge false child hstored n hn counter hits⟩
  case param =>
    intro name hits count ending next ih indices wildChild children stored
    obtain ⟨-, -, indices, after, hnext, rfl⟩ := stored.wild
    refine List.forall_mem_singleton.mpr ?_
    rw [List.flatMap_singleton, RawNode.counters_eq]
    refine RawNode.forall_all ?_ fun child hchild n hn counter hcounter => ?_
    · exact fun counter hcounter => List.mem_append_left _ (Option.mem_toList.mpr hcounter)
    · refine List.mem_append_right _ (List.mem_flatMap.mpr ⟨child, hchild, ?_⟩)
      cases hnext with
      | last => cases hchild
      | @next node _ _ hstored =>
          obtain rfl := List.mem_singleton.mp hchild
          exact ih node rfl false _ hstored n hn counter hcounter

namespace Store

variable {store : Store α} {router : Router α γ} {log : List (Registration α)}

/-- The store that calls leave. -/
def after? (γ : Type) (store : Store α) : List (Call α) → Option (Store α)
  | [] => some store
  | call :: calls => do
    let (_, store) ← (store.reply? call : Option (Reply α γ × Store α))
    store.after? γ calls

/-- The counters that the records of a store name are its own, each named by one record that takes a
value. -/
structure Counted (store : Store α) : Prop where
  named : ∀ method, ∀ root ∈ store.records.get? method, ∀ n ∈ root.all,
    ∀ counter ∈ n.kind.hits?, counter ∈ root.counters
  mem_iff : ∀ counter, counter < store.tracked ↔
    ∃ method, ∃ root ∈ store.records.get? method, counter ∈ root.counters
  nodup : ∀ method, ∀ root ∈ store.records.get? method, root.counters.Nodup
  apart : ∀ method method' root root', store.records.get? method = some root →
    store.records.get? method' = some root' → ∀ counter ∈ root.counters,
      counter ∈ root'.counters → method = method'

/-- The records of a method stand for its tree. -/
theorem Holds.stored (holds : store.Holds router) {method : String} {root : RawNode α}
    (present : store.records.get? method = some root) :
    ∃ tree, router.trees.get? method = some tree ∧ Stored true tree root := by
  obtain ⟨-, hnone⟩ | ⟨tree, root', htree, hroot, stored⟩ := holds.both method
  · rw [present] at hnone
    cases hnone
  · rw [present] at hroot
    cases hroot
    exact ⟨tree, htree, stored⟩

/-- Every record that a store keeps is in order. -/
theorem Holds.inOrder (holds : store.Holds router) (keeps : router.Keeps log) {method : String}
    {root : RawNode α} (present : store.records.get? method = some root) :
    ∀ n ∈ root.all, n.InOrder := by
  obtain ⟨tree, htree, stored⟩ := holds.stored present
  exact inOrder_stored.1 tree true root slash stored (rooted_of_get? keeps htree).sound
    (holds.tallied method tree htree)

/-- A counter in the records of a method is one of a wildcard node of its tree. -/
theorem Holds.mem_counters_iff (holds : store.Holds router) (keeps : router.Keeps log)
    {method : String} {counter : CounterId} :
    (∃ root ∈ store.records.get? method, counter ∈ root.counters) ↔
      ∃ way, (method, way, counter) ∈ wildcardNodes router.trees := by
  simp only [mem_wildcardNodes keeps.registers.ordered, Counts]
  obtain ⟨htree, hroot⟩ | ⟨tree, root, htree, hroot, stored⟩ := holds.both method
  · rw [htree, hroot]
    refine iff_of_false ?_ ?_
    · rintro ⟨root, h, -⟩
      cases h
    · rintro ⟨way, h⟩
      cases h
  · rw [htree, hroot]
    have hcounters := counters_stored.1 tree true root stored
    constructor
    · rintro ⟨root', h, hcounter⟩
      cases h
      rw [hcounters] at hcounter
      obtain ⟨⟨way, counter⟩, hway, rfl⟩ := List.mem_map.mp hcounter
      exact ⟨way, hway⟩
    · rintro ⟨way, hway⟩
      exact ⟨root, rfl, hcounters ▸ List.mem_map.mpr ⟨(way, counter), hway, rfl⟩⟩

theorem Holds.counted (holds : store.Holds router) (keeps : router.Keeps log)
    (kept : router.CountersKept) : store.Counted := by
  have numbers : ((wildcardNodes router.trees).map (·.2.2)).Nodup :=
    kept.nodup_iff.mpr List.nodup_range
  refine ⟨fun method root present => ?named, fun counter => ?mem_iff,
    fun method root present => ?nodup, ?apart⟩
  case named =>
    obtain ⟨tree, -, stored⟩ := holds.stored present
    exact hits_mem_counters.1 tree true root stored
  case mem_iff =>
    rw [holds.tracked, ← List.mem_range, ← kept.mem_iff]
    simp only [holds.mem_counters_iff keeps, List.mem_map, Prod.exists, exists_eq_right]
  case nodup =>
    obtain ⟨tree, htree, stored⟩ := holds.stored present
    have inside := keeps.registers.ordered.mem_toList_iff.mpr htree
    have among := (List.singleton_sublist.mpr inside).flatMap
      fun (entry : String × Node α) => entry.2.wildcards.map (entry.1, ·)
    rw [List.flatMap_singleton] at among
    have hcounters := numbers.sublist (among.map (·.2.2))
    rw [List.map_map] at hcounters
    rw [counters_stored.1 tree true root stored]
    exact hcounters
  case apart =>
    intro method method' root root' present present' counter hcounter hcounter'
    obtain ⟨way, hway⟩ := (holds.mem_counters_iff keeps).mp ⟨root, present, hcounter⟩
    obtain ⟨way', hway'⟩ := (holds.mem_counters_iff keeps).mp ⟨root', present', hcounter'⟩
    have same := List.inj_on_of_nodup_map numbers hway hway' rfl
    exact congrArg Prod.fst same

variable [Handler α γ] [ParamSink γ]

/-- The store that calls leave keeps the records of the trees that the operations leave. -/
theorem Holds.after? (holds : store.Holds router) (keeps : router.Keeps log)
    (calls : List (Call α))
    (room : (log ++ router.accepted (calls.map Call.operation)).length < 2 ^ 32 - 1) :
    ∃ left, store.after? γ calls = some left ∧
      left.Holds (router.run (calls.map Call.operation)).state := by
  induction calls generalizing store router log with
  | nil => exact ⟨store, rfl, holds⟩
  | cons call calls ih =>
      rw [List.map_cons, Router.accepted, ← List.append_assoc] at room
      have few : log.length + 1 < 2 ^ 32 := by
        rw [List.length_append, List.length_append] at room
        omega
      obtain ⟨next, hreply, holds'⟩ := holds.reply? keeps few call
      obtain ⟨left, hleft, holds''⟩ := ih holds' (keeps.perform call.operation) room
      exact ⟨left, by rw [Store.after?, hreply]; exact hleft, holds''⟩

section Calls

variable (config : RouterConfig) (calls : List (Call α))

/-- Calls that start from nothing leave a store that keeps the records of a reachable router. -/
theorem exists_after (room : ((Router.new config : Router α γ).accepted
      (calls.map Call.operation)).length < 2 ^ 32 - 1) :
    ∃ store, (empty : Store α).after? γ calls = some store ∧
      store.Holds ((Router.new config : Router α γ).run (calls.map Call.operation)).state :=
  (holds_new config).after? (Router.keeps_new config) calls room

/-- Whatever is called, accepted or refused, there are as many counters as beginnings of accepted
patterns that end with a complete wildcard, method by method, and each of them is that of one
wildcard in the records. -/
theorem calls_count (room : ((Router.new config : Router α γ).accepted
      (calls.map Call.operation)).length < 2 ^ 32 - 1) :
    let log := (Router.new config : Router α γ).accepted (calls.map Call.operation)
    ∃ store, (empty : Store α).after? γ calls = some store ∧ store.Counted ∧
      {entry : String × String | ∃ pattern ∈ patternsOf entry.1 log,
        WildcardPrefix pattern.toList entry.2.toList}.encard = store.tracked := by
  intro log
  obtain ⟨store, hstore, holds⟩ := exists_after (γ := γ) config calls room
  have keeps := Router.keeps_run_new (γ := γ) config (calls.map Call.operation)
  have kept := (Router.countersKept_new config).run (Router.keeps_new config)
    (calls.map (Call.operation (γ := γ)))
  refine ⟨store, hstore, holds.counted keeps kept, ?_⟩
  rw [holds.tracked]
  exact kept.encard keeps.registers

/-- Whatever was called, a registration is accepted exactly if its pattern follows the grammar, is
new for its method and is in conflict with none of its patterns; a refusal has the code of its
reason. -/
theorem calls_judged (room : ((Router.new config : Router α γ).accepted
      (calls.map Call.operation)).length < 2 ^ 32 - 1) (method pattern : String) (handler : α) :
    let log := (Router.new config : Router α γ).accepted (calls.map Call.operation)
    ∃ store verdict left, (empty : Store α).after? γ calls = some store ∧
      store.reply? (.handle method pattern handler) =
        some ((.handled verdict : Reply α γ), left) ∧
      Judged (patternsOf method log) pattern verdict := by
  intro log
  obtain ⟨store, hstore, holds⟩ := exists_after (γ := γ) config calls room
  have keeps := Router.keeps_run_new (γ := γ) config (calls.map Call.operation)
  obtain ⟨left, hreply, -⟩ := reply?_handle holds keeps (by omega) method pattern handler
  exact ⟨store, _, left, hstore, hreply, keeps.judged method pattern handler⟩

/-- A registration that is refused gives out no counter, and it does not show: every look-up gives
the handler and the parameters that it would have given, and the hint where no accepted pattern of
the method has two slashes in a row, and every further call has the code that it would have had. -/
theorem refused_call_invisible (room : ((Router.new config : Router α γ).accepted
      (calls.map Call.operation)).length < 2 ^ 32 - 1) {store left : Store α}
    {method pattern : String} {handler : α} {error : RouteError}
    (reached : (empty : Store α).after? γ calls = some store)
    (refused : store.reply? (.handle method pattern handler) =
      some ((.handled (.error error) : Reply α γ), left)) :
    let router := ((Router.new config : Router α γ).run (calls.map Call.operation)).state
    let log := (Router.new config : Router α γ).accepted (calls.map Call.operation)
    left.tracked = store.tracked ∧
    (∀ method' path, ∃ before after : Lookup α,
      store.reply? (.lookup method' path) = some ((.lookedUp before : Reply α γ), store) ∧
      left.reply? (.lookup method' path) = some ((.lookedUp after : Reply α γ), left) ∧
      after.handler = before.handler ∧ after.params = before.params ∧
      ((∀ old ∈ patternsOf method' log, ¬ Pattern.HasDoubleSlash old) →
        after.trailingSlashRedirect = before.trailingSlashRedirect)) ∧
    ∀ further : List (Call α),
      (log ++ router.accepted (further.map Call.operation)).length < 2 ^ 32 - 1 →
      ∃ before after : List (Reply α γ), store.run? further = some before ∧
        left.run? further = some after ∧ after.map Reply.code? = before.map Reply.code? := by
  intro router log
  obtain ⟨store', hstore, holds⟩ := exists_after (γ := γ) config calls room
  rw [reached] at hstore
  obtain rfl := Option.some.inj hstore
  have keeps := Router.keeps_run_new (γ := γ) config (calls.map Call.operation)
  obtain ⟨left', hreply, holds'⟩ := reply?_handle holds keeps (by omega) method pattern handler
  rw [refused] at hreply
  obtain ⟨hanswer, rfl⟩ := Prod.mk.inj (Option.some.inj hreply)
  have hrefused := (Reply.handled.inj hanswer).symm
  have keeps' := keeps.of_refused hrefused
  refine ⟨?_, fun method' path => ?_, fun further fits => ?_⟩
  · rw [holds'.tracked, Router.handle_of_refused hrefused, holds.tracked]
  · exact ⟨_, _, reply?_lookup holds keeps method' path, reply?_lookup holds' keeps' method' path,
      Router.lookup_of_refused keeps hrefused method' path⟩
  · have fits' := fits
    rw [← Router.accepted_of_keeps keeps keeps'] at fits'
    refine ⟨_, _, holds.run? keeps further fits, holds'.run? keeps' further fits', ?_⟩
    rw [List.map_map, List.map_map]
    have uncached : Reply.code? ∘ Reply.uncached = (Reply.code? : Reply α γ → Option String) := by
      funext reply
      cases reply <;> rfl
    rw [uncached]
    exact Router.codes_run keeps' keeps _

end Calls

end Store

end RadixRouter

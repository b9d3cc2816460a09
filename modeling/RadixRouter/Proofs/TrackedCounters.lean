/-
# As many counters as wildcards

The counters of a router are numbered, and each number belongs to one wildcard node of one tree:
no registration, accepted or refused, leaves a counter without a node or a node without a counter
of its own.  So there are as many counters as there are beginnings of accepted patterns that end
with a wildcard, method by method, and a wipe, which resets all counters, resets those of all
nodes.
-/

import Mathlib.Data.Set.Card
import RadixRouter.Proofs.HitCounters
import RadixRouter.Proofs.TreeHistory
import RadixRouter.Proofs.WildcardPrefixes

namespace RadixRouter

open Pattern (WildcardPrefix route)

variable {α γ : Type}

/-- The wildcard nodes of all trees: the method, the tokens that lead to the node, its counter. -/
def wildcardNodes (trees : StringMap (Node α)) : List (String × List Token × CounterId) :=
  trees.toList.flatMap fun (method, tree) => tree.wildcards.map (method, ·)

theorem mem_wildcardNodes {trees : StringMap (Node α)} (ordered : trees.Ordered) {method : String}
    {way : List Token} {counter : CounterId} :
    (method, way, counter) ∈ wildcardNodes trees ↔ Counts trees method way counter := by
  rw [wildcardNodes, List.mem_flatMap, Counts]
  constructor
  · rintro ⟨⟨method', tree⟩, htree, hmem⟩
    obtain ⟨wildcard, hwildcard, heq⟩ := List.mem_map.mp hmem
    obtain ⟨rfl, rfl⟩ := Prod.mk.inj heq
    rw [ordered.mem_toList_iff.mp htree]
    exact hwildcard
  · intro counts
    cases htree : trees.get? method with
    | none =>
        rw [htree] at counts
        cases counts
    | some tree =>
        rw [htree] at counts
        exact ⟨(method, tree), ordered.mem_toList_iff.mpr htree,
          List.mem_map.mpr ⟨(way, counter), counts, rfl⟩⟩

/-- A tree that is put in the place of another brings its own nodes and takes those of the other
away. -/
theorem wildcardNodes_insert {trees : StringMap (Node α)} (ordered : trees.Ordered)
    {method : String} {tree : Node α} {added : List (List Token × CounterId)}
    (grown : tree.wildcards.Perm (added ++ wildcardsNext (trees.get? method))) :
    (wildcardNodes (trees.insert method tree)).Perm
      (added.map (method, ·) ++ wildcardNodes trees) := by
  obtain ⟨before, after, htrees, hinsert⟩ := ordered.exists_insert method tree
  have replaced : ((trees.get? method).toList.map (method, ·)).flatMap
      (fun (entry : String × Node α) => entry.2.wildcards.map (entry.1, ·)) =
        (wildcardsNext (trees.get? method)).map (method, ·) := by
    cases trees.get? method with
    | none => rfl
    | some tree => exact List.append_nil _
  unfold wildcardNodes
  rw [htrees, hinsert, List.flatMap_append, List.flatMap_append, List.flatMap_append,
    List.flatMap_cons, replaced]
  refine List.Perm.trans ?_ (List.perm_append_comm_assoc _ _ _)
  refine List.Perm.append_left _ ?_
  rw [← List.append_assoc, ← List.map_append]
  exact (grown.map (method, ·)).append_right _

/-- The numbers given out follow those in use. -/
theorem Numbered.range_append {added : List (List Token × CounterId)} {fresh used : Nat}
    (numbered : Numbered added fresh used) :
    List.range fresh ++ added.map (·.2) = List.range used := by
  have split : List.range' 0 fresh ++ List.range' (0 + fresh) (used - fresh) =
      List.range' 0 (fresh + (used - fresh)) := List.range'_append_1
  rw [Nat.zero_add, Nat.add_sub_cancel' numbered.le] at split
  rw [numbered.counters, List.range_eq_range', List.range_eq_range', split]

namespace Router

/-- All nodes after a registration: those before, and the ones that it created and numbered. -/
theorem wildcardNodes_handle {router : Router α γ} (ordered : router.trees.Ordered)
    (method pattern : String) (handler : α) :
    ∃ added,
      (wildcardNodes (router.handle method pattern handler).state.trees).Perm
        (added.map (method, ·) ++ wildcardNodes router.trees) ∧
      Numbered added router.cache.counters.length
        (router.handle method pattern handler).state.cache.counters.length := by
  obtain ⟨added, hperm, numbered⟩ := router.numbered_handle method pattern handler
  refine ⟨added, ?_, numbered⟩
  rw [get?_handle, if_pos rfl] at hperm
  rw [trees_handle, planted]
  cases hinsert : (insertRoute (router.trees.get? method) pattern handler
      router.cache.counters.length).1 with
  | some tree =>
      rw [hinsert] at hperm
      exact wildcardNodes_insert ordered hperm
  | none =>
      rw [hinsert] at hperm
      rw [(List.append_eq_nil_iff.mp hperm.nil_eq.symm).1]
      exact List.Perm.refl _

/-- The counters of a router are those of its wildcard nodes, one each. -/
def CountersKept (router : Router α γ) : Prop :=
  ((wildcardNodes router.trees).map (·.2.2)).Perm (List.range router.cache.counters.length)

theorem countersKept_new (config : RouterConfig) : (Router.new config : Router α γ).CountersKept :=
  List.Perm.refl _

theorem CountersKept.handle {router : Router α γ} (kept : router.CountersKept)
    (ordered : router.trees.Ordered) (method pattern : String) (handler : α) :
    (router.handle method pattern handler).state.CountersKept := by
  obtain ⟨added, hperm, numbered⟩ := wildcardNodes_handle ordered method pattern handler
  rw [CountersKept, ← numbered.range_append]
  refine (hperm.map (·.2.2)).trans ?_
  rw [List.map_append, List.map_map]
  exact List.perm_append_comm.trans (kept.append_right _)

variable [Handler α γ] [ParamSink γ]

theorem CountersKept.run {router : Router α γ} {log : List (Registration α)}
    (kept : router.CountersKept) (keeps : router.Keeps log) (operations : List (Operation α γ)) :
    (router.run operations).state.CountersKept := by
  induction operations generalizing router log with
  | nil => exact kept
  | cons operation operations ih =>
      refine ih ?_ (keeps.perform operation)
      rcases router.trees_perform operation with
        ⟨method, pattern, handler, rfl⟩ | ⟨-, htrees, hcounters⟩
      · exact kept.handle keeps.registers.ordered method pattern handler
      · rw [CountersKept, htrees, hcounters]
        exact kept

end Router

section Registers

variable {trees : StringMap (Node α)} {log : List (Registration α)}

/-- There is a wildcard node under the beginnings of the accepted routes of a method that end with
a wildcard. -/
theorem Registers.counts_iff (registers : Registers trees log) {method : String}
    {way : List Token} :
    (∃ counter, Counts trees method way counter) ↔
      EndsWild way ∧ ∃ pattern ∈ patternsOf method log, way <+: route pattern := by
  have holds := registers.holds method
  have listed : (∃ entry ∈ routesOf method log, way <+: entry.1) ↔
      ∃ pattern ∈ patternsOf method log, way <+: route pattern := by
    simp [routesOf, patternsOf]
  unfold Counts
  rw [← listed]
  cases htree : trees.get? method with
  | none =>
      rw [htree, Holds] at holds
      rw [holds]
      refine iff_of_false ?_ fun h => by simp at h
      rintro ⟨counter, inside⟩
      cases inside
  | some tree =>
      rw [htree] at holds
      simp only [← holds.2.mem_iff]
      exact onRoutes.1 tree slash holds.1.sound way

/-- A wildcard node stands for the beginning of an accepted pattern that ends with its wildcard. -/
theorem Registers.counts_route_iff (registers : Registers trees log) {method text : String} :
    (∃ counter, Counts trees method (route text) counter) ↔
      ∃ pattern ∈ patternsOf method log, WildcardPrefix pattern.toList text.toList := by
  rw [registers.counts_iff, ← exists_and_left]
  refine exists_congr fun pattern => ?_
  constructor
  · rintro ⟨wild, inside, front⟩
    exact ⟨inside,
      (Pattern.wildcardPrefix_iff (registers.faultless_of_mem inside)).mpr ⟨wild, front⟩⟩
  · rintro ⟨inside, wildcard⟩
    obtain ⟨wild, front⟩ :=
      (Pattern.wildcardPrefix_iff (registers.faultless_of_mem inside)).mp wildcard
    exact ⟨wild, inside, front⟩

/-- The text that leads to a wildcard node. -/
theorem Registers.exists_text (registers : Registers trees log) {method : String}
    {way : List Token} {counter : CounterId} (counts : Counts trees method way counter) :
    ∃ text, route text = way := by
  obtain ⟨wild, pattern, inside, front⟩ := registers.counts_iff.mp ⟨counter, counts⟩
  exact Pattern.exists_route_eq (registers.faultless_of_mem inside) front wild

end Registers

/-- Every counter is at zero. -/
def ResultCache.Cleared (cache : ResultCache α) : Prop := ∀ hits ∈ cache.counters, hits = 0

theorem cleared_wipe (cache : ResultCache α) : cache.wipe.1.Cleared := by
  intro hits inside
  obtain ⟨_, -, rfl⟩ := List.mem_map.mp inside
  rfl

theorem ResultCache.Cleared.wipeTimes {cache : ResultCache α} (cleared : cache.Cleared) (n : Nat) :
    (cache.wipeTimes n).Cleared := by
  induction n generalizing cache with
  | zero => exact cleared
  | succ n ih => exact ih (cleared_wipe cache)

namespace Router

/-- A wipe by the clock clears the counters. -/
theorem cleared_advance {router : Router α γ} {ms dropped : Nat}
    (swept : .cacheSwept dropped ∈ (router.advance ms).events) :
    (router.advance ms).state.cache.Cleared := by
  have some : router.wipesDue ms ≠ 0 := by
    rw [← (router.events_advance ms).1]
    exact (List.length_pos_of_mem swept).ne'
  obtain ⟨wipes, hdue⟩ := Nat.exists_eq_succ_of_ne_zero some
  rw [advance_state, hdue]
  exact (cleared_wipe router.cache).wipeTimes wipes

/-- Where the counters are cleared, those of all nodes are at zero. -/
theorem CountersKept.zero {router : Router α γ} (kept : router.CountersKept)
    (cleared : router.cache.Cleared) :
    ∀ node ∈ wildcardNodes router.trees, router.cache.counters[node.2.2]? = some 0 := by
  intro node inside
  have tracked : node.2.2 < router.cache.counters.length :=
    List.mem_range.mp (kept.mem_iff.mp (List.mem_map.mpr ⟨node, inside, rfl⟩))
  rw [List.getElem?_eq_getElem tracked]
  exact congrArg some (cleared _ (List.getElem_mem tracked))

/-- The texts of the wildcard nodes, method by method, are the beginnings of accepted patterns
that end with a wildcard, and none occurs twice. -/
theorem CountersKept.encard {router : Router α γ} {log : List (Registration α)}
    (kept : router.CountersKept) (registers : Registers router.trees log) :
    {entry : String × String | ∃ pattern ∈ patternsOf entry.1 log,
      WildcardPrefix pattern.toList entry.2.toList}.encard = router.cache.counters.length := by
  let text (way : List Token) : String := Utf8.decodeLossy (Pattern.bytes way)
  have text_route (path : String) : text (route path) = path := by
    show Utf8.decodeLossy (Pattern.bytes (Pattern.tokens (Utf8.encode path))) = path
    rw [Pattern.bytes_tokens, Utf8.decodeLossy_encode]
  have route_text {method : String} {way : List Token} {counter : CounterId}
      (inside : (method, way, counter) ∈ wildcardNodes router.trees) : route (text way) = way := by
    obtain ⟨path, rfl⟩ := registers.exists_text ((mem_wildcardNodes registers.ordered).mp inside)
    rw [text_route]
  let entries := (wildcardNodes router.trees).map fun node => (node.1, text node.2.1)
  have apart : entries.Nodup := by
    have numbers : ((wildcardNodes router.trees).map (·.2.2)).Nodup :=
      kept.nodup_iff.mpr List.nodup_range
    refine List.Nodup.map_on ?_ numbers.of_map
    rintro ⟨method, way, counter⟩ inside ⟨method', way', counter'⟩ inside' same
    obtain ⟨rfl, sameText⟩ := Prod.mk.inj same
    obtain rfl : way = way' := by
      rw [← route_text inside, ← route_text inside']
      exact congrArg route sameText
    rw [mem_wildcardNodes registers.ordered] at inside inside'
    rw [registers.counter_unique inside inside']
  have members : {entry : String × String | ∃ pattern ∈ patternsOf entry.1 log,
      WildcardPrefix pattern.toList entry.2.toList} = (entries.toFinset : Set (String × String)) := by
    ext ⟨method, path⟩
    rw [Set.mem_ofPred_eq, ← registers.counts_route_iff, Finset.mem_coe, List.mem_toFinset,
      List.mem_map]
    constructor
    · rintro ⟨counter, counts⟩
      exact ⟨(method, route path, counter), (mem_wildcardNodes registers.ordered).mpr counts,
        congrArg (Prod.mk method) (text_route path)⟩
    · rintro ⟨⟨method', way, counter⟩, inside, same⟩
      obtain ⟨rfl, rfl⟩ := Prod.mk.inj same
      refine ⟨counter, (mem_wildcardNodes registers.ordered).mp ?_⟩
      rw [route_text inside]
      exact inside
  rw [members, Set.encard_coe_eq_coe_finsetCard, List.toFinset_card_of_nodup apart,
    List.length_map, ← List.length_map (·.2.2), kept.length_eq, List.length_range]

variable [Handler α γ] [ParamSink γ]

/-- In every reachable router: there are as many counters as beginnings of accepted patterns that
end with a complete wildcard, method by method.  The counters are those of the wildcard nodes of
all trees, each of one node, where a catch-all counts as one; and after a wipe, by hand or by the
clock, those of all nodes are at zero. -/
theorem counters_follow_patterns (config : RouterConfig) (operations : List (Operation α γ)) :
    let router := ((Router.new config : Router α γ).run operations).state
    let log := (Router.new config : Router α γ).accepted operations
    {entry : String × String | ∃ pattern ∈ patternsOf entry.1 log,
      WildcardPrefix pattern.toList entry.2.toList}.encard = router.cacheStats.trackedCounters ∧
    ((wildcardNodes router.trees).map (·.2.2)).Perm
      (List.range router.cacheStats.trackedCounters) ∧
    (∀ node ∈ wildcardNodes router.clearCache.state.trees,
      router.clearCache.state.cache.counters[node.2.2]? = some 0) ∧
    ∀ ms dropped, .cacheSwept dropped ∈ (router.advance ms).events →
      ∀ node ∈ wildcardNodes (router.advance ms).state.trees,
        (router.advance ms).state.cache.counters[node.2.2]? = some 0 := by
  intro router log
  have keeps : router.Keeps log := keeps_run_new config operations
  have kept : router.CountersKept :=
    (countersKept_new config).run (keeps_new config) operations
  refine ⟨kept.encard keeps.registers, kept, ?_, ?_⟩
  · have kept' : router.clearCache.state.CountersKept :=
      kept.run keeps [.clearCache]
    exact kept'.zero (cleared_wipe router.cache)
  · intro ms dropped swept
    have kept' : (router.advance ms).state.CountersKept := kept.run keeps [.advance ms]
    exact kept'.zero (cleared_advance swept)

end Router

end RadixRouter

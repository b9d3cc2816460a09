/-
# Hit counters

Each wildcard node of a router has a counter of its own.  `Counts` says which: every accepted
registration with a wildcard has one, a walk that finds its route hands this one back, and
registering more routes creates new counters at zero and leaves the others as they are.
-/

import Mathlib.Algebra.GroupWithZero.Nat
import RadixRouter.Proofs.Coherence
import RadixRouter.Proofs.WildcardGrafts

namespace RadixRouter

variable {α γ : Type}

theorem hitsOf_trackUpTo (cache : ResultCache α) (n : Nat) (counter : CounterId) :
    (cache.trackUpTo n).hitsOf counter = cache.hitsOf counter := by
  unfold ResultCache.hitsOf ResultCache.trackUpTo
  dsimp only
  rw [List.getElem?_append]
  split
  · rfl
  · next h =>
      rw [List.getElem?_eq_none (not_lt.mp h), List.getElem?_replicate]
      split <;> rfl

theorem hitsOf_wipe (cache : ResultCache α) (counter : CounterId) :
    cache.wipe.1.hitsOf counter = 0 := by
  unfold ResultCache.hitsOf ResultCache.wipe
  rw [List.getElem?_map]
  cases cache.counters[counter]? <;> rfl

theorem hitsOf_bump_self {cache : ResultCache α} {counter : CounterId}
    (tracked : counter < cache.counters.length) :
    (cache.bump counter).hitsOf counter = cache.hitsOf counter + 1 := by
  unfold ResultCache.hitsOf ResultCache.bump
  rw [List.getElem?_modify_eq, List.getElem?_eq_getElem tracked]
  rfl

theorem hitsOf_bump_other {counter other : CounterId} (different : counter ≠ other)
    (cache : ResultCache α) : (cache.bump counter).hitsOf other = cache.hitsOf other := by
  unfold ResultCache.hitsOf ResultCache.bump
  rw [List.getElem?_modify_ne _ _ different]

/-- A new key makes a map larger by one. -/
theorem StringMap.size_insert {β : Type} {map : StringMap β} {key : String}
    (absent : map.get? key = none) (value : β) : (map.insert key value).size = map.size + 1 := by
  obtain ⟨entries⟩ := map
  change StringMap.getIn key entries = none at absent
  show (StringMap.insertIn key value entries).length = entries.length + 1
  induction entries with
  | nil => rfl
  | cons entry entries ih =>
      obtain ⟨k, v⟩ := entry
      rw [StringMap.getIn] at absent
      rw [StringMap.insertIn]
      split
      · next hk => rw [if_pos hk] at absent; cases absent
      · next hk =>
          rw [if_neg hk] at absent
          split
          · rfl
          · rw [List.length_cons, ih absent, List.length_cons]

/-- The sizes of the maps in a map, added up. -/
def totalSize {β : Type} (maps : StringMap (StringMap β)) : Nat :=
  maps.values.foldr (fun map total => map.size + total) 0

theorem totalSize_eq_sum {β : Type} (maps : StringMap (StringMap β)) :
    totalSize maps = (maps.toList.map (·.2.size)).sum := by
  rw [totalSize, StringMap.values, List.foldr_map, List.sum, List.foldr_map]

/-- A map that is put in the place of another counts instead of it. -/
theorem totalSize_insert {β : Type} {maps : StringMap (StringMap β)} (ordered : maps.Ordered)
    (key : String) (map : StringMap β) :
    totalSize (maps.insert key map) + ((maps.get? key).getD StringMap.empty).size =
      totalSize maps + map.size := by
  obtain ⟨before, after, hmaps, hinsert⟩ := ordered.exists_insert key map
  rw [totalSize_eq_sum, totalSize_eq_sum, hmaps, hinsert]
  simp only [List.map_append, List.sum_append, List.map_cons, List.sum_cons]
  cases maps.get? key with
  | none =>
      show _ + 0 = _ + (0 + _) + _
      omega
  | some replaced =>
      show _ + replaced.size = _ + (replaced.size + 0 + _) + _
      omega

/-- Storing a result that was not stored makes one entry more. -/
theorem size_put {cache : ResultCache α} (ordered : cache.entries.Ordered)
    {method path : String} (absent : cache.get? method path = none) (entry : CacheEntry α) :
    (cache.put method path entry).size = cache.size + 1 := by
  have habsent : ((cache.entries.get? method).getD StringMap.empty).get? path = none := by
    unfold ResultCache.get? at absent
    cases hmethod : cache.entries.get? method with
    | none => rfl
    | some paths =>
        rw [hmethod] at absent
        exact absent
  have htotal := totalSize_insert ordered method
    (((cache.entries.get? method).getD StringMap.empty).insert path entry)
  rw [StringMap.size_insert habsent] at htotal
  have hsize : (cache.put method path entry).size = totalSize (cache.entries.insert method
      (((cache.entries.get? method).getD StringMap.empty).insert path entry)) := rfl
  have hsize' : cache.size = totalSize cache.entries := rfl
  omega

/-- There is a wildcard node in the tree of a method, and this is its counter. -/
def Counts (trees : StringMap (Node α)) (method : String) (way : List Token)
    (counter : CounterId) : Prop := (way, counter) ∈ wildcardsNext (trees.get? method)

theorem Counts.way_ne_nil {trees : StringMap (Node α)} {method : String} {way : List Token}
    {counter : CounterId} (counts : Counts trees method way counter) : way ≠ [] := by
  unfold Counts at counts
  cases htree : trees.get? method with
  | none =>
      rw [htree] at counts
      cases counts
  | some tree =>
      rw [htree] at counts
      exact RadixRouter.way_ne_nil.1 tree _ counts

section Registers

variable {trees : StringMap (Node α)} {log : List (Registration α)}

/-- A wildcard node has one counter. -/
theorem Registers.counter_unique (registers : Registers trees log) {method : String}
    {way : List Token} {counter counter' : CounterId} (counts : Counts trees method way counter)
    (counts' : Counts trees method way counter') : counter = counter' := by
  have holds := registers.holds method
  unfold Counts at counts counts'
  cases htree : trees.get? method with
  | none =>
      rw [htree] at counts
      cases counts
  | some tree =>
      rw [htree] at counts counts' holds
      exact RadixRouter.counter_unique.1 tree slash holds.1.sound way _ _ counts counts'

/-- A registration with a wildcard has a counter. -/
theorem Registers.exists_counter (registers : Registers trees log)
    {registration : Registration α} (logged : registration ∈ log)
    (wild : upToWildcard (Pattern.route registration.pattern) ≠ []) :
    ∃ counter, Counts trees registration.method
      (upToWildcard (Pattern.route registration.pattern)) counter := by
  have holds := registers.holds registration.method
  have hroute : (Pattern.route registration.pattern, registration.handler) ∈
      routesOf registration.method log := mem_routesOf.mpr ⟨registration, logged, rfl, rfl, rfl⟩
  unfold Counts
  cases htree : trees.get? registration.method with
  | none =>
      rw [htree, Holds] at holds
      rw [holds] at hroute
      cases hroute
  | some tree =>
      rw [htree] at holds
      obtain ⟨deepest, due⟩ := exists_due.1 tree _ (holds.2.mem_iff.mpr hroute)
      cases deepest with
      | none => exact absurd due wild
      | some counter => exact ⟨counter, due⟩

/-- A walk finds an accepted registration, and hands back the counter that is due for it. -/
theorem Registers.walk_due (registers : Registers trees log) {method path : String} {handler : α}
    {captures : List (List UInt8 × List UInt8)} {deepest : Option CounterId}
    (found : walk trees method path = .found handler captures deepest) :
    ∃ registration ∈ log, registration.method = method ∧
      Fits (Pattern.route registration.pattern) (Utf8.encode path) captures ∧
      Due (wildcardsNext (trees.get? method)) (Pattern.route registration.pattern) deepest := by
  have holds := registers.holds method
  unfold walk at found
  cases htree : trees.get? method with
  | none =>
      rw [htree] at found
      cases found
  | some tree =>
      rw [htree] at found holds
      obtain ⟨rooted, same⟩ := holds
      obtain ⟨route, hroute, fits, due⟩ := search_due.1 tree slash none _ handler captures deepest
        rooted.sound (Or.inr rooted.literal) found
      obtain ⟨registration, hlogged, hmethod, rfl, -⟩ := mem_routesOf.mp (same.mem_iff.mp hroute)
      exact ⟨registration, hlogged, hmethod, fits, due⟩

end Registers

/-- The counters of all wildcard nodes are among the first `n`, and none is shared. -/
structure Allotted (trees : StringMap (Node α)) (n : Nat) : Prop where
  tracked : ∀ {method way counter}, Counts trees method way counter → counter < n
  apart : ∀ {method way method' way' counter}, Counts trees method way counter →
    Counts trees method' way' counter → method = method' ∧ way = way'

theorem allotted_empty (n : Nat) : Allotted (StringMap.empty : StringMap (Node α)) n :=
  ⟨nofun, nofun⟩

namespace Router

/-- A registration, accepted or refused, keeps all wildcards of its tree and numbers the ones it
creates. -/
theorem numbered_insertRoute (tree : Option (Node α)) (pattern : String) (handler : α)
    (fresh : CounterId) :
    ∃ added, (wildcardsNext (insertRoute tree pattern handler fresh).1).Perm
        (added ++ wildcardsNext tree) ∧
      Numbered added fresh ((insertRoute tree pattern handler fresh).2.toOption.getD fresh) := by
  unfold insertRoute
  dsimp only
  cases Pattern.fault? (Utf8.encode pattern) with
  | some fault => exact ⟨[], List.Perm.refl _, Numbered.nil fresh⟩
  | none =>
      cases tree with
      | none =>
          exact ⟨_, List.Perm.of_eq (List.append_nil _).symm, numbered_ofTokens handler _ fresh⟩
      | some tree =>
          obtain ⟨added, hperm, numbered⟩ :=
            adds_insert tree handler fresh (Pattern.tokens (Utf8.encode pattern))
          refine ⟨added, hperm, ?_⟩
          dsimp only
          cases hverdict : (tree.insert handler fresh
              (Pattern.tokens (Utf8.encode pattern))).verdict with
          | ok used =>
              rw [hverdict] at numbered
              exact numbered
          | error clash =>
              rw [hverdict] at numbered
              exact numbered

/-- The counters after a registration are those of the wildcard nodes that it created in its
tree, besides those before. -/
theorem numbered_handle (router : Router α γ) (method pattern : String) (handler : α) :
    ∃ added, (wildcardsNext ((router.handle method pattern handler).state.trees.get? method)).Perm
        (added ++ wildcardsNext (router.trees.get? method)) ∧
      Numbered added router.cache.counters.length
        (router.handle method pattern handler).state.cache.counters.length := by
  obtain ⟨added, hperm, numbered⟩ := numbered_insertRoute (router.trees.get? method) pattern
    handler router.cache.counters.length
  refine ⟨added, ?_, ?_⟩
  · rw [get?_handle, if_pos rfl]
    exact hperm
  · rw [handle_eq]
    cases hverdict : (insertRoute (router.trees.get? method) pattern handler
        router.cache.counters.length).2 with
    | error error =>
        rw [hverdict] at numbered
        exact numbered
    | ok used =>
        rw [hverdict] at numbered
        show Numbered added _ (router.cache.trackUpTo used).counters.length
        have hlength : (router.cache.trackUpTo used).counters.length = used := by
          rw [ResultCache.trackUpTo, List.length_append, List.length_replicate]
          exact Nat.add_sub_cancel' numbered.le
        rw [hlength]
        exact numbered

/-- A registration numbers the wildcard nodes that it creates, and keeps all others. -/
theorem counts_handle (router : Router α γ) (method pattern : String) (handler : α) :
    ∃ added,
      Numbered added router.cache.counters.length
        (router.handle method pattern handler).state.cache.counters.length ∧
      ∀ other way counter,
        Counts (router.handle method pattern handler).state.trees other way counter ↔
          Counts router.trees other way counter ∨ other = method ∧ (way, counter) ∈ added := by
  obtain ⟨added, hperm, numbered⟩ := router.numbered_handle method pattern handler
  refine ⟨added, numbered, fun other way counter => ?_⟩
  unfold Counts
  by_cases hmethod : method = other
  · subst hmethod
    rw [hperm.mem_iff, List.mem_append, or_comm]
    simp only [true_and]
  · rw [get?_handle, if_neg hmethod]
    constructor
    · exact Or.inl
    · rintro (h | ⟨rfl, -⟩)
      · exact h
      · exact absurd rfl hmethod

/-- New nodes get counters of their own. -/
theorem allotted_handle {router : Router α γ}
    (allotted : Allotted router.trees router.cache.counters.length) (method pattern : String)
    (handler : α) :
    Allotted (router.handle method pattern handler).state.trees
      (router.handle method pattern handler).state.cache.counters.length := by
  obtain ⟨added, numbered, hcounts⟩ := router.counts_handle method pattern handler
  constructor
  · intro other way counter counts
    rcases (hcounts _ _ _).mp counts with old | ⟨-, new⟩
    · exact lt_of_lt_of_le (allotted.tracked old) numbered.le
    · exact (numbered.bounds new).2
  · intro first way second way' counter counts counts'
    rcases (hcounts _ _ _).mp counts with old | ⟨rfl, new⟩ <;>
      rcases (hcounts _ _ _).mp counts' with old' | ⟨rfl, new'⟩
    · exact allotted.apart old old'
    · exact absurd (allotted.tracked old) (not_lt.mpr (numbered.bounds new').1)
    · exact absurd (allotted.tracked old') (not_lt.mpr (numbered.bounds new).1)
    · exact ⟨rfl, numbered.way_unique new new'⟩

/-- Registering neither counts nor stores. -/
theorem hitsOf_handle (router : Router α γ) (method pattern : String) (handler : α)
    (counter : CounterId) :
    (router.handle method pattern handler).state.cache.hitsOf counter =
      router.cache.hitsOf counter := by
  rw [handle_eq]
  split
  · exact hitsOf_trackUpTo router.cache _ counter
  · rfl

theorem entries_handle (router : Router α γ) (method pattern : String) (handler : α) :
    (router.handle method pattern handler).state.cache.entries = router.cache.entries := by
  rw [handle_eq]
  split <;> rfl

end Router

end RadixRouter

/-
# A cache and its history

The cache keeps a map of paths for every method.  A caller who puts, gets and wipes cannot tell it
from a single map with method and path together as key: what is got is what was put last under
that key since the last wipe, and the cache counts the keys that were put since then.
-/

import Mathlib.Data.Set.Card
import RadixRouter.Proofs.HitCounters

namespace RadixRouter

variable {α : Type}

/-- A call to a result cache. -/
inductive CacheCall (α : Type) where
  | put (method path : String) (entry : CacheEntry α)
  | get (method path : String)
  | stats
  | wipe

/-- The answer to a call; a wipe answers how many entries it dropped. -/
inductive CacheReply (α : Type) where
  | done
  | entry (found : Option (CacheEntry α))
  | stats (stats : CacheStats)
  | dropped (entries : Nat)

/-- What one call leaves and answers. -/
def ResultCache.perform (cache : ResultCache α) : CacheCall α → ResultCache α × CacheReply α
  | .put method path entry => (cache.put method path entry, .done)
  | .get method path => (cache, .entry (cache.get? method path))
  | .stats => (cache, .stats cache.stats)
  | .wipe =>
    let (cache, dropped) := cache.wipe
    (cache, .dropped dropped)

/-- A new cache after calls in order. -/
def ResultCache.after (calls : List (CacheCall α)) : ResultCache α :=
  calls.foldl (fun cache call => (cache.perform call).1) ResultCache.empty

namespace CacheCall

def isWipe : CacheCall α → Bool
  | .wipe => true
  | _ => false

/-- This entry was the last to be put under its key, and no wipe came later. -/
def LastPut (calls : List (CacheCall α)) (method path : String) (entry : CacheEntry α) : Prop :=
  ∃ before later, calls = before ++ .put method path entry :: later ∧ .wipe ∉ later ∧
    ∀ other, .put method path other ∉ later

/-- The keys under which something was put since the last wipe. -/
def liveKeys (calls : List (CacheCall α)) : Set (String × String) :=
  {key | ∃ before entry later, calls = before ++ .put key.1 key.2 entry :: later ∧ .wipe ∉ later}

/-- Calls with one more at the end are split at this one or at an earlier one. -/
theorem concat_eq_split_iff {calls before later : List (CacheCall α)} {call chosen : CacheCall α} :
    calls ++ [call] = before ++ chosen :: later ↔
      before = calls ∧ chosen = call ∧ later = [] ∨
        ∃ earlier, calls = before ++ chosen :: earlier ∧ later = earlier ++ [call] := by
  constructor
  · intro hcalls
    rcases List.eq_nil_or_concat' later with rfl | ⟨earlier, last, rfl⟩
    · obtain ⟨rfl, hlast⟩ := List.append_inj' hcalls rfl
      exact Or.inl ⟨rfl, (List.singleton_inj.mp hlast).symm, rfl⟩
    · rw [← List.cons_append, ← List.append_assoc] at hcalls
      obtain ⟨rfl, hlast⟩ := List.append_inj' hcalls rfl
      exact Or.inr ⟨earlier, rfl, by rw [hlast]⟩
  · rintro (⟨rfl, rfl, rfl⟩ | ⟨earlier, rfl, rfl⟩)
    · rfl
    · rw [List.append_assoc, List.cons_append]

theorem not_lastPut_nil {method path : String} {entry : CacheEntry α} :
    ¬LastPut [] method path entry := by
  rintro ⟨before, later, hcalls, -⟩
  exact List.append_ne_nil_of_right_ne_nil before (List.cons_ne_nil _ _) hcalls.symm

theorem liveKeys_nil : liveKeys ([] : List (CacheCall α)) = ∅ := by
  refine Set.eq_empty_of_forall_notMem fun key => ?_
  rintro ⟨before, entry, later, hcalls, -⟩
  exact List.append_ne_nil_of_right_ne_nil before (List.cons_ne_nil _ _) hcalls.symm

theorem lastPut_concat_iff {calls : List (CacheCall α)} {call : CacheCall α}
    {method path : String} {entry : CacheEntry α} :
    LastPut (calls ++ [call]) method path entry ↔
      call = .put method path entry ∨
        call ≠ .wipe ∧ (∀ other, call ≠ .put method path other) ∧
          LastPut calls method path entry := by
  constructor
  · rintro ⟨before, later, hcalls, unwiped, latest⟩
    rcases concat_eq_split_iff.mp hcalls with ⟨rfl, rfl, rfl⟩ | ⟨earlier, rfl, rfl⟩
    · exact Or.inl rfl
    · have own : call ∈ earlier ++ [call] := List.mem_append_right _ List.mem_cons_self
      refine Or.inr ⟨?_, ?_, before, earlier, rfl, ?_, ?_⟩
      · rintro rfl
        exact unwiped own
      · rintro other rfl
        exact latest other own
      · exact fun inside => unwiped (List.mem_append_left _ inside)
      · exact fun other inside => latest other (List.mem_append_left _ inside)
  · rintro (rfl | ⟨notWipe, notPut, before, later, rfl, unwiped, latest⟩)
    · exact ⟨calls, [], rfl, List.not_mem_nil, fun _ => List.not_mem_nil⟩
    · refine ⟨before, later ++ [call], List.append_assoc _ _ _, ?_, ?_⟩
      · rw [List.mem_append, List.mem_singleton, not_or]
        exact ⟨unwiped, notWipe.symm⟩
      · intro other
        rw [List.mem_append, List.mem_singleton, not_or]
        exact ⟨latest other, (notPut other).symm⟩

theorem mem_liveKeys_concat_iff {calls : List (CacheCall α)} {call : CacheCall α}
    {key : String × String} :
    key ∈ liveKeys (calls ++ [call]) ↔
      (∃ entry, call = .put key.1 key.2 entry) ∨ call ≠ .wipe ∧ key ∈ liveKeys calls := by
  constructor
  · rintro ⟨before, entry, later, hcalls, unwiped⟩
    rcases concat_eq_split_iff.mp hcalls with ⟨rfl, rfl, rfl⟩ | ⟨earlier, rfl, rfl⟩
    · exact Or.inl ⟨entry, rfl⟩
    · refine Or.inr ⟨?_, before, entry, earlier, rfl, ?_⟩
      · rintro rfl
        exact unwiped (List.mem_append_right _ List.mem_cons_self)
      · exact fun inside => unwiped (List.mem_append_left _ inside)
  · rintro (⟨entry, rfl⟩ | ⟨notWipe, before, entry, later, rfl, unwiped⟩)
    · exact ⟨calls, entry, [], rfl, List.not_mem_nil⟩
    · refine ⟨before, entry, later ++ [call], List.append_assoc _ _ _, ?_⟩
      rw [List.mem_append, List.mem_singleton, not_or]
      exact ⟨unwiped, notWipe.symm⟩

end CacheCall

/-- A new value for a key that has one leaves the size as it is. -/
theorem StringMap.Ordered.size_insert {β : Type} {map : StringMap β} (ordered : map.Ordered)
    {key : String} (present : (map.get? key).isSome) (value : β) :
    (map.insert key value).size = map.size := by
  have same := congrArg List.length (ordered.keys_insert (mem_keys_iff.mpr present) value)
  rwa [keys, keys, List.length_map, List.length_map] at same

namespace ResultCache

/-- The keys of a cache stand in order, on both levels. -/
structure Ordered (cache : ResultCache α) : Prop where
  methods : cache.entries.Ordered
  paths : ∀ method paths, cache.entries.get? method = some paths → paths.Ordered

theorem ordered_empty : (empty : ResultCache α).Ordered := ⟨StringMap.ordered_empty, nofun⟩

/-- The paths of a method that has none yet are in order too. -/
theorem Ordered.ofMethod {cache : ResultCache α} (ordered : cache.Ordered) (method : String) :
    ((cache.entries.get? method).getD StringMap.empty).Ordered := by
  cases hmethod : cache.entries.get? method with
  | none => exact StringMap.ordered_empty
  | some paths => exact ordered.paths method paths hmethod

theorem Ordered.put {cache : ResultCache α} (ordered : cache.Ordered) (method path : String)
    (entry : CacheEntry α) : (cache.put method path entry).Ordered := by
  refine ⟨ordered.methods.insert method _, ?_⟩
  intro other paths hpaths
  rw [ResultCache.put, StringMap.get?_insert] at hpaths
  split at hpaths
  · rw [← Option.some.inj hpaths]
    exact (ordered.ofMethod method).insert path entry
  · exact ordered.paths other paths hpaths

/-- Storing an entry under a key that has one makes no entry more. -/
theorem Ordered.size_put {cache : ResultCache α} (ordered : cache.Ordered) {method path : String}
    (present : (cache.get? method path).isSome) (entry : CacheEntry α) :
    (cache.put method path entry).size = cache.size := by
  have inside : (((cache.entries.get? method).getD StringMap.empty).get? path).isSome := by
    rw [get?] at present
    cases hmethod : cache.entries.get? method with
    | none =>
        rw [hmethod] at present
        cases present
    | some paths =>
        rw [hmethod] at present
        exact present
  have total := totalSize_insert ordered.methods method
    (((cache.entries.get? method).getD StringMap.empty).insert path entry)
  rw [(ordered.ofMethod method).size_insert inside] at total
  exact Nat.add_right_cancel total

/-- What a cache holds and counts is what its history says. -/
structure Mirrors (cache : ResultCache α) (calls : List (CacheCall α)) : Prop where
  ordered : cache.Ordered
  stored : ∀ method path entry,
    cache.get? method path = some entry ↔ CacheCall.LastPut calls method path entry
  live : ∀ key, key ∈ CacheCall.liveKeys calls ↔ (cache.get? key.1 key.2).isSome = true
  size : (CacheCall.liveKeys calls).encard = cache.size
  sweeps : cache.sweeps = UInt64.ofNat (calls.countP CacheCall.isWipe)

theorem mirrors_empty : (empty : ResultCache α).Mirrors [] where
  ordered := ordered_empty
  stored _ _ _ := iff_of_false nofun CacheCall.not_lastPut_nil
  live _ := iff_of_false (by rw [CacheCall.liveKeys_nil]; exact id) nofun
  size := by
    rw [CacheCall.liveKeys_nil, Set.encard_empty]
    rfl
  sweeps := rfl

theorem Mirrors.put {cache : ResultCache α} {calls : List (CacheCall α)}
    (mirrors : cache.Mirrors calls) (method path : String) (entry : CacheEntry α) :
    (cache.put method path entry).Mirrors (calls ++ [.put method path entry]) := by
  have keys : CacheCall.liveKeys (calls ++ [.put method path entry]) =
      insert (method, path) (CacheCall.liveKeys calls) := by
    ext ⟨method', path'⟩
    rw [CacheCall.mem_liveKeys_concat_iff, Set.mem_insert_iff, Prod.mk.injEq]
    refine or_congr ⟨?_, ?_⟩ (and_iff_right nofun)
    · rintro ⟨_, ⟨⟩⟩
      exact ⟨rfl, rfl⟩
    · rintro ⟨rfl, rfl⟩
      exact ⟨entry, rfl⟩
  refine ⟨mirrors.ordered.put method path entry, ?stored, ?live, ?size, ?sweeps⟩
  case stored =>
    intro method' path' entry'
    rw [get?_put, CacheCall.lastPut_concat_iff, ← mirrors.stored]
    split
    · next same =>
        obtain ⟨rfl, rfl⟩ := same
        simp
    · next other =>
        constructor
        · intro found
          refine Or.inr ⟨nofun, ?_, found⟩
          rintro _ ⟨⟩
          exact other ⟨rfl, rfl⟩
        · rintro (same | ⟨-, -, found⟩)
          · cases same
            exact absurd ⟨rfl, rfl⟩ other
          · exact found
  case live =>
    rintro ⟨method', path'⟩
    rw [keys, Set.mem_insert_iff, mirrors.live, get?_put, Prod.mk.injEq]
    split
    · next same => exact iff_of_true (Or.inl ⟨same.1.symm, same.2.symm⟩) rfl
    · next other => exact or_iff_right fun same => other ⟨same.1.symm, same.2.symm⟩
  case size =>
    rw [keys]
    by_cases present : (cache.get? method path).isSome
    · rw [Set.insert_eq_of_mem ((mirrors.live _).mpr present), mirrors.size,
        mirrors.ordered.size_put present]
    · rw [Set.encard_insert_of_notMem fun inside => present ((mirrors.live _).mp inside),
        mirrors.size, size_put mirrors.ordered.methods (Option.not_isSome_iff_eq_none.mp present),
        Nat.cast_succ]
  case sweeps =>
    rw [List.countP_append]
    exact mirrors.sweeps

theorem Mirrors.wipe {cache : ResultCache α} {calls : List (CacheCall α)}
    (mirrors : cache.Mirrors calls) : cache.wipe.1.Mirrors (calls ++ [.wipe]) := by
  have keys : CacheCall.liveKeys (calls ++ [.wipe]) = ∅ := by
    refine Set.eq_empty_of_forall_notMem fun key inside => ?_
    rcases CacheCall.mem_liveKeys_concat_iff.mp inside with ⟨_, put⟩ | ⟨notWipe, -⟩
    · cases put
    · exact notWipe rfl
  refine ⟨⟨StringMap.ordered_empty, nofun⟩, ?stored, ?live, ?size, ?sweeps⟩
  case stored =>
    refine fun _ _ _ => iff_of_false nofun fun last => ?_
    rcases CacheCall.lastPut_concat_iff.mp last with put | ⟨notWipe, -⟩
    · cases put
    · exact notWipe rfl
  case live =>
    intro key
    rw [keys]
    exact iff_of_false (Set.notMem_empty key) nofun
  case size =>
    rw [keys, Set.encard_empty]
    rfl
  case sweeps =>
    rw [List.countP_append, UInt64.ofNat_add, ← mirrors.sweeps]
    rfl

/-- A call that only reads adds nothing to the history. -/
theorem Mirrors.read {cache : ResultCache α} {calls : List (CacheCall α)}
    (mirrors : cache.Mirrors calls) {call : CacheCall α} (notPut : ∀ method path entry,
      call ≠ .put method path entry) (notWipe : call ≠ .wipe) :
    cache.Mirrors (calls ++ [call]) := by
  have keys : CacheCall.liveKeys (calls ++ [call]) = CacheCall.liveKeys calls := by
    ext key
    rw [CacheCall.mem_liveKeys_concat_iff, and_iff_right notWipe]
    exact or_iff_right fun ⟨entry, h⟩ => notPut _ _ entry h
  refine ⟨mirrors.ordered, ?stored, ?live, ?size, ?sweeps⟩
  case stored =>
    intro method path entry
    rw [mirrors.stored, CacheCall.lastPut_concat_iff, and_iff_right notWipe,
      and_iff_right (notPut method path)]
    exact (or_iff_right (notPut method path entry)).symm
  case live =>
    rw [keys]
    exact mirrors.live
  case size =>
    rw [keys]
    exact mirrors.size
  case sweeps =>
    have other : call.isWipe = false := by
      cases call with
      | wipe => exact absurd rfl notWipe
      | _ => rfl
    rw [List.countP_append, List.countP_singleton, other]
    exact mirrors.sweeps

theorem Mirrors.perform {cache : ResultCache α} {calls : List (CacheCall α)}
    (mirrors : cache.Mirrors calls) (call : CacheCall α) :
    (cache.perform call).1.Mirrors (calls ++ [call]) := by
  cases call with
  | put method path entry => exact mirrors.put method path entry
  | get method path => exact mirrors.read nofun nofun
  | stats => exact mirrors.read nofun nofun
  | wipe => exact mirrors.wipe

theorem mirrors_after (calls : List (CacheCall α)) : (after calls).Mirrors calls := by
  induction calls using List.reverseRecOn with
  | nil => exact mirrors_empty
  | append_singleton calls call ih =>
      rw [after, List.foldl_append]
      exact ih.perform call

/-- After any calls to a new cache: what is got is what was put last under the same method and path
since the last wipe, and nothing if nothing was; the entries in the statistics, and the entries that
a wipe would drop, are as many as the keys put since the last wipe; the statistics count the wipes
in 64 bits; and putting an entry leaves every other key as it was. -/
theorem cache_follows_history (calls : List (CacheCall α)) :
    let cache := after calls
    (∀ method path, ∃ found, (cache.perform (.get method path)).2 = .entry found ∧
      ∀ entry, found = some entry ↔ CacheCall.LastPut calls method path entry) ∧
    (∃ stats, (cache.perform .stats).2 = .stats stats ∧
      stats.entries = (CacheCall.liveKeys calls).encard ∧
      stats.sweeps = UInt64.ofNat (calls.countP CacheCall.isWipe)) ∧
    (∃ dropped : Nat, (cache.perform .wipe).2 = .dropped dropped ∧
      dropped = (CacheCall.liveKeys calls).encard) ∧
    ∀ method path entry method' path', (method', path') ≠ (method, path) →
      (cache.perform (.put method path entry)).1.get? method' path' =
        cache.get? method' path' := by
  intro cache
  have mirrors : cache.Mirrors calls := mirrors_after calls
  refine ⟨?get, ?stats, ?wipe, ?put⟩
  case get => exact fun method path => ⟨_, rfl, mirrors.stored method path⟩
  case stats => exact ⟨_, rfl, mirrors.size.symm, mirrors.sweeps⟩
  case wipe => exact ⟨_, rfl, mirrors.size.symm⟩
  case put =>
    intro method path entry method' path' other
    show (cache.put method path entry).get? method' path' = _
    rw [get?_put, if_neg]
    rintro ⟨rfl, rfl⟩
    exact other rfl

/-- One path under two methods, before a wipe and after it, with an entry put over another. -/
theorem cache_follows_history_overwritten :
    let entry (handler : Nat) : CacheEntry Nat := ⟨some handler, false, Params.empty⟩
    let calls : List (CacheCall Nat) := [.put "GET" "/a/1" (entry 0), .put "PUT" "/a/1" (entry 1),
      .wipe, .put "PUT" "/a/1" (entry 2), .get "PUT" "/a/1", .put "PUT" "/a/1" (entry 3)]
    ("PUT", "/a/1") ≠ ("GET", "/a/1") ∧ CacheCall.LastPut calls "PUT" "/a/1" (entry 3) ∧
      ((after calls).perform (.put "GET" "/a/1" (entry 4))).1.get? "PUT" "/a/1" =
        some (entry 3) := by
  intro entry calls
  have different : ("PUT", "/a/1") ≠ ("GET", "/a/1") := by decide
  have last : CacheCall.LastPut calls "PUT" "/a/1" (entry 3) :=
    ⟨calls.take 5, [], rfl, nofun, nofun⟩
  obtain ⟨hget, -, -, hput⟩ := cache_follows_history calls
  obtain ⟨found, hfound, latest⟩ := hget "PUT" "/a/1"
  have stored : (after calls).get? "PUT" "/a/1" = some (entry 3) :=
    (CacheReply.entry.inj hfound).trans ((latest _).mpr last)
  exact ⟨different, last, (hput "GET" "/a/1" (entry 4) "PUT" "/a/1" different).trans stored⟩

end ResultCache

end RadixRouter

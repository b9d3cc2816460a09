/-
# Keys in order

Maps are only ever built by insertion, which keeps their keys in increasing order.  In such a
map a key stands once, so setting the value of a key it has leaves the keys as they are.
-/

import Mathlib.Data.String.Basic
import RadixRouter.StringMap

namespace RadixRouter.StringMap

variable {β : Type}

/-- The keys of a map stand in increasing order. -/
def Ordered (map : StringMap β) : Prop := map.keys.Pairwise (· < ·)

theorem ordered_empty : (empty : StringMap β).Ordered := List.Pairwise.nil

theorem mem_keys_insertIn {key other : String} {value : β} {entries : List (String × β)} :
    other ∈ (insertIn key value entries).map (·.1) ↔
      other = key ∨ other ∈ entries.map (·.1) := by
  induction entries with
  | nil => simp [insertIn]
  | cons entry rest ih =>
      obtain ⟨k, v⟩ := entry
      rw [insertIn]
      split
      · next hk =>
          subst hk
          simp
      · split
        · simp
        · rw [List.map_cons, List.mem_cons, ih, List.map_cons, List.mem_cons, or_left_comm]

/-- Insertion keeps the order of the keys. -/
theorem Ordered.insert {map : StringMap β} (ordered : map.Ordered) (key : String) (value : β) :
    (map.insert key value).Ordered := by
  obtain ⟨entries⟩ := map
  change (entries.map (·.1)).Pairwise (· < ·) at ordered
  show ((insertIn key value entries).map (·.1)).Pairwise (· < ·)
  induction entries with
  | nil => exact List.pairwise_singleton _ _
  | cons entry rest ih =>
      obtain ⟨k, v⟩ := entry
      rw [List.map_cons, List.pairwise_cons] at ordered
      obtain ⟨hfirst, hrest⟩ := ordered
      rw [insertIn]
      split
      · next hk =>
          subst hk
          exact List.pairwise_cons.mpr ⟨hfirst, hrest⟩
      · next hk =>
          split
          · next hlt =>
              refine List.pairwise_cons.mpr ⟨?_, List.pairwise_cons.mpr ⟨hfirst, hrest⟩⟩
              intro other hother
              rcases List.mem_cons.mp hother with rfl | h
              · exact hlt
              · exact lt_trans hlt (hfirst other h)
          · next hlt =>
              refine List.pairwise_cons.mpr ⟨?_, ih hrest⟩
              intro other hother
              rcases mem_keys_insertIn.mp hother with rfl | h
              · exact lt_of_le_of_ne (not_lt.mp hlt) hk
              · exact hfirst other h

theorem mem_keys_iff {map : StringMap β} {key : String} :
    key ∈ map.keys ↔ (map.get? key).isSome := by
  obtain ⟨entries⟩ := map
  show key ∈ entries.map (·.1) ↔ (getIn key entries).isSome
  induction entries with
  | nil => simp [getIn]
  | cons entry rest ih =>
      obtain ⟨k, v⟩ := entry
      rw [List.map_cons, List.mem_cons, ih, getIn]
      by_cases hk : k = key
      · simp [hk]
      · simp [hk, Ne.symm hk]

/-- A new value for a key leaves the keys as they are. -/
theorem Ordered.keys_insert {map : StringMap β} (ordered : map.Ordered) {key : String}
    (inside : key ∈ map.keys) (value : β) : (map.insert key value).keys = map.keys := by
  obtain ⟨entries⟩ := map
  change (entries.map (·.1)).Pairwise (· < ·) at ordered
  change key ∈ entries.map (·.1) at inside
  show (insertIn key value entries).map (·.1) = entries.map (·.1)
  induction entries with
  | nil => cases inside
  | cons entry rest ih =>
      obtain ⟨k, v⟩ := entry
      rw [List.map_cons, List.pairwise_cons] at ordered
      rw [insertIn]
      rcases List.mem_cons.mp inside with rfl | h
      · rw [if_pos rfl]
        rfl
      · have hlt : k < key := ordered.1 key h
        rw [if_neg hlt.ne, if_neg (lt_asymm hlt), List.map_cons, List.map_cons, ih ordered.2 h]

/-- In front of its first key a map has no value for a smaller one. -/
theorem getIn_eq_none {key : String} {entries : List (String × β)}
    (smaller : ∀ other ∈ entries.map (·.1), key < other) : getIn key entries = none := by
  rw [← Option.not_isSome_iff_eq_none]
  intro hsome
  have inside : key ∈ (StringMap.mk entries).keys := mem_keys_iff.mpr hsome
  exact lt_irrefl key (smaller key inside)

/-- A new value stands in the place of the one that its key had, or in a place of its own. -/
theorem Ordered.exists_insert {map : StringMap β} (ordered : map.Ordered) (key : String)
    (value : β) :
    ∃ before after, map.toList = before ++ ((map.get? key).toList.map (key, ·) ++ after) ∧
      (map.insert key value).toList = before ++ (key, value) :: after := by
  obtain ⟨entries⟩ := map
  change (entries.map (·.1)).Pairwise (· < ·) at ordered
  show ∃ before after, entries = before ++ ((getIn key entries).toList.map (key, ·) ++ after) ∧
    insertIn key value entries = before ++ (key, value) :: after
  induction entries with
  | nil => exact ⟨[], [], rfl, rfl⟩
  | cons entry rest ih =>
      obtain ⟨k, v⟩ := entry
      rw [List.map_cons, List.pairwise_cons] at ordered
      obtain ⟨hfirst, hrest⟩ := ordered
      rw [insertIn, getIn]
      by_cases hk : k = key
      · subst hk
        rw [if_pos rfl, if_pos rfl]
        exact ⟨[], rest, rfl, rfl⟩
      · rw [if_neg hk, if_neg hk]
        by_cases hlt : key < k
        · rw [if_pos hlt, getIn_eq_none fun other hother => lt_trans hlt (hfirst other hother)]
          exact ⟨[], (k, v) :: rest, rfl, rfl⟩
        · obtain ⟨before, after, hentries, hinsert⟩ := ih hrest
          rw [if_neg hlt, hinsert]
          exact ⟨(k, v) :: before, after, by rw [List.cons_append, ← hentries], rfl⟩

/-- The entries of a map are the values of its keys. -/
theorem Ordered.mem_toList_iff {map : StringMap β} (ordered : map.Ordered) {key : String}
    {value : β} : (key, value) ∈ map.toList ↔ map.get? key = some value := by
  obtain ⟨entries⟩ := map
  change (entries.map (·.1)).Pairwise (· < ·) at ordered
  show (key, value) ∈ entries ↔ getIn key entries = some value
  induction entries with
  | nil => exact iff_of_false nofun nofun
  | cons entry rest ih =>
      obtain ⟨k, v⟩ := entry
      rw [List.map_cons, List.pairwise_cons] at ordered
      obtain ⟨hfirst, hrest⟩ := ordered
      rw [List.mem_cons, getIn, ih hrest, Prod.mk.injEq]
      by_cases hk : k = key
      · subst hk
        rw [if_pos rfl, getIn_eq_none hfirst, Option.some_inj]
        simp [eq_comm]
      · rw [if_neg hk]
        simp [Ne.symm hk]

end RadixRouter.StringMap

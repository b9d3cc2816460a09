/-
# Finite maps with text keys

A `StringMap` is a list of entries in increasing key order, so that listing its keys is
the same as sorting them.  Methods, cached paths and named parameters are kept this way.
-/

namespace RadixRouter

/-- Entries in increasing key order. -/
structure StringMap (β : Type) where
  toList : List (String × β)

namespace StringMap

variable {β γ : Type}

/-- The map without entries. -/
def empty : StringMap β := ⟨[]⟩

/-- The value of a key in a list of entries. -/
def getIn (key : String) : List (String × β) → Option β
  | [] => none
  | (k, v) :: rest => if k = key then some v else getIn key rest

/-- The value of a key, if it has one. -/
def get? (map : StringMap β) (key : String) : Option β := getIn key map.toList

/-- Whether a key has a value. -/
def contains (map : StringMap β) (key : String) : Bool := (map.get? key).isSome

/-- Entries with one value set; a new key goes in front of the first larger one. -/
def insertIn (key : String) (value : β) : List (String × β) → List (String × β)
  | [] => [(key, value)]
  | (k, v) :: rest =>
    if k = key then (key, value) :: rest
    else if key < k then (key, value) :: (k, v) :: rest
    else (k, v) :: insertIn key value rest

/-- The map with one value set, replacing the value the key had. -/
def insert (map : StringMap β) (key : String) (value : β) : StringMap β :=
  ⟨insertIn key value map.toList⟩

/-- The keys, in increasing order. -/
def keys (map : StringMap β) : List String := map.toList.map (·.1)

/-- The values, in the order of their keys. -/
def values (map : StringMap β) : List β := map.toList.map (·.2)

/-- The number of keys. -/
def size (map : StringMap β) : Nat := map.toList.length

theorem getIn_insertIn (key other : String) (value : β) (entries : List (String × β)) :
    getIn other (insertIn key value entries) =
      if key = other then some value else getIn other entries := by
  induction entries with
  | nil => simp [insertIn, getIn]
  | cons entry rest ih =>
    obtain ⟨k, v⟩ := entry
    by_cases hk : k = key
    · subst hk; by_cases ho : k = other <;> simp [insertIn, getIn, ho]
    · by_cases hlt : key < k
      · simp [insertIn, hk, hlt, getIn]
      · by_cases ho : k = other
        · subst ho
          simp [insertIn, hk, hlt, getIn, Ne.symm hk]
        · simp [insertIn, hk, hlt, getIn, ho, ih]

/-- Reading a key after a write gives what was written, and leaves all other keys alone. -/
theorem get?_insert (map : StringMap β) (key other : String) (value : β) :
    (map.insert key value).get? other = if key = other then some value else map.get? other :=
  getIn_insertIn key other value map.toList

end StringMap

end RadixRouter

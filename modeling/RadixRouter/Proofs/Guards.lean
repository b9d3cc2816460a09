/-
# Guarded access

Reading a list at a position, cutting it there, taking a number from another: each can go wrong
where lists and numbers have bounds.  The guarded operations here answer `none` exactly then, so
that a procedure written with them has an answer only if every access it makes is in bounds.

The laws say what an access gives in a list that is known by its parts; the part in front tells
the position.
-/

import Mathlib.Algebra.Group.Nat.Defs
import Mathlib.Data.List.TakeDrop

namespace RadixRouter.Guard

variable {β : Type} {xs ys zs : List β} {x y : β} {i n : Nat}

/-- A difference, which must not fall below zero. -/
def minus? (a b : Nat) : Option Nat := if b ≤ a then some (a - b) else none

/-- A sum, which must fit in 32 bits. -/
def plus? (a b : Nat) : Option Nat := if a + b < 2 ^ 32 then some (a + b) else none

theorem minus?_of_le {a b : Nat} (within : b ≤ a) : minus? a b = some (a - b) := if_pos within

@[simp]
theorem minus?_add_right (a b : Nat) : minus? (a + b) b = some a := by
  rw [minus?_of_le (Nat.le_add_left b a), Nat.add_sub_cancel]

theorem plus?_of_lt {a b : Nat} (fits : a + b < 2 ^ 32) : plus? a b = some (a + b) := if_pos fits

/-- The part of a list from a position on. -/
def dropFrom? (xs : List β) (i : Nat) : Option (List β) :=
  if i ≤ xs.length then some (xs.drop i) else none

/-- The part of a list up to a position. -/
def takeTo? (xs : List β) (i : Nat) : Option (List β) :=
  if i ≤ xs.length then some (xs.take i) else none

/-- The part of a list from one position up to another. -/
def between? (xs : List β) (i j : Nat) : Option (List β) :=
  if i ≤ j ∧ j ≤ xs.length then some ((xs.take j).drop i) else none

theorem dropFrom?_of_le (within : i ≤ xs.length) : dropFrom? xs i = some (xs.drop i) :=
  if_pos within

theorem takeTo?_of_le (within : i ≤ xs.length) : takeTo? xs i = some (xs.take i) :=
  if_pos within

theorem between?_of_le {j : Nat} (order : i ≤ j) (within : j ≤ xs.length) :
    between? xs i j = some ((xs.take j).drop i) := if_pos ⟨order, within⟩

theorem dropFrom?_append (here : xs.length = i) : dropFrom? (xs ++ ys) i = some ys := by
  subst here
  rw [dropFrom?_of_le (by simp), List.drop_left]

theorem takeTo?_append (here : xs.length = i) : takeTo? (xs ++ ys) i = some xs := by
  subst here
  rw [takeTo?_of_le (by simp), List.take_left]

theorem dropFrom?_past (here : xs.length + 1 = i) : dropFrom? (xs ++ x :: ys) i = some ys := by
  rw [List.append_cons]
  exact dropFrom?_append (by simpa using here)

theorem between?_append {j : Nat} (here : xs.length = i) (there : i + ys.length = j) :
    between? (xs ++ (ys ++ zs)) i j = some ys := by
  subst here there
  rw [between?_of_le (by simp) (by simp), ← List.append_assoc, ← List.length_append,
    List.take_left, List.drop_left]

@[simp]
theorem dropFrom?_zero (xs : List β) : dropFrom? xs 0 = some xs := by simp [dropFrom?]

@[simp]
theorem dropFrom?_cons_one (x : β) (xs : List β) : dropFrom? (x :: xs) 1 = some xs :=
  dropFrom?_append (rfl : [x].length = 1)

/-- Exchanges two members. -/
def swap? (xs : List β) (i j : Nat) : Option (List β) := do
  let x ← xs[i]?
  let y ← xs[j]?
  return (xs.set i y).set j x

/-- Takes a member out. -/
def remove? (xs : List β) (i : Nat) : Option (β × List β) := do
  return (← xs[i]?, xs.eraseIdx i)

/-- Puts a new member in front of a position. -/
def insertAt? (xs : List β) (i : Nat) (x : β) : Option (List β) :=
  if i ≤ xs.length then some (xs.insertIdx i x) else none

theorem getElem?_middle (here : xs.length = i) : (xs ++ x :: ys)[i]? = some x := by
  subst here
  simp

theorem set_middle (here : xs.length = i) : (xs ++ y :: ys).set i x = xs ++ x :: ys := by
  subst here
  simp

theorem swap?_middle (here : xs.length = i) :
    swap? (xs ++ x :: y :: ys) i (i + 1) = some (xs ++ y :: x :: ys) := by
  subst here
  simp [swap?]

theorem remove?_middle (here : xs.length = i) :
    remove? (xs ++ x :: ys) i = some (x, xs ++ ys) := by
  subst here
  simp [remove?, List.eraseIdx_append_of_length_le]

theorem insertAt?_middle (here : xs.length = i) :
    insertAt? (xs ++ ys) i x = some (xs ++ x :: ys) := by
  subst here
  rw [insertAt?, if_pos (by simp)]
  congr 1
  induction xs with
  | nil => simp
  | cons z xs ih => simpa using ih

/-- The first member with a property stands behind members without it. -/
theorem findIdx?_middle {p : β → Bool} (before : ∀ x ∈ xs, p x = false) (here : p x = true) :
    (xs ++ x :: ys).findIdx? p = some xs.length := by
  rw [List.findIdx?_append, List.findIdx?_eq_none_iff.mpr before, List.findIdx?_cons, if_pos here]
  simp

end RadixRouter.Guard

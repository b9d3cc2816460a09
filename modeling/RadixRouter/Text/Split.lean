/-
# Cutting a list at a separator

`splitOn sep xs` is the list of the parts of `xs` between separators; there is always one
part more than there are separators.
-/

namespace RadixRouter

/-- The parts of a list between the occurrences of a separator. -/
def splitOn {α : Type} [DecidableEq α] (sep : α) : List α → List (List α)
  | [] => [[]]
  | x :: xs =>
    if x = sep then [] :: splitOn sep xs
    else
      match splitOn sep xs with
      | [] => [[x]]
      | part :: parts => (x :: part) :: parts

/-- Cutting never gives the empty list of parts. -/
theorem splitOn_ne_nil {α : Type} [DecidableEq α] (sep : α) (xs : List α) :
    splitOn sep xs ≠ [] := by
  cases xs with
  | nil => simp [splitOn]
  | cons x xs =>
    unfold splitOn
    split
    · simp
    · split <;> simp

/-- A separator in a list ends one part and starts the next. -/
theorem splitOn_append {α : Type} [DecidableEq α] (sep : α) (xs ys : List α) :
    splitOn sep (xs ++ sep :: ys) = splitOn sep xs ++ splitOn sep ys := by
  induction xs with
  | nil => simp [splitOn]
  | cons x xs ih =>
    rw [List.cons_append, splitOn, splitOn, ih]
    by_cases hsep : x = sep
    · simp [hsep]
    · rw [if_neg hsep, if_neg hsep]
      cases hs : splitOn sep xs with
      | nil => exact absurd hs (splitOn_ne_nil sep xs)
      | cons part parts => rfl

/-- A list without separators is its only part. -/
theorem splitOn_of_not_mem {α : Type} [DecidableEq α] {sep : α} {xs : List α} (free : sep ∉ xs) :
    splitOn sep xs = [xs] := by
  induction xs with
  | nil => rfl
  | cons x xs ih =>
    rw [List.mem_cons, not_or] at free
    rw [splitOn, if_neg (Ne.symm free.1), ih free.2]

/-- No part holds a separator. -/
theorem not_mem_of_mem_splitOn {α : Type} [DecidableEq α] {sep : α} {xs part : List α}
    (inside : part ∈ splitOn sep xs) : sep ∉ part := by
  induction xs generalizing part with
  | nil => simp_all [splitOn]
  | cons x xs ih =>
    rw [splitOn] at inside
    split at inside
    · rcases List.mem_cons.mp inside with rfl | later
      · exact List.not_mem_nil
      · exact ih later
    · next hsep =>
      cases hs : splitOn sep xs with
      | nil => exact absurd hs (splitOn_ne_nil sep xs)
      | cons first parts =>
        rw [hs] at inside ih
        rcases List.mem_cons.mp inside with rfl | later
        · rw [List.mem_cons, not_or]
          exact ⟨Ne.symm hsep, ih List.mem_cons_self⟩
        · exact ih (List.mem_cons_of_mem first later)

end RadixRouter

/-
# Which paths fit which routes

`Fits` says, without any tree, that a path is a route with its wildcards filled in, and what
fills each of them.  A parameter takes bytes other than the slash, at least one; a catch-all
takes everything from its slash on.

Two routes that are not rivals share no path, so a path fits at most one of the routes that
stand together.
-/

import RadixRouter.Proofs.Rivalry
import RadixRouter.Proofs.PatternShape

namespace RadixRouter

open Pattern (Proper untilSlash_append slash_not_mem_untilSlash untilSlash_append_fromSlash)

/-- A path is a route with each wildcard replaced by the value that is listed for it. -/
inductive Fits : List Token → List UInt8 → List (List UInt8 × List UInt8) → Prop where
  | done : Fits [] [] []
  | byte {b : UInt8} {route : List Token} {path : List UInt8}
      {captures : List (List UInt8 × List UInt8)} (rest : Fits route path captures) :
      Fits (.byte b :: route) (b :: path) captures
  | param {name value : List UInt8} {route : List Token} {path : List UInt8}
      {captures : List (List UInt8 × List UInt8)} (nonempty : value ≠ [])
      (noSlash : slash ∉ value) (rest : Fits route path captures) :
      Fits (.param name :: route) (value ++ path) ((name, value) :: captures)
  | catchAll {name value : List UInt8} :
      Fits [.byte slash, .catchAll name] (slash :: value) [(name, slash :: value)]

variable {route : List Token} {path : List UInt8} {captures : List (List UInt8 × List UInt8)}

theorem fits_nil : Fits [] path captures ↔ path = [] ∧ captures = [] := by
  apply Iff.intro
  · rintro ⟨⟩
    exact ⟨rfl, rfl⟩
  · rintro ⟨rfl, rfl⟩
    exact .done

/-- A catch-all does not stand alone: its slash comes before it. -/
theorem not_fits_catchAll {name : List UInt8} : ¬ Fits (.catchAll name :: route) path captures := by
  rintro ⟨⟩

/-- Where a route goes on, the path does. -/
theorem Fits.path_ne_nil {token : Token} (fits : Fits (token :: route) path captures) :
    path ≠ [] := by
  cases fits with
  | byte rest => exact List.cons_ne_nil _ _
  | param nonempty noSlash rest => exact List.append_ne_nil_of_left_ne_nil nonempty _
  | catchAll => exact List.cons_ne_nil _ _

theorem Fits.head_path {b : UInt8} (fits : Fits (.byte b :: route) path captures) :
    path.head? = some b := by
  cases fits with
  | byte rest => rfl
  | catchAll => rfl

theorem Fits.literal_append (literal : List UInt8) (fits : Fits route path captures) :
    Fits (literal.map .byte ++ route) (literal ++ path) captures := by
  induction literal with
  | nil => exact fits
  | cons b literal ih => exact .byte ih

/-- Literal text stands for itself, unless its last slash belongs to a catch-all. -/
theorem fits_literal_append {literal : List UInt8}
    (follow : slash ∈ literal → ∀ name, route.head? ≠ some (.catchAll name)) :
    Fits (literal.map .byte ++ route) path captures ↔
      ∃ rest, path = literal ++ rest ∧ Fits route rest captures := by
  apply Iff.intro
  · intro fits
    induction literal generalizing path with
    | nil => exact ⟨path, rfl, fits⟩
    | cons b literal ih =>
        rw [List.map_cons, List.cons_append] at fits
        generalize htail : literal.map Token.byte ++ route = tail at fits
        cases fits with
        | byte rest =>
            rw [← htail] at rest
            obtain ⟨rest', rfl, hrest⟩ :=
              ih (fun inside => follow (List.mem_cons_of_mem _ inside)) rest
            exact ⟨rest', rfl, hrest⟩
        | @catchAll name value =>
            cases literal with
            | nil => exact absurd (congrArg List.head? htail) (follow (List.mem_cons_self ..) name)
            | cons c literal => cases htail
  · rintro ⟨rest, rfl, fits⟩
    exact fits.literal_append literal

/-- After a parameter comes the end of the path or a slash. -/
theorem Fits.after_param (fits : Fits route path captures)
    (slashed : ∀ token ∈ route.head?, token = .byte slash) :
    path = [] ∨ ∃ rest, path = slash :: rest := by
  cases fits with
  | done => exact Or.inl rfl
  | byte rest =>
      obtain rfl := Token.byte.inj (slashed _ rfl)
      exact Or.inr ⟨_, rfl⟩
  | param _ _ _ => exact Token.noConfusion (slashed _ rfl)
  | catchAll => exact Or.inr ⟨_, rfl⟩

/-- A parameter takes everything up to the next slash. -/
theorem fits_param {name : List UInt8} (slashed : ∀ token ∈ route.head?, token = .byte slash) :
    Fits (.param name :: route) path captures ↔
      untilSlash path ≠ [] ∧
        ∃ captures', captures = (name, untilSlash path) :: captures' ∧
          Fits route (fromSlash path) captures' := by
  apply Iff.intro
  · intro fits
    cases fits with
    | param nonempty noSlash rest =>
        obtain ⟨huntil, hfrom⟩ := untilSlash_append noSlash (rest.after_param slashed)
        rw [huntil, hfrom]
        exact ⟨nonempty, _, rfl, rest⟩
  · rintro ⟨nonempty, captures', rfl, rest⟩
    have fits : Fits (.param name :: route) (untilSlash path ++ fromSlash path)
        ((name, untilSlash path) :: captures') :=
      .param nonempty (slash_not_mem_untilSlash path) rest
    rwa [untilSlash_append_fromSlash] at fits

/-- A catch-all ends its route and takes the path from its slash on. -/
theorem fits_catchAll {name : List UInt8} :
    Fits (.byte slash :: .catchAll name :: route) path captures ↔
      route = [] ∧ path.head? = some slash ∧ captures = [(name, path)] := by
  apply Iff.intro
  · intro fits
    cases fits with
    | byte rest => exact absurd rest not_fits_catchAll
    | catchAll => exact ⟨rfl, rfl, rfl⟩
  · rintro ⟨rfl, hhead, rfl⟩
    obtain ⟨value, rfl⟩ := List.head?_eq_some_iff.mp hhead
    exact .catchAll

/-- Two routes with a path in common are rivals. -/
theorem Fits.rivalry_ne_none {old new : List Token} {path : List UInt8}
    {captures captures' : List (List UInt8 × List UInt8)} {slashed slashed' : Bool}
    (fits : Fits old path captures) (fits' : Fits new path captures')
    (proper : Proper slashed old) (proper' : Proper slashed' new) : rivalry old new ≠ none := by
  induction fits generalizing new captures' slashed slashed' with
  | done =>
      obtain rfl : new = [] := by
        cases new with
        | nil => rfl
        | cons token new => exact absurd rfl fits'.path_ne_nil
      exact Option.some_ne_none _
  | @byte b old path captures rest ih =>
      generalize hpath : b :: path = path' at fits'
      cases fits' with
      | done => cases hpath
      | byte rest' =>
          cases hpath
          rw [rivalry_cons_self]
          exact ih rest' proper.2 proper'.2
      | param nonempty noSlash rest' => exact Option.some_ne_none _
      | @catchAll name value =>
          cases hpath
          rw [rivalry_cons_self]
          cases old with
          | nil => exact Option.some_ne_none _
          | cons token old =>
              cases token with
              | byte c => exact Option.some_ne_none _
              | param name' => exact Option.some_ne_none _
              | catchAll name' => exact absurd rest not_fits_catchAll
  | @param name value old path captures nonempty noSlash rest ih =>
      cases new with
      | nil =>
          obtain ⟨hnil, -⟩ := fits_nil.mp fits'
          exact absurd (List.append_eq_nil_iff.mp hnil).1 nonempty
      | cons token new =>
          by_cases htoken : .param name = token
          · subst htoken
            rw [rivalry_cons_self]
            have hrest := untilSlash_append noSlash (rest.after_param proper.2.1)
            obtain ⟨-, captures'', -, rest'⟩ := (fits_param proper'.2.1).mp fits'
            rw [hrest.2] at rest'
            exact ih rest' proper.2.2 proper'.2.2
          · rw [rivalry_of_ne htoken]
            exact Option.some_ne_none _
  | @catchAll name value =>
      generalize hpath : slash :: value = path' at fits'
      cases fits' with
      | done => cases hpath
      | @byte b new path' captures' rest' =>
          cases hpath
          rw [rivalry_cons_self]
          cases new with
          | nil => exact Option.some_ne_none _
          | cons token new =>
              have htoken : .catchAll name ≠ token := by
                rintro rfl
                exact not_fits_catchAll rest'
              rw [rivalry_of_ne htoken]
              exact Option.some_ne_none _
      | param nonempty noSlash rest' => exact Option.some_ne_none _
      | @catchAll name' value' =>
          rw [rivalry_cons_self]
          by_cases htoken : (.catchAll name : Token) = .catchAll name'
          · rw [rivalry, if_pos htoken]
            exact Option.some_ne_none _
          · rw [rivalry_of_ne htoken]
            exact Option.some_ne_none _

end RadixRouter

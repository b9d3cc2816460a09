/-
# What fixing a final slash changes

The corrector that may touch a final slash walks the tree as the other one does, with more ways to
end.  So it answers wherever the other does, and with another answer only if it has taken one of
these ends, which makes the answer one byte longer or shorter.
-/

import RadixRouter.Proofs.CaseCompleteness

namespace RadixRouter

open Pattern (fromSlash_eq untilSlash_append_fromSlash)
open SimpleCase (lower upper)
open Utf8 (encodeChar)

variable {α : Type}

/-- A spelling has one byte more than the path, or one less. -/
def Touches (path spelling : List UInt8) : Prop :=
  spelling.length = path.length + 1 ∨ spelling.length + 1 = path.length

/-- An answer to a path with more ends than the plain one: there is one wherever there is a plain
one, and it is that one or touches a slash. -/
structure Extends (path : List UInt8) (plain fixed : Option (List UInt8)) : Prop where
  kept : plain.isSome = true → fixed.isSome = true
  touched : ∀ spelling, fixed = some spelling → plain = some spelling ∨ Touches path spelling

section Extends

variable {path : List UInt8} {plain fixed plain' fixed' : Option (List UInt8)}

theorem Extends.refl (path : List UInt8) (plain : Option (List UInt8)) :
    Extends path plain plain := ⟨id, fun _ h => Or.inl h⟩

/-- Where the plain walk ends without an answer, every end touches a slash. -/
theorem extends_none (touched : ∀ spelling, fixed = some spelling → Touches path spelling) :
    Extends path none fixed := ⟨nofun, fun spelling h => Or.inr (touched spelling h)⟩

/-- A branch that is tried to its end before another one. -/
theorem Extends.or (first : Extends path plain fixed) (second : Extends path plain' fixed') :
    Extends path (plain.or plain') (fixed.or fixed') := by
  cases hfixed : fixed with
  | some spelling =>
      refine ⟨fun _ => rfl, fun spelling' h => ?_⟩
      obtain rfl := Option.some.inj h
      rcases first.touched spelling hfixed with hplain | h
      · exact Or.inl (by rw [hplain, Option.some_or])
      · exact Or.inr h
  | none =>
      have hplain : plain = none := by
        rw [← Option.not_isSome_iff_eq_none]
        intro h
        have := first.kept h
        rw [hfixed] at this
        cases this
      rw [hplain, Option.none_or, Option.none_or]
      exact second

/-- Text of the same length in front of the path and of the answers. -/
theorem Extends.append {front rest : List UInt8} (extending : Extends rest plain fixed)
    (length : path.length = front.length + rest.length) :
    Extends path (plain.map (front ++ ·)) (fixed.map (front ++ ·)) := by
  refine ⟨?_, ?_⟩
  · rw [Option.isSome_map, Option.isSome_map]
    exact extending.kept
  · intro spelling h
    obtain ⟨tail, htail, rfl⟩ := Option.map_eq_some_iff.mp h
    rcases extending.touched tail htail with hplain | htouched
    · exact Or.inl (by rw [hplain]; rfl)
    · refine Or.inr ?_
      unfold Touches at htouched ⊢
      rw [List.length_append]
      omega

end Extends

/-- The end where the last slash of a path is given up. -/
def unslashed (fix : Bool) (rest : List UInt8) (ends : Bool) : Option (List UInt8) :=
  if fix && rest = [slash] && ends then some [] else none

theorem extends_unslashed (rest : List UInt8) (ends : Bool) :
    Extends rest (unslashed false rest ends) (unslashed true rest ends) := by
  refine extends_none fun spelling h => ?_
  unfold unslashed at h
  split at h
  · next hall =>
      simp only [Bool.true_and, Bool.and_eq_true, decide_eq_true_eq] at hall
      rw [hall.1, ← Option.some.inj h]
      exact Or.inr rfl
  · cases h

/-- Below a label the walk goes on with what is carried, or with the forms of the next character. -/
theorem respell_edges_eq (fix : Bool) {es : List (Edge α)} {path carry : List UInt8} {n : Nat}
    {ends : Bool} (goesOn : path.drop n ≠ []) :
    (Below.edges es).respell fix path n carry ends =
      if carriedByte (carry.drop n) ≠ 0 then
        if es.any (·.1 = carriedByte (carry.drop n)) then
          respellEdges fix es (path.drop n) (carry.drop n) ends
        else unslashed fix (path.drop n) ends
      else
        match characterAt path n with
        | none => unslashed fix (path.drop n) ends
        | some (c, back) =>
          (respellEdges fix es (path.drop n) ((encodeChar (lower c)).drop back) ends).or
            (if upper c ≠ lower c ∧ es.any (·.1 = carriedByte ((encodeChar (upper c)).drop back))
              then respellEdges fix es (path.drop n) ((encodeChar (upper c)).drop back) ends
              else unslashed fix (path.drop n) ends) := by
  rw [Below.respell]
  dsimp only
  rw [if_neg (by rwa [List.isEmpty_iff])]
  by_cases hcarry : carriedByte (carry.drop n) ≠ 0
  · rw [if_pos hcarry, if_pos hcarry]
    rfl
  · rw [if_neg hcarry, if_neg hcarry]
    cases characterAt path n with
    | none => rfl
    | some found =>
        dsimp only
        cases respellEdges fix es (path.drop n) ((encodeChar (lower found.1)).drop found.2) ends <;>
          rfl

/-- Below a parameter the walk takes a value and goes on after it. -/
theorem respell_param_eq (fix : Bool) {name : List UInt8} {hits : CounterId} {priority : Nat}
    {existing : Option α} {next : Option (Node α)} {path carry : List UInt8} {n : Nat} {ends : Bool}
    (goesOn : path.drop n ≠ []) :
    (Below.param name hits priority existing next).respell fix path n carry ends =
      if untilSlash (path.drop n) = [] then none
      else
        match fromSlash (path.drop n) with
        | [] =>
          if existing.isSome then some (untilSlash (path.drop n))
          else if fix && next.any (fun node => node.label = [slash] && node.endsSlash) then
            some (untilSlash (path.drop n) ++ [slash])
          else none
        | b :: after =>
          match next with
          | some _ =>
            (respellNext fix next (b :: after) existing.isSome).map (untilSlash (path.drop n) ++ ·)
          | none => if fix && after.isEmpty then some (untilSlash (path.drop n)) else none := by
  rw [Below.respell]
  exact if_neg (by rwa [List.isEmpty_iff])

/-- With slashes to fix, a node extends what it answers without. -/
def Node.FixesSlashes (node : Node α) : Prop :=
  ∀ (path carry : List UInt8) (ends : Bool),
    Extends path (node.respell false path carry ends) (node.respell true path carry ends)

/-- The same of what follows a label of `n` bytes. -/
def Below.FixesSlashes (below : Below α) : Prop :=
  ∀ (path : List UInt8) (n : Nat) (carry : List UInt8) (ends : Bool),
    Extends (path.drop n) (below.respell false path n carry ends)
      (below.respell true path n carry ends)

theorem fixesSlashes_static {below : Below α} (ih : below.FixesSlashes) (label : List UInt8)
    (priority : Nat) (existing : Option α) :
    (Node.static label priority existing below).FixesSlashes := by
  intro path carry ends
  rw [Node.respell, Node.respell]
  by_cases matched : matchesLoosely label path = true
  · rw [if_pos matched, if_pos matched]
    refine (ih path label.length carry existing.isSome).append ?_
    rw [matchesLoosely, Bool.and_eq_true, decide_eq_true_eq] at matched
    rw [List.length_drop]
    omega
  · rw [if_neg matched, if_neg matched]
    refine extends_none fun spelling h => ?_
    split at h
    · next hpath =>
        split at h
        · rw [Bool.and_eq_true, decide_eq_true_eq] at hpath
          rw [hpath.2, ← Option.some.inj h]
          exact Or.inr rfl
        · cases h
    · split at h
      · next hall =>
          simp only [matchesButSlash, Bool.and_eq_true, decide_eq_true_eq] at hall
          rw [← Option.some.inj h]
          exact Or.inl hall.2.1.1.2
      · cases h

theorem fixesSlashes_catchAll (name : List UInt8) (hits : CounterId) (priority : Nat)
    (existing : α) : (Node.catchAll name hits priority existing).FixesSlashes := by
  intro path carry ends
  rw [Node.respell, Node.respell]
  exact Extends.refl _ _

theorem extends_respellEdges {es : List (Edge α)} (ih : ∀ edge ∈ es, edge.2.FixesSlashes)
    (path carry : List UInt8) (ends : Bool) :
    Extends path (respellEdges false es path carry ends) (respellEdges true es path carry ends) := by
  induction es with
  | nil => exact Extends.refl _ _
  | cons edge es ih' =>
      obtain ⟨hfirst, hrest⟩ := List.forall_mem_cons.mp ih
      obtain ⟨index, node⟩ := edge
      rw [respellEdges, respellEdges]
      split
      · exact hfirst path carry ends
      · exact ih' hrest

/-- At the end of the path a slash may be added. -/
theorem extends_end {below : Below α} {path carry : List UInt8} {n : Nat} {ends : Bool}
    (here : path.drop n = []) :
    Extends (path.drop n) (below.respell false path n carry ends)
      (below.respell true path n carry ends) := by
  cases ends with
  | true =>
      rw [respell_end here, respell_end here]
      exact Extends.refl _ _
  | false =>
      have nothing : below.respell false path n carry false = none := by
        cases below <;> simp [Below.respell, here]
      rw [nothing, here]
      refine extends_none fun spelling h => ?_
      rcases respell_end_eq_some here h with ⟨hends, -⟩ | ⟨-, -, rfl⟩
      · cases hends
      · exact Or.inl rfl

theorem fixesSlashes_edges {es : List (Edge α)} (ih : ∀ edge ∈ es, edge.2.FixesSlashes) :
    (Below.edges es).FixesSlashes := by
  intro path n carry ends
  by_cases goesOn : path.drop n = []
  · exact extends_end goesOn
  · have along := extends_respellEdges ih (path.drop n)
    have given := extends_unslashed (path.drop n) ends
    rw [respell_edges_eq false goesOn, respell_edges_eq true goesOn]
    split
    · split
      · exact along _ ends
      · exact given
    · cases characterAt path n with
      | none => exact given
      | some found =>
          obtain ⟨c, back⟩ := found
          refine (along _ ends).or ?_
          split
          · exact along _ ends
          · exact given

theorem fixesSlashes_param {next : Option (Node α)}
    (ih : ∀ node, next = some node → node.FixesSlashes) (name : List UInt8) (hits : CounterId)
    (priority : Nat) (existing : Option α) :
    (Below.param name hits priority existing next).FixesSlashes := by
  intro path n carry ends
  by_cases goesOn : path.drop n = []
  · exact extends_end goesOn
  · have whole := congrArg List.length (untilSlash_append_fromSlash (path.drop n))
    rw [List.length_append] at whole
    rw [respell_param_eq false goesOn, respell_param_eq true goesOn]
    by_cases value : untilSlash (path.drop n) = []
    · rw [if_pos value, if_pos value]
      exact Extends.refl _ _
    · rw [if_neg value, if_neg value]
      rcases fromSlash_eq (path.drop n) with hfrom | ⟨after, hfrom⟩
      · rw [hfrom, List.length_nil] at whole
        rw [hfrom]
        dsimp only
        cases existing with
        | some existing => exact Extends.refl _ _
        | none =>
            refine extends_none fun spelling h => ?_
            rw [Option.isSome_none, if_neg Bool.false_ne_true] at h
            split at h
            · rw [← Option.some.inj h]
              refine Or.inl ?_
              rw [List.length_append, List.length_singleton]
              omega
            · cases h
      · rw [hfrom] at whole
        rw [hfrom]
        cases next with
        | some node =>
            exact (ih node rfl (slash :: after) [] existing.isSome).append whole.symm
        | none =>
            refine extends_none fun spelling h => ?_
            dsimp only at h
            split at h
            · next last =>
                rw [Bool.true_and, List.isEmpty_iff] at last
                rw [← Option.some.inj h]
                rw [last, List.length_singleton] at whole
                exact Or.inr whole
            · cases h

/-- Fixing slashes extends every answer. -/
theorem fixes_slashes :
    (∀ node : Node α, node.FixesSlashes) ∧ ∀ below : Below α, below.FixesSlashes := by
  refine tree_induction ?static ?catchAll ?edges ?param
  case static =>
    intro label priority existing below ih
    exact fixesSlashes_static ih label priority existing
  case catchAll => exact fixesSlashes_catchAll
  case edges =>
    intro es ih
    exact fixesSlashes_edges ih
  case param =>
    intro name hits priority existing next ih
    exact fixesSlashes_param ih name hits priority existing

end RadixRouter

/-
# Patterns in conflict

Which patterns cannot stand together, said of two patterns at a time and without a tree.  Here a
final catch-all and the slash before it are one token.  Two patterns are in conflict when they
part where at least one goes on with a wildcard; a catch-all and a byte other than the slash
part in peace.

Conflict is symmetric, although the refusals that `rivalry` gives for it are not.
-/

import RadixRouter.Proofs.Registration

namespace RadixRouter

/-- Whether two different tokens cannot follow the same text. -/
def Token.collides : Token → Token → Bool
  | .byte _, .byte _ => false
  | .byte b, .catchAll _ => b = slash
  | .catchAll _, .byte b => b = slash
  | _, _ => true

namespace Pattern

/-- The tokens of a route, with the slash before a catch-all counted to the catch-all. -/
def fused : List Token → List Token
  | [] => []
  | .byte _ :: .catchAll name :: rest => .catchAll name :: fused rest
  | token :: rest => token :: fused rest

/-- What two lists of tokens leave after the longest beginning they share. -/
def remainders : List Token → List Token → List Token × List Token
  | s :: first, t :: second =>
    if s = t then remainders first second else (s :: first, t :: second)
  | first, second => (first, second)

/-- Whether two lists of tokens part, both going on, where their next tokens collide. -/
def partsBadly (first second : List Token) : Bool :=
  match remainders first second with
  | (s :: _, t :: _) => s.collides t
  | _ => false

/-- Two patterns are in conflict. -/
def Conflict (first second : String) : Prop :=
  partsBadly (fused (route first)) (fused (route second)) = true

instance (first second : String) : Decidable (Conflict first second) :=
  inferInstanceAs (Decidable (_ = true))

theorem partsBadly_nil_left (second : List Token) : partsBadly [] second = false := by
  unfold partsBadly remainders
  rfl

theorem partsBadly_nil_right (first : List Token) : partsBadly first [] = false := by
  cases first <;> rfl

theorem partsBadly_cons (s t : Token) (first second : List Token) :
    partsBadly (s :: first) (t :: second) =
      if s = t then partsBadly first second else s.collides t := by
  unfold partsBadly
  rw [remainders]
  by_cases h : s = t
  · rw [if_pos h, if_pos h]
  · rw [if_neg h, if_neg h]

theorem collides_comm (s t : Token) : s.collides t = t.collides s := by
  cases s <;> cases t <;> rfl

theorem partsBadly_comm (first second : List Token) :
    partsBadly first second = partsBadly second first := by
  induction first generalizing second with
  | nil => rw [partsBadly_nil_left, partsBadly_nil_right]
  | cons s first ih =>
      cases second with
      | nil => rw [partsBadly_nil_left, partsBadly_nil_right]
      | cons t second =>
          rw [partsBadly_cons, partsBadly_cons]
          by_cases h : s = t
          · rw [if_pos h, if_pos h.symm, ih]
          · rw [if_neg h, if_neg (Ne.symm h), collides_comm]

theorem rivalry_eq_duplicate_iff {old new : List Token} :
    rivalry old new = some .duplicate ↔ old = new := by
  induction old generalizing new with
  | nil =>
      cases new with
      | nil => simp [rivalry]
      | cons token new => cases token <;> simp [rivalry]
  | cons token old ih =>
      cases new with
      | nil => cases token <;> simp [rivalry]
      | cons token' new =>
          by_cases h : token = token'
          · subst h
            rw [rivalry_cons_self, ih, List.cons.injEq]
            exact (and_iff_right rfl).symm
          · rw [rivalry, if_neg h, List.cons.injEq]
            cases token <;> cases token' <;> simp [parting, h]

/-- A byte keeps its place unless it is the slash of a catch-all. -/
theorem fused_byte {b : UInt8} {rest : List Token} {slashed : Bool}
    (proper : Proper slashed (.byte b :: rest)) :
    ((∀ name, rest.head? ≠ some (.catchAll name)) ∧
        fused (.byte b :: rest) = .byte b :: fused rest) ∨
      (b = slash ∧ ∃ name, rest = [.catchAll name] ∧
        fused (.byte b :: rest) = [.catchAll name]) := by
  cases rest with
  | nil => exact Or.inl ⟨nofun, rfl⟩
  | cons token rest =>
      cases token with
      | byte c => exact Or.inl ⟨head_byte_ne_catchAll c rest, rfl⟩
      | param name => exact Or.inl ⟨head_param_ne_catchAll name rest, rfl⟩
      | catchAll name =>
          obtain ⟨-, hslash, -, rfl⟩ := proper
          exact Or.inr ⟨of_decide_eq_true hslash, name, rfl, rfl⟩

theorem fused_param (name : List UInt8) (rest : List Token) :
    fused (.param name :: rest) = .param name :: fused rest := rfl

/-- Nothing but the same catch-all stands beside a catch-all after the same slash. -/
theorem rivalry_catchAll_ne_none {name : List UInt8} {new : List Token}
    (literal : ∀ name, new.head? ≠ some (.catchAll name)) :
    rivalry [.catchAll name] new ≠ none := by
  cases new with
  | nil => exact Option.some_ne_none _
  | cons token new =>
      have hne : .catchAll name ≠ token := by
        rintro rfl
        exact literal name rfl
      rw [rivalry_of_ne hne]
      cases token <;> exact Option.some_ne_none _

theorem rivalry_new_catchAll_ne_none {name : List UInt8} {old : List Token}
    (literal : ∀ name, old.head? ≠ some (.catchAll name)) :
    rivalry old [.catchAll name] ≠ none := by
  cases old with
  | nil => exact Option.some_ne_none _
  | cons token old =>
      have hne : token ≠ .catchAll name := by
        rintro rfl
        exact literal name rfl
      rw [rivalry_of_ne hne]
      cases token <;> exact Option.some_ne_none _

/-- A parameter and a byte part badly, also where the byte is the slash of a catch-all. -/
theorem partsBadly_param_byte {name : List UInt8} {b : UInt8} {old new : List Token}
    {slashed : Bool} (proper : Proper slashed (.byte b :: new)) :
    partsBadly (.param name :: old) (fused (.byte b :: new)) = true := by
  rcases fused_byte proper with ⟨-, h⟩ | ⟨-, name', -, h⟩ <;>
    simp [h, partsBadly_cons, Token.collides]

/-- A catch-all against a route that starts with a byte. -/
theorem rivalry_catchAll_left {name : List UInt8} {c : UInt8} {new : List Token} {slashed : Bool}
    (proper : Proper slashed (.byte c :: new)) :
    rivalry [.byte slash, .catchAll name] (.byte c :: new) = none ↔
      [.byte slash, .catchAll name] ≠ (.byte c :: new : List Token) ∧
        partsBadly [.catchAll name] (fused (.byte c :: new)) = false := by
  rcases fused_byte proper with ⟨hliteral, hfused⟩ | ⟨rfl, name', rfl, hfused⟩
  · rw [hfused, partsBadly_cons, if_neg nofun]
    by_cases hc : slash = c
    · subst hc
      rw [rivalry_cons_self]
      simp [rivalry_catchAll_ne_none hliteral, Token.collides]
    · have hne : (.byte slash : Token) ≠ .byte c := by simpa using hc
      rw [rivalry_of_ne hne]
      simp [parting, Token.collides, hc, Ne.symm hc]
  · rw [hfused, partsBadly_cons, rivalry_cons_self, rivalry]
    by_cases hname : name = name'
    · simp [hname, rivalry]
    · simp [hname, parting, Token.collides]

/-- A route that starts with a byte against a new catch-all. -/
theorem rivalry_catchAll_right {name : List UInt8} {b : UInt8} {old : List Token}
    (literal : ∀ name, old.head? ≠ some (.catchAll name)) :
    rivalry (.byte b :: old) [.byte slash, .catchAll name] = none ↔
      (.byte b :: old : List Token) ≠ [.byte slash, .catchAll name] ∧
        partsBadly (.byte b :: fused old) [.catchAll name] = false := by
  rw [partsBadly_cons, if_neg nofun]
  by_cases hb : b = slash
  · subst hb
    rw [rivalry_cons_self]
    simp [rivalry_new_catchAll_ne_none literal, Token.collides]
  · have hne : (.byte b : Token) ≠ .byte slash := by simpa using hb
    rw [rivalry_of_ne hne]
    simp [parting, Token.collides, hb]

/-- After a parameter no catch-all follows at once. -/
theorem head_ne_catchAll_of_slashed {rest : List Token}
    (slashed : ∀ token ∈ rest.head?, token = .byte slash) (name : List UInt8) :
    rest.head? ≠ some (.catchAll name) := by
  intro h
  exact Token.noConfusion (slashed _ h)

/-- Two routes are not rivals exactly when they differ and do not part badly. -/
theorem rivalry_eq_none_iff {old new : List Token} {slashed slashed' : Bool}
    (proper : Proper slashed old) (proper' : Proper slashed' new)
    (literal : ∀ name, old.head? ≠ some (.catchAll name))
    (literal' : ∀ name, new.head? ≠ some (.catchAll name)) :
    rivalry old new = none ↔ old ≠ new ∧ partsBadly (fused old) (fused new) = false := by
  induction old generalizing new slashed slashed' with
  | nil =>
      cases new with
      | nil => simp [rivalry]
      | cons token new =>
          have h : rivalry [] (token :: new) = none := by
            cases token with
            | byte b => rfl
            | param name => rfl
            | catchAll name => exact absurd rfl (literal' name)
          rw [h, fused, partsBadly_nil_left]
          simp
  | cons token old ih =>
      cases new with
      | nil =>
          have h : rivalry (token :: old) [] = none := by
            cases token with
            | byte b => rfl
            | param name => rfl
            | catchAll name => exact absurd rfl (literal name)
          have hnil : fused [] = [] := rfl
          rw [h, hnil, partsBadly_nil_right]
          simp
      | cons token' new =>
          cases token with
          | catchAll name => exact absurd rfl (literal name)
          | param name =>
              rw [fused_param]
              cases token' with
              | catchAll name' => exact absurd rfl (literal' name')
              | byte c =>
                  have hne : (.param name : Token) ≠ .byte c := Token.noConfusion
                  rw [rivalry_of_ne hne, partsBadly_param_byte proper']
                  simp [parting]
              | param name' =>
                  rw [fused_param, partsBadly_cons]
                  by_cases h : name = name'
                  · subst h
                    rw [rivalry_cons_self, if_pos rfl,
                      ih proper.2.2 proper'.2.2 (head_ne_catchAll_of_slashed proper.2.1)
                        (head_ne_catchAll_of_slashed proper'.2.1)]
                    simp
                  · have hne : (.param name : Token) ≠ .param name' := by simpa using h
                    rw [rivalry_of_ne hne, if_neg hne]
                    simp [parting, Token.collides]
          | byte b =>
              cases token' with
              | catchAll name' => exact absurd rfl (literal' name')
              | param name' =>
                  have hne : (.byte b : Token) ≠ .param name' := Token.noConfusion
                  rw [rivalry_of_ne hne, fused_param, partsBadly_comm,
                    partsBadly_param_byte proper]
                  simp [parting]
              | byte c =>
                  rcases fused_byte proper with ⟨hliteral, hfused⟩ | ⟨rfl, name, rfl, hfused⟩
                  · rcases fused_byte proper' with
                      ⟨hliteral', hfused'⟩ | ⟨rfl, name', rfl, hfused'⟩
                    · rw [hfused, hfused', partsBadly_cons]
                      by_cases h : b = c
                      · subst h
                        rw [rivalry_cons_self, if_pos rfl,
                          ih proper.2 proper'.2 hliteral hliteral']
                        simp
                      · have hne : (.byte b : Token) ≠ .byte c := by simpa using h
                        rw [rivalry_of_ne hne, if_neg hne]
                        simp [parting, Token.collides, h]
                    · rw [hfused, hfused']
                      exact rivalry_catchAll_right hliteral
                  · rw [hfused]
                    exact rivalry_catchAll_left proper'

variable {first second : String}

theorem conflict_comm : Conflict first second ↔ Conflict second first := by
  unfold Conflict
  rw [partsBadly_comm]

/-- Two patterns that follow the grammar are not rivals exactly when they are two, and not in
conflict. -/
theorem Faultless.rivalry_eq_none_iff (faultless : Faultless first)
    (faultless' : Faultless second) :
    rivalry (route first) (route second) = none ↔ first ≠ second ∧ ¬ Conflict first second := by
  obtain ⟨rest, hroute, hproper⟩ := faultless.route_eq
  obtain ⟨rest', hroute', hproper'⟩ := faultless'.route_eq
  have literal : ∀ name, (route first).head? ≠ some (.catchAll name) := by
    rw [hroute]
    exact head_byte_ne_catchAll slash rest
  have literal' : ∀ name, (route second).head? ≠ some (.catchAll name) := by
    rw [hroute']
    exact head_byte_ne_catchAll slash rest'
  rw [Pattern.rivalry_eq_none_iff faultless.proper faultless'.proper literal literal',
    Conflict, Bool.not_eq_true, route_injective.ne_iff]

end Pattern

end RadixRouter

/-
# What a request resolves to

A request resolves to the route that a walk finds for it.  Where a walk finds none, the request is
redirected, or answered by what other methods have to say: `unmatched` is that answer, given the
`Allow` value of the path.  Whether a walk finds a route is a matter of the accepted patterns, and
`Matching` says it without any tree.
-/

import RadixRouter.Proofs.Acceptance
import RadixRouter.Proofs.Exactness

namespace RadixRouter

open Pattern (Matches matches_iff_fits)

variable {α γ : Type}

/-- A path matches an accepted pattern of a method. -/
def Matching (accepted : List (Registration α)) (method path : String) : Prop :=
  ∃ pattern ∈ patternsOf method accepted, ∃ params, Matches pattern path params

/-- What matches an accepted pattern still does when more are accepted. -/
theorem Matching.append {accepted : List (Registration α)} {method path : String}
    (matching : Matching accepted method path) (more : List (Registration α)) :
    Matching (accepted ++ more) method path := by
  obtain ⟨pattern, inside, hmatches⟩ := matching
  obtain ⟨registration, hlogged, hmethod, hpattern⟩ := mem_patternsOf.mp inside
  exact ⟨pattern, mem_patternsOf.mpr
    ⟨registration, List.mem_append_left _ hlogged, hmethod, hpattern⟩, hmatches⟩

/-- A walk finds a route exactly if the method matches. -/
theorem Registers.walk_isSome_iff {trees : StringMap (Node α)} {log : List (Registration α)}
    (registers : Registers trees log) {method path : String} :
    (walk trees method path).result?.isSome = true ↔ Matching log method path := by
  rw [Option.isSome_iff_exists]
  constructor
  · rintro ⟨⟨handler, captures⟩, hresult⟩
    obtain ⟨registration, hlogged, hmethod, -, fits⟩ := registers.walk_result.mp hresult
    exact ⟨registration.pattern, mem_patternsOf.mpr ⟨registration, hlogged, hmethod, rfl⟩, _,
      matches_iff_fits.mpr ⟨captures, fits, rfl⟩⟩
  · rintro ⟨pattern, inside, params, hmatches⟩
    obtain ⟨registration, hlogged, hmethod, rfl⟩ := mem_patternsOf.mp inside
    obtain ⟨captures, fits, -⟩ := matches_iff_fits.mp hmatches
    exact ⟨(registration.handler, captures),
      registers.walk_result.mpr ⟨registration, hlogged, hmethod, rfl, fits⟩⟩

namespace RouteMatch

/-- The redirect that a request resolves to, if it resolves to one. -/
def redirect? : RouteMatch α → Option Redirect
  | .redirect target => some target
  | _ => none

theorem redirect?_eq_some_iff {answer : RouteMatch α} {target : Redirect} :
    answer.redirect? = some target ↔ answer = .redirect target := by
  cases answer <;> simp [redirect?]

/-- The handler and the parameters that a request resolves to, if a route takes it. -/
def found? : RouteMatch α → Option (α × Params)
  | .found handler _ params => some (handler, params)
  | _ => none

/-- Only a route that takes a request writes parameters. -/
theorem params_eq (answer : RouteMatch α) :
    answer.params = (answer.found?.map (·.2)).getD Params.empty := by
  cases answer <;> rfl

end RouteMatch

/-- The answer to a request that no route takes and that is not redirected, given the `Allow`
value of its path. -/
def unmatched (config : RouterConfig) (method allow : String) : RouteMatch α :=
  if method = "OPTIONS" ∧ config.handleOptions = true ∧ allow ≠ "" then .options allow
  else if method ≠ "OPTIONS" ∧ config.handleMethodNotAllowed = true ∧ allow ≠ "" then
    .methodNotAllowed allow
  else .notFound

theorem found?_unmatched (config : RouterConfig) (method allow : String) :
    (unmatched config method allow : RouteMatch α).found? = none := by
  unfold unmatched
  split
  · rfl
  · split <;> rfl

theorem redirect?_unmatched (config : RouterConfig) (method allow : String) :
    (unmatched config method allow : RouteMatch α).redirect? = none := by
  unfold unmatched
  split
  · rfl
  · split <;> rfl

namespace Router

variable {router : Router α γ} {log : List (Registration α)} {method path : String}

/-- Where no route of its method takes a request, the `Allow` value decides. -/
theorem fallback_answer (router : Router α γ) (method path : String) :
    (router.fallback method path).answer =
      unmatched router.config method (router.allowed path method).answer := by
  unfold fallback unmatched
  generalize router.allowed path method = listed
  by_cases hmethod : method = "OPTIONS" <;> by_cases hempty : listed.answer = "" <;>
    cases router.config.handleOptions <;> cases router.config.handleMethodNotAllowed <;>
      simp [hmethod, hempty]

/-- A look-up finds what a walk finds. -/
theorem Keeps.handler_of_walk (keeps : router.Keeps log)
    {found : α × List (List UInt8 × List UInt8)}
    (walked : (walk router.trees method path).result? = some found) :
    (router.lookup method path).answer.handler = some found.1 := by
  rw [(lookup_fields keeps.coherent method path).1]
  cases hwalk : walk router.trees method path with
  | missed hint =>
      rw [hwalk] at walked
      cases walked
  | found handler captures deepest =>
      rw [hwalk] at walked
      cases walked
      rfl

/-- A look-up finds a handler exactly if the method matches. -/
theorem Keeps.lookup_isSome_iff (keeps : router.Keeps log) (method path : String) :
    (router.lookup method path).answer.handler.isSome = true ↔ Matching log method path := by
  rw [(lookup_fields keeps.coherent method path).1, ← keeps.registers.walk_isSome_iff]
  cases walk router.trees method path <;> exact Iff.rfl

/-- A method that a walk finds a route of has a tree. -/
theorem contains_of_walk {trees : StringMap (Node α)} {found : α × List (List UInt8 × List UInt8)}
    (walked : (walk trees method path).result? = some found) : trees.contains method = true := by
  unfold walk at walked
  unfold StringMap.contains
  cases htree : trees.get? method with
  | none =>
      rw [htree] at walked
      cases walked
  | some tree => rfl

/-- What a walk finds is resolved without a redirect. -/
theorem Keeps.resolve_of_walk (keeps : router.Keeps log)
    {found : α × List (List UInt8 × List UInt8)}
    (walked : (walk router.trees method path).result? = some found) :
    ∃ cached params, (router.resolve method path).answer = .found found.1 cached params := by
  rw [resolve_eq, if_pos (contains_of_walk walked)]
  dsimp only
  rw [keeps.handler_of_walk walked]
  exact ⟨_, _, rfl⟩

/-- A request that no route takes is redirected, or answered by the `Allow` value. -/
theorem resolve_of_missed (missed : (router.lookup method path).answer.handler = none) :
    (∃ target, (router.resolve method path).answer = .redirect target ∧
      (router.lookup method path).state.redirect? method path
        (router.lookup method path).answer.trailingSlashRedirect = some target) ∨
      ∃ state, router.Undisturbed state ∧ (router.resolve method path).answer =
        unmatched state.config method (state.allowed path method).answer := by
  have looked := (quiet_lookup router method path).undisturbed
  rw [resolve_eq]
  split
  · dsimp only
    rw [missed]
    dsimp only
    split
    · next target hproposed => exact Or.inl ⟨target, rfl, hproposed⟩
    · exact Or.inr ⟨_, looked, fallback_answer _ method path⟩
  · exact Or.inr ⟨router, Undisturbed.refl router, fallback_answer router method path⟩

/-- A request resolves to the route that a walk finds, with its parameters. -/
theorem Keeps.found?_resolve (keeps : router.Keeps log) (method path : String) :
    (router.resolve method path).answer.found? =
      (walk router.trees method path).result?.map fun found =>
        (found.1, Params.ofCaptures found.2) := by
  obtain ⟨hhandler, -, hparams⟩ := lookup_fields keeps.coherent method path
  cases hwalk : walk router.trees method path with
  | found handler captures deepest =>
      have walked : (walk router.trees method path).result? = some (handler, captures) := by
        rw [hwalk]
        rfl
      rw [resolve_eq, if_pos (contains_of_walk walked)]
      dsimp only
      rw [hhandler, hparams, hwalk]
      rfl
  | missed hint =>
      rw [hwalk] at hhandler
      rcases resolve_of_missed hhandler with ⟨target, hresolved, -⟩ | ⟨state, -, hresolved⟩
      · rw [hresolved]
        rfl
      · rw [hresolved, found?_unmatched]
        rfl

/-- A request resolves to a route exactly if the method matches. -/
theorem Keeps.found?_isSome_iff (keeps : router.Keeps log) (method path : String) :
    (router.resolve method path).answer.found?.isSome = true ↔ Matching log method path := by
  rw [keeps.found?_resolve, Option.isSome_map, keeps.registers.walk_isSome_iff]

/-- A redirect is proposed where a look-up finds nothing. -/
theorem redirect_of_resolve {target : Redirect}
    (redirected : (router.resolve method path).answer = .redirect target) :
    (router.lookup method path).answer.handler = none ∧
      (router.lookup method path).state.redirect? method path
        (router.lookup method path).answer.trailingSlashRedirect = some target := by
  cases hhandler : (router.lookup method path).answer.handler with
  | none =>
      refine ⟨rfl, ?_⟩
      rcases resolve_of_missed hhandler with ⟨target', hresolved, hproposed⟩ | ⟨state, -, hresolved⟩
      · rw [redirected] at hresolved
        cases hresolved
        exact hproposed
      · rw [← RouteMatch.redirect?_eq_some_iff, hresolved, redirect?_unmatched] at redirected
        cases redirected
  | some handler =>
      have hfound : (router.resolve method path).answer.redirect? = none := by
        rw [resolve_eq]
        split
        · dsimp only
          rw [hhandler]
          rfl
        · rw [fallback_answer, redirect?_unmatched]
      rw [redirected] at hfound
      cases hfound

/-- What a redirect proposes: the path with its final slash toggled, where the look-up hinted at
it, or a correction of the clean path. -/
theorem redirect?_eq_some {hint : Bool} {target : Redirect}
    (proposed : router.redirect? method path hint = some target) :
    path ≠ "/" ∧
      (target.kind = .trailingSlash ∧ hint = true ∧ target.location = toggleSlash path ∨
        target.kind = .fixedPath ∧ ∃ fix,
          router.respelling? method (cleanPath path) fix = some target.location) := by
  unfold redirect? at proposed
  split at proposed
  · cases proposed
  · next hplain =>
      refine ⟨fun h => hplain (Or.inr h), ?_⟩
      dsimp only at proposed
      split at proposed
      · next h =>
          rw [Bool.and_eq_true] at h
          cases proposed
          exact Or.inl ⟨rfl, h.1, rfl⟩
      · split at proposed
        · obtain ⟨corrected, hcorrected, rfl⟩ := Option.map_eq_some_iff.mp proposed
          exact Or.inr ⟨rfl, _, hcorrected⟩
        · cases proposed

end Router

end RadixRouter

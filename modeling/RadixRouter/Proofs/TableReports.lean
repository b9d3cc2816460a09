/-
# What checking a table reports

Checking a table goes on after a refusal, with a router that has refused routes before; building
stops at the first.  A refusal leaves nothing behind that a later route could notice, so the two
agree on whether there is a refusal and on the first one, and the routes that are not reported
could be built on their own.

`RouteTable.verdicts` puts every route of a table beside the error it is reported for, so that a
report can be said to stand before or after another.
-/

import RadixRouter.Proofs.TableRoutes

namespace RadixRouter.RouteTable

open Pattern (Faultless Conflict)
open RouteSpec (registration Welcome)

variable {γ : Type} {isMethod : String → Bool} {router : Router RouteSpec γ} {old : List RouteSpec}

/-- Registers routes in order; lists each with the error it is reported for, if it is. -/
def judge (isMethod : String → Bool) (router : Router RouteSpec γ) :
    List RouteSpec → List (RouteSpec × Option TableError)
  | [] => []
  | route :: routes =>
    let first := register isMethod router route
    let report := match first.answer with
      | .error error => some error
      | .ok _ => none
    (route, report) :: judge isMethod first.state routes

/-- The routes of a table, each with the error it is reported for, if it is. -/
def verdicts (table : RouteTable) (isMethod : String → Bool) :
    List (RouteSpec × Option TableError) :=
  judge isMethod (Router.new table.router : TableRouter) table.routes

/-- The routes that are not reported. -/
def unreported (judged : List (RouteSpec × Option TableError)) : List RouteSpec :=
  (judged.filter (·.2.isNone)).map (·.1)

theorem map_fst_judge (isMethod : String → Bool) (router : Router RouteSpec γ)
    (routes : List RouteSpec) :
    (judge isMethod router routes).map (·.1) = routes := by
  induction routes generalizing router with
  | nil => rfl
  | cons route routes ih => exact congrArg (route :: ·) (ih _)

/-- The reports are the errors that registering all routes lists. -/
theorem filterMap_judge (isMethod : String → Bool) (router : Router RouteSpec γ)
    (routes : List RouteSpec) :
    (judge isMethod router routes).filterMap (·.2) =
      (registerAll isMethod router routes).answer := by
  induction routes generalizing router with
  | nil => rfl
  | cons route routes ih =>
      rw [judge, registerAll]
      dsimp only
      cases (register isMethod router route).answer with
      | ok _ => exact ih _
      | error error => exact congrArg (error :: ·) (ih _)

/-- Registering up to the first refusal ends with the first error that registering all lists. -/
theorem registerUntil_answer (isMethod : String → Bool) (router : Router RouteSpec γ)
    (routes : List RouteSpec) :
    (registerUntil isMethod router routes).answer =
      match (registerAll isMethod router routes).answer with
      | [] => .ok ()
      | error :: _ => .error error := by
  induction routes generalizing router with
  | nil => rfl
  | cons route routes ih =>
      rw [registerUntil, registerAll]
      dsimp only
      cases (register isMethod router route).answer with
      | ok _ => exact ih _
      | error error => rfl

theorem build_answer (isMethod : String → Bool) (table : RouteTable) :
    ((build isMethod table).1.isOk = true ↔ (check isMethod table).1 = []) ∧
      ∀ error, (build isMethod table).1 = .error error ↔
        (check isMethod table).1.head? = some error := by
  have hanswer := registerUntil_answer isMethod (Router.new table.router : TableRouter) table.routes
  unfold build check
  dsimp only
  rw [hanswer]
  cases (registerAll isMethod (Router.new table.router : TableRouter) table.routes).answer with
  | nil => exact ⟨iff_of_true rfl rfl, fun error => iff_of_false nofun nofun⟩
  | cons first errors =>
      refine ⟨iff_of_false nofun nofun, fun error => ?_⟩
      dsimp only
      rw [Except.error.injEq, List.head?_cons, Option.some.injEq]

/-- A route is reported exactly if it is not welcome after the unreported ones before it. -/
theorem judge_split (keeps : router.Keeps (old.map registration)) {routes : List RouteSpec}
    {before after : List (RouteSpec × Option TableError)} {route : RouteSpec}
    {report : Option TableError}
    (judged : judge isMethod router routes = before ++ (route, report) :: after) :
    (report = none ↔ Welcome isMethod (old ++ unreported before) route) ∧
      ∀ error, report = some error → error.Blames isMethod route := by
  induction routes generalizing router old before with
  | nil => cases before <;> cases judged
  | cons first routes ih =>
      rw [judge] at judged
      rcases register_cases keeps first with
        ⟨welcome, hanswer, keeps'⟩ | ⟨unwelcome, error, hanswer, blames, keeps'⟩
      · rw [hanswer] at judged
        cases before with
        | nil =>
            obtain ⟨⟨rfl, rfl⟩, -⟩ := List.cons.inj judged |>.imp_left Prod.mk.inj
            rw [unreported, List.filter_nil, List.map_nil, List.append_nil]
            exact ⟨iff_of_true rfl welcome, nofun⟩
        | cons other before =>
            obtain ⟨rfl, hrest⟩ := List.cons.inj judged
            have later := ih keeps' hrest
            rwa [List.append_assoc] at later
      · rw [hanswer] at judged
        cases before with
        | nil =>
            obtain ⟨⟨rfl, rfl⟩, -⟩ := List.cons.inj judged |>.imp_left Prod.mk.inj
            rw [unreported, List.filter_nil, List.map_nil, List.append_nil]
            refine ⟨iff_of_false nofun unwelcome, ?_⟩
            intro error' herror
            rwa [← Option.some.inj herror]
        | cons other before =>
            obtain ⟨rfl, hrest⟩ := List.cons.inj judged
            have later := ih keeps' hrest
            exact later

/-- The unreported routes are in harmony. -/
theorem harmonious_unreported (keeps : router.Keeps (old.map registration))
    (routes : List RouteSpec) :
    Harmonious isMethod old (unreported (judge isMethod router routes)) := by
  induction routes generalizing router old with
  | nil => exact ⟨nofun, List.Pairwise.nil⟩
  | cons route routes ih =>
      rw [judge]
      rcases register_cases keeps route with
        ⟨welcome, hanswer, keeps'⟩ | ⟨-, error, hanswer, -, keeps'⟩
      · rw [hanswer]
        exact harmonious_cons.mpr ⟨welcome, ih keeps'⟩
      · rw [hanswer]
        exact ih keeps'

/-- What keeps a route from being welcome: its method, its pattern, or an earlier route. -/
theorem not_welcome_iff {kept : List RouteSpec} {route : RouteSpec} :
    ¬ Welcome isMethod kept route ↔
      isMethod route.method = false ∨ ¬ Faultless route.path ∨
        ∃ earlier ∈ kept, earlier.method = route.method ∧
          (earlier.path = route.path ∨ Conflict earlier.path route.path) := by
  unfold Welcome RouteSpec.Valid RouteSpec.Clashes
  rw [Decidable.not_and_iff_not_or_not, Decidable.not_and_iff_not_or_not, Bool.not_eq_true,
    or_assoc]
  simp only [not_forall, not_not, exists_prop]

/-- Building succeeds exactly if checking reports nothing, and fails otherwise with the first
error reported.  The unreported routes can be built on their own, and so can any part of them.  A
route is reported exactly if its method does not pass the test, its pattern breaks the grammar, or
the pattern is equal to or in conflict with that of an unreported route of the same method before
it. -/
theorem check_reports_culprits (isMethod : String → Bool) (table : RouteTable) :
    let errors := (check isMethod table).1
    ((build isMethod table).1.isOk = true ↔ errors = []) ∧
    (∀ error, (build isMethod table).1 = .error error ↔ errors.head? = some error) ∧
    (table.verdicts isMethod).map (·.1) = table.routes ∧
    (table.verdicts isMethod).filterMap (·.2) = errors ∧
    (∀ fewer : List RouteSpec, fewer.Sublist (unreported (table.verdicts isMethod)) →
      (build isMethod { table with routes := fewer }).1.isOk = true) ∧
    ∀ before route report after, table.verdicts isMethod = before ++ (route, report) :: after →
      (report.isSome = true ↔
        isMethod route.method = false ∨ ¬ Faultless route.path ∨
          ∃ earlier ∈ unreported before, earlier.method = route.method ∧
            (earlier.path = route.path ∨ Conflict earlier.path route.path)) ∧
      ∀ error, report = some error → error.location? = some route.describe := by
  have keeps : (Router.new table.router : TableRouter).Keeps ([].map registration) :=
    Router.keeps_new table.router
  obtain ⟨hok, herror⟩ := build_answer isMethod table
  refine ⟨hok, herror, map_fst_judge _ _ _, filterMap_judge _ _ _, ?_, ?_⟩
  · intro fewer sub
    rw [isOk_build_iff]
    exact (harmonious_unreported keeps table.routes).sublist sub
  · intro before route report after judged
    obtain ⟨hreport, hblames⟩ := judge_split keeps judged
    refine ⟨?_, fun error hsome => (hblames error hsome).location⟩
    rw [← not_welcome_iff, Option.isSome_iff_ne_none]
    exact not_congr hreport

/-- The second route is a duplicate, the third one no method; the last clashes with the first. -/
example : (check (· ≠ "G T") ⟨{}, [⟨"GET", "/a/:id", none⟩, ⟨"GET", "/a/:id", none⟩,
    ⟨"G T", "/", none⟩, ⟨"PUT", "/a/b", none⟩, ⟨"GET", "/a/b", none⟩]⟩).1.map TableError.code =
      ["R1002", "R1010", "R1003"] := by
  decide +kernel

end RadixRouter.RouteTable

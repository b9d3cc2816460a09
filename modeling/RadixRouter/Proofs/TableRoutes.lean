/-
# What a table makes of its routes

A table hands its routes to a router one by one.  A route is `Welcome` after others when its
method passes the test, its pattern follows the grammar, and it clashes with none of them; that is
all it takes to be registered, whatever else the router has refused before.  So which routes of a
table are registered, and whether all of them are, is read off the list of routes without any
tree.
-/

import RadixRouter.Proofs.Acceptance
import RadixRouter.RouteTable

namespace RadixRouter

open Pattern (Faultless Conflict)

variable {γ : Type} {isMethod : String → Bool}

namespace RouteSpec

/-- What a table registers for a route: the route itself is the handler. -/
def registration (route : RouteSpec) : Registration RouteSpec := ⟨route.method, route.path, route⟩

/-- The method passes the test and the pattern follows the grammar. -/
def Valid (isMethod : String → Bool) (route : RouteSpec) : Prop :=
  isMethod route.method = true ∧ Faultless route.path

/-- Two routes of one method with equal patterns, or with patterns in conflict. -/
def Clashes (first second : RouteSpec) : Prop :=
  first.method = second.method ∧ (first.path = second.path ∨ Conflict first.path second.path)

instance (route : RouteSpec) : Decidable (route.Valid isMethod) :=
  inferInstanceAs (Decidable (_ ∧ _))

instance (first second : RouteSpec) : Decidable (first.Clashes second) :=
  inferInstanceAs (Decidable (_ ∧ _))

theorem Clashes.symm {first second : RouteSpec} (clash : first.Clashes second) :
    second.Clashes first :=
  ⟨clash.1.symm, clash.2.imp Eq.symm Pattern.conflict_comm.mp⟩

/-- A valid route that clashes with none of those before it. -/
def Welcome (isMethod : String → Bool) (kept : List RouteSpec) (route : RouteSpec) : Prop :=
  route.Valid isMethod ∧ ∀ old ∈ kept, ¬ old.Clashes route

theorem mem_patternsOf_registration {kept : List RouteSpec} {method pattern : String} :
    pattern ∈ patternsOf method (kept.map registration) ↔
      ∃ old ∈ kept, old.method = method ∧ old.path = pattern := by
  rw [mem_patternsOf]
  simp [registration]

end RouteSpec

open RouteSpec (registration Welcome)

/-- An error is about a route: its method, or what came of registering it. -/
def TableError.Blames (error : TableError) (isMethod : String → Bool) (route : RouteSpec) : Prop :=
  (isMethod route.method = false ∧ error = .invalidMethod route.method route.path) ∨
    (isMethod route.method = true ∧ ∃ cause, error = .registration route.method route.path cause)

theorem TableError.Blames.location {error : TableError} {route : RouteSpec}
    (blames : error.Blames isMethod route) : error.location? = some route.describe := by
  rcases blames with ⟨-, rfl⟩ | ⟨-, cause, rfl⟩ <;> rfl

namespace RouteTable

section Register

variable {router : Router RouteSpec γ} {kept : List RouteSpec} {route : RouteSpec}

/-- A router with the routes of a list accepts the routes that are welcome after them. -/
theorem handle_eq_ok_iff (keeps : router.Keeps (kept.map registration)) (route : RouteSpec) :
    (router.handle route.method route.path route).answer = .ok () ↔
      Faultless route.path ∧ ∀ old ∈ kept, ¬ old.Clashes route := by
  rw [← code?_eq_none_iff, Router.code?_handle_eq keeps.registers,
    keeps.registers.code_accepted_iff, and_congr_right_iff]
  intro _
  constructor
  · rintro ⟨fresh, peaceful⟩ old hold ⟨hmethod, hequal | hconflict⟩
    · exact fresh (RouteSpec.mem_patternsOf_registration.mpr ⟨old, hold, hmethod, hequal⟩)
    · exact peaceful _ (RouteSpec.mem_patternsOf_registration.mpr ⟨old, hold, hmethod, rfl⟩)
        hconflict
  · intro apart
    constructor
    · intro inside
      obtain ⟨old, hold, hmethod, hequal⟩ := RouteSpec.mem_patternsOf_registration.mp inside
      exact apart old hold ⟨hmethod, Or.inl hequal⟩
    · intro pattern inside hconflict
      obtain ⟨old, hold, hmethod, rfl⟩ := RouteSpec.mem_patternsOf_registration.mp inside
      exact apart old hold ⟨hmethod, Or.inr hconflict⟩

/-- A router keeps a route or reports it, as the list of kept routes demands. -/
theorem register_cases (keeps : router.Keeps (kept.map registration)) (route : RouteSpec) :
    (Welcome isMethod kept route ∧ (register isMethod router route).answer = .ok () ∧
        (register isMethod router route).state.Keeps ((kept ++ [route]).map registration)) ∨
      (¬ Welcome isMethod kept route ∧ ∃ error,
        (register isMethod router route).answer = .error error ∧ error.Blames isMethod route ∧
          (register isMethod router route).state.Keeps (kept.map registration)) := by
  have handled := keeps.handle route.method route.path route
  have accepts := handle_eq_ok_iff keeps route
  unfold register Router.logged at *
  cases htoken : isMethod route.method with
  | false =>
      refine Or.inr ⟨fun welcome => ?_, _, rfl, Or.inl ⟨htoken, rfl⟩, keeps⟩
      rw [welcome.1.1] at htoken
      cases htoken
  | true =>
      rw [if_pos rfl]
      dsimp only
      cases hanswer : (router.handle route.method route.path route).answer with
      | ok _ =>
          rw [hanswer] at handled accepts
          obtain ⟨faultless, apart⟩ := accepts.mp rfl
          refine Or.inl ⟨⟨⟨htoken, faultless⟩, apart⟩, rfl, ?_⟩
          rw [List.map_append]
          exact handled
      | error cause =>
          rw [hanswer] at handled accepts
          rw [List.append_nil] at handled
          refine Or.inr ⟨fun welcome => ?_, _, rfl, Or.inr ⟨htoken, cause, rfl⟩, handled⟩
          cases accepts.mpr ⟨welcome.1.2, welcome.2⟩

end Register

/-- Routes that are valid and clash neither with those kept before nor with each other. -/
def Harmonious (isMethod : String → Bool) (kept routes : List RouteSpec) : Prop :=
  (∀ route ∈ routes, Welcome isMethod kept route) ∧ routes.Pairwise fun old new => ¬ old.Clashes new

/-- In harmony, the first route is welcome and the others are so after it. -/
theorem harmonious_cons {kept routes : List RouteSpec} {route : RouteSpec} :
    Harmonious isMethod kept (route :: routes) ↔
      Welcome isMethod kept route ∧ Harmonious isMethod (kept ++ [route]) routes := by
  unfold Harmonious
  rw [List.forall_mem_cons, List.pairwise_cons]
  constructor
  · rintro ⟨⟨hroute, hroutes⟩, hfirst, hrest⟩
    refine ⟨hroute, fun other hother => ⟨(hroutes other hother).1, ?_⟩, hrest⟩
    intro old hold
    rcases List.mem_append.mp hold with h | h
    · exact (hroutes other hother).2 old h
    · rw [List.mem_singleton.mp h]
      exact hfirst other hother
  · rintro ⟨hroute, hroutes, hrest⟩
    refine ⟨⟨hroute, fun other hother => ⟨(hroutes other hother).1, fun old hold => ?_⟩⟩, ?_, hrest⟩
    · exact (hroutes other hother).2 old (List.mem_append_left _ hold)
    · intro other hother
      exact (hroutes other hother).2 route (List.mem_append_right _ (List.mem_singleton.mpr rfl))

/-- Leaving routes out does not disturb the harmony of the others. -/
theorem Harmonious.sublist {kept routes fewer : List RouteSpec}
    (harmonious : Harmonious isMethod kept routes) (sub : fewer.Sublist routes) : Harmonious isMethod kept fewer :=
  ⟨fun route hroute => harmonious.1 route (sub.subset hroute), harmonious.2.sublist sub⟩

/-- The order of routes does not disturb their harmony either. -/
theorem harmonious_perm {kept routes routes' : List RouteSpec} (same : routes.Perm routes') :
    Harmonious isMethod kept routes ↔ Harmonious isMethod kept routes' := by
  unfold Harmonious
  have hclash : ∀ {old new : RouteSpec}, ¬ old.Clashes new → ¬ new.Clashes old :=
    fun apart clash => apart clash.symm
  rw [same.pairwise_iff hclash]
  exact and_congr_left fun _ => forall_congr' fun route => by rw [same.mem_iff]

variable {router : Router RouteSpec γ} {kept : List RouteSpec}

/-- All routes are registered exactly if they are in harmony. -/
theorem registerUntil_eq_ok_iff (keeps : router.Keeps (kept.map registration))
    (routes : List RouteSpec) :
    (registerUntil isMethod router routes).answer = .ok () ↔ Harmonious isMethod kept routes := by
  induction routes generalizing router kept with
  | nil => exact iff_of_true rfl ⟨nofun, List.Pairwise.nil⟩
  | cons route routes ih =>
      rw [harmonious_cons, registerUntil]
      dsimp only
      rcases register_cases keeps route with
        ⟨welcome, hanswer, keeps'⟩ | ⟨unwelcome, error, hanswer, -, -⟩
      · rw [hanswer]
        exact (ih keeps').trans (and_iff_right welcome).symm
      · rw [hanswer]
        exact iff_of_false nofun fun h => unwelcome h.1

/-- Where all routes are registered, the router has them all. -/
theorem keeps_registerUntil (keeps : router.Keeps (kept.map registration))
    {routes : List RouteSpec}
    (registered : (registerUntil isMethod router routes).answer = .ok ()) :
    (registerUntil isMethod router routes).state.Keeps ((kept ++ routes).map registration) := by
  induction routes generalizing router kept with
  | nil =>
      rw [List.append_nil]
      exact keeps
  | cons route routes ih =>
      rw [registerUntil] at registered ⊢
      dsimp only at registered ⊢
      rcases register_cases keeps route with
        ⟨-, hanswer, keeps'⟩ | ⟨-, error, hanswer, -, -⟩
      · rw [hanswer] at registered ⊢
        have later := ih keeps' registered
        rwa [List.append_assoc] at later
      · rw [hanswer] at registered
        cases registered

/-- A table is built exactly if its routes are in harmony. -/
theorem isOk_build_iff (table : RouteTable) :
    (build isMethod table).1.isOk = true ↔ Harmonious isMethod [] table.routes := by
  rw [← registerUntil_eq_ok_iff (Router.keeps_new table.router : (Router.new table.router :
    TableRouter).Keeps ([].map registration))]
  unfold build
  dsimp only
  cases (registerUntil isMethod (Router.new table.router : TableRouter) table.routes).answer with
  | ok _ => exact iff_of_true rfl rfl
  | error error => exact iff_of_false nofun nofun

/-- The router of a table has registered its routes and nothing else. -/
theorem keeps_build {table : RouteTable} {router : TableRouter}
    (built : (build isMethod table).1 = .ok router) :
    router.Keeps (table.routes.map registration) := by
  have keeps : (Router.new table.router : TableRouter).Keeps ([].map registration) :=
    Router.keeps_new table.router
  unfold build at built
  dsimp only at built
  cases hanswer : (registerUntil isMethod (Router.new table.router : TableRouter)
      table.routes).answer with
  | error error =>
      rw [hanswer] at built
      cases built
  | ok _ =>
      rw [hanswer] at built
      obtain rfl := Except.ok.inj built
      exact keeps_registerUntil keeps hanswer

end RouteTable

end RadixRouter

/-
# What a router has registered

A log lists the registrations that a router accepted, in order.  `Registers` ties the trees of
a router to such a log: the tree of a method holds the routes that the log gives it, every
pattern in the log follows the grammar, and no two of one method are rivals.

One call to `Router.handle` extends the log by at most its own registration, and the code of
its answer depends on the log alone.
-/

import RadixRouter.Proofs.Encoding
import RadixRouter.Proofs.Insertion
import RadixRouter.Proofs.MapOrder
import RadixRouter.Router.Basic

namespace RadixRouter

open Pattern (Proper proper_tokens)

variable {α γ : Type}

/-- What an accepted call to `Router.handle` was given. -/
structure Registration (α : Type) where
  method : String
  pattern : String
  handler : α

/-- The route of a pattern. -/
def Pattern.route (pattern : String) : List Token := tokens (Utf8.encode pattern)

/-- Whether a pattern follows the grammar. -/
def Pattern.Faultless (pattern : String) : Prop := fault? (Utf8.encode pattern) = none

instance (pattern : String) : Decidable (Pattern.Faultless pattern) :=
  inferInstanceAs (Decidable (Pattern.fault? (Utf8.encode pattern) = none))

/-- The routes of a method, with their handlers. -/
def routesOf (method : String) (log : List (Registration α)) : List (List Token × α) :=
  (log.filter (·.method = method)).map fun registration =>
    (Pattern.route registration.pattern, registration.handler)

theorem mem_routesOf {method : String} {log : List (Registration α)} {route : List Token}
    {handler : α} :
    (route, handler) ∈ routesOf method log ↔
      ∃ registration ∈ log, registration.method = method ∧
        Pattern.route registration.pattern = route ∧ registration.handler = handler := by
  simp [routesOf, and_assoc]

theorem routesOf_append (method : String) (log log' : List (Registration α)) :
    routesOf method (log ++ log') = routesOf method log ++ routesOf method log' := by
  simp [routesOf]

/-- A faultless pattern can be read back from its route. -/
theorem Pattern.route_injective : Function.Injective Pattern.route := by
  intro pattern pattern' same
  apply Utf8.encode_injective
  rw [← bytes_tokens (Utf8.encode pattern), ← bytes_tokens (Utf8.encode pattern')]
  exact congrArg bytes same

theorem Pattern.Faultless.route_eq {pattern : String} (faultless : Faultless pattern) :
    ∃ rest, route pattern = .byte slash :: rest ∧ Proper true rest := proper_tokens faultless

theorem Pattern.Faultless.proper {pattern : String} (faultless : Faultless pattern) :
    Proper false (route pattern) := by
  obtain ⟨rest, hroute, hproper⟩ := faultless.route_eq
  rw [hroute]
  exact ⟨rfl, hproper⟩

/-- The code of a refusal, if it is one. -/
def code? {β : Type} : Except RouteError β → Option String
  | .ok _ => none
  | .error error => some error.code

/-- The code that a rivalry is refused with. -/
def Rivalry.code : Rivalry → String
  | .duplicate => "R1002"
  | .wildcard => "R1003"
  | .catchAll => "R1007"

theorem code_refusal (pattern : String) (clash : Clash) :
    (Router.refusal pattern clash).code = clash.kind.code := by
  cases clash <;> rfl

/-- The code of the answer to a registration, given the routes of its method. -/
def verdictCode? (listing : List (List Token × α)) (pattern : String) : Option String :=
  match Pattern.fault? (Utf8.encode pattern) with
  | some fault => some (RouteError.ofFault pattern fault).code
  | none => (standing listing (Pattern.route pattern)).map Rivalry.code

theorem verdictCode?_eq_none_iff {listing : List (List Token × α)} {pattern : String} :
    verdictCode? listing pattern = none ↔
      Pattern.Faultless pattern ∧ standing listing (Pattern.route pattern) = none := by
  unfold verdictCode? Pattern.Faultless
  cases Pattern.fault? (Utf8.encode pattern) with
  | some fault => simp
  | none => simp

/-- The tree of a method, if there is one, holds exactly these routes. -/
def Holds : Option (Node α) → List (List Token × α) → Prop
  | none, listing => listing = []
  | some tree, listing => tree.Rooted ∧ tree.listing.Perm listing

/-- The routes after a registration was answered. -/
def extended (code : Option String) (route : List Token × α) (listing : List (List Token × α)) :
    List (List Token × α) :=
  if code = none then listing ++ [route] else listing

theorem code?_mapError (pattern : String) (verdict : Except Clash CounterId) :
    code? (verdict.mapError (Router.refusal pattern)) = (refusal? verdict).map Rivalry.code := by
  cases verdict with
  | ok _ => rfl
  | error clash => exact congrArg some (code_refusal pattern clash)

/-- A registration is answered as the routes of the tree demand. -/
theorem code?_insertRoute {tree : Option (Node α)} {listing : List (List Token × α)}
    (holds : Holds tree listing) (pattern : String) (handler : α) (fresh : CounterId) :
    code? (Router.insertRoute tree pattern handler fresh).2 = verdictCode? listing pattern := by
  unfold Router.insertRoute verdictCode?
  dsimp only
  cases hfault : Pattern.fault? (Utf8.encode pattern) with
  | some fault => rfl
  | none =>
      obtain ⟨rest, hroute, hproper⟩ := proper_tokens hfault
      cases tree with
      | none =>
          rw [Holds] at holds
          rw [holds]
          rfl
      | some tree =>
          obtain ⟨rooted, same⟩ := holds
          dsimp only
          rw [code?_mapError, Pattern.route, hroute, verdict_insert rooted handler fresh hproper,
            standing_perm same]

/-- An accepted registration adds its route to the tree, a refused one adds nothing. -/
theorem holds_insertRoute {tree : Option (Node α)} {listing : List (List Token × α)}
    (holds : Holds tree listing) (pattern : String) (handler : α) (fresh : CounterId) :
    Holds (Router.insertRoute tree pattern handler fresh).1
      (extended (code? (Router.insertRoute tree pattern handler fresh).2)
        (Pattern.route pattern, handler) listing) := by
  unfold Router.insertRoute
  dsimp only
  cases hfault : Pattern.fault? (Utf8.encode pattern) with
  | some fault => exact holds
  | none =>
      obtain ⟨rest, hroute, hproper⟩ := proper_tokens hfault
      cases tree with
      | none =>
          rw [Holds] at holds
          subst holds
          refine ⟨?_, ?_⟩
          · rw [hroute]
            exact rooted_ofTokens handler fresh hproper
          · have hproper' : Proper false (.byte slash :: rest) := ⟨rfl, hproper⟩
            rw [Pattern.route, hroute]
            exact List.Perm.of_eq (listing_ofTokens handler _ fresh hproper' nofun)
      | some tree =>
          obtain ⟨rooted, same⟩ := holds
          dsimp only
          rw [Pattern.route, hroute]
          refine ⟨rooted.insert handler fresh hproper, ?_⟩
          apply (listing_insert tree handler fresh hproper).trans
          cases (tree.insert handler fresh (.byte slash :: rest)).verdict with
          | error clash => exact same
          | ok used => exact (same.cons _).trans (List.perm_append_singleton _ _).symm

/-- A registration does not remove the tree of its method. -/
theorem insertRoute_eq_none {tree : Option (Node α)} {pattern : String} {handler : α}
    {fresh : CounterId} (gone : (Router.insertRoute tree pattern handler fresh).1 = none) :
    tree = none := by
  unfold Router.insertRoute at gone
  dsimp only at gone
  split at gone
  · exact gone
  · cases tree with
    | none => rfl
    | some tree => cases gone

/-- The trees of a router that accepted the registrations of a log, and no others. -/
structure Registers (trees : StringMap (Node α)) (log : List (Registration α)) : Prop where
  ordered : trees.Ordered
  holds : ∀ method, Holds (trees.get? method) (routesOf method log)
  faultless : ∀ registration ∈ log, Pattern.Faultless registration.pattern
  apart : log.Pairwise fun old new =>
    old.method = new.method →
      rivalry (Pattern.route old.pattern) (Pattern.route new.pattern) = none

theorem registers_empty : Registers (StringMap.empty : StringMap (Node α)) [] where
  ordered := StringMap.ordered_empty
  holds := fun _ => rfl
  faultless := nofun
  apart := List.Pairwise.nil

/-- The methods with a tree are those of the registrations. -/
theorem Registers.mem_keys_iff {trees : StringMap (Node α)} {log : List (Registration α)}
    (registers : Registers trees log) {method : String} :
    method ∈ trees.keys ↔ ∃ registration ∈ log, registration.method = method := by
  have hlisted : (∃ registration ∈ log, registration.method = method) ↔
      routesOf method log ≠ [] := by
    simp [routesOf, List.filter_eq_nil_iff]
  have holds := registers.holds method
  rw [StringMap.mem_keys_iff, hlisted]
  cases htree : trees.get? method with
  | none =>
      rw [htree, Holds] at holds
      simp [holds]
  | some tree =>
      rw [htree] at holds
      obtain ⟨rooted, same⟩ := holds
      refine iff_of_true rfl fun hnil => ?_
      rw [hnil] at same
      exact listing_ne_nil.1 tree slash rooted.sound same.eq_nil

namespace Router

variable {router : Router α γ} {method pattern : String} {handler : α}

/-- What a call to `Router.handle` adds to the log. -/
def logged (router : Router α γ) (method pattern : String) (handler : α) :
    List (Registration α) :=
  match (router.handle method pattern handler).answer with
  | .ok _ => [⟨method, pattern, handler⟩]
  | .error _ => []

/-- The trees after a registration was attempted. -/
def planted (trees : StringMap (Node α)) (method pattern : String) (handler : α)
    (fresh : CounterId) : StringMap (Node α) :=
  match (insertRoute (trees.get? method) pattern handler fresh).1 with
  | some node => trees.insert method node
  | none => trees

theorem handle_eq (router : Router α γ) (method pattern : String) (handler : α) :
    router.handle method pattern handler =
      match (insertRoute (router.trees.get? method) pattern handler
        router.cache.counters.length).2 with
      | .ok used =>
        ⟨.ok (),
          { router with
            trees := planted router.trees method pattern handler router.cache.counters.length,
            cache := router.cache.trackUpTo used },
          [.routeRegistered method pattern]⟩
      | .error error =>
        ⟨.error error,
          { router with
            trees := planted router.trees method pattern handler router.cache.counters.length },
          []⟩ := rfl

theorem trees_handle (router : Router α γ) (method pattern : String) (handler : α) :
    (router.handle method pattern handler).state.trees =
      planted router.trees method pattern handler router.cache.counters.length := by
  rw [handle_eq]
  split <;> rfl

/-- A registration changes the tree of its own method only. -/
theorem get?_handle (router : Router α γ) (method pattern : String) (handler : α)
    (other : String) :
    (router.handle method pattern handler).state.trees.get? other =
      if method = other then
        (insertRoute (router.trees.get? method) pattern handler router.cache.counters.length).1
      else router.trees.get? other := by
  rw [trees_handle, planted]
  cases hinsert : (insertRoute (router.trees.get? method) pattern handler
      router.cache.counters.length).1 with
  | some node => exact StringMap.get?_insert router.trees method other node
  | none =>
      dsimp only
      split
      · next h =>
          subst h
          exact insertRoute_eq_none hinsert
      · rfl

/-- The answer to a registration has the code of the insertion. -/
theorem code?_handle (router : Router α γ) (method pattern : String) (handler : α) :
    code? (router.handle method pattern handler).answer =
      code? (insertRoute (router.trees.get? method) pattern handler
        router.cache.counters.length).2 := by
  rw [handle_eq]
  split
  · next h => rw [h]; rfl
  · next h => rw [h]; rfl

/-- The code of the answer to a registration follows from the log. -/
theorem code?_handle_eq {log : List (Registration α)} (registers : Registers router.trees log) :
    code? (router.handle method pattern handler).answer =
      verdictCode? (routesOf method log) pattern := by
  rw [code?_handle]
  exact code?_insertRoute (registers.holds method) pattern handler _

theorem logged_eq (router : Router α γ) (method pattern : String) (handler : α) :
    router.logged method pattern handler =
      if code? (router.handle method pattern handler).answer = none then
        [⟨method, pattern, handler⟩] else [] := by
  unfold logged
  cases (router.handle method pattern handler).answer <;> rfl

theorem ordered_handle (ordered : router.trees.Ordered) :
    (router.handle method pattern handler).state.trees.Ordered := by
  rw [trees_handle, planted]
  split
  · exact ordered.insert _ _
  · exact ordered

/-- A registration extends the log by what it adds. -/
theorem registers_handle {log : List (Registration α)} (registers : Registers router.trees log) :
    Registers (router.handle method pattern handler).state.trees
      (log ++ router.logged method pattern handler) where
  ordered := ordered_handle registers.ordered
  holds := by
    intro other
    rw [get?_handle, routesOf_append, logged_eq]
    by_cases hmethod : method = other
    · subst hmethod
      rw [if_pos rfl]
      have h := holds_insertRoute (registers.holds method) pattern handler
        router.cache.counters.length
      rw [← code?_handle, extended] at h
      split
      · next hcode =>
          rw [if_pos hcode] at h
          simpa [routesOf] using h
      · next hcode =>
          rw [if_neg hcode] at h
          simpa [routesOf] using h
    · rw [if_neg hmethod]
      have hnew : routesOf other (if code? (router.handle method pattern handler).answer = none then
          [(⟨method, pattern, handler⟩ : Registration α)] else []) = [] := by
        split <;> simp [routesOf, hmethod]
      rw [hnew, List.append_nil]
      exact registers.holds other
  faultless := by
    intro registration hmem
    rw [logged_eq, code?_handle_eq registers] at hmem
    rcases List.mem_append.mp hmem with h | h
    · exact registers.faultless registration h
    · split at h
      · next hcode =>
          rw [List.mem_singleton.mp h]
          exact (verdictCode?_eq_none_iff.mp hcode).1
      · cases h
  apart := by
    rw [logged_eq, code?_handle_eq registers]
    split
    · next hcode =>
        refine List.pairwise_append.mpr ⟨registers.apart, List.pairwise_singleton _ _, ?_⟩
        intro old hold new hnew hmethod
        obtain rfl := List.mem_singleton.mp hnew
        have hstanding := (verdictCode?_eq_none_iff.mp hcode).2
        exact standing_eq_none_iff.mp hstanding (Pattern.route old.pattern, old.handler)
          (mem_routesOf.mpr ⟨old, hold, hmethod, rfl, rfl⟩)
    · rw [List.append_nil]
      exact registers.apart

end Router

/-- What the tree of a method says about a path. -/
def walk (trees : StringMap (Node α)) (method path : String) : Search α :=
  match trees.get? method with
  | none => .missed false
  | some tree => tree.find (Utf8.encode path)

variable {trees : StringMap (Node α)} {log : List (Registration α)}

/-- A walk finds exactly the registrations whose route fits the path. -/
theorem Registers.walk_result (registers : Registers trees log) {method path : String}
    {handler : α} {captures : List (List UInt8 × List UInt8)} :
    (walk trees method path).result? = some (handler, captures) ↔
      ∃ registration ∈ log, registration.method = method ∧ registration.handler = handler ∧
        Fits (Pattern.route registration.pattern) (Utf8.encode path) captures := by
  have hlog : (∃ route, (route, handler) ∈ routesOf method log ∧
      Fits route (Utf8.encode path) captures) ↔
      ∃ registration ∈ log, registration.method = method ∧ registration.handler = handler ∧
        Fits (Pattern.route registration.pattern) (Utf8.encode path) captures := by
    apply Iff.intro
    · rintro ⟨route, hmem, fits⟩
      obtain ⟨registration, hlogged, hmethod, rfl, hhandler⟩ := mem_routesOf.mp hmem
      exact ⟨registration, hlogged, hmethod, hhandler, fits⟩
    · rintro ⟨registration, hlogged, hmethod, hhandler, fits⟩
      exact ⟨_, mem_routesOf.mpr ⟨registration, hlogged, hmethod, rfl, hhandler⟩, fits⟩
  have holds := registers.holds method
  rw [← hlog]
  unfold walk
  cases htree : trees.get? method with
  | none =>
      rw [htree, Holds] at holds
      rw [holds]
      apply Iff.intro
      · intro h
        cases h
      · rintro ⟨route, hmem, -⟩
        cases hmem
  | some tree =>
      rw [htree] at holds
      obtain ⟨rooted, same⟩ := holds
      dsimp only
      rw [rooted.find_result]
      apply Iff.intro
      · rintro ⟨route, hmem, fits⟩
        exact ⟨route, same.mem_iff.mp hmem, fits⟩
      · rintro ⟨route, hmem, fits⟩
        exact ⟨route, same.mem_iff.mpr hmem, fits⟩

/-- Two members of a list are one, or stand in one order or the other. -/
theorem eq_or_related_of_pairwise {β : Type} {related : β → β → Prop} {list : List β}
    (pairwise : list.Pairwise related) {first second : β} (hfirst : first ∈ list)
    (hsecond : second ∈ list) : first = second ∨ related first second ∨ related second first := by
  induction pairwise with
  | nil => cases hfirst
  | cons hhead _ ih =>
      rcases List.mem_cons.mp hfirst with rfl | h
      · rcases List.mem_cons.mp hsecond with rfl | h'
        · exact Or.inl rfl
        · exact Or.inr (Or.inl (hhead second h'))
      · rcases List.mem_cons.mp hsecond with rfl | h'
        · exact Or.inr (Or.inr (hhead first h))
        · exact ih h h'

/-- A path fits at most one registration of a method. -/
theorem Registers.fits_unique (registers : Registers trees log)
    {registration registration' : Registration α} (logged : registration ∈ log)
    (logged' : registration' ∈ log) (method : registration.method = registration'.method)
    {path : List UInt8} {captures captures' : List (List UInt8 × List UInt8)}
    (fits : Fits (Pattern.route registration.pattern) path captures)
    (fits' : Fits (Pattern.route registration'.pattern) path captures') :
    registration = registration' := by
  have proper := (registers.faultless registration logged).proper
  have proper' := (registers.faultless registration' logged').proper
  rcases eq_or_related_of_pairwise registers.apart logged logged' with h | h | h
  · exact h
  · exact absurd (h method) (fits.rivalry_ne_none fits' proper proper')
  · exact absurd (h method.symm) (fits'.rivalry_ne_none fits proper' proper)

end RadixRouter

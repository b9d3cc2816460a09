/-
# Allow values

The `Allow` value of a path lists the methods that match it, in order.  It is read off the accepted
patterns alone: neither the order in which the trees are asked nor what the cache holds by then
makes a difference.  A request that no route takes and that is not redirected is answered by this
value and by the flags of the configuration.
-/

import Mathlib.Data.List.Sort
import RadixRouter.Proofs.MapOrder
import RadixRouter.Proofs.Outcomes
import RadixRouter.Scripted

namespace RadixRouter

variable {α γ : Type}

namespace Router

variable {router : Router α γ} {log : List (Registration α)}

/-- The methods that are asked for a path: all but `OPTIONS` and an excluded one. -/
def askable (exclude : String) (methods : List String) : List String :=
  methods.filter fun method => method ≠ exclude && method ≠ "OPTIONS"

/-- The `Allow` value of a path where the trees are asked in some order, and the methods that match
are sorted in the end. -/
def allowedIn (router : Router α γ) (order : List String) (path exclude : String) :
    Step (Router α γ) String :=
  let matching := router.matchingMethods path (askable exclude order)
  ⟨allowText (matching.answer.mergeSort fun method other => method ≤ other), matching.state,
    matching.events⟩

/-- The methods that the `Allow` value of a path lists. -/
def listed (router : Router α γ) (path exclude : String) : List String :=
  (askable exclude router.methods).filter fun method =>
    (walk router.trees method path).result?.isSome

/-- Looking a path up under one method after the other finds those under which a walk does. -/
theorem Keeps.matchingMethods_answer (keeps : router.Keeps log) (path : String)
    (methods : List String) :
    (router.matchingMethods path methods).answer =
      methods.filter fun method => (walk router.trees method path).result?.isSome := by
  induction methods generalizing router with
  | nil => rfl
  | cons method methods ih =>
      have looked := (quiet_lookup router method path).undisturbed
      have hfirst : (router.lookup method path).answer.handler.isSome =
          (walk router.trees method path).result?.isSome := by
        rw [Bool.eq_iff_iff, keeps.lookup_isSome_iff, keeps.registers.walk_isSome_iff]
      rw [matchingMethods]
      dsimp only
      rw [ih (keeps.of_undisturbed looked), hfirst, looked.trees, List.filter_cons]

theorem Keeps.allowed_answer (keeps : router.Keeps log) {path : String} (plain : path ≠ "*")
    (exclude : String) :
    (router.allowed path exclude).answer = allowText (router.listed path exclude) := by
  unfold allowed
  rw [if_neg plain]
  dsimp only
  rw [keeps.matchingMethods_answer]
  rfl

theorem sorted_listed (ordered : router.trees.Ordered) (path exclude : String) :
    (router.listed path exclude).Pairwise (· < ·) :=
  (List.Pairwise.filter _ ordered).filter _

/-- The methods listed are those that match. -/
theorem Keeps.mem_listed_iff (keeps : router.Keeps log) {path exclude method : String} :
    method ∈ router.listed path exclude ↔
      Matching log method path ∧ method ≠ exclude ∧ method ≠ "OPTIONS" := by
  rw [← keeps.registers.walk_isSome_iff]
  simp only [listed, askable, List.mem_filter, Bool.and_eq_true, decide_eq_true_eq]
  constructor
  · rintro ⟨⟨-, hasked⟩, hwalk⟩
    exact ⟨hwalk, hasked⟩
  · rintro ⟨hwalk, hasked⟩
    obtain ⟨found, hfound⟩ := Option.isSome_iff_exists.mp hwalk
    exact ⟨⟨StringMap.mem_keys_iff.mpr (contains_of_walk hfound), hasked⟩, hwalk⟩

/-- The order in which the trees are asked does not show in the value. -/
theorem Keeps.allowedIn_answer (keeps : router.Keeps log) {order : List String}
    (all : order.Perm router.methods) {path : String} (plain : path ≠ "*") (exclude : String) :
    (router.allowedIn order path exclude).answer = (router.allowed path exclude).answer := by
  rw [keeps.allowed_answer plain]
  unfold allowedIn
  dsimp only
  rw [keeps.matchingMethods_answer]
  refine congrArg allowText ?_
  have sorted := sorted_listed keeps.registers.ordered path exclude
  have same := (List.mergeSort_perm ((askable exclude order).filter fun method =>
    (walk router.trees method path).result?.isSome) fun method other => method ≤ other).trans
      ((all.filter _).filter _)
  exact same.eq_of_sortedLE (List.pairwise_mergeSort' (· ≤ ·) _).sortedLE
    (sorted.imp le_of_lt).sortedLE

/-- The value does not change with what leaves the routes alone. -/
theorem Keeps.allowed_of_undisturbed (keeps : router.Keeps log) {state : Router α γ}
    (undisturbed : router.Undisturbed state) (path exclude : String) :
    (state.allowed path exclude).answer = (router.allowed path exclude).answer := by
  by_cases plain : path = "*"
  · rw [plain]
    simp only [allowed, if_pos, methods, undisturbed.trees]
  · rw [keeps.allowed_answer plain, (keeps.of_undisturbed undisturbed).allowed_answer plain]
    simp only [listed, methods, undisturbed.trees]

/-- Where no route takes a request and nothing is proposed, the `Allow` value decides. -/
theorem Keeps.resolve_unmatched (keeps : router.Keeps log) {method path : String}
    (unmatching : ¬ Matching log method path)
    (staying : ∀ target, (router.resolve method path).answer ≠ .redirect target) :
    (router.resolve method path).answer =
      unmatched router.config method (router.allowed path method).answer := by
  have missed : (router.lookup method path).answer.handler = none := by
    rw [← Option.not_isSome_iff_eq_none, keeps.lookup_isSome_iff]
    exact unmatching
  rcases resolve_of_missed missed with ⟨target, hresolved, -⟩ | ⟨state, undisturbed, hresolved⟩
  · exact absurd hresolved (staying target)
  · rw [hresolved, undisturbed.config, keeps.allowed_of_undisturbed undisturbed]

variable [Handler α γ] [ParamSink γ]

theorem config_perform (router : Router α γ) (operation : Operation α γ) :
    (router.perform operation).state.config = router.config := by
  cases operation with
  | handle method pattern handler =>
      show (router.handle method pattern handler).state.config = _
      rw [handle_eq]
      split <;> rfl
  | lookup method path => exact (quiet_lookup router method path).undisturbed.config
  | resolve method path => exact (quiet_resolve router method path).undisturbed.config
  | serve method path context => exact (undisturbed_serve router method path context).config
  | allowed path exclude => exact (quiet_allowed router path exclude).undisturbed.config
  | respell method path fix => rfl
  | clearCache => rfl
  | startSweeper runtime =>
      obtain ⟨⟨sweeper, hstate⟩, -⟩ := router.startSweeper_effect runtime
      exact congrArg (·.config) hstate
  | shutdown =>
      show router.shutdown.state.config = _
      rw [shutdown_eq]
  | advance ms => exact (quiet_advance router ms).undisturbed.config
  | install fallback => cases fallback <;> rfl

/-- A configuration is given once and for all. -/
theorem config_run (router : Router α γ) (operations : List (Operation α γ)) :
    (router.run operations).state.config = router.config := by
  induction operations generalizing router with
  | nil => rfl
  | cons operation operations ih => exact (ih _).trans (config_perform router operation)

/-- In every reachable router: the `Allow` value lists exactly the methods that match the path,
sorted, whatever the order in which the trees are asked, and each of them resolves to a route.  A
request resolves to a route exactly if its method matches; otherwise, unless it is redirected, the
`Allow` value and the configuration decide.  A sink of any kind is given the parameters of the
route, and nothing where no route is found, whatever is looked up for the `Allow` value. -/
theorem allow_lists_exact (config : RouterConfig) (operations : List (Operation α γ))
    (method path : String) :
    let router := ((Router.new config : Router α γ).run operations).state
    let accepted := (Router.new config : Router α γ).accepted operations
    let allow := (router.allowed path method).answer
    let answer := (router.resolve method path).answer
    path ≠ "*" →
    (∀ exclude, ∃ methods : List String,
      methods.Pairwise (· < ·) ∧
      (∀ other, other ∈ methods ↔
        Matching accepted other path ∧ other ≠ exclude ∧ other ≠ "OPTIONS") ∧
      (router.allowed path exclude).answer =
        (if methods = [] then "" else ", ".intercalate (methods ++ ["OPTIONS"])) ∧
      (∀ order : List String, order.Perm router.methods →
        (router.allowedIn order path exclude).answer = (router.allowed path exclude).answer) ∧
      ∀ other ∈ methods, (router.resolve other path).answer.found?.isSome = true) ∧
    (answer.found?.isSome = true ↔ Matching accepted method path) ∧
    (¬ Matching accepted method path → (∀ target, answer ≠ .redirect target) →
      answer =
        if method = "OPTIONS" ∧ config.handleOptions = true ∧ allow ≠ "" then .options allow
        else if method ≠ "OPTIONS" ∧ config.handleMethodNotAllowed = true ∧ allow ≠ "" then
          .methodNotAllowed allow
        else .notFound) ∧
    (∀ {σ : Type} [ParamSink σ] (sink : σ),
      let resolved := (router.resolveInto method path sink).answer
      resolved = (answer, answer.params.replayInto sink) ∧
        (answer.found? = none → resolved.2 = sink)) := by
  intro router accepted allow answer plain
  have keeps : router.Keeps accepted := keeps_run_new config operations
  refine ⟨?_, keeps.found?_isSome_iff method path, ?_, ?_⟩
  · intro exclude
    refine ⟨router.listed path exclude, sorted_listed keeps.registers.ordered path exclude,
      fun other => keeps.mem_listed_iff, ?_, ?_, ?_⟩
    · rw [keeps.allowed_answer plain, allowText]
      simp only [List.isEmpty_iff]
    · intro order all
      exact keeps.allowedIn_answer all plain exclude
    · intro other inside
      exact (keeps.found?_isSome_iff other path).mpr (keeps.mem_listed_iff.mp inside).1
  · intro unmatching staying
    have settled : router.config = config := config_run (Router.new config) operations
    have hresolved := keeps.resolve_unmatched unmatching staying
    rw [settled] at hresolved
    exact hresolved
  · intro σ _ sink resolved
    have hresolved : resolved = (answer, answer.params.replayInto sink) :=
      congrArg Step.answer (resolveInto_eq router method path sink)
    rw [hresolved]
    refine ⟨rfl, fun nothing => ?_⟩
    rw [RouteMatch.params_eq, nothing]
    rfl

/-- The files of the witness below: two methods that match a file, and two that do not. -/
def fileSession : List (Operation Scripted Record) :=
  [.handle "POST" "/files/:name" ⟨"upload", none⟩, .handle "GET" "/files/*path" ⟨"show", none⟩,
    .handle "PUT" "/files" ⟨"create", none⟩, .handle "DELETE" "/file" ⟨"drop", none⟩,
    .resolve "POST" "/files/a"]

/-- A file can be fetched and uploaded, but not put. -/
theorem allow_lists_exact_files :
    let router := ((Router.new {} : Router Scripted Record).run fileSession).state
    (router.resolve "PUT" "/files/a").answer = .methodNotAllowed "GET, POST, OPTIONS" ∧
      (router.allowedIn ["PUT", "POST", "GET", "DELETE"] "/files/a" "PUT").answer =
        "GET, POST, OPTIONS" := by
  intro router
  have plain : "/files/a" ≠ "*" := by decide
  have allow : (((Router.new {} : Router Scripted Record).run fileSession).state.allowed
      "/files/a" "PUT").answer = "GET, POST, OPTIONS" := by
    decide +kernel
  have missed : ¬ (((Router.new {} : Router Scripted Record).run fileSession).state.resolve
      "PUT" "/files/a").answer.found?.isSome = true := by
    decide +kernel
  have staying : (((Router.new {} : Router Scripted Record).run fileSession).state.resolve
      "PUT" "/files/a").answer.redirect? = none := by
    decide +kernel
  have methods : ((Router.new {} : Router Scripted Record).run fileSession).state.methods =
      ["DELETE", "GET", "POST", "PUT"] := by
    decide +kernel
  obtain ⟨hlists, hfound, hunmatched, -⟩ :=
    allow_lists_exact {} fileSession "PUT" "/files/a" plain
  obtain ⟨-, -, -, -, horder, -⟩ := hlists "PUT"
  constructor
  · refine (hunmatched (hfound.not.mp missed) ?_).trans ?_
    · intro target redirected
      rw [← RouteMatch.redirect?_eq_some_iff, staying] at redirected
      cases redirected
    · rw [allow]
      rfl
  · rw [horder _ (by rw [methods]; decide), allow]

end Router

end RadixRouter

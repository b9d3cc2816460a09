/-
# Which registrations are accepted

A pattern is accepted exactly when it follows the grammar, is not yet accepted for its method,
and is in conflict with no pattern that is.  The code of a refusal tells which of these fails.
All of this holds of every reachable router, so neither the order of the registrations nor
refused ones among them play a part.
-/

import RadixRouter.Proofs.Coherence
import RadixRouter.Proofs.Conflict

namespace RadixRouter

open Pattern (Faultless Conflict)

variable {α γ : Type}

/-- The patterns that a log lists for a method. -/
def patternsOf (method : String) (log : List (Registration α)) : List String :=
  (log.filter (·.method = method)).map (·.pattern)

theorem mem_patternsOf {method pattern : String} {log : List (Registration α)} :
    pattern ∈ patternsOf method log ↔
      ∃ registration ∈ log, registration.method = method ∧ registration.pattern = pattern := by
  simp [patternsOf, and_assoc]

/-- The codes of patterns that break the grammar. -/
def syntaxCodes : List String := ["R1001", "R1004", "R1005", "R1006", "R1008"]

theorem code_ofFault_mem (pattern : String) (fault : Pattern.Fault) :
    (RouteError.ofFault pattern fault).code ∈ syntaxCodes := by
  cases fault <;> simp [RouteError.ofFault, RouteError.code, syntaxCodes]

theorem rivalry_code_not_mem (kind : Rivalry) : kind.code ∉ syntaxCodes := by
  cases kind <;> decide

section Log

variable {trees : StringMap (Node α)} {log : List (Registration α)} {method pattern : String}

theorem Registers.faultless_of_mem (registers : Registers trees log)
    (inside : pattern ∈ patternsOf method log) : Faultless pattern := by
  obtain ⟨registration, hlogged, -, rfl⟩ := mem_patternsOf.mp inside
  exact registers.faultless registration hlogged

/-- The routes of a method tolerate a pattern exactly when it is new and in no conflict. -/
theorem Registers.standing_eq_none_iff (registers : Registers trees log)
    (faultless : Faultless pattern) :
    standing (routesOf method log) (Pattern.route pattern) = none ↔
      pattern ∉ patternsOf method log ∧ ∀ old ∈ patternsOf method log, ¬ Conflict old pattern := by
  rw [RadixRouter.standing_eq_none_iff]
  apply Iff.intro
  · intro none
    have apart : ∀ old ∈ patternsOf method log, old ≠ pattern ∧ ¬ Conflict old pattern := by
      intro old hold
      have faultless' := registers.faultless_of_mem hold
      obtain ⟨registration, hlogged, hmethod, rfl⟩ := mem_patternsOf.mp hold
      exact (faultless'.rivalry_eq_none_iff faultless).mp
        (none _ (mem_routesOf.mpr ⟨registration, hlogged, hmethod, rfl, rfl⟩))
    exact ⟨fun inside => (apart pattern inside).1 rfl, fun old hold => (apart old hold).2⟩
  · rintro ⟨fresh, peaceful⟩ ⟨route, handler⟩ hroute
    obtain ⟨registration, hlogged, hmethod, rfl, -⟩ := mem_routesOf.mp hroute
    have inside : registration.pattern ∈ patternsOf method log :=
      mem_patternsOf.mpr ⟨registration, hlogged, hmethod, rfl⟩
    have different : registration.pattern ≠ pattern := by
      rintro rfl
      exact fresh inside
    exact ((registers.faultless _ hlogged).rivalry_eq_none_iff faultless).mpr
      ⟨different, peaceful _ inside⟩

/-- Patterns of one method in a log are not in conflict, in either order. -/
theorem Registers.rivalry_of_mem (registers : Registers trees log) {old new : String}
    (hold : old ∈ patternsOf method log) (hnew : new ∈ patternsOf method log) :
    old = new ∨ rivalry (Pattern.route old) (Pattern.route new) = none := by
  have faultless := registers.faultless_of_mem hold
  have faultless' := registers.faultless_of_mem hnew
  obtain ⟨first, hfirst, hmethod, rfl⟩ := mem_patternsOf.mp hold
  obtain ⟨second, hsecond, hmethod', rfl⟩ := mem_patternsOf.mp hnew
  rcases eq_or_related_of_pairwise registers.apart hfirst hsecond with h | h | h
  · exact Or.inl (congrArg Registration.pattern h)
  · exact Or.inr (h (hmethod.trans hmethod'.symm))
  · obtain ⟨hne, hpeace⟩ :=
      (faultless'.rivalry_eq_none_iff faultless).mp (h (hmethod'.trans hmethod.symm))
    exact Or.inr ((faultless.rivalry_eq_none_iff faultless').mpr
      ⟨hne.symm, mt Pattern.conflict_comm.mp hpeace⟩)

/-- A pattern is refused as a duplicate exactly when it is in the log. -/
theorem Registers.standing_eq_duplicate_iff (registers : Registers trees log) :
    standing (routesOf method log) (Pattern.route pattern) = some .duplicate ↔
      pattern ∈ patternsOf method log := by
  apply Iff.intro
  · intro refused
    obtain ⟨⟨route, handler⟩, hroute, hrivalry⟩ := exists_of_standing refused
    obtain ⟨registration, hlogged, hmethod, rfl, -⟩ := mem_routesOf.mp hroute
    have same := Pattern.route_injective (Pattern.rivalry_eq_duplicate_iff.mp hrivalry)
    exact mem_patternsOf.mpr ⟨registration, hlogged, hmethod, same⟩
  · intro inside
    cases hstanding : standing (routesOf method log) (Pattern.route pattern) with
    | none =>
        have fresh := (registers.standing_eq_none_iff (registers.faultless_of_mem inside)).mp
          hstanding
        exact absurd inside fresh.1
    | some kind =>
        obtain ⟨⟨route, handler⟩, hroute, hrivalry⟩ := exists_of_standing hstanding
        obtain ⟨registration, hlogged, hmethod, rfl, -⟩ := mem_routesOf.mp hroute
        have hold : registration.pattern ∈ patternsOf method log :=
          mem_patternsOf.mpr ⟨registration, hlogged, hmethod, rfl⟩
        rcases registers.rivalry_of_mem hold inside with h | h
        · rw [← hrivalry]
          exact Pattern.rivalry_eq_duplicate_iff.mpr (congrArg Pattern.route h)
        · rw [h] at hrivalry
          cases hrivalry

/-- A faultless pattern is answered by its standing with the routes of its method. -/
theorem verdictCode?_of_faultless (listing : List (List Token × α))
    (faultless : Faultless pattern) :
    verdictCode? listing pattern = (standing listing (Pattern.route pattern)).map Rivalry.code := by
  unfold verdictCode?
  rw [Faultless] at faultless
  rw [faultless]

/-- A pattern that breaks the grammar is answered by the rule it breaks. -/
theorem verdictCode?_of_not_faultless (listing : List (List Token × α))
    (faulty : ¬ Faultless pattern) :
    ∃ code ∈ syntaxCodes, verdictCode? listing pattern = some code := by
  unfold verdictCode?
  rw [Faultless] at faulty
  obtain ⟨fault, hfault⟩ := Option.ne_none_iff_exists'.mp faulty
  rw [hfault]
  exact ⟨_, code_ofFault_mem pattern fault, rfl⟩

theorem rivalry_code_inj {kind kind' : Rivalry} : kind.code = kind'.code ↔ kind = kind' := by
  cases kind <;> cases kind' <;> decide

theorem Registers.code_accepted_iff (registers : Registers trees log) :
    verdictCode? (routesOf method log) pattern = none ↔
      Faultless pattern ∧ pattern ∉ patternsOf method log ∧
        ∀ old ∈ patternsOf method log, ¬ Conflict old pattern := by
  rw [verdictCode?_eq_none_iff]
  exact and_congr_right fun faultless => registers.standing_eq_none_iff faultless

/-- A code other than those of the grammar tells the rivalry. -/
theorem verdictCode?_eq_code_iff {listing : List (List Token × α)} {kind : Rivalry} :
    verdictCode? listing pattern = some kind.code ↔
      Faultless pattern ∧ standing listing (Pattern.route pattern) = some kind := by
  by_cases faultless : Faultless pattern
  · rw [verdictCode?_of_faultless listing faultless, Option.map_eq_some_iff]
    apply Iff.intro
    · rintro ⟨kind', hstanding, hcode⟩
      rw [rivalry_code_inj.mp hcode] at hstanding
      exact ⟨faultless, hstanding⟩
    · rintro ⟨-, hstanding⟩
      exact ⟨kind, hstanding, rfl⟩
  · obtain ⟨code, hmem, hcode⟩ := verdictCode?_of_not_faultless listing faultless
    rw [hcode]
    apply Iff.intro
    · intro h
      rw [Option.some.inj h] at hmem
      exact absurd hmem (rivalry_code_not_mem kind)
    · rintro ⟨h, -⟩
      exact absurd h faultless

theorem Registers.code_duplicate_iff (registers : Registers trees log) :
    verdictCode? (routesOf method log) pattern = some Rivalry.duplicate.code ↔
      Faultless pattern ∧ pattern ∈ patternsOf method log := by
  rw [verdictCode?_eq_code_iff, registers.standing_eq_duplicate_iff]

theorem Registers.code_conflict_iff (registers : Registers trees log) :
    (verdictCode? (routesOf method log) pattern = some Rivalry.wildcard.code ∨
        verdictCode? (routesOf method log) pattern = some Rivalry.catchAll.code) ↔
      Faultless pattern ∧ pattern ∉ patternsOf method log ∧
        ∃ old ∈ patternsOf method log, Conflict old pattern := by
  rw [verdictCode?_eq_code_iff, verdictCode?_eq_code_iff, ← and_or_left]
  refine and_congr_right fun faultless => ?_
  have hnone : standing (routesOf method log) (Pattern.route pattern) = none ↔ _ :=
    registers.standing_eq_none_iff faultless
  rw [← registers.standing_eq_duplicate_iff] at hnone ⊢
  apply Iff.intro
  · intro refused
    have hduplicate : standing (routesOf method log) (Pattern.route pattern) ≠
        some .duplicate := by
      rcases refused with h | h <;> rw [h] <;> decide
    refine ⟨hduplicate, ?_⟩
    by_contra peaceful
    rw [hnone.mpr ⟨hduplicate, fun old hold h => peaceful ⟨old, hold, h⟩⟩] at refused
    rcases refused with h | h <;> cases h
  · rintro ⟨hduplicate, old, hold, hconflict⟩
    cases hstanding : standing (routesOf method log) (Pattern.route pattern) with
    | none => exact absurd hconflict ((hnone.mp hstanding).2 old hold)
    | some kind =>
        cases kind with
        | duplicate => exact absurd hstanding hduplicate
        | catchAll => exact Or.inr rfl
        | wildcard => exact Or.inl rfl

theorem code_syntax_iff {listing : List (List Token × α)} :
    (∃ code ∈ syntaxCodes, verdictCode? listing pattern = some code) ↔ ¬ Faultless pattern := by
  apply Iff.intro
  · rintro ⟨code, hmem, hcode⟩ faultless
    rw [verdictCode?_of_faultless listing faultless, Option.map_eq_some_iff] at hcode
    obtain ⟨kind, -, rfl⟩ := hcode
    exact rivalry_code_not_mem kind hmem
  · exact verdictCode?_of_not_faultless listing

end Log

theorem code?_eq_none_iff {verdict : Except RouteError Unit} :
    code? verdict = none ↔ verdict = .ok () := by
  cases verdict <;> simp [code?]

/-- What a verdict says of a pattern beside the patterns that were accepted before. -/
structure Judged (accepted : List String) (pattern : String) (verdict : Except RouteError Unit) :
    Prop where
  accepted_iff : verdict = .ok () ↔ Faultless pattern ∧ pattern ∉ accepted ∧
    ∀ old ∈ accepted, ¬ Conflict old pattern
  duplicate_iff : code? verdict = some "R1002" ↔ Faultless pattern ∧ pattern ∈ accepted
  conflict_iff : (code? verdict = some "R1003" ∨ code? verdict = some "R1007") ↔
    Faultless pattern ∧ pattern ∉ accepted ∧ ∃ old ∈ accepted, Conflict old pattern
  fault_iff : (∃ code ∈ ["R1001", "R1004", "R1005", "R1006", "R1008"],
    code? verdict = some code) ↔ ¬ Faultless pattern

namespace Router

theorem Keeps.judged {router : Router α γ} {log : List (Registration α)} (keeps : router.Keeps log)
    (method pattern : String) (handler : α) :
    Judged (patternsOf method log) pattern (router.handle method pattern handler).answer := by
  have hcode : code? (router.handle method pattern handler).answer =
      verdictCode? (routesOf method log) pattern := code?_handle_eq keeps.registers
  constructor
  · rw [← code?_eq_none_iff, hcode]
    exact keeps.registers.code_accepted_iff
  · rw [hcode]
    exact keeps.registers.code_duplicate_iff
  · rw [hcode]
    exact keeps.registers.code_conflict_iff
  · rw [hcode]
    exact code_syntax_iff

variable [Handler α γ] [ParamSink γ]

/-- In every reachable router: a pattern is accepted exactly when it follows the grammar, is new
for its method and is in conflict with none of its patterns; `R1002` says exactly that a pattern
that follows the grammar is not new, `R1003` or `R1007` that a new one is in conflict, and the
other codes exactly that a pattern breaks the grammar. -/
theorem handle_accepts_iff (config : RouterConfig) (operations : List (Operation α γ))
    (method pattern : String) (handler : α) :
    let router := ((Router.new config : Router α γ).run operations).state
    let accepted := patternsOf method ((Router.new config : Router α γ).accepted operations)
    let verdict := (router.handle method pattern handler).answer
    (verdict = .ok () ↔ Faultless pattern ∧ pattern ∉ accepted ∧
      ∀ old ∈ accepted, ¬ Conflict old pattern) ∧
    (code? verdict = some "R1002" ↔ Faultless pattern ∧ pattern ∈ accepted) ∧
    ((code? verdict = some "R1003" ∨ code? verdict = some "R1007") ↔
      Faultless pattern ∧ pattern ∉ accepted ∧ ∃ old ∈ accepted, Conflict old pattern) ∧
    ((∃ code ∈ ["R1001", "R1004", "R1005", "R1006", "R1008"], code? verdict = some code) ↔
      ¬ Faultless pattern) := by
  intro router accepted verdict
  have keeps : router.Keeps ((Router.new config : Router α γ).accepted operations) :=
    keeps_run_new config operations
  have judged := keeps.judged method pattern handler
  exact ⟨judged.accepted_iff, judged.duplicate_iff, judged.conflict_iff, judged.fault_iff⟩

end Router

end RadixRouter

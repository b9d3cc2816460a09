/-
# Look-ups are exact

After any operations, a look-up answers with the handler of the one accepted pattern that the
path matches, and with the text that replaces its wildcards; where no accepted pattern matches,
it answers with none and writes nothing.  Patterns and paths are compared as characters, so
nothing of this depends on where the tree cuts its labels.
-/

import RadixRouter.Proofs.Coherence
import RadixRouter.Proofs.PatternMatching

namespace RadixRouter

open Pattern (Matches matches_iff_fits)

variable {α γ : Type}

theorem Search.answer_eq_iff {result : Search α} {handler : α} {params : Params} :
    (result.answer.handler = some handler ∧ result.answer.params = params) ↔
      ∃ captures, result.result? = some (handler, captures) ∧
        Params.ofCaptures captures = params := by
  cases result with
  | found handler' captures deepest => simp [Search.answer, Search.result?]
  | missed hint => simp [Search.answer, Search.result?, Lookup.miss]

/-- A walk finds exactly the registrations whose pattern the path matches. -/
theorem Registers.walk_answer {trees : StringMap (Node α)} {log : List (Registration α)}
    (registers : Registers trees log) {method path : String} {handler : α} {params : Params} :
    ((walk trees method path).answer.handler = some handler ∧
        (walk trees method path).answer.params = params) ↔
      ∃ registration ∈ log, registration.method = method ∧ registration.handler = handler ∧
        Matches registration.pattern path params := by
  rw [Search.answer_eq_iff]
  apply Iff.intro
  · rintro ⟨captures, hresult, hparams⟩
    obtain ⟨registration, hlogged, hmethod, hhandler, fits⟩ := registers.walk_result.mp hresult
    exact ⟨registration, hlogged, hmethod, hhandler, matches_iff_fits.mpr ⟨captures, fits, hparams⟩⟩
  · rintro ⟨registration, hlogged, hmethod, hhandler, hmatches⟩
    obtain ⟨captures, fits, hparams⟩ := matches_iff_fits.mp hmatches
    exact ⟨captures, registers.walk_result.mpr ⟨registration, hlogged, hmethod, hhandler, fits⟩,
      hparams⟩

/-- A path matches at most one registration of a method, and in one way. -/
theorem Registers.matches_unique {trees : StringMap (Node α)} {log : List (Registration α)}
    (registers : Registers trees log) {first second : Registration α} (hfirst : first ∈ log)
    (hsecond : second ∈ log) (method : first.method = second.method) {path : String}
    {params params' : Params} (matched : Matches first.pattern path params)
    (matched' : Matches second.pattern path params') : first = second ∧ params = params' := by
  obtain ⟨captures, fits, hparams⟩ := matches_iff_fits.mp matched
  obtain ⟨captures', fits', hparams'⟩ := matches_iff_fits.mp matched'
  have hsame := registers.fits_unique hfirst hsecond method fits fits'
  refine ⟨hsame, ?_⟩
  subst hsame
  have hresult := registers.walk_result.mpr ⟨first, hfirst, rfl, rfl, fits⟩
  rw [registers.walk_result.mpr ⟨first, hfirst, rfl, rfl, fits'⟩] at hresult
  cases hresult
  exact hparams.symm.trans hparams'

namespace Router

variable [Handler α γ] [ParamSink γ]

/-- After any operations, a look-up finds exactly the accepted pattern of the method that the
path matches, of which there is at most one; it answers with the handler registered with that
pattern and with the characters that replace each wildcard.  A sink of any kind is given each name
with these characters, in the order of the pattern, and nothing where no pattern matches. -/
theorem lookup_exact (config : RouterConfig) (operations : List (Operation α γ))
    (method path : String) :
    let router := ((Router.new config : Router α γ).run operations).state
    let accepted := (Router.new config : Router α γ).accepted operations
    let answer := (router.lookup method path).answer
    (∀ handler params, (answer.handler = some handler ∧ answer.params = params) ↔
      ∃ registration ∈ accepted, registration.method = method ∧
        registration.handler = handler ∧ Matches registration.pattern path params) ∧
    (∀ first ∈ accepted, ∀ second ∈ accepted, first.method = method → second.method = method →
      ∀ params params', Matches first.pattern path params → Matches second.pattern path params' →
        first = second ∧ params = params') ∧
    (∀ {σ : Type} [ParamSink σ] (sink : σ),
      let looked := (router.lookupInto method path sink).answer
      looked = (answer, answer.params.replayInto sink) ∧
      (answer.handler = none → looked.2 = sink) ∧
      ∀ registration ∈ accepted, registration.method = method →
        ∀ params, Matches registration.pattern path params →
          looked.2 = params.toList.foldl (fun sink pair => ParamSink.setParam sink pair.1 pair.2)
            sink) := by
  intro router accepted answer
  have keeps : router.Keeps accepted := keeps_run_new config operations
  obtain ⟨hhandler, -, hparams⟩ := lookup_fields keeps.coherent method path
  have finds : ∀ handler params, (answer.handler = some handler ∧ answer.params = params) ↔
      ∃ registration ∈ accepted, registration.method = method ∧
        registration.handler = handler ∧ Matches registration.pattern path params := by
    intro handler params
    rw [hhandler, hparams]
    exact keeps.registers.walk_answer
  refine ⟨finds, ?_, ?_⟩
  · intro first hfirst second hsecond hmethod hmethod' params params' matched matched'
    exact keeps.registers.matches_unique hfirst hsecond (hmethod.trans hmethod'.symm) matched
      matched'
  · intro σ _ sink looked
    have hlooked : looked = (answer, answer.params.replayInto sink) :=
      congrArg Step.answer (lookupInto_eq router method path sink)
    rw [hlooked]
    refine ⟨rfl, fun hnone => ?_, fun registration hlogged hmethod params matched => ?_⟩
    · have hnothing : answer.params = Params.empty := params_of_missed hnone
      rw [hnothing]
      rfl
    · obtain ⟨-, hwritten⟩ :=
        (finds registration.handler params).mpr ⟨registration, hlogged, hmethod, rfl, matched⟩
      rw [hwritten]
      rfl

end Router

end RadixRouter

/-
# Corrected paths resolve

A path that the corrector answers with is one that a look-up finds, so a redirect to it leads
to a handler at once and is never followed by another.  Registering more routes does not change
this, since what a look-up finds stays found.
-/

import RadixRouter.Proofs.Outcomes
import RadixRouter.Proofs.Respelling
import RadixRouter.Scripted

namespace RadixRouter

variable {α γ : Type}

/-- A search finds what the corrector answers with. -/
theorem Node.Rooted.find_of_respelling {tree : Node α} (rooted : tree.Rooted)
    {path corrected : String} {fix : Bool}
    (respelled : tree.respelling? path fix = some corrected) :
    ∃ found, (tree.find (Utf8.encode corrected)).result? = some found := by
  obtain ⟨rest, -, hspelling⟩ := Node.respelling?_eq_some_iff.mp respelled
  rcases (respell_takes fix).1 tree slash (slash :: rest) [] false _ rooted.sound (carries_nil _)
    (fun _ => rfl) hspelling with ⟨h, -⟩ | ⟨handler, captures, hroute⟩
  · cases h
  · exact ⟨(handler, captures), rooted.find_result.mpr hroute⟩

/-- The routes that take a path are those of the patterns that it matches. -/
theorem Registers.takes_iff {trees : StringMap (Node α)} {log : List (Registration α)}
    {method path : String} {tree : Node α} (registers : Registers trees log)
    (htree : trees.get? method = some tree) :
    Takes tree.listing (Utf8.encode path) ↔ Matching log method path := by
  have holds := registers.holds method
  rw [htree] at holds
  rw [← registers.walk_isSome_iff, walk, htree, Option.isSome_iff_exists]
  constructor
  · rintro ⟨handler, captures, hroute⟩
    exact ⟨(handler, captures), holds.1.find_result.mpr hroute⟩
  · rintro ⟨⟨handler, captures⟩, hfound⟩
    exact ⟨handler, captures, holds.1.find_result.mp hfound⟩

namespace Router

variable {router : Router α γ} {log : List (Registration α)} {method path corrected : String}

/-- A walk finds what the corrector answers with. -/
theorem Keeps.walk_of_respelling (keeps : router.Keeps log) {fix : Bool}
    (respelled : router.respelling? method path fix = some corrected) :
    ∃ found, (walk router.trees method corrected).result? = some found := by
  obtain ⟨tree, htree, hcorrected⟩ := Option.bind_eq_some_iff.mp respelled
  have holds := keeps.registers.holds method
  rw [htree] at holds
  rw [walk, htree]
  exact holds.1.find_of_respelling hcorrected

/-- A redirect to a corrected path is answered where a look-up finds nothing, and leads to a
correction of the clean path. -/
theorem respelling_of_redirect {location : String} {status : Status}
    (redirected : (router.resolve method path).answer =
      .redirect ⟨location, status, .fixedPath⟩) :
    (router.lookup method path).answer.handler = none ∧
      ∃ fix, (router.lookup method path).state.respelling? method (cleanPath path) fix =
        some location := by
  obtain ⟨hnone, hproposed⟩ := redirect_of_resolve redirected
  obtain ⟨-, ⟨hkind, -⟩ | ⟨-, hrespelled⟩⟩ := redirect?_eq_some hproposed
  · cases hkind
  · exact ⟨hnone, hrespelled⟩

variable [Handler α γ] [ParamSink γ]

/-- After any operations, a corrected path is one that a look-up finds.  So a redirect to it
leads to another path, which is resolved to a handler then and after any further operations. -/
theorem corrected_path_resolves (config : RouterConfig) (operations : List (Operation α γ))
    (method path : String) :
    let router := ((Router.new config : Router α γ).run operations).state
    (∀ fix corrected, router.respelling? method path fix = some corrected →
      (router.lookup method corrected).answer.handler.isSome = true) ∧
    ∀ location status,
      (router.resolve method path).answer = .redirect ⟨location, status, .fixedPath⟩ →
        location ≠ path ∧
          ∀ further : List (Operation α γ), ∃ handler cached params,
            ((router.run further).state.resolve method location).answer =
              .found handler cached params := by
  intro router
  have keeps := keeps_run_new (α := α) (γ := γ) config operations
  apply And.intro
  · intro fix corrected respelled
    obtain ⟨found, hfound⟩ := keeps.walk_of_respelling respelled
    rw [keeps.handler_of_walk hfound]
    rfl
  · intro location status redirected
    obtain ⟨hnone, fix, respelled⟩ := respelling_of_redirect redirected
    have undisturbed := (quiet_lookup router method path).undisturbed
    obtain ⟨found, hfound⟩ := (keeps.of_undisturbed undisturbed).walk_of_respelling respelled
    rw [undisturbed.trees] at hfound
    refine ⟨?_, fun further => ?_⟩
    · rintro rfl
      rw [keeps.handler_of_walk hfound] at hnone
      cases hnone
    · have later := keeps.run further
      obtain ⟨cached, params, hresolved⟩ :=
        later.resolve_of_walk (walk_mono keeps.registers later.registers hfound)
      exact ⟨found.1, cached, params, hresolved⟩

/-- One redirect from another case and a missing segment, then a handler. -/
theorem corrected_path_resolves_once :
    let router := ((Router.new {} : Router Scripted Record).run
      [.handle "GET" "/café/:item" ⟨"menu", none⟩]).state
    let after := (router.run [.resolve "GET" "//CAFÉ/Tea/"]).state
    (router.resolve "GET" "//CAFÉ/Tea/").answer =
        .redirect ⟨"/café/Tea", .movedPermanently, .fixedPath⟩ ∧
      ∃ handler cached params,
        (after.resolve "GET" "/café/Tea").answer = .found handler cached params := by
  have redirected : (((Router.new {} : Router Scripted Record).run
      [.handle "GET" "/café/:item" ⟨"menu", none⟩]).state.resolve "GET" "//CAFÉ/Tea/").answer =
        .redirect ⟨"/café/Tea", .movedPermanently, .fixedPath⟩ := by
    refine RouteMatch.redirect?_eq_some_iff.mp ?_
    decide +kernel
  exact ⟨redirected, ((corrected_path_resolves {} _ "GET" "//CAFÉ/Tea/").2 _ _ redirected).2 _⟩

end Router

end RadixRouter

/-
# Where a recommended slash leads

A look-up that recommends the other slash knows that the path with one slash more, or without its
last slash, is found; it does not say which of the two.  A redirect goes by the last character of
the path: it takes a slash away where the path ends in one.  The two part only where the path ends
in a slash and a pattern with two slashes in a row is the one that the hint speaks of; then the
redirect may lead to a path that no pattern matches.
-/

import RadixRouter.Proofs.HintSoundness
import RadixRouter.Proofs.Outcomes
import RadixRouter.Proofs.SlashRecommendation
import RadixRouter.Scripted

namespace RadixRouter

open Pattern (Matches)
open Utf8 (encode_append_slash)

variable {α γ : Type}

/-- A route that suits a path which ends in two slashes goes through two slashes in a row, or suits
the path without the last of them. -/
theorem doubled_or_suits {route : List Token} {before : List UInt8}
    (suits : Suits route (before ++ [slash, slash])) :
    Doubled route ∨ Suits route (before ++ [slash]) := by
  obtain ⟨captures, fits⟩ := suits
  generalize hpath : before ++ [slash, slash] = path at fits
  induction fits generalizing before with
  | done => exact absurd hpath (List.append_ne_nil_of_right_ne_nil _ (List.cons_ne_nil _ _))
  | @byte b route path captures rest ih =>
      cases before with
      | nil =>
          obtain ⟨rfl, rfl⟩ := List.cons.inj hpath
          obtain ⟨tail, rfl⟩ := head_of_suits_slash ⟨captures, rest⟩
          exact Or.inl ⟨[], tail, rfl⟩
      | cons c before =>
          obtain ⟨rfl, hrest⟩ := List.cons.inj hpath
          rcases ih hrest with doubled | ⟨captures', fits⟩
          · exact Or.inl (doubled.append_left [.byte c])
          · exact Or.inr ⟨captures', .byte fits⟩
  | @param name value route path captures nonempty noSlash rest ih =>
      -- the value ends before the first of the two slashes
      obtain ⟨before, rfl, hrest⟩ : ∃ before', before = value ++ before' ∧
          before' ++ [slash, slash] = path := by
        rcases List.append_eq_append_iff.mp hpath with ⟨inner, rfl, hinner⟩ | ⟨inner, rfl, hinner⟩
        · cases inner with
          | nil => exact ⟨[], by simp, hinner⟩
          | cons b inner =>
              obtain rfl : slash = b := (List.cons.inj hinner).1
              simp at noSlash
        · exact ⟨inner, rfl, hinner.symm⟩
      rcases ih hrest with doubled | ⟨captures', fits⟩
      · exact Or.inl (doubled.append_left [.param name])
      · rw [List.append_assoc]
        exact Or.inr ⟨_, .param nonempty noSlash fits⟩
  | catchAll =>
      cases before with
      | nil => exact Or.inr ⟨_, .catchAll⟩
      | cons c before =>
          obtain ⟨rfl, -⟩ := List.cons.inj hpath
          exact Or.inr ⟨_, .catchAll⟩

/-- A pattern that matches a path which ends in two slashes has two slashes in a row, or matches
the path without the last of them. -/
theorem doubleSlash_or_matches {pattern path : String} {params : Params}
    (matched : Matches pattern (path ++ "/" ++ "/") params) :
    Pattern.HasDoubleSlash pattern ∨ ∃ params, Matches pattern (path ++ "/") params := by
  have suits := suits_route_iff.mpr ⟨params, matched⟩
  rw [encode_append_slash, encode_append_slash, List.append_assoc] at suits
  refine (doubled_or_suits suits).imp doubleSlash_of_doubled fun suits => ?_
  rw [← encode_append_slash] at suits
  exact suits_route_iff.mp suits

/-- A walk that hints at the other slash misses the path, and the path with one slash more matches,
or the path without its last slash. -/
theorem Registers.matching_of_hint {trees : StringMap (Node α)} {log : List (Registration α)}
    (registers : Registers trees log) {method path : String}
    (missed : walk trees method path = .missed true) :
    Matching log method (path ++ "/") ∨
      ∃ shorter, path = shorter ++ "/" ∧ Matching log method shorter := by
  have holds := registers.holds method
  unfold walk at missed
  cases htree : trees.get? method with
  | none =>
      rw [htree] at missed
      cases missed
  | some tree =>
      rw [htree] at missed holds
      obtain ⟨rooted, same⟩ := holds
      have matching {other : String} (takes : Takes tree.listing (Utf8.encode other)) :
          Matching log method other := by
        obtain ⟨handler, captures, hroute⟩ := takes
        rw [← registers.walk_isSome_iff, walk, htree]
        exact Option.isSome_of_eq_some (rooted.find_result.mpr hroute)
      rcases toggled_encode.mp (rooted.toggled_of_hint missed) with takes | ⟨shorter, rfl, takes⟩
      · exact Or.inl (matching takes)
      · exact Or.inr ⟨shorter, rfl, matching takes⟩

namespace Router

variable {router : Router α γ} {log : List (Registration α)} {method path : String}

/-- A look-up that recommends the other slash finds nothing; the path with one slash more matches,
or the path without its last slash. -/
theorem Keeps.matching_of_recommended (keeps : router.Keeps log)
    (recommended : (router.lookup method path).answer.trailingSlashRedirect = true) :
    (router.lookup method path).answer.handler = none ∧
      (router.lookup method path).answer.params = Params.empty ∧
      (Matching log method (path ++ "/") ∨
        ∃ shorter, path = shorter ++ "/" ∧ Matching log method shorter) := by
  obtain ⟨hhandler, hhint, hparams⟩ := lookup_fields keeps.coherent method path
  rw [hhint] at recommended
  rw [hhandler, hparams]
  cases hwalk : walk router.trees method path with
  | found handler captures deepest =>
      rw [hwalk] at recommended
      cases recommended
  | missed hint =>
      rw [hwalk] at recommended
      obtain rfl : hint = true := recommended
      exact ⟨rfl, rfl, keeps.registers.matching_of_hint hwalk⟩

/-- A redirect to the other slash leads to a path that matches, or takes a slash away where a
pattern with two slashes in a row matches the path with one more. -/
theorem Keeps.matching_of_slash_redirect (keeps : router.Keeps log) {location : String}
    {status : Status}
    (redirected : (router.resolve method path).answer =
      .redirect ⟨location, status, .trailingSlash⟩) :
    (location = path ++ "/" ∨ path = location ++ "/") ∧
      (Matching log method location ∨
        path = location ++ "/" ∧ ∃ pattern ∈ patternsOf method log,
          Pattern.HasDoubleSlash pattern ∧ ∃ params, Matches pattern (path ++ "/") params) := by
  obtain ⟨missed, hproposed⟩ := redirect_of_resolve redirected
  obtain ⟨plain, ⟨-, recommended, rfl⟩ | ⟨hkind, -⟩⟩ := redirect?_eq_some hproposed
  case inr => cases hkind
  obtain ⟨-, -, hmatching⟩ := keeps.matching_of_recommended recommended
  rcases toggleSlash_eq plain with hpath | ⟨slashless, hlocation⟩
  · refine ⟨Or.inr hpath, ?_⟩
    rcases hmatching with ⟨pattern, inside, params, matched⟩ | ⟨shorter, hshorter, found⟩
    · refine Or.inr ⟨hpath, pattern, inside, ?_, params, matched⟩
      rw [hpath] at matched
      refine (doubleSlash_or_matches matched).resolve_right ?_
      rintro ⟨params', matched'⟩
      -- then the path itself matches, and is not redirected
      rw [← hpath] at matched'
      have found := (keeps.lookup_isSome_iff method path).mpr ⟨pattern, inside, _, matched'⟩
      rw [missed] at found
      cases found
    · obtain rfl := (String.append_left_inj "/").mp (hpath.symm.trans hshorter)
      exact Or.inl found
  · refine ⟨Or.inl hlocation, ?_⟩
    rcases hmatching with longer | ⟨shorter, hshorter, -⟩
    · rw [hlocation]
      exact Or.inl longer
    · exact absurd ⟨shorter, hshorter⟩ slashless

variable [Handler α γ] [ParamSink γ]

/-- A look-up finds a handler, now and after any further operations. -/
def StaysFound (router : Router α γ) (method path : String) : Prop :=
  ∀ further : List (Operation α γ),
    ((router.run further).state.lookup method path).answer.handler.isSome = true

theorem Keeps.staysFound (keeps : router.Keeps log) (matching : Matching log method path) :
    router.StaysFound method path := fun further =>
  ((keeps.run further).lookup_isSome_iff method path).mpr (matching.append _)

/-- In every reachable router, a look-up that recommends the other slash finds nothing and writes
nothing, and a look-up of the path with one slash more finds a handler, or of the path without its
last slash; it still does after any further operations. -/
theorem recommended_path_found (config : RouterConfig) (operations : List (Operation α γ))
    (method path : String) :
    let router := ((Router.new config : Router α γ).run operations).state
    let answer := (router.lookup method path).answer
    answer.trailingSlashRedirect = true →
      answer.handler = none ∧
      (∀ {σ : Type} [ParamSink σ] (sink : σ), answer.params.replayInto sink = sink) ∧
      (router.StaysFound method (path ++ "/") ∨
        ∃ shorter, path = shorter ++ "/" ∧ router.StaysFound method shorter) := by
  intro router answer recommended
  have keeps : router.Keeps _ := keeps_run_new config operations
  obtain ⟨hhandler, hparams, hmatching⟩ := keeps.matching_of_recommended recommended
  refine ⟨hhandler, ?_, ?_⟩
  · intro σ _ sink
    rw [hparams]
    rfl
  · rcases hmatching with longer | ⟨shorter, hpath, hshorter⟩
    · exact Or.inl (keeps.staysFound longer)
    · exact Or.inr ⟨shorter, hpath, keeps.staysFound hshorter⟩

/-- A slash after the value of a parameter is too much, and the path before it is found. -/
theorem recommended_path_found_gopher :
    let router := ((Router.new {} : Router Scripted Record).run
      [.handle "GET" "/user/:name" ⟨"user", none⟩]).state
    (router.lookup "GET" "/user/gopher/").answer.trailingSlashRedirect = true ∧
      router.StaysFound "GET" "/user/gopher" := by
  have recommended : (((Router.new {} : Router Scripted Record).run
      [.handle "GET" "/user/:name" ⟨"user", none⟩]).state.lookup "GET"
        "/user/gopher/").answer.trailingSlashRedirect = true := by
    decide +kernel
  have missed : (((Router.new {} : Router Scripted Record).run
      [.handle "GET" "/user/:name" ⟨"user", none⟩]).state.lookup "GET"
        ("/user/gopher/" ++ "/")).answer.handler.isSome = false := by
    decide +kernel
  refine ⟨recommended, ?_⟩
  obtain ⟨-, -, longer | ⟨shorter, hpath, found⟩⟩ :=
    recommended_path_found {} _ "GET" "/user/gopher/" recommended
  · exact absurd (longer []) (by rw [run, missed]; exact Bool.false_ne_true)
  · obtain rfl : "/user/gopher" = shorter := String.append_left_inj "/" |>.mp hpath
    exact found

/-- In every reachable router, a redirect to the other slash leads to the path with one slash more
or less, and this path is found, now and after any further operations; unless the path ends in a
slash and, with another one, matches a pattern with two slashes in a row. -/
theorem slash_redirect_resolves (config : RouterConfig) (operations : List (Operation α γ))
    (method path location : String) (status : Status) :
    let router := ((Router.new config : Router α γ).run operations).state
    let accepted := patternsOf method ((Router.new config : Router α γ).accepted operations)
    (router.resolve method path).answer = .redirect ⟨location, status, .trailingSlash⟩ →
      (location = path ++ "/" ∨ path = location ++ "/") ∧
      ((∀ further : List (Operation α γ),
          ((router.run further).state.resolve method location).answer.found?.isSome = true) ∨
        path = location ++ "/" ∧ (router.resolve method location).answer.found? = none ∧
          ∃ pattern ∈ accepted, Pattern.HasDoubleSlash pattern ∧
            ∃ params, Matches pattern (path ++ "/") params) := by
  intro router accepted redirected
  have keeps : router.Keeps _ := keeps_run_new config operations
  obtain ⟨htoggled, hmatching⟩ := keeps.matching_of_slash_redirect redirected
  refine ⟨htoggled, ?_⟩
  by_cases matching :
      Matching ((Router.new config : Router α γ).accepted operations) method location
  · refine Or.inl fun further => ?_
    exact ((keeps.run further).found?_isSome_iff method location).mpr (matching.append _)
  · obtain ⟨hpath, hdouble⟩ := hmatching.resolve_left matching
    refine Or.inr ⟨hpath, ?_, hdouble⟩
    rwa [← Option.not_isSome_iff_eq_none, keeps.found?_isSome_iff]

/-- Two slashes in a row do no harm where the path without its last slash is registered. -/
theorem slash_redirect_resolves_intro :
    let router := ((Router.new {} : Router Scripted Record).run
      [.handle "GET" "/docs//:page" ⟨"docs", none⟩, .handle "GET" "/src/*rest" ⟨"src", none⟩]).state
    (router.resolve "GET" "/docs//intro/").answer =
        .redirect ⟨"/docs//intro", .movedPermanently, .trailingSlash⟩ ∧
      ∀ further : List (Operation Scripted Record),
        ((router.run further).state.resolve "GET" "/docs//intro").answer.found?.isSome = true := by
  have redirected : (((Router.new {} : Router Scripted Record).run
      [.handle "GET" "/docs//:page" ⟨"docs", none⟩,
        .handle "GET" "/src/*rest" ⟨"src", none⟩]).state.resolve "GET" "/docs//intro/").answer =
        .redirect ⟨"/docs//intro", .movedPermanently, .trailingSlash⟩ := by
    refine RouteMatch.redirect?_eq_some_iff.mp ?_
    decide +kernel
  have found : (((Router.new {} : Router Scripted Record).run
      [.handle "GET" "/docs//:page" ⟨"docs", none⟩,
        .handle "GET" "/src/*rest" ⟨"src", none⟩]).state.resolve "GET"
        "/docs//intro").answer.found? ≠ none := by
    decide +kernel
  refine ⟨redirected, ?_⟩
  obtain ⟨-, resolves | ⟨-, hnone, -⟩⟩ :=
    slash_redirect_resolves {} _ "GET" "/docs//intro/" "/docs//intro" _ redirected
  · exact resolves
  · exact absurd hnone found

/-- Where only the path with one slash more is registered, the slash is taken away all the same. -/
theorem slash_redirect_misses :
    let router := ((Router.new {} : Router Scripted Record).run
      [.handle "GET" "/a//" ⟨"a", none⟩]).state
    (router.resolve "GET" "/a/").answer.redirect? =
        some ⟨"/a", .movedPermanently, .trailingSlash⟩ ∧
      (router.resolve "GET" "/a").answer.found? = none ∧
      (router.resolve "GET" "/a//").answer.found?.isSome = true := by
  decide +kernel

end Router

end RadixRouter

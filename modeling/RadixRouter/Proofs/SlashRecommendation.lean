/-
# When a look-up recommends the other slash

A look-up that finds nothing recommends the path with its last slash added or taken away exactly
when that path is found, with two exceptions.  A catch-all that was registered after a route
through the same text, or that follows a parameter, stands behind an empty node, and is not
recommended to a path that ends before it.  Where a parameter may follow a route, the route is
not recommended to the path with one slash more.
-/

import RadixRouter.Proofs.DoorwayGrafts
import RadixRouter.Proofs.Exactness
import RadixRouter.Proofs.RefusedRegistration
import RadixRouter.Proofs.SlashHint
import RadixRouter.Proofs.Texts
import RadixRouter.Proofs.TreeHistory

namespace RadixRouter

open Pattern (Matches matches_iff_fits Proper proper_tokens)
open Utf8 (encode_append_slash)

variable {α γ : Type}

/-- The way ends before a catch-all among the routes that ends in a parameter before its slash, or
came after a route through the same tokens. -/
def Recessed (routes : List (List Token)) (way : List Token) : Prop :=
  ∃ before late after, routes = before ++ late :: after ∧
    ∃ name, late = way ++ [.byte slash, .catchAll name] ∧
      (EndsParam way ∨ ∃ old ∈ before, way <+: old)

theorem not_recessed_nil {way : List Token} : ¬ Recessed [] way := by
  rintro ⟨before, late, after, hroutes, -⟩
  exact List.append_ne_nil_of_right_ne_nil _ (List.cons_ne_nil _ _) hroutes.symm

/-- A new route comes after all others. -/
theorem recessed_concat {routes : List (List Token)} {route way : List Token} :
    Recessed (routes ++ [route]) way ↔ Recessed routes way ∨
      ∃ name, route = way ++ [.byte slash, .catchAll name] ∧
        (EndsParam way ∨ ∃ old ∈ routes, way <+: old) := by
  constructor
  · rintro ⟨before, late, after, hroutes, hlate⟩
    rcases List.eq_nil_or_concat after with rfl | ⟨after, last, rfl⟩
    · obtain ⟨rfl, hlast⟩ := List.append_inj' hroutes rfl
      rw [← (List.cons.inj hlast).1] at hlate
      exact Or.inr hlate
    · rw [List.concat_eq_append, ← List.cons_append, ← List.append_assoc] at hroutes
      obtain ⟨rfl, -⟩ := List.append_inj' hroutes rfl
      exact Or.inl ⟨before, late, after, rfl, hlate⟩
  · rintro (⟨before, late, after, rfl, hlate⟩ | hlate)
    · exact ⟨before, late, after ++ [route], by simp, hlate⟩
    · exact ⟨routes, route, [], rfl, hlate⟩

/-- The empty nodes of a tree are those in front of the catch-alls that came late. -/
def Aside (tree : Option (Node α)) (listing : List (List Token × α)) : Prop :=
  ∀ way, (∃ node ∈ tree, way ∈ node.doorways) ↔ Recessed (listing.map (·.1)) way

theorem aside_none : Aside (none : Option (Node α)) [] := by
  intro way
  refine iff_of_false ?_ not_recessed_nil
  rintro ⟨node, hnode, -⟩
  cases hnode

theorem begun_iff {listing : List (List Token × α)} {way : List Token} :
    Begun listing way ↔ ∃ old ∈ listing.map (·.1), way <+: old := by
  simp [Begun]

/-- A registration puts its catch-all behind an empty node exactly if it comes late. -/
theorem aside_insertRoute {tree : Option (Node α)} {listing : List (List Token × α)}
    (holds : Holds tree listing) (aside : Aside tree listing) (pattern : String) (handler : α)
    (fresh : CounterId) :
    Aside (Router.insertRoute tree pattern handler fresh).1
      (extended (code? (Router.insertRoute tree pattern handler fresh).2)
        (Pattern.route pattern, handler) listing) := by
  unfold Router.insertRoute
  dsimp only
  cases hfault : Pattern.fault? (Utf8.encode pattern) with
  | some fault => exact aside
  | none =>
      obtain ⟨rest, hroute, hproper⟩ := proper_tokens hfault
      intro way
      cases tree with
      | none =>
          obtain rfl : listing = [] := holds
          show _ ↔ Recessed [Pattern.route pattern] way
          have hproper' : Proper false (.byte slash :: rest) := ⟨rfl, hproper⟩
          have hways : way ∈ (Node.ofTokens handler (.byte slash :: rest) fresh).1.doorways ↔ _ :=
            mem_doorways_ofTokens handler (.byte slash :: rest) fresh hproper' nofun
          dsimp only
          rw [← List.nil_append [Pattern.route pattern], recessed_concat, Pattern.route, hroute,
            or_iff_right not_recessed_nil]
          simpa using hways
      | some tree =>
          obtain ⟨rooted, same⟩ := holds
          dsimp only
          rw [hroute, Pattern.route, hroute]
          have hways : way ∈ (tree.insert handler fresh (.byte slash :: rest)).tree.doorways ↔ _ :=
            rooted.doorways_insert handler fresh hproper
          have hbefore := aside way
          simp only [Option.mem_some_iff, exists_eq_left'] at hbefore ⊢
          rw [hways, hbefore]
          cases hverdict : (tree.insert handler fresh (.byte slash :: rest)).verdict with
          | error clash => exact or_iff_left not_opens_error
          | ok used =>
              show _ ↔ Recessed ((listing ++ [(.byte slash :: rest, handler)]).map (·.1)) way
              rw [List.map_append, List.map_singleton, recessed_concat]
              have hbegun : Begun tree.listing way ↔ ∃ old ∈ listing.map (·.1), way <+: old := by
                rw [← begun_iff]
                simp only [Begun, same.mem_iff]
              simp only [Opens, hbegun, Except.ok.injEq, exists_eq', true_and]

theorem catchAll_not_mem {slashed : Bool} {way after : List Token} (goesOn : after ≠ [])
    (proper : Proper slashed (way ++ after)) (name : List UInt8) : .catchAll name ∉ way := by
  induction way generalizing slashed with
  | nil => exact List.not_mem_nil
  | cons token way ih =>
      cases token with
      | byte b => simpa using ih proper.2
      | param name' => simpa using ih proper.2.2
      | catchAll name' =>
          obtain ⟨-, -, hnil⟩ := proper
          exact absurd (List.append_eq_nil_iff.mp hnil).2 goesOn

/-- A catch-all after a fitting route takes any text from a slash on. -/
theorem Fits.append_catchAll {way : List Token} {path : List UInt8}
    {captures : List (List UInt8 × List UInt8)} (fits : Fits way path captures)
    (none : ∀ name, .catchAll name ∉ way) (name value : List UInt8) :
    Fits (way ++ [.byte slash, .catchAll name]) (path ++ slash :: value)
      (captures ++ [(name, slash :: value)]) := by
  induction fits with
  | done => exact .catchAll
  | byte rest ih => exact .byte (ih fun name' inside => none name' (List.mem_cons_of_mem _ inside))
  | @param name' value' route path captures nonempty noSlash rest ih =>
      rw [List.append_assoc]
      exact .param nonempty noSlash
        (ih fun name' inside => none name' (List.mem_cons_of_mem _ inside))
  | @catchAll name' value' =>
      exact absurd (List.mem_cons_of_mem _ (List.mem_singleton.mpr rfl)) (none name')

/-- A path that fits a catch-all fits the route before its slash up to some slash. -/
theorem Fits.before_catchAll {way : List Token} {name path : List UInt8}
    {captures : List (List UInt8 × List UInt8)}
    (fits : Fits (way ++ [.byte slash, .catchAll name]) path captures) :
    ∃ front value captures', path = front ++ slash :: value ∧ Fits way front captures' := by
  induction way generalizing path captures with
  | nil =>
      obtain ⟨-, hhead, -⟩ := fits_catchAll.mp fits
      obtain ⟨value, rfl⟩ := List.head?_eq_some_iff.mp hhead
      exact ⟨[], value, [], rfl, .done⟩
  | cons token way ih =>
      rw [List.cons_append] at fits
      generalize htail : way ++ [.byte slash, .catchAll name] = tail at fits
      cases fits with
      | byte rest =>
          rw [← htail] at rest
          obtain ⟨front, value, captures', rfl, hfits⟩ := ih rest
          exact ⟨_ :: front, value, captures', rfl, .byte hfits⟩
      | param nonempty noSlash rest =>
          rw [← htail] at rest
          obtain ⟨front, value, captures', rfl, hfits⟩ := ih rest
          exact ⟨_ ++ front, value, _, (List.append_assoc ..).symm,
            .param nonempty noSlash hfits⟩
      | catchAll =>
          have hlength := congrArg List.length htail
          simp at hlength

/-- A path that does not suit a catch-all suits it with one slash more exactly when it suits the
route before the slash. -/
theorem suits_slash_catchAll {slashed : Bool} {way : List Token} {name path : List UInt8}
    (proper : Proper slashed (way ++ [.byte slash, .catchAll name]))
    (missed : ¬ Suits (way ++ [.byte slash, .catchAll name]) path) :
    Suits (way ++ [.byte slash, .catchAll name]) (path ++ [slash]) ↔ Suits way path := by
  have none := catchAll_not_mem (List.cons_ne_nil _ _) proper
  constructor
  · rintro ⟨captures, fits⟩
    obtain ⟨front, value, captures', hpath, hfits⟩ := fits.before_catchAll
    rcases before_slash_eq hpath.symm with ⟨-, rfl⟩ | ⟨value', -, rfl⟩
    · exact ⟨captures', hfits⟩
    · exact absurd ⟨_, hfits.append_catchAll none name value'⟩ missed
  · rintro ⟨captures, fits⟩
    exact ⟨_, fits.append_catchAll none name []⟩

/-- Whether a pattern that the path matches goes on, in another pattern, with a parameter. -/
def ParamFollows (patterns : List String) (path : String) : Prop :=
  ∃ old ∈ patterns, (∃ params, Matches old path params) ∧
    ∃ new ∈ patterns, ∃ name, Pattern.route old ++ [.param name] <+: Pattern.route new

/-- Whether the path matches a catch-all whose slash follows a parameter, or follows text that an
earlier pattern starts with. -/
def CatchAllRecessed (patterns : List String) (path : String) : Prop :=
  ∃ before late after, patterns = before ++ late :: after ∧
    (∃ params, Matches late path params) ∧
    ∃ way name, Pattern.route late = way ++ [.byte slash, .catchAll name] ∧
      (EndsParam way ∨ ∃ old ∈ before, way <+: Pattern.route old)

theorem suits_route_iff {pattern path : String} :
    Suits (Pattern.route pattern) (Utf8.encode path) ↔ ∃ params, Matches pattern path params := by
  simp [Suits, matches_iff_fits, Pattern.route]

theorem routesOf_map (method : String) (log : List (Registration α)) :
    (routesOf method log).map (·.1) = (patternsOf method log).map Pattern.route := by
  simp [routesOf, patternsOf, Function.comp_def]

theorem recessed_map {patterns : List String} {way : List Token} :
    Recessed (patterns.map Pattern.route) way ↔
      ∃ before late after, patterns = before ++ late :: after ∧
        ∃ name, Pattern.route late = way ++ [.byte slash, .catchAll name] ∧
          (EndsParam way ∨ ∃ old ∈ before, way <+: Pattern.route old) := by
  constructor
  · rintro ⟨before, late, after, hroutes, name, rfl, hlate⟩
    obtain ⟨before, rest, rfl, rfl, hrest⟩ := List.map_eq_append_iff.mp hroutes
    obtain ⟨late, after, rfl, hroute, rfl⟩ := List.map_eq_cons_iff.mp hrest
    exact ⟨before, late, after, rfl, name, hroute, by simpa using hlate⟩
  · rintro ⟨before, late, after, rfl, name, hroute, hlate⟩
    exact ⟨before.map Pattern.route, Pattern.route late, after.map Pattern.route, by simp, name,
      hroute, by simpa using hlate⟩

section Log

variable {trees : StringMap (Node α)} {log : List (Registration α)} {method path : String}
  {hint : Bool}

/-- A pattern that a walk misses is not one that the path suits. -/
theorem Registers.not_suits_of_missed (registers : Registers trees log)
    (missed : walk trees method path = .missed hint) {pattern : String}
    (inside : pattern ∈ patternsOf method log) :
    ¬ Suits (Pattern.route pattern) (Utf8.encode path) := by
  rintro ⟨captures, fits⟩
  obtain ⟨registration, hlogged, hmethod, rfl⟩ := mem_patternsOf.mp inside
  have hresult := registers.walk_result.mpr ⟨registration, hlogged, hmethod, rfl, fits⟩
  rw [missed] at hresult
  cases hresult

/-- At most one pattern of a method matches a path. -/
theorem Registers.pattern_unique (registers : Registers trees log) {first second : String}
    (hfirst : first ∈ patternsOf method log) (hsecond : second ∈ patternsOf method log)
    (matched : ∃ params, Matches first path params)
    (matched' : ∃ params, Matches second path params) : first = second := by
  obtain ⟨registration, hlogged, hmethod, rfl⟩ := mem_patternsOf.mp hfirst
  obtain ⟨registration', hlogged', hmethod', rfl⟩ := mem_patternsOf.mp hsecond
  obtain ⟨params, hmatches⟩ := matched
  obtain ⟨params', hmatches'⟩ := matched'
  rw [(registers.matches_unique hlogged hlogged' (hmethod.trans hmethod'.symm) hmatches
    hmatches').1]

/-- The way to an empty node that a path takes is one before a catch-all that the path matches
with one slash more. -/
theorem Registers.suits_way_iff (registers : Registers trees log)
    (missed : walk trees method path = .missed hint) {tree : Node α}
    (aside : Aside (some tree) (routesOf method log)) :
    (∃ way ∈ tree.doorways, Suits way (Utf8.encode path)) ↔
      CatchAllRecessed (patternsOf method log) (path ++ "/") := by
  have hways {way : List Token} : way ∈ tree.doorways ↔
      Recessed ((patternsOf method log).map Pattern.route) way := by
    rw [← routesOf_map, ← aside way]
    simp
  have hlate {pattern : String} {way : List Token} {name : List UInt8}
      (inside : pattern ∈ patternsOf method log)
      (route : Pattern.route pattern = way ++ [.byte slash, .catchAll name]) :
      (∃ params, Matches pattern (path ++ "/") params) ↔ Suits way (Utf8.encode path) := by
    have hproper := (registers.faultless_of_mem inside).proper
    have hmissed := registers.not_suits_of_missed missed inside
    rw [route] at hproper hmissed
    rw [← suits_route_iff, encode_append_slash, route]
    exact suits_slash_catchAll hproper hmissed
  constructor
  · rintro ⟨way, hway, suits⟩
    obtain ⟨before, late, after, hsplit, name, hroute, hcame⟩ := recessed_map.mp (hways.mp hway)
    have inside : late ∈ patternsOf method log := by simp [hsplit]
    exact ⟨before, late, after, hsplit, (hlate inside hroute).mpr suits, way, name, hroute, hcame⟩
  · rintro ⟨before, late, after, hsplit, hmatches, way, name, hroute, hcame⟩
    have inside : late ∈ patternsOf method log := by simp [hsplit]
    exact ⟨way, hways.mpr (recessed_map.mpr ⟨before, late, after, hsplit, name, hroute, hcame⟩),
      (hlate inside hroute).mp hmatches⟩

/-- A parameter goes on after the route of a pattern exactly when it follows the path that
matches the pattern. -/
theorem Registers.forks_iff (registers : Registers trees log) {listing : List (List Token × α)}
    (same : listing.Perm (routesOf method log)) {pattern : String}
    (inside : pattern ∈ patternsOf method log) (matched : ∃ params, Matches pattern path params) :
    Forks listing (Pattern.route pattern) ↔ ParamFollows (patternsOf method log) path := by
  constructor
  · rintro ⟨name, ⟨route, handler⟩, hold, hprefix⟩
    obtain ⟨registration, hlogged, hmethod, rfl, -⟩ := mem_routesOf.mp (same.mem_iff.mp hold)
    exact ⟨pattern, inside, matched, registration.pattern,
      mem_patternsOf.mpr ⟨registration, hlogged, hmethod, rfl⟩, name, hprefix⟩
  · rintro ⟨old, hold, hmatches, new, hnew, name, hprefix⟩
    rw [registers.pattern_unique hold inside hmatches matched] at hprefix
    obtain ⟨registration, hlogged, hmethod, rfl⟩ := mem_patternsOf.mp hnew
    exact ⟨name, _, same.mem_iff.mpr (mem_routesOf.mpr ⟨registration, hlogged, hmethod, rfl, rfl⟩),
      hprefix⟩

/-- The hint of a walk that misses a path, where the path with one slash more or less matches. -/
theorem Registers.hint_iff (registers : Registers trees log)
    (aside : Aside (trees.get? method) (routesOf method log))
    (single : ∀ pattern ∈ patternsOf method log, ¬ Pattern.HasDoubleSlash pattern)
    (missed : walk trees method path = .missed hint) {pattern : String}
    (inside : pattern ∈ patternsOf method log) :
    ((∃ params, Matches pattern (path ++ "/") params) →
      (hint = true ↔ ¬ CatchAllRecessed (patternsOf method log) (path ++ "/"))) ∧
    ∀ shorter, path = shorter ++ "/" → (∃ params, Matches pattern shorter params) →
      (hint = true ↔ ¬ ParamFollows (patternsOf method log) shorter) := by
  have holds := registers.holds method
  have hmissed := missed
  obtain ⟨registration, hlogged, hmethod, rfl⟩ := mem_patternsOf.mp inside
  have hlisted := mem_routesOf.mpr ⟨registration, hlogged, hmethod, rfl, rfl⟩
  unfold walk at hmissed
  cases htree : trees.get? method with
  | none =>
      rw [htree, Holds] at holds
      rw [holds] at hlisted
      cases hlisted
  | some tree =>
      rw [htree] at holds aside hmissed
      obtain ⟨rooted, same⟩ := holds
      have hsingle : ∀ route ∈ tree.listing, ¬ Doubled route.1 := by
        rintro ⟨route, handler⟩ hroute doubled
        obtain ⟨old, hold, hmethod', rfl, -⟩ := mem_routesOf.mp (same.mem_iff.mp hroute)
        exact single _ (mem_patternsOf.mpr ⟨old, hold, hmethod', rfl⟩)
          (doubleSlash_of_doubled doubled)
      obtain ⟨hinted, -⟩ := hints_right.1 tree slash none (Utf8.encode path) hint rooted.sound
        (Or.inr rooted.literal) hsingle hmissed
      constructor
      · intro hlonger
        rw [← suits_route_iff, encode_append_slash] at hlonger
        rw [← registers.suits_way_iff missed aside]
        exact hinted.longer _ (same.mem_iff.mpr hlisted) hlonger
      · rintro shorter rfl hshorter
        rw [← registers.forks_iff same inside hshorter]
        exact hinted.shorter _ (encode_append_slash shorter) _ (same.mem_iff.mpr hlisted)
          (suits_route_iff.mpr hshorter)

end Log

namespace Router

/-- A path that a look-up finds matches an accepted pattern. -/
theorem Keeps.exists_of_lookup {router : Router α γ} {log : List (Registration α)}
    (keeps : router.Keeps log) {method path : String}
    (found : (router.lookup method path).answer.handler.isSome = true) :
    ∃ pattern ∈ patternsOf method log, ∃ params, Matches pattern path params := by
  rw [(lookup_fields keeps.coherent method path).1] at found
  obtain ⟨handler, hhandler⟩ := Option.isSome_iff_exists.mp found
  obtain ⟨registration, hlogged, hmethod, -, hmatches⟩ :=
    keeps.registers.walk_answer.mp ⟨hhandler, rfl⟩
  exact ⟨registration.pattern, mem_patternsOf.mpr ⟨registration, hlogged, hmethod, rfl⟩, _,
    hmatches⟩

variable [Handler α γ] [ParamSink γ]

/-- In every reachable router, where no accepted pattern of the method has two slashes in a row: a
look-up that finds nothing recommends the other slash if the path with one slash more is found,
unless the catch-all that matches it stands behind an empty node; and if the path without its last
slash is found, unless a parameter may follow the pattern that matches it. -/
theorem slash_recommended (config : RouterConfig) (operations : List (Operation α γ))
    (method path : String) :
    let router := ((Router.new config : Router α γ).run operations).state
    let accepted := patternsOf method ((Router.new config : Router α γ).accepted operations)
    (∀ pattern ∈ accepted, ¬ Pattern.HasDoubleSlash pattern) →
    (router.lookup method path).answer.handler = none →
    ((router.lookup method (path ++ "/")).answer.handler.isSome = true →
      ((router.lookup method path).answer.trailingSlashRedirect = true ↔
        ¬ CatchAllRecessed accepted (path ++ "/"))) ∧
    ∀ shorter, path = shorter ++ "/" →
      (router.lookup method shorter).answer.handler.isSome = true →
        ((router.lookup method path).answer.trailingSlashRedirect = true ↔
          ¬ ParamFollows accepted shorter) := by
  intro router accepted single nothing
  have keeps : router.Keeps _ := keeps_run_new config operations
  have aside : Aside (router.trees.get? method) (routesOf method _) :=
    law_run_new config operations aside_none fun pattern handler _ _ _ fresh holds aside =>
      aside_insertRoute holds aside pattern handler fresh
  obtain ⟨hhandler, hhint, -⟩ := lookup_fields keeps.coherent method path
  rw [hhandler] at nothing
  cases hwalk : walk router.trees method path with
  | found handler captures deepest =>
      rw [hwalk] at nothing
      cases nothing
  | missed hint =>
      have hflag : (router.lookup method path).answer.trailingSlashRedirect = hint := by
        rw [hhint, hwalk]
        rfl
      rw [hflag]
      constructor
      · intro found
        obtain ⟨pattern, inside, hmatches⟩ := keeps.exists_of_lookup found
        exact (keeps.registers.hint_iff aside single hwalk inside).1 hmatches
      · intro shorter hpath found
        obtain ⟨pattern, inside, hmatches⟩ := keeps.exists_of_lookup found
        exact (keeps.registers.hint_iff aside single hwalk inside).2 shorter hpath hmatches

/-- The path before a catch-all that no other route shares is recommended with its slash. -/
theorem slash_recommended_src :
    let router := ((Router.new {} : Router Scripted Record).run
      [.handle "GET" "/src/*rest" ⟨"src", none⟩]).state
    (router.lookup "GET" "/src").answer.handler = none ∧
      (router.lookup "GET" "/src").answer.trailingSlashRedirect = true := by
  have accepted : patternsOf "GET" ((Router.new {} : Router Scripted Record).accepted
      [.handle "GET" "/src/*rest" ⟨"src", none⟩]) = ["/src/*rest"] := by
    decide +kernel
  have single : ∀ pattern ∈ patternsOf "GET" ((Router.new {} : Router Scripted Record).accepted
      [.handle "GET" "/src/*rest" ⟨"src", none⟩]), ¬ Pattern.HasDoubleSlash pattern := by
    decide +kernel
  have nothing : (((Router.new {} : Router Scripted Record).run
      [.handle "GET" "/src/*rest" ⟨"src", none⟩]).state.lookup "GET" "/src").answer.handler =
        none := by
    decide +kernel
  have found : (((Router.new {} : Router Scripted Record).run
      [.handle "GET" "/src/*rest" ⟨"src", none⟩]).state.lookup "GET"
        ("/src" ++ "/")).answer.handler.isSome = true := by
    decide +kernel
  have literal : ∀ name, .param name ∉ Pattern.route "/src/*rest" := by
    have h : ∀ token ∈ Pattern.route "/src/*rest", token.bytes.head? ≠ some colon := by
      decide +kernel
    intro name inside
    exact h _ inside rfl
  refine ⟨nothing, ((slash_recommended {} _ "GET" "/src" single nothing).1 found).mpr ?_⟩
  rw [accepted]
  rintro ⟨before, late, after, hsplit, -, way, name, hroute, hcame⟩
  obtain ⟨rfl, rfl, rfl⟩ : before = [] ∧ late = "/src/*rest" ∧ after = [] := by
    simpa [List.singleton_eq_append_iff] using hsplit
  rcases hcame with ⟨name', hlast⟩ | ⟨old, hold, -⟩
  · refine literal name' ?_
    rw [hroute]
    exact List.mem_append_left _ (List.mem_of_getLast? hlast)
  · cases hold

/-- A catch-all after a parameter is not recommended to the path before its slash. -/
theorem slash_not_recommended :
    let router := ((Router.new {} : Router Scripted Record).run
      [.handle "GET" "/files/:dir/*rest" ⟨"files", none⟩]).state
    (router.lookup "GET" "/files/js").answer.handler = none ∧
      (router.lookup "GET" "/files/js/").answer.handler.isSome = true ∧
      (router.lookup "GET" "/files/js").answer.trailingSlashRedirect = false := by
  decide +kernel

/-- Nor is a catch-all that came after a route through its text. -/
example :
    let router := ((Router.new {} : Router Scripted Record).run
      [.handle "GET" "/srcx" ⟨"file", none⟩, .handle "GET" "/src/*rest" ⟨"src", none⟩]).state
    (router.lookup "GET" "/src/").answer.handler.isSome = true ∧
      (router.lookup "GET" "/src").answer.trailingSlashRedirect = false := by
  decide +kernel

/-- Nor a route to the path with one slash more, where a parameter may follow the route. -/
example :
    let router := ((Router.new {} : Router Scripted Record).run
      [.handle "GET" "/user_" ⟨"users", none⟩, .handle "GET" "/user_:name" ⟨"user", none⟩]).state
    (router.lookup "GET" "/user_").answer.handler.isSome = true ∧
      (router.lookup "GET" "/user_/").answer.trailingSlashRedirect = false := by
  decide +kernel

end Router

end RadixRouter

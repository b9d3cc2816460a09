/-
# A refused registration is invisible

After a refused call to `Router.handle` every look-up answers as before, the methods and the
statistics of the cache are the same, and whatever is done later is accepted or refused with
the same codes.  The tree itself may have changed; what it says has not.

The final-slash hint is the one answer that could tell: where an accepted pattern goes through
two slashes in a row, a cut between them shows.
-/

import RadixRouter.Proofs.Acceptance
import RadixRouter.Proofs.RefusedGraft
import RadixRouter.Scripted

namespace RadixRouter

open Pattern (Proper proper_tokens)
open Utf8

variable {α γ : Type}

/-- Whether a pattern has two slashes in a row. -/
def Pattern.HasDoubleSlash (pattern : String) : Prop := ['/', '/'] <:+: pattern.toList

instance (pattern : String) : Decidable (Pattern.HasDoubleSlash pattern) :=
  inferInstanceAs (Decidable (_ <:+: _))

theorem doubleSlash_of_append {before after : List UInt8} (noSlash : slash ∉ before)
    (double : [slash, slash] <:+: before ++ after) : [slash, slash] <:+: after := by
  induction before with
  | nil => exact double
  | cons b before ih =>
      rw [List.mem_cons, not_or] at noSlash
      rw [List.cons_append, List.infix_cons_iff] at double
      rcases double with h | h
      · exact absurd (List.cons_prefix_cons.mp h).1 noSlash.1
      · exact ih noSlash.2 h

/-- Two slash bytes in a row are two slashes in a row. -/
theorem doubleSlash_of_encodeChars {chars : List Char}
    (double : [slash, slash] <:+: encodeChars chars) : ['/', '/'] <:+: chars := by
  induction chars with
  | nil => exact absurd (List.infix_nil.mp double) (List.cons_ne_nil _ _)
  | cons c chars ih =>
      rw [encodeChars_cons] at double
      by_cases hc : c = '/'
      · subst hc
        rw [encodeChar_slash, List.singleton_append, List.infix_cons_iff] at double
        rcases double with h | h
        · obtain ⟨rest, hrest⟩ := (List.cons_prefix_cons.mp h).2
          obtain ⟨chars', rfl, -⟩ := exists_of_encodeChars_eq (c := '/') hrest.symm
          exact ⟨[], chars', rfl⟩
        · exact List.infix_cons (ih h)
      · have noSlash : slash ∉ encodeChar c := mt slash_mem_encodeChar.mp hc
        exact List.infix_cons (ih (doubleSlash_of_append noSlash double))

/-- Only the route of a pattern with two slashes in a row goes through them. -/
theorem doubleSlash_of_doubled {pattern : String} (doubled : Doubled (Pattern.route pattern)) :
    Pattern.HasDoubleSlash pattern := by
  obtain ⟨before, after, hroute⟩ := doubled
  have hbytes : encode pattern = Pattern.bytes (Pattern.route pattern) :=
    (Pattern.bytes_tokens _).symm
  refine doubleSlash_of_encodeChars ⟨Pattern.bytes before, Pattern.bytes after, ?_⟩
  rw [← encode_eq, hbytes, ← hroute]
  simp [Pattern.bytes, Token.bytes]

/-- The code of a reply, where it refuses a registration. -/
def Reply.code? : Reply α γ → Option String
  | .handled verdict => RadixRouter.code? verdict
  | _ => none

namespace Router

variable {router : Router α γ} {log : List (Registration α)} {method pattern : String}
  {handler : α} {error : RouteError}

theorem verdict_of_refused
    (refused : (router.handle method pattern handler).answer = .error error) :
    (insertRoute (router.trees.get? method) pattern handler
      router.cache.counters.length).2 = .error error := by
  rw [handle_eq] at refused
  split at refused
  · cases refused
  · next h =>
      cases refused
      exact h

/-- A refusal touches the trees only. -/
theorem handle_of_refused
    (refused : (router.handle method pattern handler).answer = .error error) :
    (router.handle method pattern handler).state =
      { router with
        trees := planted router.trees method pattern handler router.cache.counters.length } := by
  rw [handle_eq, verdict_of_refused refused]

theorem logged_of_refused
    (refused : (router.handle method pattern handler).answer = .error error) :
    router.logged method pattern handler = [] := by
  rw [logged, refused]

/-- What was accepted before a refusal is what was accepted after it. -/
theorem Keeps.of_refused (keeps : router.Keeps log)
    (refused : (router.handle method pattern handler).answer = .error error) :
    (router.handle method pattern handler).state.Keeps log := by
  have h := keeps.handle method pattern handler
  rwa [logged_of_refused refused, List.append_nil] at h

/-- A refusal neither adds a method nor takes one away. -/
theorem methods_of_refused (keeps : router.Keeps log)
    (refused : (router.handle method pattern handler).answer = .error error) :
    (router.handle method pattern handler).state.methods = router.methods := by
  rw [methods, methods, trees_handle, planted]
  cases htree : router.trees.get? method with
  | some tree =>
      have inside : method ∈ router.trees.keys := StringMap.mem_keys_iff.mpr (by rw [htree]; rfl)
      split
      · exact keeps.registers.ordered.keys_insert inside _
      · rfl
  | none =>
      have hverdict := verdict_of_refused refused
      rw [htree] at hverdict
      unfold insertRoute at hverdict ⊢
      dsimp only at hverdict ⊢
      split at hverdict
      · rfl
      · cases hverdict

/-- Where no accepted pattern of a method has two slashes in a row, its walks end as before. -/
theorem walk_of_refused (keeps : router.Keeps log)
    (refused : (router.handle method pattern handler).answer = .error error) {method' : String}
    (single : ∀ old ∈ patternsOf method' log, ¬ Pattern.HasDoubleSlash old) (path : String) :
    walk (router.handle method pattern handler).state.trees method' path =
      walk router.trees method' path := by
  unfold walk
  rw [get?_handle]
  by_cases hmethod : method = method'
  · subst hmethod
    rw [if_pos rfl]
    have hverdict := verdict_of_refused refused
    have holds := keeps.registers.holds method
    unfold insertRoute at hverdict ⊢
    dsimp only at hverdict ⊢
    cases hfault : Pattern.fault? (encode pattern) with
    | some fault => rfl
    | none =>
        rw [hfault] at hverdict
        obtain ⟨rest, hroute, hproper⟩ := proper_tokens hfault
        cases htree : router.trees.get? method with
        | none =>
            rw [htree] at hverdict
            cases hverdict
        | some tree =>
            rw [htree] at hverdict holds
            obtain ⟨rooted, same⟩ := holds
            have hsingle : ∀ route ∈ tree.listing, ¬ Doubled route.1 := by
              rintro ⟨route, found⟩ hmem doubled
              obtain ⟨registration, hlogged, hmethod, rfl, -⟩ :=
                mem_routesOf.mp (same.mem_iff.mp hmem)
              exact single _ (mem_patternsOf.mpr ⟨registration, hlogged, hmethod, rfl⟩)
                (doubleSlash_of_doubled doubled)
            rw [hroute] at hverdict
            dsimp only at hverdict ⊢
            rw [hroute]
            cases hinsert : (tree.insert handler router.cache.counters.length
                (.byte slash :: rest)).verdict with
            | ok used =>
                rw [hinsert] at hverdict
                cases hverdict
            | error clash =>
                exact rooted.find_insert_of_error handler _ hproper hsingle hinsert (encode path)
  · rw [if_neg hmethod]

/-- Walks that find the same are answered with the same handler and parameters. -/
theorem answer_of_result? {result result' : Search α} (same : result.result? = result'.result?) :
    result.answer.handler = result'.answer.handler ∧
      result.answer.params = result'.answer.params := by
  rcases result with ⟨handler, captures, deepest⟩ | hint <;>
    rcases result' with ⟨handler', captures', deepest'⟩ | hint' <;> cases same <;> exact ⟨rfl, rfl⟩

/-- A refusal changes neither handler nor parameters of any look-up, nor its hint where no
accepted pattern of the method has two slashes in a row. -/
theorem lookup_of_refused (keeps : router.Keeps log)
    (refused : (router.handle method pattern handler).answer = .error error)
    (method' path : String) :
    let after := (router.handle method pattern handler).state
    (after.lookup method' path).answer.handler = (router.lookup method' path).answer.handler ∧
      (after.lookup method' path).answer.params = (router.lookup method' path).answer.params ∧
      ((∀ old ∈ patternsOf method' log, ¬ Pattern.HasDoubleSlash old) →
        (after.lookup method' path).answer.trailingSlashRedirect =
          (router.lookup method' path).answer.trailingSlashRedirect) := by
  intro after
  have keeps' : after.Keeps log := keeps.of_refused refused
  have hresult : (walk after.trees method' path).result? =
      (walk router.trees method' path).result? := by
    apply Option.ext
    rintro ⟨found, captures⟩
    rw [keeps'.registers.walk_result, keeps.registers.walk_result]
  obtain ⟨hhandler, hhint, hparams⟩ := lookup_fields keeps.coherent method' path
  obtain ⟨hhandler', hhint', hparams'⟩ := lookup_fields keeps'.coherent method' path
  obtain ⟨hsame, hsame'⟩ := answer_of_result? hresult
  refine ⟨?_, ?_, ?_⟩
  · rw [hhandler', hsame, hhandler]
  · rw [hparams', hsame', hparams]
  · intro single
    rw [hhint', walk_of_refused keeps refused single, hhint]

/-- Routers with the same log accept the same registration. -/
theorem acceptedBy_of_keeps {first second : Router α γ} (keeps : first.Keeps log)
    (keeps' : second.Keeps log) (operation : Operation α γ) :
    second.acceptedBy operation = first.acceptedBy operation := by
  cases operation with
  | handle method pattern handler =>
      rw [acceptedBy, acceptedBy, logged_eq, logged_eq, code?_handle_eq keeps.registers,
        code?_handle_eq keeps'.registers]
  | _ => rfl

variable [Handler α γ] [ParamSink γ]

/-- Routers with the same log accept the same, whatever is done with them. -/
theorem accepted_of_keeps {first second : Router α γ} (keeps : first.Keeps log)
    (keeps' : second.Keeps log) (operations : List (Operation α γ)) :
    second.accepted operations = first.accepted operations := by
  induction operations generalizing first second log with
  | nil => rfl
  | cons operation operations ih =>
      have later := keeps'.perform operation
      rw [acceptedBy_of_keeps keeps keeps'] at later
      rw [accepted, accepted, acceptedBy_of_keeps keeps keeps', ih (keeps.perform operation) later]

/-- Routers with the same log give the same codes, whatever is done with them. -/
theorem codes_run {first second : Router α γ} (keeps : first.Keeps log)
    (keeps' : second.Keeps log) (operations : List (Operation α γ)) :
    (first.run operations).answer.map Reply.code? =
      (second.run operations).answer.map Reply.code? := by
  induction operations generalizing first second log with
  | nil => rfl
  | cons operation operations ih =>
      have hcode : (first.perform operation).answer.code? =
          (second.perform operation).answer.code? := by
        cases operation with
        | handle method pattern handler =>
            exact (code?_handle_eq keeps.registers).trans (code?_handle_eq keeps'.registers).symm
        | _ => rfl
      have later := keeps'.perform operation
      rw [acceptedBy_of_keeps keeps keeps'] at later
      rw [run, run, List.map_cons, List.map_cons, hcode, ih (keeps.perform operation) later]

/-- A call to `Router.handle` that a reachable router refuses is invisible: every look-up gives
the same handler and parameters as before, and the same final-slash hint where no accepted
pattern of the method has two slashes in a row; methods and cache statistics are the same; and
every further operation is answered with the same code. -/
theorem refused_registration_invisible (config : RouterConfig)
    (operations : List (Operation α γ)) (method pattern : String) (handler : α)
    (error : RouteError)
    (refused : (((Router.new config : Router α γ).run operations).state.handle method pattern
      handler).answer = .error error) :
    let router := ((Router.new config : Router α γ).run operations).state
    let accepted := (Router.new config : Router α γ).accepted operations
    let after := (router.handle method pattern handler).state
    (∀ method' path,
      (after.lookup method' path).answer.handler = (router.lookup method' path).answer.handler ∧
      (after.lookup method' path).answer.params = (router.lookup method' path).answer.params ∧
      ((∀ old ∈ patternsOf method' accepted, ¬ Pattern.HasDoubleSlash old) →
        (after.lookup method' path).answer.trailingSlashRedirect =
          (router.lookup method' path).answer.trailingSlashRedirect)) ∧
    after.methods = router.methods ∧
    after.cacheStats = router.cacheStats ∧
    ∀ further : List (Operation α γ),
      (after.run further).answer.map Reply.code? =
        (router.run further).answer.map Reply.code? := by
  intro router accepted after
  have keeps : router.Keeps accepted := keeps_run_new config operations
  refine ⟨fun method' path => lookup_of_refused keeps refused method' path,
    methods_of_refused keeps refused, ?_, fun further => ?_⟩
  · show (router.handle method pattern handler).state.cacheStats = router.cacheStats
    rw [handle_of_refused refused]
    rfl
  · exact codes_run (keeps.of_refused refused) keeps further

/-- A parameter where a label goes on: the refusal cuts the label, and `GET` answers as before,
with the hint for the final slash. -/
theorem refused_registration_invisible_cut :
    let router := ((Router.new {} : Router Scripted Record).run
      [.handle "GET" "/café" ⟨"menu", none⟩]).state
    let after := (router.handle "GET" "/caf:e" ⟨"other", none⟩).state
    (router.handle "GET" "/caf:e" ⟨"other", none⟩).answer =
        .error (.conflictingWildcard "/caf:e" ":e" "/café") ∧
      (after.lookup "GET" "/café").answer.handler = (router.lookup "GET" "/café").answer.handler ∧
      (after.lookup "GET" "/café/").answer.trailingSlashRedirect =
        (router.lookup "GET" "/café/").answer.trailingSlashRedirect ∧
      after.methods = router.methods := by
  have refused : (((Router.new {} : Router Scripted Record).run
      [.handle "GET" "/café" ⟨"menu", none⟩]).state.handle "GET" "/caf:e" ⟨"other", none⟩).answer =
        .error (.conflictingWildcard "/caf:e" ":e" "/café") := by
    decide +kernel
  have single : ∀ old ∈ patternsOf "GET" ((Router.new {} : Router Scripted Record).accepted
      [.handle "GET" "/café" ⟨"menu", none⟩]), ¬ Pattern.HasDoubleSlash old := by
    decide +kernel
  obtain ⟨hlookup, hmethods, -, -⟩ :=
    refused_registration_invisible {} _ "GET" "/caf:e" _ _ refused
  exact ⟨refused, (hlookup "GET" "/café").1, (hlookup "GET" "/café/").2.2 single, hmethods⟩

end Router

end RadixRouter

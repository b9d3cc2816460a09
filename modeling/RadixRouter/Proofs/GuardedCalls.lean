/-
# No call leaves a tree's bounds

`RawNode.insert?` registers a pattern in the records of a tree: it checks the pattern, carries it
down, and counts the records afresh if it is refused on the way.  A `Store` keeps the records of
one tree per method and answers registrations, look-ups and searches for a spelling with them
alone.

In this guarded form every access, cut, difference and sum that a call makes is checked, a
wildcard that is neither a parameter nor a catch-all has no case, and a loop that would not end
has no answer.  Calls on a store that starts empty always have one, and it is the one that a
router gives, as long as the accepted routes can be counted in 32 bits with one to spare.
-/

import RadixRouter.Proofs.CacheTransparency
import RadixRouter.Proofs.HitCounters
import RadixRouter.Proofs.RecordInsertion
import RadixRouter.Proofs.RecordRespelling
import RadixRouter.Scripted

namespace RadixRouter

open Guard
open Pattern (Proper head_byte_ne_catchAll)

variable {α γ : Type}

namespace RawNode

/-- Adds a route to the records of a tree. -/
def insertRoute? (pattern : String) (handler : α) (root : RawNode α) (tracked : Nat) :
    Option (Inserted α) := do
  let root ← root.bump?
  if root.label.isEmpty && root.indices.isEmpty && !root.wildChild then
    let built ← root.extend pattern handler (Utf8.encode pattern) tracked
    match built.verdict with
    | .ok () => return { built with record := { built.record with kind := .root } }
    | .error _ => return built
  root.descend pattern handler (Utf8.encode pattern) tracked

/-- Adds the route of a pattern to the records of a tree; after a refusal the counts are made
afresh. -/
def insert? (pattern : String) (handler : α) (root : RawNode α) (tracked : Nat) :
    Option (Inserted α) := do
  match ← Pattern.check? pattern with
  | .error error => return ⟨root, tracked, .error error⟩
  | .ok () =>
    let left ← root.insertRoute? pattern handler tracked
    match left.verdict with
    | .ok () => return left
    | .error _ => return { left with record := ← left.record.recount? }

end RawNode

/-- The records of one tree per method, and the number of hit counters. -/
structure Store (α : Type) where
  records : StringMap (RawNode α)
  tracked : Nat

/-- A call that reads or changes trees. -/
inductive Call (α : Type) where
  | handle (method pattern : String) (handler : α)
  | lookup (method path : String)
  | respell (method path : String) (fix : Bool)

/-- A call as an operation on a router. -/
def Call.operation : Call α → Operation α γ
  | .handle method pattern handler => .handle method pattern handler
  | .lookup method path => .lookup method path
  | .respell method path fix => .respell method path fix

namespace Store

/-- A store without records. -/
def empty : Store α := ⟨StringMap.empty, 0⟩

/-- Answers a call.  The tree of a new method is kept only if its first route is accepted. -/
def reply? (store : Store α) : Call α → Option (Reply α γ × Store α)
  | .handle method pattern handler => do
    match store.records.get? method with
    | some root =>
      let left ← root.insert? pattern handler store.tracked
      return (.handled left.verdict, ⟨store.records.insert method left.record, left.tracked⟩)
    | none =>
      let left ← RawNode.blank.insert? pattern handler store.tracked
      match left.verdict with
      | .ok () =>
        return (.handled left.verdict, ⟨store.records.insert method left.record, left.tracked⟩)
      | .error _ => return (.handled left.verdict, ⟨store.records, left.tracked⟩)
  | .lookup method path => do
    match store.records.get? method with
    | some root =>
      return (.lookedUp (← root.walk (Utf8.encode path) false [] none).answer, store)
    | none => return (.lookedUp (Lookup.miss false), store)
  | .respell method path fix => do
    match store.records.get? method with
    | some root =>
      if (Utf8.encode path).head? = some slash then
        let spelling ← root.respell fix (Utf8.encode path) [] (.ofBytes []) false
        return (.spelling (spelling.bind Utf8.decode?), store)
      return (.spelling none, store)
    | none => return (.spelling none, store)

/-- Answers calls in order. -/
def run? (store : Store α) : List (Call α) → Option (List (Reply α γ))
  | [] => some []
  | call :: calls => do
    let (reply, store) ← store.reply? call
    return reply :: (← store.run? calls)

end Store

section Insert

variable {pattern : String} (handler : α) (fresh : CounterId) {rest : List Token}

/-- The top of a tree is a literal record of its own kind. -/
theorem Stored.crown {label : List UInt8} {priority : Nat} {own : Option α} {below : Below α}
    {record : RawNode α} (stored : Stored false (.static label priority own below) record) :
    Stored true (.static label priority own below) { record with kind := .root } := by
  obtain ⟨_, indices, wildChild, _, _, children, _⟩ := record
  cases stored with
  | static stored => exact .static stored

/-- The first route of a tree. -/
theorem insertRoute?_first (tokens : Pattern.tokens (Utf8.encode pattern) = .byte slash :: rest)
    (proper : Proper true rest) :
    ∃ record, RawNode.blank.insertRoute? pattern handler fresh =
        some ⟨record, (Node.ofTokens handler (.byte slash :: rest) fresh).2, .ok ()⟩ ∧
      Stored true (Node.ofTokens handler (.byte slash :: rest) fresh).1 record := by
  have hproper : Proper false (.byte slash :: rest) := ⟨rfl, proper⟩
  obtain ⟨record, hbuilt, stored⟩ := growsTo pattern handler hproper
    (head_byte_ne_catchAll slash rest) fresh
  obtain ⟨label, existing, below, hnode⟩ := exists_ofTokens_eq handler (.byte slash :: rest) fresh
  have hbump : (RawNode.blank : RawNode α).bump? = some .bud := rfl
  rw [← tokens, Pattern.bytes_tokens] at hbuilt
  rw [hnode] at stored ⊢
  refine ⟨{ record with kind := .root }, ?_, stored.crown⟩
  rw [RawNode.insertRoute?, hbump, Option.bind_eq_bind, Option.bind_some, hbuilt, tokens]
  rfl

/-- The root of a tree is not taken for a new one. -/
theorem not_blank_of_rooted {tree : Node α} {root : RawNode α} (stored : Stored true tree root)
    (rooted : tree.Rooted) :
    (root.label.isEmpty && root.indices.isEmpty && !root.wildChild) = false := by
  obtain ⟨sound, literal⟩ := rooted
  cases stored with
  | catchAll => exact (literal _ _ _ _ rfl).elim
  | static stored =>
      obtain ⟨-, -, hlabel | ⟨rfl, -, -, name, hits, priority, existing, rfl⟩⟩ := sound
      · obtain ⟨label, rfl⟩ := List.head?_eq_some_iff.mp hlabel
        rfl
      · cases stored with
        | edges => rfl

/-- Any other route of a tree. -/
theorem insertRoute?_next {tree : Node α} {root : RawNode α}
    (tokens : Pattern.tokens (Utf8.encode pattern) = .byte slash :: rest)
    (proper : Proper true rest) (stored : Stored true tree root) (admits : tree.Admits slash)
    (rooted : tree.Rooted) :
    Follows pattern fresh true (tree.graft handler fresh (.byte slash :: rest))
      (root.insertRoute? pattern handler fresh) := by
  have hproper : Proper false (.byte slash :: rest) := ⟨rfl, proper⟩
  have hbytes : Pattern.bytes (.byte slash :: rest) = Utf8.encode pattern := by
    rw [← tokens, Pattern.bytes_tokens]
  have fits : root.priority + 1 < 2 ^ 32 := by
    rw [stored.priority_eq]
    exact admits.count_fits
  have hdescend := (descend_eq_graft handler).1 tree pattern true root slash fresh _ false stored
    admits hproper rfl (Nat.le_of_eq (congrArg List.length hbytes))
  have hblank := not_blank_of_rooted stored rooted
  rw [hbytes] at hdescend
  rw [RawNode.insertRoute?, bump?_eq fits, Option.bind_eq_bind, Option.bind_some]
  dsimp only
  rw [hblank]
  exact hdescend

/-- The answer to a first route in a tree, and the tree that is kept if it is accepted; a refusal
leaves the new record as it is. -/
theorem insert?_first (pattern : String) (handler : α) (fresh : CounterId) :
    ∃ record tracked answer, RawNode.blank.insert? pattern handler fresh =
        some ⟨record, tracked, answer⟩ ∧
      Answers fresh answer tracked (Router.insertRoute none pattern handler fresh).2 ∧
      Option.Rel (Stored true) (Router.insertRoute none pattern handler fresh).1
        (answer.toOption.map fun _ => record) ∧
      (answer.toOption = none → record = .blank) := by
  rw [RawNode.insert?, Pattern.check?_eq, Router.insertRoute]
  cases hfault : Pattern.fault? (Utf8.encode pattern) with
  | some fault => exact ⟨_, _, _, rfl, ⟨rfl, rfl⟩, .none, fun _ => rfl⟩
  | none =>
      obtain ⟨rest, htokens, hproper⟩ := Pattern.proper_tokens hfault
      obtain ⟨record, hinsert, stored⟩ := insertRoute?_first handler fresh htokens hproper
      rw [htokens]
      refine ⟨record, _, .ok (), ?_, ⟨rfl, rfl⟩, .some stored, fun h => by cases h⟩
      rw [Option.bind_eq_bind, Option.bind_some, Pattern.verdictOf]
      dsimp only
      rw [hinsert]
      rfl

/-- The answer to any other route in a tree, and the tree that it leaves. -/
theorem insert?_next {tree : Node α} {root : RawNode α} (stored : Stored true tree root)
    (admits : tree.Admits slash) (rooted : tree.Rooted) (pattern : String) (handler : α)
    (fresh : CounterId) :
    ∃ record tracked answer node, root.insert? pattern handler fresh =
        some ⟨record, tracked, answer⟩ ∧
      Answers fresh answer tracked (Router.insertRoute (some tree) pattern handler fresh).2 ∧
      (Router.insertRoute (some tree) pattern handler fresh).1 = some node ∧
      Stored true node record := by
  rw [RawNode.insert?, Pattern.check?_eq, Router.insertRoute]
  cases hfault : Pattern.fault? (Utf8.encode pattern) with
  | some fault => exact ⟨_, _, _, _, rfl, ⟨rfl, rfl⟩, rfl, stored⟩
  | none =>
      obtain ⟨rest, htokens, hproper⟩ := Pattern.proper_tokens hfault
      obtain ⟨record, tracked, answer, hinsert, hrecord, answers⟩ := insertRoute?_next
        handler fresh htokens hproper stored admits rooted
      rw [Option.bind_eq_bind, Option.bind_some, Pattern.verdictOf]
      dsimp only
      rw [hinsert, htokens, Node.insert]
      cases hverdict : (tree.graft handler fresh (.byte slash :: rest)).verdict with
      | ok used =>
          rw [hverdict] at answers
          obtain ⟨rfl, rfl⟩ := answers
          exact ⟨record, _, .ok (), _, rfl, by rw [hverdict]; exact ⟨rfl, rfl⟩, rfl, hrecord⟩
      | error clash =>
          have hlisting := (listing_graft handler).1 tree fresh (.byte slash :: rest) false
            ⟨rfl, hproper⟩
          rw [hverdict] at hlisting answers
          obtain ⟨rfl, rfl⟩ := answers
          obtain ⟨record', hrecount, hstored⟩ := recount?_eq.1 _ true record hrecord (by
            rw [hlisting.length_eq]
            exact Nat.lt_of_succ_lt admits.room)
          refine ⟨record', _, .error _, _, ?_, ⟨rfl, rfl⟩, rfl, hstored⟩
          simp only [Option.bind_eq_bind, Option.bind_some, hrecount]
          rfl

end Insert

namespace Store

/-- A store that keeps the records of the trees of a router, in which the routes are counted. -/
structure Holds (store : Store α) (router : Router α γ) : Prop where
  records : ∀ method,
    Option.Rel (Stored true) (router.trees.get? method) (store.records.get? method)
  tracked : store.tracked = router.cache.counters.length
  tallied : ∀ method, ∀ tree ∈ router.trees.get? method, tree.Tallied

variable {store : Store α} {router : Router α γ} {log : List (Registration α)}

theorem holds_new (config : RouterConfig) :
    (empty : Store α).Holds (Router.new config : Router α γ) :=
  ⟨fun _ => .none, rfl, fun _ _ => nofun⟩

/-- A method has a tree and its records, or neither. -/
theorem Holds.both (holds : store.Holds router) (method : String) :
    (router.trees.get? method = none ∧ store.records.get? method = none) ∨
      ∃ tree root, router.trees.get? method = some tree ∧ store.records.get? method = some root ∧
        Stored true tree root := by
  have hrecords := holds.records method
  generalize router.trees.get? method = tree at hrecords
  generalize store.records.get? method = root at hrecords
  cases hrecords with
  | none => exact Or.inl ⟨rfl, rfl⟩
  | some stored => exact Or.inr ⟨_, _, rfl, rfl, stored⟩

/-- The trees of a router begin with literal text. -/
theorem rooted_of_get? (keeps : router.Keeps log) {method : String} {tree : Node α}
    (present : router.trees.get? method = some tree) : tree.Rooted := by
  have holds := keeps.registers.holds method
  rw [present] at holds
  exact holds.1

/-- One more route can be added to the trees of a router that has not accepted too many. -/
theorem Holds.admits (holds : store.Holds router) (keeps : router.Keeps log)
    (room : log.length + 1 < 2 ^ 32) {method : String} {tree : Node α}
    (present : router.trees.get? method = some tree) : tree.Admits slash ∧ tree.Rooted := by
  have hkept := keeps.registers.holds method
  rw [present] at hkept
  obtain ⟨rooted, same⟩ := hkept
  refine ⟨⟨rooted.sound, holds.tallied method tree present, ?_, fun route hroute => ?_⟩, rooted⟩
  · have hfew : (routesOf method log).length ≤ log.length := by
      rw [routesOf, List.length_map]
      exact List.length_filter_le _ _
    rw [same.length_eq]
    omega
  · obtain ⟨registration, hlogged, -, hroute, -⟩ := mem_routesOf.mp (same.subset hroute)
    rw [← hroute]
    exact ⟨false, (keeps.registers.faultless registration hlogged).proper⟩

/-- The number of counters after a registration. -/
theorem counters_handle (router : Router α γ) (method pattern : String) (handler : α) :
    (router.handle method pattern handler).state.cache.counters.length =
      (Router.insertRoute (router.trees.get? method) pattern handler
        router.cache.counters.length).2.toOption.getD router.cache.counters.length := by
  obtain ⟨added, -, numbered⟩ := Router.numbered_insertRoute (router.trees.get? method) pattern
    handler router.cache.counters.length
  rw [Router.handle_eq]
  cases hverdict : (Router.insertRoute (router.trees.get? method) pattern handler
      router.cache.counters.length).2 with
  | error error => rfl
  | ok used =>
      rw [hverdict] at numbered
      show (router.cache.trackUpTo used).counters.length = used
      rw [ResultCache.trackUpTo, List.length_append, List.length_replicate]
      exact Nat.add_sub_cancel' numbered.le

/-- The answer and the counters of a registration are those of the router. -/
theorem answers_handle {router : Router α γ} {method pattern : String} {handler : α}
    {answer : Except RouteError Unit} {tracked : Nat}
    (answers : Answers router.cache.counters.length answer tracked
      (Router.insertRoute (router.trees.get? method) pattern handler
        router.cache.counters.length).2) :
    answer = (router.handle method pattern handler).answer ∧
      tracked = (router.handle method pattern handler).state.cache.counters.length := by
  rw [counters_handle, Router.handle_eq]
  generalize (Router.insertRoute (router.trees.get? method) pattern handler
    router.cache.counters.length).2 = verdict at answers
  cases verdict <;> exact answers

/-- Whatever a registration leaves of the tree of its method, all other trees stay. -/
theorem Holds.handle (holds : store.Holds router) (keeps : router.Keeps log)
    {method pattern : String} {handler : α} {records : StringMap (RawNode α)} {tracked : Nat}
    (counted : tracked = (router.handle method pattern handler).state.cache.counters.length)
    (kept : ∀ other, records.get? other =
      if method = other then records.get? method else store.records.get? other)
    (planted : Option.Rel (Stored true) (Router.insertRoute (router.trees.get? method) pattern
      handler router.cache.counters.length).1 (records.get? method)) :
    Holds ⟨records, tracked⟩ (router.handle method pattern handler).state where
  records other := by
    rw [Router.get?_handle, kept]
    split
    · exact planted
    · exact holds.records other
  tracked := counted
  tallied other := by
    rw [Router.get?_handle]
    split
    · exact tallied_insertRoute (keeps.registers.holds method) (holds.tallied method) pattern
        handler _
    · exact holds.tallied other

/-- The tree that a registration leaves has taken the place of the one before. -/
theorem Holds.handle_insert (holds : store.Holds router) (keeps : router.Keeps log)
    {method pattern : String} {handler : α} {record : RawNode α} {tracked : Nat}
    (counted : tracked = (router.handle method pattern handler).state.cache.counters.length)
    (planted : Option.Rel (Stored true) (Router.insertRoute (router.trees.get? method) pattern
      handler router.cache.counters.length).1 (some record)) :
    Holds ⟨store.records.insert method record, tracked⟩
      (router.handle method pattern handler).state := by
  have hget : (store.records.insert method record).get? method = some record := by
    rw [StringMap.get?_insert, if_pos rfl]
  refine holds.handle keeps counted (fun other => ?_) (hget ▸ planted)
  rw [hget]
  exact StringMap.get?_insert store.records method other record

/-- A registration is answered as the router answers it, and its tree is kept alike. -/
theorem reply?_handle (holds : store.Holds router) (keeps : router.Keeps log)
    (room : log.length + 1 < 2 ^ 32) (method pattern : String) (handler : α) :
    ∃ store', store.reply? (.handle method pattern handler) =
        some ((Reply.handled (router.handle method pattern handler).answer : Reply α γ), store') ∧
      store'.Holds (router.handle method pattern handler).state := by
  rw [reply?]
  obtain ⟨htree, hroot⟩ | ⟨tree, root, htree, hroot, stored⟩ := holds.both method
  · obtain ⟨record, tracked, answer, hinsert, answers, hplanted, -⟩ :=
      insert?_first pattern handler store.tracked
    rw [holds.tracked, ← htree] at answers hplanted
    obtain ⟨hanswer, hcounted⟩ := answers_handle answers
    rw [hroot, ← hanswer]
    dsimp only
    rw [hinsert]
    cases answer with
    | ok =>
        refine ⟨⟨store.records.insert method record, tracked⟩, rfl, ?_⟩
        exact holds.handle_insert keeps hcounted hplanted
    | error error =>
        refine ⟨⟨store.records, tracked⟩, rfl, ?_⟩
        refine holds.handle keeps hcounted (fun other => ?_) (hroot ▸ hplanted)
        split
        · next h => rw [h]
        · rfl
  · obtain ⟨admits, rooted⟩ := holds.admits keeps room htree
    obtain ⟨record, tracked, answer, node, hinsert, answers, hnode, hstored⟩ :=
      insert?_next stored admits rooted pattern handler store.tracked
    rw [holds.tracked, ← htree] at answers hnode
    obtain ⟨hanswer, hcounted⟩ := answers_handle answers
    rw [hroot, ← hanswer]
    dsimp only
    rw [hinsert]
    refine ⟨⟨store.records.insert method record, tracked⟩, rfl, ?_⟩
    exact holds.handle_insert keeps hcounted (hnode ▸ .some hstored)

/-- A look-up walks the records of its tree as the router walks the tree. -/
theorem reply?_lookup (holds : store.Holds router) (keeps : router.Keeps log)
    (method path : String) :
    store.reply? (.lookup method path) =
      some ((Reply.lookedUp (router.lookup method path).answer.uncached : Reply α γ), store) := by
  rw [Router.lookup_answer keeps.coherent, RadixRouter.walk, reply?]
  obtain ⟨htree, hroot⟩ | ⟨tree, root, htree, hroot, stored⟩ := holds.both method
  · rw [htree, hroot]
    rfl
  · have hwalk := walk_eq.1 tree none root (Utf8.encode path) [] none stored
      (Or.inr (rooted_of_get? keeps htree).literal)
    rw [Search.after_nil, Option.getD_none] at hwalk
    rw [htree, hroot]
    dsimp only
    rw [hwalk]
    rfl

/-- A search for a spelling reads the records of its tree as the router reads the tree. -/
theorem reply?_respell (holds : store.Holds router) (method path : String) (fix : Bool) :
    store.reply? (.respell method path fix) =
      some ((Reply.spelling (router.respelling? method path fix) : Reply α γ), store) := by
  rw [reply?, Router.respelling?]
  obtain ⟨htree, hroot⟩ | ⟨tree, root, htree, hroot, stored⟩ := holds.both method
  · rw [htree, hroot]
    rfl
  · rw [htree, hroot, Option.bind_some, Node.respelling?]
    dsimp only
    cases hpath : Utf8.encode path with
    | nil => rfl
    | cons b rest =>
        have hrespell := (respell_eq fix).1 tree true root (b :: rest) [] [] false stored
          (Or.inl (List.cons_ne_nil b rest)) (Nat.zero_le _)
        by_cases hslash : b = slash
        · subst hslash
          simp only [List.head?_cons, if_true, hrespell, Option.bind_eq_bind, Option.bind_some,
            List.nil_append, Option.map_id']
          rfl
        · have hhead : ¬ (b :: rest).head? = some slash := fun h => hslash (Option.some.inj h)
          rw [if_neg hhead]
          dsimp only
          rw [if_neg hslash]
          rfl

variable [Handler α γ] [ParamSink γ]

/-- Every call has an answer, the one of the router, and leaves the records of its trees. -/
theorem Holds.reply? (holds : store.Holds router) (keeps : router.Keeps log)
    (room : log.length + 1 < 2 ^ 32) (call : Call α) :
    ∃ store', store.reply? call =
        some ((router.perform call.operation).answer.uncached, store') ∧
      store'.Holds (router.perform call.operation).state := by
  cases call with
  | handle method pattern handler => exact reply?_handle holds keeps room method pattern handler
  | lookup method path =>
      have undisturbed := (Router.quiet_lookup router method path).undisturbed
      refine ⟨store, reply?_lookup holds keeps method path, ?_⟩
      exact ⟨fun other => undisturbed.trees ▸ holds.records other,
        holds.tracked.trans undisturbed.counters.symm,
        fun other => undisturbed.trees ▸ holds.tallied other⟩
  | respell method path fix => exact ⟨store, reply?_respell holds method path fix, holds⟩

theorem Holds.run? (holds : store.Holds router) (keeps : router.Keeps log) (calls : List (Call α))
    (room : (log ++ router.accepted (calls.map Call.operation)).length < 2 ^ 32 - 1) :
    store.run? calls =
      some ((router.run (calls.map Call.operation)).answer.map Reply.uncached) := by
  induction calls generalizing store router log with
  | nil => rfl
  | cons call calls ih =>
      rw [List.map_cons, Router.accepted, ← List.append_assoc] at room
      have few : log.length + 1 < 2 ^ 32 := by
        rw [List.length_append, List.length_append] at room
        omega
      obtain ⟨store', hreply, holds'⟩ := holds.reply? keeps few call
      rw [Store.run?, hreply, Option.bind_eq_bind, Option.bind_some]
      dsimp only
      rw [ih holds' (keeps.perform call.operation) room, List.map_cons, Router.run]
      rfl

end Store

/-- Calls on records that start from nothing never leave their bounds: each has an answer, and it
is the one of the router, up to the note that it was cached. -/
theorem guarded_calls_answered [Handler α γ] [ParamSink γ] (config : RouterConfig)
    (calls : List (Call α))
    (room : ((Router.new config : Router α γ).accepted (calls.map Call.operation)).length <
      2 ^ 32 - 1) :
    Store.empty.run? calls =
      some (((Router.new config : Router α γ).run (calls.map Call.operation)).answer.map
        Reply.uncached) :=
  (Store.holds_new config).run? (Router.keeps_new config) calls room

/-- Two of six registrations are accepted; one that is refused cuts a label inside a character,
and paths are empty, lack their first slash, or have a slash or a character too many. -/
theorem guarded_calls_mixed :
    let handler : Scripted := ⟨"handler", none⟩
    let calls : List (Call Scripted) := [.handle "GET" "/café" handler,
      .handle "GET" "/caf:e" handler, .handle "GET" "/src/*rest" handler,
      .handle "GET" "/src/*other" handler, .handle "PUT" "" handler, .handle "PUT" "/a:b:c" handler,
      .lookup "GET" "", .lookup "GET" "/caf", .lookup "GET" "/src//x\x00", .lookup "PUT" "//",
      .respell "GET" "/CAFÉ/" true, .respell "GET" "/CAFÉ/" false, .respell "GET" "café" true,
      .respell "GET" "/SRC" true]
    ((Router.new {} : Router Scripted Record).accepted (calls.map Call.operation)).length <
        2 ^ 32 - 1 ∧
      ∃ replies : List (Reply Scripted Record), Store.empty.run? calls = some replies ∧
        (replies.filterMap fun | .handled (.error error) => some error.code | _ => none) =
          ["R1003", "R1003", "R1001", "R1005"] ∧
        (replies.filterMap fun | .spelling spelling => some spelling | _ => none) =
          [some "/café", none, none, some "/src/"] := by
  intro handler calls
  have room : ((Router.new {} : Router Scripted Record).accepted
      (calls.map Call.operation)).length < 2 ^ 32 - 1 := by
    decide +kernel
  refine ⟨room, _, guarded_calls_answered {} calls room, ?_, ?_⟩
  · decide +kernel
  · decide +kernel

end RadixRouter

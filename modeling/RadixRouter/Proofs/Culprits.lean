/-
# The route that a conflict names

A conflict names the first route below the point where the new one cannot go on: the text down to
there is taken from the new pattern, the rest from the labels of the tree.  What this spells is a
route of the tree, and that route and the new one are rivals right behind the text they share.

The point lies between two characters.  Where the new route goes on with a wildcard, its marker
starts there; everywhere else the tree goes on with a wildcard or with the slash of a catch-all.
-/

import RadixRouter.Proofs.RefusedRegistration
import RadixRouter.Proofs.TextSpans
import RadixRouter.Proofs.WildcardNodes

namespace RadixRouter

open Pattern (Conflict Proper fused head_byte_ne_catchAll route)
open Utf8

variable {α γ : Type}

/-- The sample of a sound tree is one of its routes. -/
theorem exists_sample :
    (∀ (node : Node α) (index : UInt8), node.Sound index →
      ∃ entry ∈ node.listing, node.sample = Pattern.bytes entry.1) ∧
    ∀ below : Below α, below.Sound → below ≠ .edges [] →
      ∃ entry ∈ below.listing, below.sample = Pattern.bytes entry.1 := by
  refine tree_induction ?static ?catchAll ?edges ?param
  case static =>
    intro label priority handler below ih index sound
    cases handler with
    | some handler =>
        refine ⟨(label.map .byte, handler), ?_, ?_⟩
        · rw [listing_static_some]
          exact List.mem_cons_self
        · rw [Node.sample, Pattern.bytes_map_byte]
          exact List.append_nil label
    | none =>
        obtain ⟨⟨tail, handler⟩, hmem, hsample⟩ := ih sound.1 (sound.2.1 rfl)
        refine ⟨(label.map .byte ++ tail, handler),
          mem_prependTokens.mpr ⟨tail, rfl, List.mem_append_right _ hmem⟩, ?_⟩
        rw [Node.sample, Pattern.bytes_append, Pattern.bytes_map_byte, ← hsample]
        rfl
  case catchAll =>
    intro name hits priority handler index _
    refine ⟨_, List.mem_singleton.mpr rfl, ?_⟩
    simp [Node.sample, Pattern.bytes, Token.bytes]
  case edges =>
    intro es ih sound nonempty
    cases es with
    | nil => exact absurd rfl nonempty
    | cons edge es =>
        obtain ⟨entry, hmem, hsample⟩ := ih edge (List.mem_cons_self ..) edge.1 sound.2.1
        exact ⟨entry, List.mem_append_left _ hmem, hsample⟩
  case param =>
    intro name hits priority handler next ih sound _
    cases handler with
    | some handler =>
        refine ⟨([.param name], handler), ?_, ?_⟩
        · rw [listing_param_some]
          exact List.mem_cons_self
        · simp [Below.sample, Pattern.bytes, Token.bytes]
    | none =>
        cases next with
        | none => exact absurd rfl (sound.1 rfl)
        | some node =>
            obtain ⟨⟨tail, handler⟩, hmem, hsample⟩ := ih node rfl slash sound.2
            refine ⟨(.param name :: tail, handler),
              mem_prependTokens.mpr ⟨tail, rfl, List.mem_append_right _ hmem⟩, ?_⟩
            show colon :: name ++ node.sample = _
            rw [hsample]
            rfl

/-- Text that, behind what a route shares with the new one, makes a route of a listing, and one
that is rival to the new route right there.  Neither of the two is in the middle of a
character. -/
def Names (listing : List (List Token × α)) (new left : List Token) (existing : List UInt8) :
    Prop :=
  ∃ shared tail handler, new = shared ++ left ∧ (shared ++ tail, handler) ∈ listing ∧
    existing = Pattern.bytes tail ∧
    (rivalry tail left = some .wildcard ∨ rivalry tail left = some .catchAll) ∧
    ∀ b, tail.head? = some (.byte b) → b = slash ∨ ∃ token ∈ left.head?, token.isByte = false

/-- What a clash names, if it names a route. -/
def Clash.Blames (listing : List (List Token × α)) (new : List Token) : Clash → Prop
  | .duplicate => True
  | .wildcard left _ existing => Names listing new left existing
  | .catchAll left existing => Names listing new left existing

section Names

variable {listing listing' : List (List Token × α)} {new left : List Token}
  {existing : List UInt8}

theorem Names.mono (names : Names listing new left existing) (more : listing ⊆ listing') :
    Names listing' new left existing := by
  obtain ⟨shared, tail, handler, hnew, hmem, hrest⟩ := names
  exact ⟨shared, tail, handler, hnew, more hmem, hrest⟩

theorem Names.prependTokens (names : Names listing new left existing) (tokens : List Token) :
    Names (prependTokens tokens listing) (tokens ++ new) left existing := by
  obtain ⟨shared, tail, handler, rfl, hmem, hrest⟩ := names
  refine ⟨tokens ++ shared, tail, handler, (List.append_assoc ..).symm, ?_, hrest⟩
  rw [List.append_assoc]
  exact mem_prependTokens.mpr ⟨_, rfl, hmem⟩

theorem Clash.Blames.mono {clash : Clash} (blames : clash.Blames listing new)
    (more : listing ⊆ listing') : clash.Blames listing' new := by
  cases clash with
  | duplicate => trivial
  | wildcard left segment existing => exact Names.mono blames more
  | catchAll left existing => exact Names.mono blames more

theorem Clash.Blames.prependTokens {clash : Clash} (blames : clash.Blames listing new)
    (tokens : List Token) : clash.Blames (RadixRouter.prependTokens tokens listing) (tokens ++ new) := by
  cases clash with
  | duplicate => trivial
  | wildcard left segment existing => exact Names.prependTokens blames tokens
  | catchAll left existing => exact Names.prependTokens blames tokens

end Names

/-- Edges are in the way of every wildcard. -/
theorem names_edges {es : List (Edge α)} (sound : (Below.edges es).Sound) (nonempty : es ≠ [])
    {token : Token} (wild : token.isByte = false) (rest : List Token) :
    Names (listingEdges es) (token :: rest) (token :: rest) (sampleEdges es) := by
  obtain ⟨edge, es, rfl⟩ := List.exists_cons_of_ne_nil nonempty
  obtain ⟨⟨tail, found⟩, hmem, hsample⟩ := exists_sample.2 _ sound (edges_cons_ne_nil edge es)
  obtain ⟨first, _, tail', htail⟩ := sound.head_listing_edges hmem
  obtain rfl : tail = .byte first.1 :: tail' := htail
  refine ⟨[], _, found, rfl, hmem, hsample, ?_, fun _ _ => Or.inr ⟨token, rfl, wild⟩⟩
  cases token with
  | byte c => cases wild
  | param name => exact Or.inl rfl
  | catchAll name => exact Or.inr rfl

/-- A sprout blames a route of the edges that are there. -/
theorem blames_sprout {es : List (Edge α)} (sound : (Below.edges es).Sound) {handler : α}
    {fresh : CounterId} {rest : List Token}
    (hcatchAll : ∀ name, rest.head? = some (.catchAll name) → es ≠ []) {clash : Clash}
    (refused : (sprout handler fresh es rest).verdict = .error clash) :
    clash.Blames (listingEdges es) rest := by
  cases rest with
  | nil => cases refused
  | cons token rest =>
      cases token with
      | byte b => cases refused
      | param name =>
          cases es with
          | nil => cases refused
          | cons edge es =>
              cases refused
              exact names_edges sound (List.cons_ne_nil _ _) rfl rest
      | catchAll name =>
          cases refused
          exact names_edges sound (hcatchAll name rfl) rfl rest

/-- A refused graft onto a node blames a route of the node. -/
def Node.Blames (handler : α) (node : Node α) : Prop :=
  ∀ (index : UInt8) (fresh : CounterId) (rest : List Token) (slashed : Bool) (clash : Clash),
    node.Sound index → Proper slashed rest → rest.head? = some (.byte index) →
      (node.graft handler fresh rest).verdict = .error clash → clash.Blames node.listing rest

/-- A refused graft below a label blames a route there.  A catch-all gets here only where some
route goes on. -/
def Below.Blames (handler : α) (below : Below α) : Prop :=
  ∀ (fresh : CounterId) (rest : List Token) (slashed : Bool) (clash : Clash),
    below.Sound → Proper slashed rest → rest ≠ [] →
      (∀ name, rest.head? = some (.catchAll name) → below ≠ .edges []) →
        (below.graft handler fresh rest).verdict = .error clash → clash.Blames below.listing rest

theorem blames_static {handler : α} {below : Below α} (ih : below.Blames handler)
    (label : List UInt8) (priority : Nat) (existing : Option α) :
    (Node.static label priority existing below).Blames handler := by
  intro index fresh rest slashed clash sound proper hhead refused
  obtain ⟨hbelow, hroute, -⟩ := sound
  rcases hmet : overlap label rest with ⟨common, label', rest'⟩
  obtain ⟨hlabel, rfl, -⟩ := overlap_eq hmet
  obtain ⟨slashed', proper'⟩ := Proper.drop_literal proper
  cases label' with
  | cons b suffix =>
      subst hlabel
      have hlower : (Below.edges [(b, .static (b :: suffix) priority existing below)]).Sound :=
        sound_cut hbelow hroute
      rw [listing_cut]
      cases rest' with
      | nil =>
          rw [graft_cut_end hmet] at refused
          cases refused
      | cons token rest' =>
          rw [graft_cut_sprout hmet] at refused
          exact (blames_sprout hlower (fun _ _ => List.cons_ne_nil _ _) refused).prependTokens _
  | nil =>
      rw [List.append_nil] at hlabel
      subst hlabel
      rw [Node.listing]
      refine Clash.Blames.prependTokens ?_ _
      cases rest' with
      | nil =>
          rw [graft_here hmet] at refused
          cases existing with
          | none => cases refused
          | some existing =>
              cases refused
              trivial
      | cons token rest' =>
          rw [graft_below hmet] at refused
          by_cases goesOn : below = .edges [] ∧ ∃ name, token = .catchAll name
          · -- the route that ends here is in the way of a catch-all
            obtain ⟨rfl, name, rfl⟩ := goesOn
            cases existing with
            | none => exact absurd rfl (hroute rfl)
            | some existing =>
                cases refused
                refine ⟨[], [], existing, rfl, List.mem_cons_self, rfl, Or.inr rfl, ?_⟩
                intro b hb
                cases hb
          · refine (ih fresh _ slashed' clash hbelow proper' (List.cons_ne_nil _ _) ?_ refused).mono
              fun _ h => List.mem_append_right _ h
            rintro name h rfl
            exact goesOn ⟨rfl, name, Option.some.inj h⟩

theorem blames_catchAll (handler : α) (name : List UInt8) (hits : CounterId) (priority : Nat)
    (existing : α) : (Node.catchAll name hits priority existing).Blames handler := by
  intro index fresh rest slashed clash sound proper hhead refused
  rw [Node.Sound] at sound
  subst sound
  obtain ⟨rest, rfl⟩ := List.head?_eq_some_iff.mp hhead
  rw [Node.graft] at refused
  dsimp only at refused
  split at refused
  · cases refused
    trivial
  · next different =>
      cases refused
      refine ⟨[], [.byte slash, .catchAll name], existing, rfl, List.mem_singleton.mpr rfl, ?_,
        Or.inl ?_, ?_⟩
      · simp [Pattern.bytes, Token.bytes]
      · rw [rivalry_cons_self]
        cases rest with
        | nil => rfl
        | cons token rest =>
            have htoken : .catchAll name ≠ token := by
              rintro rfl
              obtain ⟨-, -, -, rfl⟩ := proper
              exact different rfl
            rw [rivalry_of_ne htoken]
            rfl
      · intro b hb
        exact Or.inl (Token.byte.inj (Option.some.inj hb)).symm

theorem blames_edges {handler : α} {es : List (Edge α)}
    (ih : ∀ edge ∈ es, edge.2.Blames handler) : (Below.edges es).Blames handler := by
  intro fresh rest slashed clash sound proper hrest hcatchAll refused
  rcases graft_edges handler fresh es rest with
    ⟨hsprout, -⟩ | ⟨before, b, node, after, hhead, rfl, hfollow⟩
  · rw [hsprout] at refused
    refine blames_sprout sound ?_ refused
    intro name hname hes
    exact hcatchAll name hname (congrArg Below.edges hes)
  · rw [hfollow] at refused
    have hmem : (b, node) ∈ before ++ (b, node) :: after :=
      List.mem_append_right _ (List.mem_cons_self ..)
    have hsound := (Below.sound_edges_iff.mp sound).2 _ hmem
    exact (ih _ hmem b fresh rest slashed clash hsound proper hhead refused).mono
      (listing_subset_edges hmem)

theorem blames_param {handler : α} {next : Option (Node α)}
    (ih : ∀ node, next = some node → node.Blames handler) (name : List UInt8)
    (hits : CounterId) (priority : Nat) (existing : Option α) :
    (Below.param name hits priority existing next).Blames handler := by
  intro fresh rest slashed clash sound proper hrest _ refused
  obtain ⟨token, rest, rfl⟩ := List.exists_cons_of_ne_nil hrest
  by_cases htoken : token = .param name
  · subst htoken
    cases rest with
    | nil =>
        rw [graft_param_here] at refused
        cases existing with
        | none => cases refused
        | some existing =>
            cases refused
            trivial
    | cons token rest =>
        obtain ⟨-, hslash, hproper⟩ := proper
        obtain rfl : token = .byte slash := hslash token rfl
        rw [graft_param_next] at refused
        cases next with
        | none => cases refused
        | some node =>
            have hnode := (ih node rfl slash fresh _ false clash sound.2 hproper rfl refused).mono
              fun _ h => List.mem_append_right (existing.toList.map (([], ·))) h
            exact hnode.prependTokens [.param name]
  · rw [graft_param_other htoken] at refused
    cases refused
    obtain ⟨⟨tail, found⟩, hmem, hsample⟩ := exists_sample.2 _ sound (param_ne_edges [])
    obtain ⟨tail', htail⟩ := head_listing_param hmem
    obtain rfl : tail = .param name :: tail' := htail
    refine ⟨[], _, found, rfl, hmem, hsample, Or.inl ?_, nofun⟩
    rw [rivalry_of_ne (Ne.symm htoken)]
    rfl

/-- A refused insertion blames a route of the tree. -/
theorem blames_graft (handler : α) :
    (∀ node : Node α, node.Blames handler) ∧ ∀ below : Below α, below.Blames handler := by
  refine tree_induction ?static ?catchAll ?edges ?param
  case static =>
    intro label priority existing below ih
    exact blames_static ih label priority existing
  case catchAll =>
    intro name hits priority existing
    exact blames_catchAll handler name hits priority existing
  case edges =>
    intro es ih
    exact blames_edges ih
  case param =>
    intro name hits priority existing next ih
    exact blames_param ih name hits priority existing

/-- A slash or a wildcard is written from the start of a character on. -/
theorem exists_start {token : Token} (starts : token = .byte slash ∨ token.isByte = false) :
    ∃ b rest, token.bytes = b :: rest ∧ isStart b = true := by
  cases token with
  | byte b =>
      obtain h | h := starts
      · cases h
        exact ⟨slash, [], rfl, by decide⟩
      · cases h
  | param name => exact ⟨colon, name, rfl, by decide⟩
  | catchAll name => exact ⟨star, name, rfl, by decide⟩

/-- The text before a slash or a wildcard is whole. -/
theorem whole_before {shared rest : List Token} {token : Token}
    (starts : token = .byte slash ∨ token.isByte = false)
    (whole : Whole (Pattern.bytes (shared ++ token :: rest))) : Whole (Pattern.bytes shared) := by
  obtain ⟨b, more, hbytes, start⟩ := exists_start starts
  have cut : Pattern.bytes (shared ++ token :: rest) =
      Pattern.bytes shared ++ b :: (more ++ Pattern.bytes rest) := by
    rw [Pattern.bytes_append, ← List.cons_append, ← hbytes]
    rfl
  rw [cut] at whole
  exact (whole.cut start).1

theorem bytes_route (pattern : String) : Pattern.bytes (route pattern) = encode pattern :=
  Pattern.bytes_tokens _

theorem whole_route (pattern : String) : Whole (Pattern.bytes (route pattern)) :=
  ⟨pattern.toList, by rw [bytes_route, encode_eq]⟩

/-- What a clash names is read as the pattern of a rival route. -/
theorem Names.exists_pattern {listing : List (List Token × α)} {pattern : String}
    {left : List Token} {existing : List UInt8}
    (names : Names listing (route pattern) left existing)
    (patterns : ∀ entry ∈ listing, ∃ old, route old = entry.1) :
    ∃ handler, (route (Router.refusal.inTheWay pattern left existing), handler) ∈ listing ∧
      (rivalry (route (Router.refusal.inTheWay pattern left existing)) (route pattern) =
          some .wildcard ∨
        rivalry (route (Router.refusal.inTheWay pattern left existing)) (route pattern) =
          some .catchAll) := by
  obtain ⟨shared, tail, handler, hnew, hmem, rfl, hrival, hstart⟩ := names
  obtain ⟨old, hold⟩ := patterns _ hmem
  dsimp only at hold
  have wholeOld := whole_route old
  have wholeNew := whole_route pattern
  rw [hold] at wholeOld
  rw [hnew] at wholeNew
  obtain ⟨front, hfront⟩ : Whole (Pattern.bytes shared) := by
    cases tail with
    | nil => rwa [List.append_nil] at wholeOld
    | cons token tail =>
        cases token with
        | param name => exact whole_before (Or.inr rfl) wholeOld
        | catchAll name => exact whole_before (Or.inr rfl) wholeOld
        | byte b =>
            rcases hstart b rfl with rfl | ⟨token, hhead, wild⟩
            · exact whole_before (Or.inl rfl) wholeOld
            · obtain ⟨left, rfl⟩ := List.head?_eq_some_iff.mp hhead
              exact whole_before (Or.inr wild) wholeNew
  have hplaced : (encode pattern).take
      ((encode pattern).length - (Pattern.bytes left).length) = encodeChars front := by
    rw [← bytes_route, hnew, Pattern.bytes_append, List.length_append, Nat.add_sub_cancel,
      List.take_left, hfront]
  have hwritten : encodeChars front ++ Pattern.bytes tail = encodeChars old.toList := by
    rw [← hfront, ← Pattern.bytes_append, ← hold, bytes_route, encode_eq]
  obtain ⟨after, hchars, hafter⟩ := encodeChars_append_eq hwritten
  have same : Router.refusal.inTheWay pattern left (Pattern.bytes tail) = old := by
    rw [Router.refusal.inTheWay, hplaced, hafter, decodeLossy_encodeChars, decodeLossy_encodeChars,
      ← String.ofList_append, ← hchars, String.ofList_toList]
  rw [same, hold, hnew, rivalry_append_left]
  exact ⟨handler, hmem, hrival⟩

/-- The route that a refusal names, if it names one. -/
def RouteError.existing? : RouteError → Option String
  | .conflictingWildcard _ _ existing => some existing
  | .catchAllConflictsWithChildren _ existing => some existing
  | _ => none

/-- Two patterns in conflict share their tokens up to a point where they go on with different
ones, at least one of them a wildcard. -/
theorem exists_parting {first second : List Token}
    (parts : Pattern.partsBadly first second = true) :
    ∃ shared old olds new news, first = shared ++ old :: olds ∧ second = shared ++ new :: news ∧
      old ≠ new ∧ (old.isByte = false ∨ new.isByte = false) := by
  induction first generalizing second with
  | nil =>
      rw [Pattern.partsBadly_nil_left] at parts
      cases parts
  | cons s first ih =>
      cases second with
      | nil =>
          rw [Pattern.partsBadly_nil_right] at parts
          cases parts
      | cons t second =>
          rw [Pattern.partsBadly_cons] at parts
          by_cases same : s = t
          · subst same
            rw [if_pos rfl] at parts
            obtain ⟨shared, old, olds, new, news, rfl, rfl, hrest⟩ := ih parts
            exact ⟨s :: shared, old, olds, new, news, rfl, rfl, hrest⟩
          · rw [if_neg same] at parts
            refine ⟨[], s, first, t, second, rfl, rfl, same, ?_⟩
            cases s with
            | byte b =>
                cases t with
                | byte c => cases parts
                | param name => exact Or.inr rfl
                | catchAll name => exact Or.inr rfl
            | param name => exact Or.inl rfl
            | catchAll name => exact Or.inl rfl

/-- A rival for another reason than that it is the same is in conflict. -/
theorem conflict_of_rivalry {old new : String} (faultless : Pattern.Faultless old)
    (faultless' : Pattern.Faultless new)
    (rival : rivalry (route old) (route new) = some .wildcard ∨
      rivalry (route old) (route new) = some .catchAll) : Conflict old new := by
  by_contra peaceful
  have different : old ≠ new := by
    rintro rfl
    rw [Pattern.rivalry_eq_duplicate_iff.mpr rfl] at rival
    rcases rival with h | h <;> cases h
  rw [(faultless.rivalry_eq_none_iff faultless').mpr ⟨different, peaceful⟩] at rival
  rcases rival with h | h <;> cases h

namespace Router

section Insert

variable {trees : StringMap (Node α)} {log : List (Registration α)} {method pattern : String}
  {handler : α} {fresh : CounterId} {error : RouteError}

/-- A route of the tree of a method that is named by a clash is an accepted pattern, in conflict
with the new one. -/
theorem mem_patternsOf_of_names (registers : Registers trees log) {tree : Node α}
    (planted : trees.get? method = some tree) (faultless : Pattern.Faultless pattern)
    {left : List Token} {existing : List UInt8}
    (names : Names tree.listing (route pattern) left existing) :
    refusal.inTheWay pattern left existing ∈ patternsOf method log ∧
      Conflict (refusal.inTheWay pattern left existing) pattern := by
  have holds := registers.holds method
  rw [planted] at holds
  have logged {path : List Token} {found : α} (inside : (path, found) ∈ tree.listing) :
      ∃ old ∈ patternsOf method log, route old = path := by
    obtain ⟨registration, hlogged, hmethod, hroute, -⟩ :=
      mem_routesOf.mp (holds.2.mem_iff.mp inside)
    exact ⟨_, mem_patternsOf.mpr ⟨registration, hlogged, hmethod, rfl⟩, hroute⟩
  obtain ⟨found, hmem, rival⟩ := names.exists_pattern fun entry inside =>
    (logged inside).imp fun _ h => h.2
  obtain ⟨old, hold, hroute⟩ := logged hmem
  obtain rfl := Pattern.route_injective hroute
  exact ⟨hold, conflict_of_rivalry (registers.faultless_of_mem hold) faultless rival⟩

/-- A refusal because of a conflict names an accepted pattern that is in conflict. -/
theorem exists_conflict_of_refused (registers : Registers trees log)
    (refused : (insertRoute (trees.get? method) pattern handler fresh).2 = .error error)
    (conflict : error.code = "R1003" ∨ error.code = "R1007") :
    error.path = pattern ∧
      ∃ existing ∈ patternsOf method log, error.existing? = some existing ∧
        Conflict existing pattern := by
  unfold insertRoute at refused
  dsimp only at refused
  cases hfault : Pattern.fault? (encode pattern) with
  | some fault =>
      rw [hfault] at refused
      cases refused
      cases fault <;> simp [RouteError.ofFault, RouteError.code] at conflict
  | none =>
      obtain ⟨rest, hroute, hproper⟩ := Pattern.proper_tokens hfault
      rw [hfault] at refused
      cases htree : trees.get? method with
      | none =>
          rw [htree] at refused
          cases refused
      | some tree =>
          rw [htree] at refused
          dsimp only at refused
          have holds := registers.holds method
          rw [htree] at holds
          cases hverdict : (tree.insert handler fresh (Pattern.tokens (encode pattern))).verdict with
          | ok used =>
              rw [hverdict] at refused
              cases refused
          | error clash =>
              rw [hverdict] at refused
              cases refused
              rw [(insert_eq _ _ _ _).1, hroute] at hverdict
              have blames := (blames_graft handler).1 tree slash fresh (.byte slash :: rest) false
                clash holds.1.sound ⟨rfl, hproper⟩ rfl hverdict
              rw [← hroute] at blames
              cases clash with
              | duplicate => simp [refusal, RouteError.code] at conflict
              | wildcard left segment existing =>
                  obtain ⟨hmem, hconflict⟩ := mem_patternsOf_of_names registers htree hfault blames
                  exact ⟨rfl, _, hmem, rfl, hconflict⟩
              | catchAll left existing =>
                  obtain ⟨hmem, hconflict⟩ := mem_patternsOf_of_names registers htree hfault blames
                  exact ⟨rfl, _, hmem, rfl, hconflict⟩

end Insert

variable [Handler α γ] [ParamSink γ]

/-- In every reachable router, a registration that is refused with `R1003` or `R1007` is told of a
pattern accepted for its method.  The two share their tokens, a final catch-all counted with its
slash, up to where they go on with different ones, at least one of them a wildcard. -/
theorem conflict_names_culprit (config : RouterConfig) (operations : List (Operation α γ))
    (method pattern : String) (handler : α) (error : RouteError) :
    let router := ((Router.new config : Router α γ).run operations).state
    let accepted := patternsOf method ((Router.new config : Router α γ).accepted operations)
    (router.handle method pattern handler).answer = .error error →
      error.code = "R1003" ∨ error.code = "R1007" →
        error.path = pattern ∧
          ∃ existing ∈ accepted, error.existing? = some existing ∧
            ∃ shared old olds new news,
              fused (route existing) = shared ++ old :: olds ∧
              fused (route pattern) = shared ++ new :: news ∧
              old ≠ new ∧ (old.isByte = false ∨ new.isByte = false) := by
  intro router accepted refused conflict
  have keeps : router.Keeps ((Router.new config : Router α γ).accepted operations) :=
    keeps_run_new config operations
  obtain ⟨hpath, existing, hmem, hnamed, hconflict⟩ :=
    exists_conflict_of_refused keeps.registers (verdict_of_refused refused) conflict
  exact ⟨hpath, existing, hmem, hnamed, exists_parting hconflict⟩

/-- The labels of two accented letters part inside a character; the first of them is named
whole. -/
theorem conflict_names_culprit_accent :
    let router := ((Router.new {} : Router Scripted Record).run
      [.handle "GET" "/é" ⟨"acute", none⟩, .handle "GET" "/è" ⟨"grave", none⟩]).state
    (router.handle "GET" "/:x" ⟨"letter", none⟩).answer =
        .error (.conflictingWildcard "/:x" ":x" "/é") ∧
      ∃ existing ∈ patternsOf "GET" ((Router.new {} : Router Scripted Record).accepted
          [.handle "GET" "/é" ⟨"acute", none⟩, .handle "GET" "/è" ⟨"grave", none⟩]),
        existing = "/é" := by
  have refused : (((Router.new {} : Router Scripted Record).run
      [.handle "GET" "/é" ⟨"acute", none⟩, .handle "GET" "/è" ⟨"grave", none⟩]).state.handle
        "GET" "/:x" ⟨"letter", none⟩).answer =
      .error (.conflictingWildcard "/:x" ":x" "/é") := by
    decide +kernel
  obtain ⟨-, existing, hmem, hnamed, -⟩ :=
    conflict_names_culprit {} _ "GET" "/:x" _ _ refused (Or.inl rfl)
  exact ⟨refused, existing, hmem, (Option.some.inj hnamed).symm⟩

end Router

end RadixRouter

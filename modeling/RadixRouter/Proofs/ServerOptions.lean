/-
# The server-wide request

`OPTIONS *` asks for every method with a route.  The path `*` takes part in everything that comes
before an automatic answer: no pattern matches it and no slash is recommended for it, but its clean
form `/*` is a path like any other, so a redirect to a registered spelling of it goes before the
list of methods.
-/

import RadixRouter.Proofs.AllowLists
import RadixRouter.Proofs.CaseExactness
import RadixRouter.Proofs.CorrectedPaths
import RadixRouter.Proofs.SlashRedirects

namespace RadixRouter

open Pattern (Proper Matches)
open Utf8 (encode)

variable {α γ : Type}

/-- A route is a parameter between two slashes. -/
def SlashedParam (listing : List (List Token × α)) : Prop :=
  ∃ name handler, ([.byte slash, .param name, .byte slash], handler) ∈ listing

/-- What the corrector makes of the path `/*`: itself where a route takes it, and with `fix` the path
with one slash more where only a parameter between two slashes would. -/
inductive StarSpelling (fix : Bool) (listing : List (List Token × α)) : Option (List UInt8) → Prop
  | taken (takes : Takes listing [slash, star]) : StarSpelling fix listing (some [slash, star])
  | slashed (fixing : fix = true) (missed : ¬ Takes listing [slash, star])
      (slashed : SlashedParam listing) : StarSpelling fix listing (some [slash, star, slash])
  | nothing (missed : ¬ Takes listing [slash, star])
      (unslashed : ¬ (fix = true ∧ SlashedParam listing)) : StarSpelling fix listing none

/-- Where every route goes on with text after its slash, nothing is made of the path. -/
theorem starSpelling_none {fix : Bool} {listing : List (List Token × α)}
    (literal : ∀ route handler, (route, handler) ∈ listing →
      route = [.byte slash] ∨ ∃ b rest, route = .byte slash :: .byte b :: rest ∧ b ≠ star) :
    StarSpelling fix listing none := by
  apply StarSpelling.nothing
  · rintro ⟨handler, captures, route, hroute, fits⟩
    rcases literal route handler hroute with rfl | ⟨b, rest, rfl, apart⟩
    · cases fits with
      | byte rest => cases rest
    · cases fits with
      | byte rest => exact apart (Option.some.inj rest.head_path).symm
  · rintro ⟨-, name, handler, hroute⟩
    rcases literal _ handler hroute with h | ⟨b, rest, h, -⟩ <;> cases h

/-- A node that a slash leads to ends a route after that slash exactly if it says so. -/
theorem endsSlash_iff {node : Node α} (sound : node.Sound slash) :
    (decide (node.label = [slash]) && node.endsSlash) = true ↔
      ∃ handler, ([.byte slash], handler) ∈ node.listing := by
  cases node with
  | catchAll name hits priority existing => simp [Node.label, Node.listing]
  | static label priority existing below =>
      obtain ⟨hbelow, -, hlabel | ⟨rfl, -, rfl, name, hits, priority', existing', rfl⟩⟩ := sound
      · obtain ⟨label, rfl⟩ := List.head?_eq_some_iff.mp hlabel
        simp only [Node.label, Node.endsSlash, Bool.and_eq_true, decide_eq_true_eq]
        constructor
        · rintro ⟨hlone, -, hexisting⟩
          obtain ⟨handler, rfl⟩ := Option.isSome_iff_exists.mp hexisting
          obtain rfl : label = [] := by simpa using hlone
          exact ⟨handler, by simp [listing_static_some]⟩
        · rintro ⟨handler, hroute⟩
          obtain ⟨rest, hrest, hends⟩ := mem_prependTokens.mp hroute
          obtain ⟨rfl, rfl⟩ : label = [] ∧ rest = [] := by simpa using hrest
          rcases List.mem_append.mp hends with h | h
          · obtain ⟨existing', hexisting, -⟩ := List.mem_map.mp h
            exact ⟨rfl, rfl, Option.isSome_of_eq_some (Option.mem_toList.mp hexisting)⟩
          · exact absurd rfl (hbelow.route_ne_nil h)
      · simp [Node.label, Node.listing, Below.listing, listingEdges, prependTokens]

section Param

variable {name : List UInt8} {hits : CounterId} {priority priority' : Nat}
  {handler existing : Option α} {next : Option (Node α)}

/-- The routes that go on with a parameter right after the slash. -/
theorem mem_listing_param {name' : List UInt8} {route : List Token} {found : α} :
    (.byte slash :: .param name' :: route, found) ∈
        (Node.static [slash] priority' handler
          (.param name hits priority existing next)).listing ↔
      name' = name ∧ (route, found) ∈ existing.toList.map (([], ·)) ++ listingNext next := by
  simp [Node.listing, Below.listing, mem_prependTokens, and_assoc]

/-- A parameter right after the slash takes the path, unless the pattern goes on. -/
theorem starSpelling_param {fix ends : Bool}
    (sound : (Below.param name hits priority existing next).Sound) :
    StarSpelling fix
      (Node.static [slash] priority' handler (.param name hits priority existing next)).listing
      ((Node.static [slash] priority' handler
        (.param name hits priority existing next)).respell fix [slash, star] [] ends) := by
  have matched : matchesLoosely [slash] [slash, star] = true := by decide
  have value : untilSlash [star] = [star] := rfl
  have past : fromSlash [star] = [] := rfl
  rw [Node.respell, if_pos matched]
  simp only [Below.respell, List.length_singleton, List.drop_succ_cons, List.drop_zero, value, past,
    List.isEmpty_cons, Bool.false_eq_true, if_false, List.cons_ne_nil]
  cases existing with
  | some existing =>
      have fits : Fits [.byte slash, .param name] (slash :: ([star] ++ [])) [(name, [star])] :=
        .byte (.param (List.cons_ne_nil _ _) (by decide) .done)
      exact .taken ⟨existing, _, _, mem_listing_param.mpr ⟨rfl, List.mem_cons_self ..⟩, fits⟩
  | none =>
      have missed : ¬ Takes (Node.static [slash] priority' handler
          (.param name hits priority none next)).listing [slash, star] := by
        rintro ⟨found, captures, route, hroute, fits⟩
        obtain ⟨rest, hrest, hfits⟩ := (fits_static sound).mp ⟨route, hroute, fits⟩
        obtain rfl : rest = [star] := (List.cons.inj hrest).2.symm
        rcases hfits with ⟨-, h, -⟩ | hbelow
        · cases h
        · obtain ⟨-, captures', -, hend⟩ := (fits_below_param sound.2).mp hbelow
          cases ((fits_param_end sound.2).mp hend).1
      have slashed : next.any (fun node => node.label = [slash] && node.endsSlash) = true ↔
          SlashedParam (Node.static [slash] priority' handler
            (.param name hits priority none next)).listing := by
        rw [Option.any_eq_true]
        constructor
        · rintro ⟨node, rfl, lone⟩
          obtain ⟨found, hroute⟩ := (endsSlash_iff sound.2).mp lone
          exact ⟨name, found, mem_listing_param.mpr ⟨rfl, hroute⟩⟩
        · rintro ⟨name', found, hroute⟩
          obtain ⟨node, rfl, hlisted⟩ := mem_listingNext.mp (mem_listing_param.mp hroute).2
          exact ⟨node, rfl, (endsSlash_iff sound.2).mpr ⟨found, hlisted⟩⟩
      rw [Option.isSome_none, if_neg Bool.false_ne_true]
      split
      · next h =>
          rw [Bool.and_eq_true] at h
          exact .slashed h.1 missed (slashed.mp h.2)
      · next h =>
          refine .nothing missed ?_
          rintro ⟨fixing, hslashed⟩
          rw [fixing, slashed.mpr hslashed] at h
          exact h rfl

end Param

/-- No edge leads on where no route goes on with a star. -/
theorem respellEdges_eq_none {fix ends : Bool} {es : List (Edge α)} {path carry : List UInt8}
    (nowhere : ∀ edge ∈ es, edge.1 ≠ carriedByte carry) :
    respellEdges fix es path carry ends = none := by
  induction es with
  | nil => rfl
  | cons edge es ih =>
      obtain ⟨hfirst, hrest⟩ := List.forall_mem_cons.mp nowhere
      obtain ⟨index, node⟩ := edge
      rw [respellEdges, if_neg hfirst]
      exact ih hrest

theorem eq_star_of_sameLetter {b : UInt8} (same : SameLetter b star) : b = star := by
  have hletter : letter b = '*' := by
    rcases (toLower_eq_iff (show (letter star).toNat < 0x80 by decide)).mp same with h | h
    · exact h.trans (by decide)
    · exact h.trans (by decide)
  exact List.singleton_inj.mp
    ((encodeChar_eq_singleton (show ('*').toNat < 0x80 by decide)).mpr hletter).symm

section Literal

variable {priority : Nat} {existing : Option α} {below : Below α}

/-- No edge after the slash leads to a star. -/
theorem starSpelling_edges {fix ends : Bool} {es : List (Edge α)}
    (sound : (Below.edges es).Sound)
    (proper : ∀ route ∈ (Node.static [slash] priority existing (.edges es)).listing,
      Proper false route.1) :
    StarSpelling fix (Node.static [slash] priority existing (.edges es)).listing
      ((Node.static [slash] priority existing (.edges es)).respell fix [slash, star] [] ends) := by
  have apart : ∀ edge ∈ es, edge.1 ≠ star := by
    intro edge hedge hstar
    have hsound := (Below.sound_edges_iff.mp sound).2 edge hedge
    obtain ⟨⟨route, found⟩, hroute⟩ :=
      List.exists_mem_of_ne_nil _ (listing_ne_nil.1 edge.2 edge.1 hsound)
    obtain ⟨rest, rfl⟩ := hsound.head_listing hroute
    have listed : ([.byte slash] ++ .byte edge.1 :: rest, found) ∈
        (Node.static [slash] priority existing (.edges es)).listing :=
      mem_prependTokens.mpr
        ⟨_, rfl, List.mem_append_right _ (mem_listingEdges.mpr ⟨edge, hedge, hroute⟩)⟩
    have marked := (proper _ listed).2.1
    rw [hstar] at marked
    cases marked
  have nowhere : (Node.static [slash] priority existing (.edges es)).respell fix [slash, star] []
      ends = none := by
    have matched : matchesLoosely [slash] [slash, star] = true := by decide
    have starts : characterAt [slash, star] 1 = some ('*', 0) := by decide
    have same : SimpleCase.upper '*' = SimpleCase.lower '*' := by decide +kernel
    have form : Utf8.encodeChar (SimpleCase.lower '*') = [star] := by decide +kernel
    have other : star ≠ slash := by decide
    have none_along := @respellEdges_eq_none α fix existing.isSome es [star] [star] apart
    rw [Node.respell, if_pos matched]
    simp [Below.respell, carriedByte, starts, same, form, other, none_along]
  rw [nowhere]
  refine starSpelling_none fun route found hroute => ?_
  obtain ⟨rest, rfl, hrest⟩ := mem_prependTokens.mp hroute
  rcases List.mem_append.mp hrest with h | h
  · obtain ⟨existing', -, heq⟩ := List.mem_map.mp h
    cases heq
    exact Or.inl rfl
  · obtain ⟨edge, hedge, rest', rfl⟩ := sound.head_listing_edges h
    exact Or.inr ⟨edge.1, rest', rfl, apart edge hedge⟩

/-- A longer label goes on with a byte that is no star. -/
theorem starSpelling_label {fix ends : Bool} {b : UInt8} {label : List UInt8} (apart : b ≠ star) :
    StarSpelling fix (Node.static (slash :: b :: label) priority existing below).listing
      ((Node.static (slash :: b :: label) priority existing below).respell fix [slash, star] []
        ends) := by
  have ascii : AsciiBytes [star] := List.forall_mem_singleton.mpr (by decide)
  have loosely : ¬ matchesLoosely (slash :: b :: label) [slash, star] = true := by
    intro matched
    obtain ⟨front, rest, hpath, letters⟩ := (matchesLoosely_iff ascii).mp matched
    obtain ⟨c, front, same, -, rfl⟩ := List.forall₂_cons_left_iff.mp letters
    rw [← (List.cons.inj hpath).1] at same
    exact apart (eq_star_of_sameLetter same)
  have butSlash : ¬ matchesButSlash (slash :: b :: label) [slash, star] = true := by
    intro matched
    obtain ⟨front, hlabel, letters⟩ := letters_of_matchesButSlash ascii matched
    obtain ⟨c, front, same, -, rfl⟩ := List.forall₂_cons_right_iff.mp letters
    rw [← (List.cons.inj hlabel).1] at same
    exact apart (eq_star_of_sameLetter same)
  have nowhere : (Node.static (slash :: b :: label) priority existing below).respell fix
      [slash, star] [] ends = none := by
    rw [Node.respell, if_neg loosely]
    simp [butSlash]
  rw [nowhere]
  refine starSpelling_none fun route found hroute => ?_
  obtain ⟨rest, rfl, -⟩ := mem_prependTokens.mp hroute
  exact Or.inr ⟨b, label.map .byte ++ rest, rfl, apart⟩

end Literal

/-- From the root of a tree, the path `/*` is corrected by its routes that start with a parameter or
a catch-all. -/
theorem starSpelling_respell (fix : Bool) {tree : Node α} (rooted : tree.Rooted)
    (proper : ∀ route ∈ tree.listing, Proper false route.1) :
    StarSpelling fix tree.listing (tree.respell fix [slash, star] [] false) := by
  obtain ⟨sound, literal⟩ := rooted
  cases tree with
  | catchAll name hits priority existing => exact absurd rfl (literal name hits priority existing)
  | static label priority existing below =>
      have filled := listing_ne_nil.1 _ slash sound
      obtain ⟨hbelow, -, hlabel | ⟨rfl, -, rfl, name, hits, priority', existing', rfl⟩⟩ := sound
      · obtain ⟨label, rfl⟩ := List.head?_eq_some_iff.mp hlabel
        cases label with
        | nil =>
            cases below with
            | param name hits priority' existing' next => exact starSpelling_param hbelow
            | edges es => exact starSpelling_edges hbelow proper
        | cons b label =>
            refine starSpelling_label ?_
            rintro rfl
            obtain ⟨⟨route, found⟩, hroute⟩ := List.exists_mem_of_ne_nil _ filled
            have hproper := proper _ hroute
            obtain ⟨rest, rfl, -⟩ := mem_prependTokens.mp hroute
            cases hproper.2.1
      · -- the empty node in front of a catch-all takes the path as it is
        have matched : matchesLoosely [] [slash, star] = true := rfl
        rw [Node.respell, if_pos matched, List.length_nil, respell_doorway (Or.inl rfl)]
        refine .taken (takes_static hbelow (Or.inr ?_))
        exact ⟨existing', _, _, mem_listingEdges.mpr ⟨_, List.mem_singleton.mpr rfl,
          List.mem_singleton.mpr rfl⟩, .catchAll⟩

/-- A pattern of a method is a parameter between two slashes. -/
def SlashedName (log : List (Registration α)) (method : String) : Prop :=
  ∃ name : String, '/' ∉ name.toList ∧ "/:" ++ name ++ "/" ∈ patternsOf method log

theorem route_slashed_iff {pattern : String} (faultless : Pattern.Faultless pattern) :
    (∃ name, Pattern.route pattern = [.byte slash, .param name, .byte slash]) ↔
      ∃ name : String, '/' ∉ name.toList ∧ pattern = "/:" ++ name ++ "/" := by
  constructor
  · rintro ⟨name, hroute⟩
    have proper := faultless.proper
    have whole := Pattern.bytes_tokens (encode pattern)
    rw [hroute] at proper
    rw [← Pattern.route, hroute] at whole
    obtain ⟨shorter, rfl, hshorter⟩ := Utf8.encode_eq_append_slash
      (show encode pattern = (slash :: colon :: name) ++ [slash] from whole.symm)
    obtain ⟨after, hchars, rfl⟩ := Utf8.encodeChars_append_eq
      (show Utf8.encodeChars ['/', ':'] ++ name = Utf8.encodeChars shorter.toList from hshorter)
    refine ⟨String.ofList after, ?_, ?_⟩
    · rw [String.toList_ofList]
      exact mt Pattern.slash_mem_encodeChars.mpr proper.2.1.no_slash
    · rw [← String.toList_inj]
      simp [hchars]
  · rintro ⟨name, named, rfl⟩
    refine ⟨Utf8.encodeChars name.toList, ?_⟩
    have whole : encode ("/:" ++ name ++ "/") =
        slash :: colon :: (Utf8.encodeChars name.toList ++ [slash]) := by
      rw [Utf8.encode_append_slash, Utf8.encode_eq, String.toList_append, Utf8.encodeChars_append]
      rfl
    obtain ⟨huntil, hfrom⟩ := Pattern.untilSlash_append
      (mt Pattern.slash_mem_encodeChars.mp named) (Or.inr ⟨[], rfl⟩)
    rw [Pattern.route, Pattern.tokens, whole, Pattern.tokensFrom_slash, Pattern.tokensFrom_colon,
      huntil, hfrom]
    rfl

section Log

variable {trees : StringMap (Node α)} {log : List (Registration α)} {method path : String}

/-- What matches starts with a slash. -/
theorem Registers.head_of_matching (registers : Registers trees log)
    (matching : Matching log method path) : (encode path).head? = some slash := by
  obtain ⟨pattern, inside, params, hmatches⟩ := matching
  obtain ⟨registration, hlogged, -, rfl⟩ := mem_patternsOf.mp inside
  obtain ⟨captures, fits, -⟩ := Pattern.matches_iff_fits.mp hmatches
  obtain ⟨rest, hroute, -⟩ := (registers.faultless registration hlogged).route_eq
  rw [← Pattern.route, hroute] at fits
  exact fits.head_path

variable {tree : Node α}

theorem Registers.slashedParam_iff (registers : Registers trees log)
    (htree : trees.get? method = some tree) :
    SlashedParam tree.listing ↔ SlashedName log method := by
  have holds := registers.holds method
  rw [htree] at holds
  constructor
  · rintro ⟨name, handler, hroute⟩
    obtain ⟨registration, hlogged, hmethod, hpattern, -⟩ :=
      mem_routesOf.mp (holds.2.mem_iff.mp hroute)
    obtain ⟨name', named, heq⟩ :=
      (route_slashed_iff (registers.faultless registration hlogged)).mp ⟨name, hpattern⟩
    exact ⟨name', named, mem_patternsOf.mpr ⟨registration, hlogged, hmethod, heq⟩⟩
  · rintro ⟨name, named, inside⟩
    obtain ⟨registration, hlogged, hmethod, heq⟩ := mem_patternsOf.mp inside
    obtain ⟨name', hroute⟩ :=
      (route_slashed_iff (registers.faultless registration hlogged)).mpr ⟨name, named, heq⟩
    exact ⟨name', registration.handler,
      holds.2.mem_iff.mpr (mem_routesOf.mpr ⟨registration, hlogged, hmethod, hroute, rfl⟩)⟩

end Log

namespace Router

variable {router : Router α γ} {log : List (Registration α)}

/-- How the path `/*` is corrected: it is its own spelling where it matches, and with `fix` it gets
one slash more where only a parameter between two slashes is left. -/
theorem Keeps.respelling_star (keeps : router.Keeps log) (method : String) (fix : Bool) :
    (Matching log method "/*" → router.respelling? method "/*" fix = some "/*") ∧
    (¬ Matching log method "/*" → fix = true ∧ SlashedName log method →
      router.respelling? method "/*" fix = some "/*/") ∧
    (¬ Matching log method "/*" → ¬ (fix = true ∧ SlashedName log method) →
      router.respelling? method "/*" fix = none) := by
  have holds := keeps.registers.holds method
  cases htree : router.trees.get? method with
  | none =>
      rw [htree, Holds] at holds
      have empty (pattern : String) : pattern ∉ patternsOf method log := by
        intro inside
        obtain ⟨registration, hlogged, hmethod, -⟩ := mem_patternsOf.mp inside
        have hlisted := mem_routesOf.mpr ⟨registration, hlogged, hmethod, rfl, rfl⟩
        rw [holds] at hlisted
        cases hlisted
      refine ⟨?_, ?_, ?_⟩
      · rintro ⟨pattern, inside, -⟩
        exact absurd inside (empty pattern)
      · rintro - ⟨-, name, -, inside⟩
        exact absurd inside (empty _)
      · intro _ _
        rw [respelling?, htree]
        rfl
  | some tree =>
      rw [htree] at holds
      have proper : ∀ route ∈ tree.listing, Proper false route.1 := by
        intro route hroute
        obtain ⟨registration, hlogged, -, hpattern, -⟩ :=
          mem_routesOf.mp (holds.2.mem_iff.mp hroute)
        rw [← hpattern]
        exact (keeps.registers.faultless registration hlogged).proper
      have spelled := starSpelling_respell fix holds.1 proper
      have corrected : router.respelling? method "/*" fix =
          (tree.respell fix [slash, star] [] false).bind Utf8.decode? := by
        rw [respelling?, htree]
        rfl
      have htakes : Takes tree.listing (encode "/*") ↔ Matching log method "/*" :=
        keeps.registers.takes_iff htree
      rw [show encode "/*" = [slash, star] from rfl] at htakes
      have hslashed := keeps.registers.slashedParam_iff htree
      rw [corrected, ← htakes, ← hslashed]
      generalize tree.respell fix [slash, star] [] false = spelling at spelled
      cases spelled with
      | taken takes =>
          exact ⟨fun _ => by decide, fun missed => absurd takes missed,
            fun missed => absurd takes missed⟩
      | slashed fixing missed slashed =>
          exact ⟨fun takes => absurd takes missed, fun _ _ => by decide,
            fun _ h => absurd ⟨fixing, slashed⟩ h⟩
      | nothing missed unslashed =>
          exact ⟨fun takes => absurd takes missed, fun _ h => absurd h unslashed, fun _ _ => rfl⟩

/-- The methods other than `OPTIONS` are listed for the path `*`. -/
theorem allowed_star (router : Router α γ) :
    (router.allowed "*" "OPTIONS").answer =
      allowText (router.methods.filter (· ≠ "OPTIONS")) := by
  simp [allowed]

theorem allowText_ne_empty (method : String) (methods : List String) :
    allowText (method :: methods) ≠ "" := by
  obtain ⟨second, rest, hrest⟩ := List.exists_cons_of_ne_nil
    (List.append_ne_nil_of_right_ne_nil methods (List.cons_ne_nil "OPTIONS" []))
  intro nothing
  have chars := congrArg String.toList nothing
  rw [allowText, if_neg (by simp), List.cons_append, hrest, String.toList_intercalate,
    List.map_cons, List.map_cons, List.intercalate_cons_cons] at chars
  simp at chars

/-- No pattern matches the path `*`. -/
theorem Keeps.not_matching_star (keeps : router.Keeps log) {path : String}
    (starred : (encode path).head? = some star) : ¬ Matching log method path := by
  intro matching
  have slashed := keeps.registers.head_of_matching matching
  rw [starred] at slashed
  cases slashed

/-- A look-up of the path `*` finds nothing and recommends nothing. -/
theorem Keeps.lookup_star (keeps : router.Keeps log) (method : String) :
    (router.lookup method "*").answer.handler = none ∧
      (router.lookup method "*").answer.trailingSlashRedirect = false := by
  constructor
  · rw [← Option.not_isSome_iff_eq_none, keeps.lookup_isSome_iff]
    exact keeps.not_matching_star rfl
  · rw [← Bool.not_eq_true]
    intro recommended
    obtain ⟨-, -, matching | ⟨shorter, hpath, -⟩⟩ := keeps.matching_of_recommended recommended
    · exact keeps.not_matching_star rfl matching
    · have chars := congrArg (·.toList.getLast?) hpath
      simp at chars

/-- Before the list of methods comes a redirect to a registered spelling of the clean path. -/
theorem Keeps.resolve_star (keeps : router.Keeps log) :
    (router.resolve "OPTIONS" "*").answer =
      match (if router.config.redirectFixedPath then
        router.respelling? "OPTIONS" "/*" router.config.redirectTrailingSlash else none) with
      | some location => .redirect ⟨location, .temporaryRedirect, .fixedPath⟩
      | none => unmatched router.config "OPTIONS" (router.allowed "*" "OPTIONS").answer := by
  obtain ⟨hhandler, hhint⟩ := keeps.lookup_star "OPTIONS"
  have looked := (quiet_lookup router "OPTIONS" "*").undisturbed
  have clean : cleanPath "*" = "/*" := by decide +kernel
  have proposed : (router.lookup "OPTIONS" "*").state.redirect? "OPTIONS" "*" false =
      (if router.config.redirectFixedPath then
        router.respelling? "OPTIONS" "/*" router.config.redirectTrailingSlash else none).map
          (⟨·, .temporaryRedirect, .fixedPath⟩) := by
    simp only [redirect?, respelling?, clean, looked.trees, looked.config]
    cases router.config.redirectFixedPath <;> simp
  rw [resolve_eq]
  split
  · dsimp only
    rw [hhandler, hhint, proposed]
    generalize (if router.config.redirectFixedPath then
      router.respelling? "OPTIONS" "/*" router.config.redirectTrailingSlash else none) = spelling
    cases spelling with
    | some location => rfl
    | none =>
        dsimp only [Option.map_none]
        rw [fallback_answer, looked.config, keeps.allowed_of_undisturbed looked]
  · next untreed =>
      have nothing : router.respelling? "OPTIONS" "/*" router.config.redirectTrailingSlash =
          none := by
        unfold StringMap.contains at untreed
        rw [respelling?, Option.not_isSome_iff_eq_none.mp untreed]
        rfl
      rw [nothing, ite_self, fallback_answer]

variable [Handler α γ] [ParamSink γ]

/-- In every reachable router that answers `OPTIONS` requests: the server-wide request is redirected
to its clean path `/*` where fixed paths are redirected and an `OPTIONS` pattern takes that path, and
to `/*/` where, in addition, the other slash may be tried and there is a pattern of one parameter
between slashes.  Otherwise the answer lists the methods with an accepted route, sorted, with
`OPTIONS` in the end; without such a method nothing is found. -/
theorem server_options (config : RouterConfig) (operations : List (Operation α γ))
    (automatic : config.handleOptions = true) :
    let router := ((Router.new config : Router α γ).run operations).state
    let accepted := (Router.new config : Router α γ).accepted operations
    let answer := (router.resolve "OPTIONS" "*").answer
    let direct := config.redirectFixedPath = true ∧ Matching accepted "OPTIONS" "/*"
    let slashed := config.redirectFixedPath = true ∧ config.redirectTrailingSlash = true ∧
      ∃ name : String, '/' ∉ name.toList ∧ "/:" ++ name ++ "/" ∈ patternsOf "OPTIONS" accepted
    (direct → answer = .redirect ⟨"/*", .temporaryRedirect, .fixedPath⟩) ∧
    (¬ direct → slashed → answer = .redirect ⟨"/*/", .temporaryRedirect, .fixedPath⟩) ∧
    (¬ direct → ¬ slashed → ∃ methods : List String,
      methods.Pairwise (· < ·) ∧
      (∀ method, method ∈ methods ↔
        method ≠ "OPTIONS" ∧ ∃ registration ∈ accepted, registration.method = method) ∧
      answer = if methods = [] then .notFound
        else .options (", ".intercalate (methods ++ ["OPTIONS"]))) := by
  intro router accepted answer direct slashed
  have keeps : router.Keeps accepted := keeps_run_new config operations
  have settled : router.config = config := config_run (Router.new config) operations
  have hanswer := keeps.resolve_star
  rw [settled] at hanswer
  obtain ⟨htaken, hslashed, hnothing⟩ :=
    keeps.respelling_star "OPTIONS" config.redirectTrailingSlash
  refine ⟨?_, ?_, ?_⟩
  · rintro ⟨hfixed, matching⟩
    rw [if_pos hfixed, htaken matching] at hanswer
    exact hanswer
  · rintro hdirect ⟨hfixed, hslash, named⟩
    rw [if_pos hfixed, hslashed (fun matching => hdirect ⟨hfixed, matching⟩) ⟨hslash, named⟩]
      at hanswer
    exact hanswer
  · intro hdirect hslashed'
    have undiverted : (if config.redirectFixedPath then
        router.respelling? "OPTIONS" "/*" config.redirectTrailingSlash else none) = none := by
      cases hfixed : config.redirectFixedPath with
      | false => rfl
      | true =>
          exact hnothing (fun matching => hdirect ⟨hfixed, matching⟩)
            fun ⟨hslash, named⟩ => hslashed' ⟨hfixed, hslash, named⟩
    rw [undiverted, allowed_star] at hanswer
    refine ⟨router.methods.filter (· ≠ "OPTIONS"),
      List.Pairwise.filter _ keeps.registers.ordered, ?_, ?_⟩
    · intro method
      rw [List.mem_filter, methods, keeps.registers.mem_keys_iff, decide_eq_true_eq, and_comm]
    · refine hanswer.trans ?_
      generalize router.methods.filter (· ≠ "OPTIONS") = methods
      cases methods with
      | nil => simp [unmatched, allowText]
      | cons method methods =>
          have listed := allowText_ne_empty method methods
          simp [unmatched, automatic, listed]
          rfl

/-- A parameter between slashes takes the clean path with one slash more. -/
theorem server_options_slashed :
    let router := ((Router.new {} : Router Scripted Record).run
      [.handle "OPTIONS" "/:x/" ⟨"ask", none⟩, .handle "GET" "/a" ⟨"get", none⟩]).state
    ({} : RouterConfig).handleOptions = true ∧
      (router.resolve "OPTIONS" "*").answer = .redirect ⟨"/*/", .temporaryRedirect, .fixedPath⟩ := by
  have keeps := keeps_run_new (α := Scripted) (γ := Record) {}
    [.handle "OPTIONS" "/:x/" ⟨"ask", none⟩, .handle "GET" "/a" ⟨"get", none⟩]
  have missed : (((Router.new {} : Router Scripted Record).run
      [.handle "OPTIONS" "/:x/" ⟨"ask", none⟩,
        .handle "GET" "/a" ⟨"get", none⟩]).state.lookup "OPTIONS" "/*").answer.handler.isSome =
          false := by
    decide +kernel
  have named : ("/:" ++ "x" ++ "/") ∈ patternsOf "OPTIONS"
      ((Router.new {} : Router Scripted Record).accepted
        [.handle "OPTIONS" "/:x/" ⟨"ask", none⟩, .handle "GET" "/a" ⟨"get", none⟩]) := by
    decide +kernel
  obtain ⟨-, slashed, -⟩ := server_options (α := Scripted) (γ := Record) {}
    [.handle "OPTIONS" "/:x/" ⟨"ask", none⟩, .handle "GET" "/a" ⟨"get", none⟩] rfl
  refine ⟨rfl, slashed (fun direct => ?_) ⟨rfl, rfl, "x", by decide, named⟩⟩
  rw [(keeps.lookup_isSome_iff "OPTIONS" "/*").mpr direct.2] at missed
  cases missed

/-- A parameter after the slash takes the clean path, and the methods are not listed. -/
theorem server_options_redirected :
    let router := ((Router.new {} : Router Scripted Record).run
      [.handle "OPTIONS" "/:x" ⟨"ask", none⟩, .handle "GET" "/a" ⟨"get", none⟩]).state
    let accepted := (Router.new {} : Router Scripted Record).accepted
      [.handle "OPTIONS" "/:x" ⟨"ask", none⟩, .handle "GET" "/a" ⟨"get", none⟩]
    ({} : RouterConfig).handleOptions = true ∧
      (∃ registration ∈ accepted, registration.method = "GET") ∧
      (router.resolve "OPTIONS" "*").answer =
        .redirect ⟨"/*", .temporaryRedirect, .fixedPath⟩ ∧
      ∀ allow, (router.resolve "OPTIONS" "*").answer ≠ .options allow := by
  have redirected : (((Router.new {} : Router Scripted Record).run
      [.handle "OPTIONS" "/:x" ⟨"ask", none⟩,
        .handle "GET" "/a" ⟨"get", none⟩]).state.resolve "OPTIONS" "*").answer =
          .redirect ⟨"/*", .temporaryRedirect, .fixedPath⟩ := by
    refine RouteMatch.redirect?_eq_some_iff.mp ?_
    decide +kernel
  refine ⟨rfl, ?_, redirected, fun allow listed => ?_⟩
  · have inside : "/a" ∈ patternsOf "GET" ((Router.new {} : Router Scripted Record).accepted
        [.handle "OPTIONS" "/:x" ⟨"ask", none⟩, .handle "GET" "/a" ⟨"get", none⟩]) := by
      decide +kernel
    obtain ⟨registration, hlogged, hmethod, -⟩ := mem_patternsOf.mp inside
    exact ⟨registration, hlogged, hmethod⟩
  · rw [redirected] at listed
    cases listed

end Router

end RadixRouter

/-
# Wildcard nodes as parts of patterns

The wildcard nodes of a tree stand under the beginnings of its routes that end with a wildcard,
and there is one under each of them.  In the text of a pattern such a beginning ends with a
marker and the whole of its name, which is what `WildcardPrefix` says of the characters.
-/

import RadixRouter.Proofs.PatternGrammar
import RadixRouter.Proofs.TextSpans
import RadixRouter.Proofs.WildcardNodes

namespace RadixRouter

open Utf8

variable {α : Type}

/-- Whether the last of some tokens is a wildcard. -/
def EndsWild (way : List Token) : Prop := ∃ token ∈ way.getLast?, token.isByte = false

theorem not_endsWild_nil : ¬ EndsWild [] := nofun

theorem endsWild_cons {token : Token} {way : List Token} :
    EndsWild (token :: way) ↔ way = [] ∧ token.isByte = false ∨ EndsWild way := by
  cases way with
  | nil => simp [EndsWild]
  | cons next way => simp [EndsWild, List.getLast?_cons_cons]

theorem endsWild_append {front way : List Token} (nonempty : way ≠ []) :
    EndsWild (front ++ way) ↔ EndsWild way := by
  rw [EndsWild, List.getLast?_append_of_ne_nil _ nonempty, EndsWild]

/-- A beginning of a route that ends with a wildcard takes in the literal text at its front. -/
theorem EndsWild.drop_literal {way rest : List Token} {label : List UInt8} (wild : EndsWild way)
    (front : way <+: label.map .byte ++ rest) :
    ∃ way', way = label.map .byte ++ way' ∧ way' <+: rest ∧ EndsWild way' := by
  induction label generalizing way with
  | nil => exact ⟨way, rfl, front, wild⟩
  | cons b label ih =>
      cases way with
      | nil => exact absurd wild not_endsWild_nil
      | cons token way =>
          obtain ⟨rfl, hfront⟩ := List.cons_prefix_cons.mp front
          rcases endsWild_cons.mp wild with ⟨-, h⟩ | hwild
          · cases h
          · obtain ⟨way', rfl, front', wild'⟩ := ih hwild hfront
            exact ⟨way', rfl, front', wild'⟩

/-- Under which ways the wildcard nodes of a tree stand, in terms of its routes. -/
def OnRoutes (wildcards : List (List Token × CounterId)) (listing : List (List Token × α)) : Prop :=
  ∀ way, (∃ counter, (way, counter) ∈ wildcards) ↔ EndsWild way ∧ ∃ route ∈ listing, way <+: route.1

theorem onRoutes_static {below : Below α} (ih : OnRoutes below.wildcards below.listing)
    (label : List UInt8) (priority : Nat) (handler : Option α) :
    OnRoutes (Node.static label priority handler below).wildcards
      (Node.static label priority handler below).listing := by
  intro way
  apply Iff.intro
  · rintro ⟨counter, inside⟩
    obtain ⟨rest, rfl, hrest⟩ := mem_prependTokens.mp inside
    obtain ⟨wild, ⟨route, existing⟩, hroute, front⟩ := (ih rest).mp ⟨counter, hrest⟩
    refine ⟨(endsWild_append ?_).mpr wild, (label.map .byte ++ route, existing),
      mem_prependTokens.mpr ⟨route, rfl, List.mem_append_right _ hroute⟩, ?_⟩
    · rintro rfl
      exact not_endsWild_nil wild
    · exact (List.prefix_append_right_inj _).mpr front
  · rintro ⟨wild, ⟨route, existing⟩, hroute, front⟩
    obtain ⟨rest, rfl, hrest⟩ := mem_prependTokens.mp hroute
    obtain ⟨way', rfl, front', wild'⟩ := wild.drop_literal front
    rcases List.mem_append.mp hrest with h | h
    · -- no wildcard stands in a route that ends with the label
      obtain ⟨_, -, heq⟩ := List.mem_map.mp h
      cases heq
      rw [List.prefix_nil.mp front'] at wild'
      exact absurd wild' not_endsWild_nil
    · obtain ⟨counter, inside⟩ := (ih way').mpr ⟨wild', (rest, existing), h, front'⟩
      exact ⟨counter, mem_prependTokens.mpr ⟨way', rfl, inside⟩⟩

theorem onRoutes_catchAll (name : List UInt8) (hits : CounterId) (priority : Nat) (handler : α) :
    OnRoutes (Node.catchAll name hits priority handler).wildcards
      (Node.catchAll name hits priority handler).listing := by
  intro way
  apply Iff.intro
  · rintro ⟨counter, inside⟩
    cases List.mem_singleton.mp inside
    exact ⟨⟨.catchAll name, rfl, rfl⟩, _, List.mem_singleton.mpr rfl, List.prefix_rfl⟩
  · rintro ⟨wild, route, hroute, front⟩
    rw [List.mem_singleton.mp hroute] at front
    have front' : way <+: [slash].map .byte ++ [.catchAll name] := front
    obtain ⟨way', rfl, below, wild'⟩ := wild.drop_literal front'
    refine ⟨hits, List.mem_singleton.mpr ?_⟩
    cases way' with
    | nil => exact absurd wild' not_endsWild_nil
    | cons token way' =>
        obtain ⟨rfl, nothing⟩ := List.cons_prefix_cons.mp below
        rw [List.prefix_nil.mp nothing]
        rfl

theorem onRoutes_edges {es : List (Edge α)} (ih : ∀ edge ∈ es, OnRoutes edge.2.wildcards edge.2.listing) :
    OnRoutes (Below.edges es).wildcards (Below.edges es).listing := by
  intro way
  apply Iff.intro
  · rintro ⟨counter, inside⟩
    obtain ⟨edge, hedge, hmem⟩ := mem_wildcardsEdges.mp inside
    obtain ⟨wild, route, hroute, front⟩ := (ih edge hedge way).mp ⟨counter, hmem⟩
    exact ⟨wild, route, listing_subset_edges hedge hroute, front⟩
  · rintro ⟨wild, route, hroute, front⟩
    obtain ⟨edge, hedge, hmem⟩ := mem_listingEdges.mp hroute
    obtain ⟨counter, inside⟩ := (ih edge hedge way).mpr ⟨wild, route, hmem, front⟩
    exact ⟨counter, mem_wildcardsEdges.mpr ⟨edge, hedge, inside⟩⟩

theorem onRoutes_param {next : Option (Node α)}
    (ih : OnRoutes (wildcardsNext next) (listingNext next)) {name : List UInt8} {hits : CounterId}
    {priority : Nat} {handler : Option α}
    (nonempty : (Below.param name hits priority handler next).listing ≠ []) :
    OnRoutes (Below.param name hits priority handler next).wildcards
      (Below.param name hits priority handler next).listing := by
  intro way
  have starts {route : List Token} {existing : α}
      (inside : (route, existing) ∈ (Below.param name hits priority handler next).listing) :
      ∃ rest, route = .param name :: rest ∧
        (rest, existing) ∈ handler.toList.map (([], ·)) ++ listingNext next :=
    mem_prependTokens.mp inside
  apply Iff.intro
  · rintro ⟨counter, inside⟩
    obtain ⟨rest, rfl, ⟨rfl, -⟩ | ⟨hrest, hmem⟩⟩ := mem_wildcards_param.mp inside
    · obtain ⟨⟨route, existing⟩, hroute⟩ := List.exists_mem_of_ne_nil _ nonempty
      obtain ⟨rest, rfl, -⟩ := starts hroute
      exact ⟨endsWild_cons.mpr (Or.inl ⟨rfl, rfl⟩), _, hroute, ⟨rest, rfl⟩⟩
    · obtain ⟨wild, ⟨route, existing⟩, hroute, front⟩ := (ih rest).mp ⟨counter, hmem⟩
      exact ⟨endsWild_cons.mpr (Or.inr wild), (.param name :: route, existing),
        mem_prependTokens.mpr ⟨route, rfl, List.mem_append_right _ hroute⟩,
        List.cons_prefix_cons.mpr ⟨rfl, front⟩⟩
  · rintro ⟨wild, ⟨route, existing⟩, hroute, front⟩
    obtain ⟨rest, rfl, hmem⟩ := starts hroute
    cases way with
    | nil => exact absurd wild not_endsWild_nil
    | cons token way =>
        obtain ⟨rfl, hfront⟩ := List.cons_prefix_cons.mp front
        rcases endsWild_cons.mp wild with ⟨rfl, -⟩ | wild'
        · exact ⟨hits, mem_wildcards_param.mpr ⟨[], rfl, Or.inl ⟨rfl, rfl⟩⟩⟩
        · rcases List.mem_append.mp hmem with h | h
          · obtain ⟨_, -, heq⟩ := List.mem_map.mp h
            cases heq
            rw [List.prefix_nil.mp hfront] at wild'
            exact absurd wild' not_endsWild_nil
          · obtain ⟨counter, inside⟩ := (ih way).mpr ⟨wild', (rest, existing), h, hfront⟩
            refine ⟨counter, mem_wildcards_param.mpr ⟨way, rfl, Or.inr ⟨?_, inside⟩⟩⟩
            rintro rfl
            exact not_endsWild_nil wild'

/-- The wildcard nodes of a tree stand under the beginnings of its routes that end with a
wildcard. -/
theorem onRoutes :
    (∀ (node : Node α) (index : UInt8), node.Sound index → OnRoutes node.wildcards node.listing) ∧
      ∀ below : Below α, below.Sound → OnRoutes below.wildcards below.listing := by
  refine tree_induction ?static ?catchAll ?edges ?param
  case static =>
    intro label priority handler below ih index sound
    exact onRoutes_static (ih sound.1) label priority handler
  case catchAll =>
    intro name hits priority handler index _
    exact onRoutes_catchAll name hits priority handler
  case edges =>
    intro es ih sound
    exact onRoutes_edges fun edge hedge =>
      ih edge hedge edge.1 ((Below.sound_edges_iff.mp sound).2 edge hedge)
  case param =>
    intro name hits priority handler next ih sound
    refine onRoutes_param ?_ (listing_ne_nil.2 _ sound (param_ne_edges []))
    cases next with
    | none =>
        intro way
        exact iff_of_false nofun nofun
    | some node => exact ih node rfl slash sound.2

namespace Pattern

/-- A beginning of a pattern that ends with a complete wildcard: a marker and its name, up to the
next slash or the end. -/
def WildcardPrefix (pattern text : List Char) : Prop :=
  ∃ front marker name rest, pattern = text ++ rest ∧ text = front ++ marker :: name ∧
    opensWildcard marker ∧ '/' ∉ name ∧ ∀ c ∈ rest.head?, c = '/'

theorem untilSlash_append_ended {back : List UInt8}
    (ended : back = [] ∨ ∃ rest, back = slash :: rest) (text : List UInt8) :
    untilSlash (text ++ back) = untilSlash text := by
  have nothing : untilSlash back = [] := by
    rcases ended with rfl | ⟨rest, rfl⟩ <;> simp [untilSlash]
  rw [untilSlash] at nothing ⊢
  rw [List.takeWhile_append, nothing, List.append_nil]
  split
  · next whole => exact (List.IsPrefix.eq_of_length (List.takeWhile_prefix _) whole).symm
  · rfl

/-- Text that goes on with a slash, or not at all, is read on its own. -/
theorem tokensFrom_append_ended {back : List UInt8}
    (ended : back = [] ∨ ∃ rest, back = slash :: rest) (inName : Bool) (text : List UInt8) :
    tokensFrom inName (text ++ back) = tokensFrom inName text ++ tokensFrom false back := by
  induction text generalizing inName with
  | nil =>
      cases inName with
      | false => rfl
      | true =>
          have whole : fromSlash back = back := by
            rcases ended with rfl | ⟨rest, rfl⟩ <;> simp [fromSlash]
          rw [List.nil_append, tokensFrom_true, whole]
          rfl
  | cons b text ih =>
      rw [List.cons_append, tokensFrom, tokensFrom, untilSlash_append_ended ended, ih, ih]
      split
      · rfl
      · split
        · rfl
        · split <;> rfl

/-- A token is written with at least one byte. -/
theorem bytes_eq_nil {tokens : List Token} (nothing : bytes tokens = []) : tokens = [] := by
  cases tokens with
  | nil => rfl
  | cons token tokens => cases token <;> cases nothing

/-- How far a beginning of a route goes is told by its bytes. -/
theorem eq_of_prefix_of_bytes {first second route : List Token} (front : first <+: route)
    (front' : second <+: route) (same : bytes first = bytes second) : first = second := by
  have short {short long : List Token} (front : short <+: long) (same : bytes short = bytes long) :
      short = long := by
    obtain ⟨more, rfl⟩ := front
    rw [bytes_append, List.self_eq_append_right] at same
    rw [bytes_eq_nil same, List.append_nil]
  rcases List.prefix_or_prefix_of_prefix front front' with h | h
  · exact short h same
  · exact (short h same.symm).symm

/-- In a proper list of tokens a wildcard has a name without a slash, and is followed by a slash
or nothing. -/
theorem Proper.wildcard {token : Token} (wild : token.isByte = false) {front rest : List Token}
    {slashed : Bool} (proper : Proper slashed (front ++ token :: rest)) :
    ∃ marker name, token.bytes = marker :: name ∧ (marker = colon ∨ marker = star) ∧
      slash ∉ name ∧ ∀ next ∈ rest.head?, next = .byte slash := by
  induction front generalizing slashed with
  | nil =>
      cases token with
      | byte b => cases wild
      | param name => exact ⟨colon, name, rfl, Or.inl rfl, proper.1.no_slash, proper.2.1⟩
      | catchAll name =>
          obtain ⟨-, hname, rfl⟩ := proper
          exact ⟨star, name, rfl, Or.inr rfl, hname.no_slash, nofun⟩
  | cons other front ih =>
      cases other with
      | byte b => exact ih proper.2
      | param name => exact ih proper.2.2
      | catchAll name => exact absurd proper.2.2 (List.append_ne_nil_of_right_ne_nil _ nofun)

section Text

variable {pattern : String}

/-- A beginning of a route that ends with a wildcard is read from a beginning of the pattern. -/
theorem exists_wildcardPrefix (faultless : Faultless pattern) {way : List Token}
    (front : way <+: route pattern) (wild : EndsWild way) :
    ∃ text, WildcardPrefix pattern.toList text ∧ encodeChars text = bytes way := by
  obtain ⟨rest, hroute⟩ := front
  obtain ⟨token, hlast, hwild⟩ := wild
  obtain ⟨before, rfl⟩ := List.getLast?_eq_some_iff.mp hlast
  have proper := faultless.proper
  rw [← hroute, List.append_assoc, List.singleton_append] at proper
  obtain ⟨marker, name, htoken, hmarker, noSlash, next⟩ := proper.wildcard hwild
  have hbytes : bytes (before ++ [token]) = bytes before ++ marker :: name := by
    rw [bytes_append, ← htoken]
    exact congrArg (bytes before ++ ·) (List.append_nil token.bytes)
  have written : encodeChars pattern.toList = bytes (before ++ [token]) ++ bytes rest := by
    rw [← bytes_append, hroute, route, bytes_tokens]
    rfl
  -- the pattern is cut where the wildcard ends
  obtain ⟨text, more, hpattern, htext, ended⟩ : ∃ text more, pattern.toList = text ++ more ∧
      encodeChars text = bytes (before ++ [token]) ∧ ∀ c ∈ more.head?, c = '/' := by
    cases rest with
    | nil =>
        refine ⟨pattern.toList, [], (List.append_nil _).symm, written.trans (List.append_nil _), ?_⟩
        intro c hc
        cases hc
    | cons first rest =>
        obtain rfl := next first rfl
        have cut : bytes (before ++ [token]) ++ slash :: bytes rest = encodeChars pattern.toList :=
          written.symm
        obtain ⟨text, more, hpattern, htext, hmore⟩ := encodeChars_cut_start (by decide) cut
        obtain ⟨more, rfl, -⟩ := exists_of_encodeChars_eq (c := '/') hmore.symm
        exact ⟨text, '/' :: more, hpattern, htext.symm, fun c hc => (Option.some.inj hc).symm⟩
  -- and once more where it starts
  obtain ⟨c, opens, hc⟩ : ∃ c, opensWildcard c ∧ encodeChar c = [marker] := by
    rcases hmarker with rfl | rfl
    · exact ⟨':', by decide, encodeChar_colon⟩
    · exact ⟨'*', by decide, encodeChar_star⟩
  have starts : isStart marker = true := by
    rcases hmarker with rfl | rfl <;> decide
  rw [hbytes] at htext
  obtain ⟨start, final, rfl, -, hfinal⟩ := encodeChars_cut_start starts htext.symm
  have after : encodeChars final = encodeChar c ++ name := by
    rw [hc, ← hfinal]
    rfl
  obtain ⟨name', rfl, rfl⟩ := exists_of_encodeChars_eq after
  exact ⟨_, ⟨start, c, name', more, hpattern, rfl, opens, mt slash_mem_encodeChars.mpr noSlash,
    ended⟩, by rw [hbytes, htext]⟩

/-- A marker with a name is read as one wildcard. -/
theorem exists_tokensFrom_marker {marker : Char} {name : List Char}
    (opens : opensWildcard marker) (noSlash : '/' ∉ name) :
    ∃ token, tokensFrom false (encodeChars (marker :: name)) = [token] ∧ token.isByte = false := by
  have nothing : fromSlash (encodeChars name) = [] := by
    have h := (untilSlash_append (mt slash_mem_encodeChars.mp noSlash) (Or.inl rfl)).2
    rwa [List.append_nil] at h
  rw [opensWildcard, Bool.or_eq_true, decide_eq_true_eq, decide_eq_true_eq] at opens
  rcases opens with rfl | rfl
  · refine ⟨.param (untilSlash (encodeChars name)), ?_, rfl⟩
    rw [encodeChars_cons, encodeChar_colon, List.singleton_append, tokensFrom_colon, nothing]
    rfl
  · refine ⟨.catchAll (untilSlash (encodeChars name)), ?_, rfl⟩
    rw [encodeChars_cons, encodeChar_star, List.singleton_append, tokensFrom_star, nothing]
    rfl

/-- A marker that is the first of its segment is read as a wildcard, whatever is before. -/
theorem endsWild_tokensFrom {front : List Char} {marker : Char} {name : List Char}
    (opens : opensWildcard marker) (noSlash : '/' ∉ name)
    (free : ∀ c ∈ segmentBefore front, opensWildcard c = false) :
    EndsWild (tokensFrom false (encodeChars (front ++ marker :: name))) := by
  obtain ⟨token, htoken, wild⟩ := exists_tokensFrom_marker opens noSlash
  have last : EndsWild (tokensFrom false
      (encodeChars ((segmentBefore front).reverse ++ marker :: name))) := by
    rw [encodeChars_append, tokensFrom_literal_append
      (isMarker_encodeChars fun c hc => free c (List.mem_reverse.mp hc)), htoken,
      endsWild_append (List.cons_ne_nil _ _)]
    exact ⟨token, rfl, wild⟩
  have cut : front =
      (front.reverse.dropWhile (· ≠ '/')).reverse ++ (segmentBefore front).reverse := by
    rw [← List.reverse_append, segmentBefore, List.takeWhile_append_dropWhile, List.reverse_reverse]
  cases hbefore : front.reverse.dropWhile (· ≠ '/') with
  | nil =>
      rw [hbefore] at cut
      rw [cut]
      exact last
  | cons c before =>
      obtain rfl : c = '/' := head_dropWhile_slash front.reverse c (by rw [hbefore]; rfl)
      rw [hbefore, List.reverse_cons, List.append_assoc, List.singleton_append] at cut
      rw [cut, List.append_assoc, List.cons_append, encodeChars_append, encodeChars_cons,
        encodeChar_slash, List.singleton_append, tokensFrom_append_ended (Or.inr ⟨_, rfl⟩),
        tokensFrom_slash, endsWild_append (List.cons_ne_nil _ _)]
      exact endsWild_cons.mpr (Or.inr last)

/-- The tokens of a beginning of a pattern that ends with a wildcard are a beginning of its route
and end with that wildcard. -/
theorem WildcardPrefix.tokens (faultless : Faultless pattern) {text : List Char}
    (wildcard : WildcardPrefix pattern.toList text) :
    EndsWild (tokensFrom false (encodeChars text)) ∧
      tokensFrom false (encodeChars text) <+: route pattern := by
  obtain ⟨front, marker, name, rest, hpattern, rfl, opens, noSlash, ended⟩ := wildcard
  apply And.intro
  · have grammatical := grammatical_iff.mp (faultless_iff_grammatical.mp faultless)
    have blameless := grammatical.2 front marker (name ++ rest)
      (by rw [hpattern, List.append_assoc, List.cons_append]) opens
    exact endsWild_tokensFrom opens noSlash fun c hc =>
      (markerError?_eq_none_iff.mp blameless).1 c (List.mem_append_left _ hc)
  · rw [route, encode_eq, hpattern, encodeChars_append (front ++ marker :: name) rest,
      Pattern.tokens, tokensFrom_append_ended (encodeChars_ended ended)]
    exact List.prefix_append _ _

/-- Whether a text is a beginning of a pattern that ends with a wildcard shows in its tokens. -/
theorem wildcardPrefix_iff (faultless : Faultless pattern) {text : String} :
    WildcardPrefix pattern.toList text.toList ↔
      EndsWild (route text) ∧ route text <+: route pattern := by
  apply Iff.intro
  · exact fun wildcard => wildcard.tokens faultless
  · rintro ⟨wild, front⟩
    obtain ⟨text', wildcard, written⟩ := exists_wildcardPrefix faultless front wild
    have same : encode (String.ofList text') = encode text := by
      rw [encode_eq, String.toList_ofList, written, route, bytes_tokens]
    rw [← encode_injective same, String.toList_ofList]
    exact wildcard

/-- Every beginning of a route that ends with a wildcard is the route of a text. -/
theorem exists_route_eq (faultless : Faultless pattern) {way : List Token}
    (front : way <+: route pattern) (wild : EndsWild way) : ∃ text, route text = way := by
  obtain ⟨text, wildcard, written⟩ := exists_wildcardPrefix faultless front wild
  refine ⟨String.ofList text, ?_⟩
  have read : route (String.ofList text) = tokensFrom false (encodeChars text) := by
    rw [route, encode_eq, String.toList_ofList, Pattern.tokens]
  rw [read]
  refine eq_of_prefix_of_bytes (wildcard.tokens faultless).2 front ?_
  rw [← written]
  exact bytes_tokens (encodeChars text)

end Text

end Pattern

end RadixRouter

/-
# Correction of ASCII paths is exact

Without adding or removing a slash, the corrector answers an ASCII path exactly if the path matches
an accepted pattern up to case, and then with a spelling of the path in the letters of such a
pattern.  With a slash to spare it answers no fewer paths.  The patterns need not be ASCII: a
character beyond it never matches one of the path.
-/

import RadixRouter.Proofs.CaseCompleteness
import RadixRouter.Proofs.Coherence
import RadixRouter.Proofs.Acceptance
import RadixRouter.Scripted

namespace RadixRouter

open Pattern (MatchesUpToCase fitsUpToCase_iff)
open Utf8 (encode)

variable {α γ : Type}

theorem asciiBytes_encode {path : String} (ascii : Ascii path.toList) : AsciiBytes (encode path) :=
  asciiBytes_encodeChars ascii

/-- A correction of an ASCII path is ASCII. -/
theorem Corrects.ascii {listing : List (List Token × α)} {fix : Bool} {path spelling : List UInt8}
    (corrects : Corrects fix listing path spelling) (ascii : AsciiBytes path) :
    AsciiBytes spelling := by
  rcases corrects with ⟨_, _, -, fits⟩ | ⟨-, ⟨_, _, -, fits⟩ | ⟨before, rfl, _, _, -, fits⟩⟩
  · exact fits.ascii ascii
  · refine fits.ascii (List.forall_mem_append.mpr ⟨ascii, ?_⟩)
    exact List.forall_mem_singleton.mpr (by decide)
  · exact fits.ascii (List.forall_mem_append.mp ascii).1

namespace Node.Rooted

variable {tree : Node α} {path : String} {fix : Bool}

/-- From the root of a tree an ASCII path is corrected to a spelling of it. -/
theorem corrects (rooted : tree.Rooted) (ascii : Ascii path.toList) {spelling : List UInt8}
    {rest : List UInt8} (hpath : encode path = slash :: rest)
    (respelled : tree.respell fix (slash :: rest) [] false = some spelling) :
    Corrects fix tree.listing (encode path) spelling := by
  have hascii := asciiBytes_encode ascii
  rw [hpath] at hascii ⊢
  rcases (corrects_truly fix).1 tree slash slash rest [] false spelling rooted.sound (.refl _)
    hascii respelled rfl with ⟨h, -⟩ | h
  · cases h
  · exact h

/-- What the corrector answers to an ASCII path is a spelling of it. -/
theorem corrects_of_respelling (rooted : tree.Rooted) (ascii : Ascii path.toList)
    {corrected : String} (respelled : tree.respelling? path fix = some corrected) :
    Corrects fix tree.listing (encode path) (encode corrected) := by
  obtain ⟨rest, hpath, hspelling⟩ := Node.respelling?_eq_some_iff.mp respelled
  exact rooted.corrects ascii hpath hspelling

/-- An ASCII path that fits a route up to case is corrected. -/
theorem respelling_of_takes (rooted : tree.Rooted) (ascii : Ascii path.toList)
    {spelling : List UInt8} (takes : TakesUpToCase tree.listing (encode path) spelling) :
    (tree.respelling? path fix).isSome = true := by
  obtain ⟨c, rest, hpath, leads⟩ := takes.head rooted.sound
  obtain rfl := eq_slash_of_sameLetter leads
  have hascii := asciiBytes_encode ascii
  rw [hpath] at takes hascii
  obtain ⟨found, hfound⟩ := Option.isSome_iff_exists.mp
    ((corrects_fully fix).1 tree slash slash rest [] false spelling rooted.sound hascii
      (Or.inl rfl) takes)
  -- what is found decodes, since it is ASCII
  have corrected := (rooted.corrects ascii hpath hfound).ascii (asciiBytes_encode ascii)
  have decoded : found = encode (String.ofList (found.map letter)) := by
    rw [Utf8.encode_eq, String.toList_ofList, encodeChars_letters corrected]
  rw [decoded] at hfound
  exact Option.isSome_of_eq_some (Node.respelling?_eq_some_iff.mpr ⟨rest, hpath, hfound⟩)

end Node.Rooted

theorem Ascii.append_slash {path : String} (ascii : Ascii path.toList) :
    Ascii (path ++ "/").toList := by
  rw [String.toList_append]
  refine List.forall_mem_append.mpr ⟨ascii, ?_⟩
  exact List.forall_mem_singleton.mpr (by decide)

section Log

variable {trees : StringMap (Node α)} {log : List (Registration α)} {method path : String}
  {tree : Node α}

/-- The routes that an ASCII path fits up to case are those of the patterns that it matches up to
case. -/
theorem Registers.takesUpToCase_iff (registers : Registers trees log)
    (htree : trees.get? method = some tree) (ascii : Ascii path.toList) {spelling : List UInt8} :
    TakesUpToCase tree.listing (encode path) spelling ↔
      ∃ pattern ∈ patternsOf method log, ∃ corrected, spelling = encode corrected ∧
        MatchesUpToCase pattern path corrected := by
  have holds := registers.holds method
  rw [htree] at holds
  obtain ⟨-, same⟩ := holds
  constructor
  · rintro ⟨route, handler, hroute, fits⟩
    obtain ⟨registration, hlogged, hmethod, rfl, -⟩ := mem_routesOf.mp (same.mem_iff.mp hroute)
    exact ⟨_, mem_patternsOf.mpr ⟨registration, hlogged, hmethod, rfl⟩,
      (fitsUpToCase_iff ascii).mp fits⟩
  · rintro ⟨pattern, inside, hmatches⟩
    obtain ⟨registration, hlogged, hmethod, rfl⟩ := mem_patternsOf.mp inside
    have hlisted := mem_routesOf.mpr ⟨registration, hlogged, hmethod, rfl, rfl⟩
    exact ⟨_, _, same.mem_iff.mpr hlisted, (fitsUpToCase_iff ascii).mpr hmatches⟩

/-- A correction of an ASCII path is a spelling of it in the letters of an accepted pattern, or with
`fix` of the path with one slash more or without its last. -/
theorem Registers.matches_of_corrects (registers : Registers trees log)
    (htree : trees.get? method = some tree) (ascii : Ascii path.toList) {fix : Bool}
    {corrected : String} (corrects : Corrects fix tree.listing (encode path) (encode corrected)) :
    ∃ pattern ∈ patternsOf method log, MatchesUpToCase pattern path corrected ∨
      fix = true ∧ (MatchesUpToCase pattern (path ++ "/") corrected ∨
        ∃ shorter, path = shorter ++ "/" ∧ MatchesUpToCase pattern shorter corrected) := by
  have matching {other : String} (ascii : Ascii other.toList)
      (takes : TakesUpToCase tree.listing (encode other) (encode corrected)) :
      ∃ pattern ∈ patternsOf method log, MatchesUpToCase pattern other corrected := by
    obtain ⟨pattern, inside, corrected', hsame, hmatches⟩ :=
      (registers.takesUpToCase_iff htree ascii).mp takes
    rw [Utf8.encode_injective hsame]
    exact ⟨pattern, inside, hmatches⟩
  rcases corrects with takes | ⟨hfix, toggled⟩
  · obtain ⟨pattern, inside, hmatches⟩ := matching ascii takes
    exact ⟨pattern, inside, Or.inl hmatches⟩
  · rcases toggled_encode.mp toggled with takes | ⟨shorter, rfl, takes⟩
    · obtain ⟨pattern, inside, hmatches⟩ := matching ascii.append_slash takes
      exact ⟨pattern, inside, Or.inr ⟨hfix, Or.inl hmatches⟩⟩
    · rw [String.toList_append] at ascii
      obtain ⟨pattern, inside, hmatches⟩ := matching (List.forall_mem_append.mp ascii).1 takes
      exact ⟨pattern, inside, Or.inr ⟨hfix, Or.inr ⟨shorter, rfl, hmatches⟩⟩⟩

end Log

namespace Router

variable {router : Router α γ} {log : List (Registration α)} {method path corrected : String}

/-- What the corrector answers to an ASCII path is a spelling of it. -/
theorem Keeps.matches_of_respelling (keeps : router.Keeps log) (ascii : Ascii path.toList)
    {fix : Bool} (respelled : router.respelling? method path fix = some corrected) :
    ∃ pattern ∈ patternsOf method log, MatchesUpToCase pattern path corrected ∨
      fix = true ∧ (MatchesUpToCase pattern (path ++ "/") corrected ∨
        ∃ shorter, path = shorter ++ "/" ∧ MatchesUpToCase pattern shorter corrected) := by
  obtain ⟨tree, htree, hcorrected⟩ := Option.bind_eq_some_iff.mp respelled
  have holds := keeps.registers.holds method
  rw [htree] at holds
  exact keeps.registers.matches_of_corrects htree ascii
    (holds.1.corrects_of_respelling ascii hcorrected)

/-- An ASCII path that matches an accepted pattern up to case is corrected. -/
theorem Keeps.respelling_of_matches (keeps : router.Keeps log) (ascii : Ascii path.toList)
    {pattern : String} (inside : pattern ∈ patternsOf method log)
    (hmatches : MatchesUpToCase pattern path corrected) (fix : Bool) :
    (router.respelling? method path fix).isSome = true := by
  have holds := keeps.registers.holds method
  obtain ⟨registration, hlogged, hmethod, -⟩ := mem_patternsOf.mp inside
  unfold respelling?
  cases htree : router.trees.get? method with
  | none =>
      rw [htree, Holds] at holds
      have hlisted := mem_routesOf.mpr ⟨registration, hlogged, hmethod, rfl, rfl⟩
      rw [holds] at hlisted
      cases hlisted
  | some tree =>
      rw [htree] at holds
      exact holds.1.respelling_of_takes ascii ((keeps.registers.takesUpToCase_iff htree ascii).mpr
        ⟨pattern, inside, corrected, rfl, hmatches⟩)

variable [Handler α γ] [ParamSink γ]

/-- In every reachable router, an ASCII path is corrected exactly if it matches an accepted pattern
of the method up to ASCII case, and the answer is such a pattern with its literal text as
registered and with the values of the path.  What is corrected without touching slashes is also
corrected with `fix`; the answer then spells the path, or the path with one slash more or without
its last. -/
theorem ascii_correction_exact (config : RouterConfig) (operations : List (Operation α γ))
    (method path : String) (ascii : ∀ c ∈ path.toList, c.toNat < 0x80) :
    let router := ((Router.new config : Router α γ).run operations).state
    let accepted := patternsOf method ((Router.new config : Router α γ).accepted operations)
    ((router.respelling? method path false).isSome = true ↔
      ∃ pattern ∈ accepted, ∃ corrected, MatchesUpToCase pattern path corrected) ∧
    (∀ corrected, router.respelling? method path false = some corrected →
      ∃ pattern ∈ accepted, MatchesUpToCase pattern path corrected) ∧
    ((router.respelling? method path false).isSome = true →
      (router.respelling? method path true).isSome = true) ∧
    ∀ corrected, router.respelling? method path true = some corrected →
      ∃ pattern ∈ accepted, MatchesUpToCase pattern path corrected ∨
        MatchesUpToCase pattern (path ++ "/") corrected ∨
        ∃ shorter, path = shorter ++ "/" ∧ MatchesUpToCase pattern shorter corrected := by
  intro router accepted
  have keeps : router.Keeps _ := keeps_run_new config operations
  have sound (corrected : String)
      (respelled : router.respelling? method path false = some corrected) :
      ∃ pattern ∈ accepted, MatchesUpToCase pattern path corrected := by
    obtain ⟨pattern, inside, h | ⟨h, -⟩⟩ := keeps.matches_of_respelling ascii respelled
    · exact ⟨pattern, inside, h⟩
    · cases h
  refine ⟨⟨?_, ?_⟩, sound, ?_, ?_⟩
  · intro answered
    obtain ⟨corrected, respelled⟩ := Option.isSome_iff_exists.mp answered
    obtain ⟨pattern, inside, hmatches⟩ := sound corrected respelled
    exact ⟨pattern, inside, corrected, hmatches⟩
  · rintro ⟨pattern, inside, corrected, hmatches⟩
    exact keeps.respelling_of_matches ascii inside hmatches false
  · intro answered
    obtain ⟨corrected, respelled⟩ := Option.isSome_iff_exists.mp answered
    obtain ⟨pattern, inside, hmatches⟩ := sound corrected respelled
    exact keeps.respelling_of_matches ascii inside hmatches true
  · intro corrected respelled
    obtain ⟨pattern, inside, h | ⟨-, h⟩⟩ := keeps.matches_of_respelling ascii respelled
    · exact ⟨pattern, inside, Or.inl h⟩
    · exact ⟨pattern, inside, Or.inr h⟩

/-- The lowercase branch goes on and fails, and the walk comes back to the other. -/
theorem ascii_correction_exact_siblings :
    let router := ((Router.new {} : Router Scripted Record).run
      [.handle "GET" "/foo/:id/edit" ⟨"edit", none⟩, .handle "GET" "/Foo/:id" ⟨"show", none⟩]).state
    router.respelling? "GET" "/FOO/Ab" false = some "/Foo/Ab" ∧
      (∃ pattern ∈ ["/foo/:id/edit", "/Foo/:id"], MatchesUpToCase pattern "/FOO/Ab" "/Foo/Ab") ∧
      (router.respelling? "GET" "/FOO/Ab" true).isSome = true := by
  have ascii : ∀ c ∈ ("/FOO/Ab").toList, c.toNat < 0x80 := by simp
  have accepted : patternsOf "GET" ((Router.new {} : Router Scripted Record).accepted
      [.handle "GET" "/foo/:id/edit" ⟨"edit", none⟩, .handle "GET" "/Foo/:id" ⟨"show", none⟩]) =
        ["/foo/:id/edit", "/Foo/:id"] := by
    decide +kernel
  have corrected : ((Router.new {} : Router Scripted Record).run
      [.handle "GET" "/foo/:id/edit" ⟨"edit", none⟩,
        .handle "GET" "/Foo/:id" ⟨"show", none⟩]).state.respelling? "GET" "/FOO/Ab" false =
          some "/Foo/Ab" := by
    decide +kernel
  obtain ⟨-, sound, spared, -⟩ := ascii_correction_exact (α := Scripted) (γ := Record) {}
    [.handle "GET" "/foo/:id/edit" ⟨"edit", none⟩, .handle "GET" "/Foo/:id" ⟨"show", none⟩]
      "GET" "/FOO/Ab" ascii
  refine ⟨corrected, ?_, spared (Option.isSome_of_eq_some corrected)⟩
  rw [← accepted]
  exact sound _ corrected

/-- A character whose lowercase form is ASCII is not one itself. -/
example :
    let router := ((Router.new {} : Router Scripted Record).run
      [.handle "GET" "/\u212A" ⟨"kelvin", none⟩]).state
    SimpleCase.lower '\u212A' = 'k' ∧ router.respelling? "GET" "/k" true = none := by
  decide +kernel

end Router

end RadixRouter

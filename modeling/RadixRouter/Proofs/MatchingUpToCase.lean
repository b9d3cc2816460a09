/-
# Matching up to case

A path matches a pattern up to case when it does after ASCII letters of the literal text changed
their case; the spelling of the path in the pattern's own letters keeps the values of wildcards as
they are in the path.  Like exact matching this is said of characters first, and then of bytes and
tokens; on an ASCII path the two come to the same.
-/

import RadixRouter.Proofs.AsciiCase
import RadixRouter.Proofs.PatternMatching

namespace RadixRouter

open Pattern (slash_not_mem_untilSlash untilSlash_append untilSlash_append_fromSlash)
open Utf8

/-- A path is a route up to the case of its literal text, with something in place of each wildcard;
its spelling has the letters of the route. -/
inductive FitsUpToCase : List Token → (path spelling : List UInt8) → Prop where
  | done : FitsUpToCase [] [] []
  | byte {b c : UInt8} {route : List Token} {path spelling : List UInt8} (same : SameLetter b c)
      (rest : FitsUpToCase route path spelling) :
      FitsUpToCase (.byte b :: route) (c :: path) (b :: spelling)
  | param {name value : List UInt8} {route : List Token} {path spelling : List UInt8}
      (nonempty : value ≠ []) (noSlash : slash ∉ value)
      (rest : FitsUpToCase route path spelling) :
      FitsUpToCase (.param name :: route) (value ++ path) (value ++ spelling)
  | catchAll {name value : List UInt8} :
      FitsUpToCase [.byte slash, .catchAll name] (slash :: value) (slash :: value)

variable {route : List Token} {path spelling : List UInt8}

/-- What fits exactly is its own spelling. -/
theorem Fits.upToCase {captures : List (List UInt8 × List UInt8)}
    (fits : Fits route path captures) : FitsUpToCase route path path := by
  induction fits with
  | done => exact .done
  | byte rest ih => exact .byte (.refl _) ih
  | param nonempty noSlash rest ih => exact .param nonempty noSlash ih
  | catchAll => exact .catchAll

theorem fitsUpToCase_nil : FitsUpToCase [] path spelling ↔ path = [] ∧ spelling = [] := by
  apply Iff.intro
  · rintro ⟨⟩
    exact ⟨rfl, rfl⟩
  · rintro ⟨rfl, rfl⟩
    exact .done

theorem not_fitsUpToCase_catchAll {name : List UInt8} :
    ¬ FitsUpToCase (.catchAll name :: route) path spelling := by
  rintro ⟨⟩

/-- Where a route goes on, the path does. -/
theorem FitsUpToCase.path_ne_nil {token : Token}
    (fits : FitsUpToCase (token :: route) path spelling) : path ≠ [] := by
  cases fits with
  | byte same rest => exact List.cons_ne_nil _ _
  | param nonempty noSlash rest => exact List.append_ne_nil_of_left_ne_nil nonempty _
  | catchAll => exact List.cons_ne_nil _ _

/-- Where a route starts with a byte, the path does up to case. -/
theorem FitsUpToCase.head {b : UInt8} (fits : FitsUpToCase (.byte b :: route) path spelling) :
    ∃ c rest, path = c :: rest ∧ SameLetter b c := by
  cases fits with
  | byte same rest => exact ⟨_, _, rfl, same⟩
  | catchAll => exact ⟨_, _, rfl, .refl _⟩

theorem FitsUpToCase.literal_append {literal front : List UInt8}
    (letters : List.Forall₂ SameLetter literal front)
    (fits : FitsUpToCase route path spelling) :
    FitsUpToCase (literal.map .byte ++ route) (front ++ path) (literal ++ spelling) := by
  induction letters with
  | nil => exact fits
  | cons same letters ih => exact .byte same ih

/-- Literal text stands for itself up to case, unless its last slash belongs to a catch-all. -/
theorem fitsUpToCase_literal_append {literal : List UInt8}
    (follow : slash ∈ literal → ∀ name, route.head? ≠ some (.catchAll name)) :
    FitsUpToCase (literal.map .byte ++ route) path spelling ↔
      ∃ front rest, path = front ++ rest ∧ List.Forall₂ SameLetter literal front ∧
        ∃ tail, spelling = literal ++ tail ∧ FitsUpToCase route rest tail := by
  apply Iff.intro
  · intro fits
    induction literal generalizing path spelling with
    | nil => exact ⟨[], path, rfl, .nil, spelling, rfl, fits⟩
    | cons b literal ih =>
        rw [List.map_cons, List.cons_append] at fits
        generalize htail : literal.map Token.byte ++ route = tail at fits
        cases fits with
        | byte same rest =>
            rw [← htail] at rest
            obtain ⟨front, rest', rfl, letters, tail, rfl, hrest⟩ :=
              ih (fun inside => follow (List.mem_cons_of_mem _ inside)) rest
            exact ⟨_ :: front, rest', rfl, .cons same letters, tail, rfl, hrest⟩
        | @catchAll name value =>
            cases literal with
            | nil => exact absurd (congrArg List.head? htail) (follow (List.mem_cons_self ..) name)
            | cons c literal => cases htail
  · rintro ⟨front, rest, rfl, letters, tail, rfl, fits⟩
    exact fits.literal_append letters

/-- After a parameter comes the end of the path or a slash. -/
theorem FitsUpToCase.after_param (fits : FitsUpToCase route path spelling)
    (slashed : ∀ token ∈ route.head?, token = .byte slash) :
    path = [] ∨ ∃ rest, path = slash :: rest := by
  cases route with
  | nil => exact Or.inl (fitsUpToCase_nil.mp fits).1
  | cons token route =>
      obtain rfl := slashed token rfl
      obtain ⟨c, rest, rfl, same⟩ := fits.head
      exact Or.inr ⟨rest, by rw [eq_slash_of_sameLetter same]⟩

/-- A parameter takes everything up to the next slash, as it is. -/
theorem fitsUpToCase_param {name : List UInt8}
    (slashed : ∀ token ∈ route.head?, token = .byte slash) :
    FitsUpToCase (.param name :: route) path spelling ↔
      untilSlash path ≠ [] ∧ ∃ tail, spelling = untilSlash path ++ tail ∧
        FitsUpToCase route (fromSlash path) tail := by
  apply Iff.intro
  · intro fits
    cases fits with
    | param nonempty noSlash rest =>
        obtain ⟨huntil, hfrom⟩ := untilSlash_append noSlash (rest.after_param slashed)
        rw [huntil, hfrom]
        exact ⟨nonempty, _, rfl, rest⟩
  · rintro ⟨nonempty, tail, rfl, rest⟩
    have fits : FitsUpToCase (.param name :: route) (untilSlash path ++ fromSlash path)
        (untilSlash path ++ tail) :=
      .param nonempty (slash_not_mem_untilSlash path) rest
    rwa [untilSlash_append_fromSlash] at fits

/-- A catch-all ends its route and takes the path from its slash on. -/
theorem fitsUpToCase_catchAll {name : List UInt8} :
    FitsUpToCase (.byte slash :: .catchAll name :: route) path spelling ↔
      route = [] ∧ path.head? = some slash ∧ spelling = path := by
  apply Iff.intro
  · intro fits
    cases fits with
    | byte same rest => exact absurd rest not_fitsUpToCase_catchAll
    | catchAll => exact ⟨rfl, rfl, rfl⟩
  · rintro ⟨rfl, hhead, rfl⟩
    obtain ⟨value, rfl⟩ := List.head?_eq_some_iff.mp hhead
    exact .catchAll

/-- An ASCII path is spelled in ASCII. -/
theorem FitsUpToCase.ascii (fits : FitsUpToCase route path spelling) (ascii : AsciiBytes path) :
    AsciiBytes spelling := by
  induction fits with
  | done => exact ascii
  | byte same rest ih =>
      obtain ⟨hfirst, hrest⟩ := List.forall_mem_cons.mp ascii
      exact List.forall_mem_cons.mpr ⟨same.ascii hfirst, ih hrest⟩
  | param nonempty noSlash rest ih =>
      obtain ⟨hvalue, hrest⟩ := List.forall_mem_append.mp ascii
      exact List.forall_mem_append.mpr ⟨hvalue, ih hrest⟩
  | catchAll => exact ascii

namespace Pattern

/-- The characters of a path spell a pattern up to the case of its literal characters; the spelling
has the literal characters of the pattern and the values of the path. -/
inductive SpellsUpToCase : (pattern path spelling : List Char) → Prop where
  | done : SpellsUpToCase [] [] []
  | literal {c d : Char} {pattern path spelling : List Char} (plain : c ≠ ':' ∧ c ≠ '*')
      (same : c.toLower = d.toLower) (rest : SpellsUpToCase pattern path spelling) :
      SpellsUpToCase (c :: pattern) (d :: path) (c :: spelling)
  | param {name value pattern path spelling : List Char} (named : '/' ∉ name)
      (ended : ∀ c ∈ pattern.head?, c = '/') (nonempty : value ≠ []) (noSlash : '/' ∉ value)
      (rest : SpellsUpToCase pattern path spelling) :
      SpellsUpToCase (':' :: name ++ pattern) (value ++ path) (value ++ spelling)
  | catchAll {name value : List Char} (named : '/' ∉ name) :
      SpellsUpToCase ('/' :: '*' :: name) ('/' :: value) ('/' :: value)

/-- A path matches a pattern up to case, with this spelling. -/
def MatchesUpToCase (pattern path spelling : String) : Prop :=
  SpellsUpToCase pattern.toList path.toList spelling.toList

/-- A character is an ASCII character up to case exactly if its bytes are those of one. -/
theorem forall₂_encodeChar_iff {c d : Char} (ascii : d.toNat < 0x80) {front rest tail : List UInt8}
    (same : encodeChar d ++ tail = front ++ rest) :
    List.Forall₂ SameLetter (encodeChar c) front ↔
      c.toLower = d.toLower ∧ front = encodeChar d ∧ rest = tail := by
  obtain ⟨b', hd, rfl⟩ := exists_letter ascii
  constructor
  · intro letters
    obtain ⟨b, inner, hc, -, -⟩ := encodeChar_eq_cons c
    rw [hc] at letters
    cases letters with
    | cons first inside =>
        rw [hd, List.singleton_append, List.cons_append] at same
        obtain ⟨rfl, hrest⟩ := List.cons.inj same
        have hb := first.ascii (ascii_of_letter ascii)
        have hsingle := encodeChar_of_ascii_mem hb (hc ▸ List.mem_cons_self ..)
        rw [hc] at hsingle
        obtain rfl : inner = [] := (List.cons.inj hsingle).2
        cases inside
        have hletter : c = letter b :=
          eq_of_ascii_mem_encodeChar hb (hc ▸ List.mem_cons_self ..)
        rw [hletter]
        exact ⟨first, hd.symm, hrest.symm⟩
  · rintro ⟨hlower, rfl, rfl⟩
    obtain ⟨b, hc, rfl⟩ := exists_letter (ascii_of_toLower ascii hlower)
    rw [hc, hd]
    exact .cons hlower .nil

/-- What spells a pattern up to case fits its tokens up to case. -/
theorem SpellsUpToCase.fits {pattern path spelling : List Char}
    (spells : SpellsUpToCase pattern path spelling) (ascii : Ascii path) :
    FitsUpToCase (tokensFrom false (encodeChars pattern)) (encodeChars path)
      (encodeChars spelling) := by
  induction spells with
  | done => exact .done
  | @literal c d pattern path spelling plain same rest ih =>
      obtain ⟨hfirst, hrest⟩ := List.forall_mem_cons.mp ascii
      rw [encodeChars_cons, encodeChars_cons, encodeChars_cons, tokensFrom_literal plain]
      exact (ih hrest).literal_append
        ((forall₂_encodeChar_iff hfirst (Eq.refl (encodeChar d ++ []))).mpr ⟨same, rfl, rfl⟩)
  | @param name value pattern path spelling named ended nonempty noSlash rest ih =>
      obtain ⟨huntil, hfrom⟩ :=
        untilSlash_append (mt slash_mem_encodeChars.mp named) (encodeChars_ended ended)
      rw [List.cons_append, encodeChars_cons, encodeChar_colon, List.singleton_append,
        encodeChars_append, tokensFrom_colon, huntil, hfrom, encodeChars_append,
        encodeChars_append]
      have hrest := (List.forall_mem_append.mp ascii).2
      refine .param ?_ (mt slash_mem_encodeChars.mp noSlash) (ih hrest)
      exact fun h => nonempty (encodeChars_eq_nil h)
  | @catchAll name value named =>
      have hname : untilSlash (encodeChars name ++ []) = encodeChars name ∧
          fromSlash (encodeChars name ++ []) = [] :=
        untilSlash_append (mt slash_mem_encodeChars.mp named) (Or.inl rfl)
      rw [List.append_nil] at hname
      rw [encodeChars_cons, encodeChars_cons, encodeChars_cons, encodeChar_slash,
        encodeChar_star, List.singleton_append, List.singleton_append, List.singleton_append,
        tokensFrom_slash, tokensFrom_star, hname.1, hname.2]
      exact .catchAll

/-- A parameter takes its name, and its value, up to the next slash. -/
theorem SpellsUpToCase.param_cut {pattern path spelling : List Char}
    (nonempty : path.takeWhile (· ≠ '/') ≠ [])
    (rest : SpellsUpToCase (pattern.dropWhile (· ≠ '/')) (path.dropWhile (· ≠ '/')) spelling) :
    SpellsUpToCase (':' :: pattern) path (path.takeWhile (· ≠ '/') ++ spelling) := by
  have spells := SpellsUpToCase.param (slash_not_mem_takeWhile pattern)
    (head_dropWhile_slash pattern) nonempty (slash_not_mem_takeWhile path) rest
  rwa [List.cons_append, List.takeWhile_append_dropWhile, List.takeWhile_append_dropWhile] at spells

/-- What fits the tokens of a pattern up to case spells it up to case. -/
theorem SpellsUpToCase.of_fits {pattern path : List Char} {bytes : List UInt8}
    (ascii : Ascii path)
    (fits : FitsUpToCase (tokensFrom false (encodeChars pattern)) (encodeChars path) bytes) :
    ∃ spelling, bytes = encodeChars spelling ∧ SpellsUpToCase pattern path spelling := by
  -- a parameter drops its whole name, so the induction is on the length of the pattern
  induction hlength : pattern.length using Nat.strong_induction_on
    generalizing pattern path bytes with
  | _ length ih =>
    subst hlength
    cases pattern with
    | nil =>
        obtain ⟨hpath, rfl⟩ := fitsUpToCase_nil.mp fits
        rw [encodeChars_eq_nil hpath]
        exact ⟨[], rfl, .done⟩
    | cons c pattern =>
        by_cases hcolon : c = ':'
        · subst hcolon
          rw [encodeChars_cons, encodeChar_colon, List.singleton_append, tokensFrom_colon,
            fitsUpToCase_param (head_tokensFrom_fromSlash _), untilSlash_encodeChars,
            fromSlash_encodeChars, fromSlash_encodeChars] at fits
          obtain ⟨hvalue, tail, rfl, fits'⟩ := fits
          have shorter : (pattern.dropWhile (· ≠ '/')).length < (':' :: pattern).length :=
            Nat.lt_succ_of_le (List.dropWhile_sublist _).length_le
          have hnonempty : path.takeWhile (· ≠ '/') ≠ [] := by
            intro h
            rw [h] at hvalue
            exact hvalue rfl
          have hascii : Ascii (path.dropWhile (· ≠ '/')) :=
            fun d hd => ascii d ((List.dropWhile_sublist _).subset hd)
          obtain ⟨spelling, rfl, spells⟩ := ih _ shorter hascii fits' rfl
          exact ⟨_, (encodeChars_append ..).symm, .param_cut hnonempty spells⟩
        · by_cases hstar : c = '*'
          · subst hstar
            rw [encodeChars_cons, encodeChar_star, List.singleton_append, tokensFrom_star] at fits
            exact absurd fits not_fitsUpToCase_catchAll
          · by_cases hcatch : c = '/' ∧ ∃ name, pattern = '*' :: name
            · obtain ⟨rfl, name, rfl⟩ := hcatch
              rw [encodeChars_cons, encodeChars_cons, encodeChar_slash, encodeChar_star,
                List.singleton_append, List.singleton_append, tokensFrom_slash, tokensFrom_star,
                fitsUpToCase_catchAll] at fits
              obtain ⟨hlast, hhead, rfl⟩ := fits
              have hfrom := tokensFrom_fromSlash_eq_nil hlast
              have named : '/' ∉ name := by
                have h := slash_not_mem_untilSlash (encodeChars name)
                have hcut := untilSlash_append_fromSlash (encodeChars name)
                rw [hfrom, List.append_nil] at hcut
                rw [hcut] at h
                exact mt slash_mem_encodeChars.mpr h
              obtain ⟨rest, hpath⟩ := List.head?_eq_some_iff.mp hhead
              obtain ⟨value, rfl, -⟩ := exists_of_encodeChars_eq (c := '/') hpath
              exact ⟨'/' :: value, rfl, .catchAll named⟩
            · have hfollow : slash ∈ encodeChar c → ∀ name,
                  (tokensFrom false (encodeChars pattern)).head? ≠ some (.catchAll name) := by
                intro hslash name hhead
                exact hcatch ⟨slash_mem_encodeChar.mp hslash, exists_of_head_catchAll hhead⟩
              rw [encodeChars_cons, tokensFrom_literal ⟨hcolon, hstar⟩,
                fitsUpToCase_literal_append hfollow] at fits
              obtain ⟨front, rest, hpath, letters, tail, rfl, fits'⟩ := fits
              cases path with
              | nil =>
                  obtain rfl := (List.append_eq_nil_iff.mp hpath.symm).1
                  exact absurd (List.forall₂_nil_right_iff.mp letters) (encodeChar_ne_nil c)
              | cons d path =>
                  obtain ⟨hfirst, hrest⟩ := List.forall_mem_cons.mp ascii
                  rw [encodeChars_cons] at hpath
                  obtain ⟨same, -, rfl⟩ := (forall₂_encodeChar_iff hfirst hpath).mp letters
                  obtain ⟨spelling, rfl, spells⟩ := ih _ (Nat.lt_succ_self _) hrest fits' rfl
                  exact ⟨c :: spelling, (encodeChars_cons ..).symm,
                    .literal ⟨hcolon, hstar⟩ same spells⟩

/-- An ASCII path matches a pattern up to case exactly when its bytes fit the tokens of the pattern
up to case. -/
theorem fitsUpToCase_iff {pattern path : String} (ascii : Ascii path.toList) {bytes : List UInt8} :
    FitsUpToCase (tokens (encode pattern)) (encode path) bytes ↔
      ∃ spelling, bytes = encode spelling ∧ MatchesUpToCase pattern path spelling := by
  unfold tokens MatchesUpToCase
  rw [encode_eq, encode_eq]
  constructor
  · intro fits
    obtain ⟨spelling, rfl, spells⟩ := SpellsUpToCase.of_fits ascii fits
    refine ⟨String.ofList spelling, ?_, ?_⟩
    · rw [encode_eq, String.toList_ofList]
    · rwa [String.toList_ofList]
  · rintro ⟨spelling, rfl, spells⟩
    rw [encode_eq]
    exact spells.fits ascii

end Pattern

end RadixRouter

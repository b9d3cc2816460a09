/-
# Which paths match which patterns

A path matches a pattern when it is the pattern with every wildcard replaced: a parameter by
text without a slash, at least one character of it, and a final catch-all, together with the
slash before it, by text that begins with a slash.  This is said of characters and knows
neither bytes nor tokens.

A path matches a pattern exactly when its bytes fit the tokens of the pattern, and decoding the
bytes captured for a wildcard gives back the very characters that replace it.
-/

import RadixRouter.Params
import RadixRouter.Proofs.Encoding
import RadixRouter.Proofs.Fitting

namespace RadixRouter

open Utf8

namespace Pattern

/-- The characters of a path spell a pattern, with the name and value of each wildcard. -/
inductive Spells : (pattern path : List Char) → List (String × String) → Prop where
  | done : Spells [] [] []
  | literal {c : Char} {pattern path : List Char} {params : List (String × String)}
      (plain : c ≠ ':' ∧ c ≠ '*') (rest : Spells pattern path params) :
      Spells (c :: pattern) (c :: path) params
  | param {name value pattern path : List Char} {params : List (String × String)}
      (named : '/' ∉ name) (ended : ∀ c ∈ pattern.head?, c = '/') (nonempty : value ≠ [])
      (noSlash : '/' ∉ value) (rest : Spells pattern path params) :
      Spells (':' :: name ++ pattern) (value ++ path)
        ((String.ofList name, String.ofList value) :: params)
  | catchAll {name value : List Char} (named : '/' ∉ name) :
      Spells ('/' :: '*' :: name) ('/' :: value)
        [(String.ofList name, String.ofList ('/' :: value))]

/-- A path matches a pattern, with these parameters. -/
def Matches (pattern path : String) (params : Params) : Prop :=
  Spells pattern.toList path.toList params.toList

theorem encodeChar_colon : encodeChar ':' = [colon] := rfl

theorem encodeChar_star : encodeChar '*' = [star] := rfl

/-- Only the two marker characters have marker bytes. -/
theorem isMarker_encodeChar {c : Char} (plain : c ≠ ':' ∧ c ≠ '*') :
    ∀ b ∈ encodeChar c, isMarker b = false := by
  intro b hb
  rw [isMarker, Bool.or_eq_false_iff, decide_eq_false_iff_not, decide_eq_false_iff_not]
  apply And.intro
  · rintro rfl
    exact plain.1 (eq_of_ascii_mem_encodeChar (by decide) hb)
  · rintro rfl
    exact plain.2 (eq_of_ascii_mem_encodeChar (by decide) hb)

theorem slash_mem_encodeChars {chars : List Char} : slash ∈ encodeChars chars ↔ '/' ∈ chars := by
  apply Iff.intro
  · intro inside
    obtain ⟨c, hc, hslash⟩ := List.mem_flatMap.mp inside
    exact slash_mem_encodeChar.mp hslash ▸ hc
  · intro inside
    exact List.mem_flatMap.mpr ⟨'/', inside, slash_mem_encodeChar.mpr rfl⟩

/-- Where the characters end or go on with a slash, so do the bytes. -/
theorem encodeChars_ended {chars : List Char} (ended : ∀ c ∈ chars.head?, c = '/') :
    encodeChars chars = [] ∨ ∃ rest, encodeChars chars = slash :: rest := by
  cases chars with
  | nil => exact Or.inl rfl
  | cons c chars =>
      obtain rfl := ended c rfl
      exact Or.inr ⟨encodeChars chars, rfl⟩

theorem tokensFrom_literal {c : Char} (plain : c ≠ ':' ∧ c ≠ '*') (text : List UInt8) :
    tokensFrom false (encodeChar c ++ text) =
      (encodeChar c).map .byte ++ tokensFrom false text :=
  tokensFrom_literal_append (isMarker_encodeChar plain) text

theorem tokensFrom_colon (text : List UInt8) :
    tokensFrom false (colon :: text) =
      .param (untilSlash text) :: tokensFrom false (fromSlash text) := by
  rw [tokensFrom, if_neg (by simp), if_pos rfl, tokensFrom_true]

theorem tokensFrom_star (text : List UInt8) :
    tokensFrom false (star :: text) =
      .catchAll (untilSlash text) :: tokensFrom false (fromSlash text) := by
  rw [tokensFrom, if_neg (by simp), if_neg (by decide), if_pos rfl, tokensFrom_true]

theorem tokensFrom_slash (text : List UInt8) :
    tokensFrom false (slash :: text) = .byte slash :: tokensFrom false text := by
  rw [tokensFrom, if_neg (by simp), if_neg (by decide), if_neg (by decide)]

/-- After a name comes nothing, or a slash. -/
theorem head_tokensFrom_fromSlash (text : List UInt8) :
    ∀ token ∈ (tokensFrom false (fromSlash text)).head?, token = .byte slash := by
  rcases fromSlash_eq text with h | ⟨rest, h⟩
  · rw [h]
    exact nofun
  · rw [h, tokensFrom_slash]
    intro token htoken
    exact (Option.some.inj htoken).symm

theorem tokensFrom_fromSlash_eq_nil {text : List UInt8}
    (nothing : tokensFrom false (fromSlash text) = []) : fromSlash text = [] := by
  rcases fromSlash_eq text with h | ⟨rest, h⟩
  · exact h
  · rw [h, tokensFrom_slash] at nothing
    cases nothing

/-- Tokens that start with a catch-all come from a text that starts with its marker. -/
theorem exists_of_head_catchAll {pattern : List Char} {name : List UInt8}
    (head : (tokensFrom false (encodeChars pattern)).head? = some (.catchAll name)) :
    ∃ rest, pattern = '*' :: rest := by
  cases pattern with
  | nil => cases head
  | cons c pattern =>
      rw [encodeChars_cons] at head
      by_cases hcolon : c = ':'
      · subst hcolon
        rw [encodeChar_colon, List.singleton_append, tokensFrom_colon] at head
        cases head
      · by_cases hstar : c = '*'
        · exact ⟨pattern, by rw [hstar]⟩
        · rw [tokensFrom_literal ⟨hcolon, hstar⟩] at head
          obtain ⟨b, bytes, hbytes⟩ := List.exists_cons_of_ne_nil (encodeChar_ne_nil c)
          rw [hbytes] at head
          cases head

/-- Decoding captured bytes gives their characters. -/
theorem ofCaptures_cons (name value : List Char)
    (captures : List (List UInt8 × List UInt8)) :
    (Params.ofCaptures ((encodeChars name, encodeChars value) :: captures)).toList =
      (String.ofList name, String.ofList value) :: (Params.ofCaptures captures).toList := by
  rw [← decodeLossy_encodeChars name, ← decodeLossy_encodeChars value]
  rfl

/-- What spells a pattern fits its tokens. -/
theorem Spells.fits {pattern path : List Char} {params : List (String × String)}
    (spells : Spells pattern path params) :
    ∃ captures, Fits (tokensFrom false (encodeChars pattern)) (encodeChars path) captures ∧
      (Params.ofCaptures captures).toList = params := by
  induction spells with
  | done => exact ⟨[], .done, rfl⟩
  | @literal c pattern path params plain rest ih =>
      obtain ⟨captures, fits, hparams⟩ := ih
      refine ⟨captures, ?_, hparams⟩
      rw [encodeChars_cons, encodeChars_cons, tokensFrom_literal plain]
      exact fits.literal_append _
  | @param name value pattern path params named ended nonempty noSlash rest ih =>
      obtain ⟨captures, fits, hparams⟩ := ih
      refine ⟨(encodeChars name, encodeChars value) :: captures, ?_, ?_⟩
      · obtain ⟨huntil, hfrom⟩ :=
          untilSlash_append (mt slash_mem_encodeChars.mp named) (encodeChars_ended ended)
        rw [List.cons_append, encodeChars_cons, encodeChar_colon, List.singleton_append,
          encodeChars_append, tokensFrom_colon, huntil, hfrom, encodeChars_append]
        refine Fits.param ?_ (mt slash_mem_encodeChars.mp noSlash) fits
        exact fun h => nonempty (encodeChars_eq_nil h)
      · rw [ofCaptures_cons, hparams]
  | @catchAll name value named =>
      refine ⟨[(encodeChars name, slash :: encodeChars value)], ?_, ?_⟩
      · have hname : untilSlash (encodeChars name ++ []) = encodeChars name ∧
            fromSlash (encodeChars name ++ []) = [] :=
          untilSlash_append (mt slash_mem_encodeChars.mp named) (Or.inl rfl)
        rw [List.append_nil] at hname
        rw [encodeChars_cons, encodeChars_cons, encodeChars_cons, encodeChar_slash,
          encodeChar_star, List.singleton_append, List.singleton_append, List.singleton_append,
          tokensFrom_slash, tokensFrom_star, hname.1, hname.2]
        exact .catchAll
      · exact ofCaptures_cons name ('/' :: value) []

theorem slash_not_mem_takeWhile (chars : List Char) : '/' ∉ chars.takeWhile (· ≠ '/') := by
  intro inside
  simpa using List.mem_takeWhile_imp inside

theorem head_dropWhile_slash (chars : List Char) :
    ∀ c ∈ (chars.dropWhile (· ≠ '/')).head?, c = '/' := by
  intro c hc
  have stop := List.head?_dropWhile_not (· ≠ '/') chars
  rw [Option.mem_def.mp hc] at stop
  simpa using stop

/-- A parameter takes its name, and its value, up to the next slash. -/
theorem Spells.param_cut {pattern path : List Char} {params : List (String × String)}
    (nonempty : path.takeWhile (· ≠ '/') ≠ [])
    (rest : Spells (pattern.dropWhile (· ≠ '/')) (path.dropWhile (· ≠ '/')) params) :
    Spells (':' :: pattern) path
      ((String.ofList (pattern.takeWhile (· ≠ '/')),
        String.ofList (path.takeWhile (· ≠ '/'))) :: params) := by
  have spells := Spells.param (slash_not_mem_takeWhile pattern) (head_dropWhile_slash pattern)
    nonempty (slash_not_mem_takeWhile path) rest
  rwa [List.cons_append, List.takeWhile_append_dropWhile, List.takeWhile_append_dropWhile] at spells

/-- What fits the tokens of a pattern spells it. -/
theorem Spells.of_fits {pattern path : List Char} {captures : List (List UInt8 × List UInt8)}
    (fits : Fits (tokensFrom false (encodeChars pattern)) (encodeChars path) captures) :
    Spells pattern path (Params.ofCaptures captures).toList := by
  -- a parameter drops its whole name, so the induction is on the length of the pattern
  induction hlength : pattern.length using Nat.strong_induction_on
    generalizing pattern path captures with
  | _ length ih =>
    subst hlength
    cases pattern with
    | nil =>
        obtain ⟨hpath, rfl⟩ := fits_nil.mp fits
        rw [encodeChars_eq_nil hpath]
        exact .done
    | cons c pattern =>
        by_cases hcolon : c = ':'
        · subst hcolon
          rw [encodeChars_cons, encodeChar_colon, List.singleton_append, tokensFrom_colon,
            fits_param (head_tokensFrom_fromSlash _), untilSlash_encodeChars,
            untilSlash_encodeChars, fromSlash_encodeChars, fromSlash_encodeChars] at fits
          obtain ⟨hvalue, captures', rfl, fits'⟩ := fits
          have shorter : (pattern.dropWhile (· ≠ '/')).length < (':' :: pattern).length :=
            Nat.lt_succ_of_le (List.dropWhile_sublist _).length_le
          have hnonempty : path.takeWhile (· ≠ '/') ≠ [] := by
            intro h
            rw [h] at hvalue
            exact hvalue rfl
          rw [ofCaptures_cons]
          exact .param_cut hnonempty (ih _ shorter fits' rfl)
        · by_cases hstar : c = '*'
          · subst hstar
            rw [encodeChars_cons, encodeChar_star, List.singleton_append, tokensFrom_star] at fits
            exact absurd fits not_fits_catchAll
          · by_cases hcatch : c = '/' ∧ ∃ name, pattern = '*' :: name
            · obtain ⟨rfl, name, rfl⟩ := hcatch
              rw [encodeChars_cons, encodeChars_cons, encodeChar_slash, encodeChar_star,
                List.singleton_append, List.singleton_append, tokensFrom_slash, tokensFrom_star,
                fits_catchAll] at fits
              obtain ⟨hlast, hhead, rfl⟩ := fits
              have hfrom := tokensFrom_fromSlash_eq_nil hlast
              have huntil : untilSlash (encodeChars name) = encodeChars name := by
                have hcut := untilSlash_append_fromSlash (encodeChars name)
                rwa [hfrom, List.append_nil] at hcut
              have named : '/' ∉ name := by
                have h := slash_not_mem_untilSlash (encodeChars name)
                rw [huntil] at h
                exact mt slash_mem_encodeChars.mpr h
              obtain ⟨rest, hpath⟩ := List.head?_eq_some_iff.mp hhead
              obtain ⟨value, rfl, -⟩ := exists_of_encodeChars_eq (c := '/') hpath
              rw [huntil, ofCaptures_cons]
              exact .catchAll named
            · have hfollow : slash ∈ encodeChar c → ∀ name,
                  (tokensFrom false (encodeChars pattern)).head? ≠ some (.catchAll name) := by
                intro hslash name hhead
                exact hcatch ⟨slash_mem_encodeChar.mp hslash, exists_of_head_catchAll hhead⟩
              rw [encodeChars_cons, tokensFrom_literal ⟨hcolon, hstar⟩,
                fits_literal_append hfollow] at fits
              obtain ⟨rest, hpath, fits'⟩ := fits
              obtain ⟨path', rfl, rfl⟩ := exists_of_encodeChars_eq hpath
              exact .literal ⟨hcolon, hstar⟩ (ih _ (Nat.lt_succ_self _) fits' rfl)

/-- A path matches a pattern exactly when its bytes fit the tokens of the pattern. -/
theorem matches_iff_fits {pattern path : String} {params : Params} :
    Matches pattern path params ↔
      ∃ captures, Fits (tokens (encode pattern)) (encode path) captures ∧
        Params.ofCaptures captures = params := by
  unfold Matches tokens
  rw [encode_eq, encode_eq]
  apply Iff.intro
  · intro spells
    obtain ⟨captures, fits, hparams⟩ := spells.fits
    exact ⟨captures, fits, congrArg Params.mk hparams⟩
  · rintro ⟨captures, fits, rfl⟩
    exact Spells.of_fits fits

end Pattern

end RadixRouter

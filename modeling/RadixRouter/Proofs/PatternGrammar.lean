/-
# The grammar of patterns in terms of their text

`Grammatical` says of the characters of a pattern what the grammar asks for: a leading slash,
one marker in a segment at most, a name after every marker, and a catch-all right after the
last slash.  It speaks of places in the text and cuts nothing into segments.

A pattern passes the check, which scans it from marker to marker, exactly when it is grammatical.
One that starts with a slash and fails is refused for the first marker whose segment breaks a rule;
which rule counts when several are broken is the order of `markerError?`.
-/

import RadixRouter.Proofs.PatternMatching
import RadixRouter.Proofs.RecordGrammar
import RadixRouter.Proofs.Registration

namespace RadixRouter

open Utf8

namespace Pattern

/-- The refusal of a pattern because of its text alone. -/
def syntaxError? (pattern : String) : Option RouteError :=
  (fault? (encode pattern)).map (RouteError.ofFault pattern)

/-- Whether a character opens a wildcard. -/
def opensWildcard (c : Char) : Bool := c = ':' || c = '*'

/-- The characters of a pattern follow the grammar. -/
structure Grammatical (pattern : List Char) : Prop where
  slashFirst : pattern.head? = some '/'
  oneMarker : ∀ front marker between marker' back,
    pattern = front ++ marker :: between ++ marker' :: back →
      opensWildcard marker → opensWildcard marker' → '/' ∈ between
  named : ∀ front marker back, pattern = front ++ marker :: back →
    opensWildcard marker → ∃ c ∈ back.head?, c ≠ '/'
  afterSlash : ∀ front back, pattern = front ++ '*' :: back → front.getLast? = some '/'
  inLastSegment : ∀ front back, pattern = front ++ '*' :: back → '/' ∉ back

/-- The characters since the last slash, last first. -/
def segmentBefore (front : List Char) : List Char := front.reverse.takeWhile (· ≠ '/')

/-- The characters up to the next slash. -/
def segmentAfter (back : List Char) : List Char := back.takeWhile (· ≠ '/')

/-- The refusal because of one marker, given the text in front of it and behind it. -/
def markerError? (pattern : String) (front : List Char) (marker : Char) (back : List Char) :
    Option RouteError :=
  if (segmentBefore front ++ segmentAfter back).any opensWildcard then
    some (.multipleWildcardsInSegment pattern (String.ofList (marker :: segmentAfter back)))
  else if segmentAfter back = [] then
    some (.namelessWildcard pattern (String.ofList [marker]))
  else if marker ≠ '*' then none
  else if '/' ∈ back then some (.catchAllMustBeLast pattern)
  else if front.getLast? ≠ some '/' then some (.noSlashBeforeCatchAll pattern)
  else none

/-- The refusal because of the first marker in a text whose segment breaks a rule, given what
stands in front of the text. -/
def firstMarkerError? (pattern : String) (front : List Char) : List Char → Option RouteError
  | [] => none
  | c :: back =>
    (if opensWildcard c then markerError? pattern front c back else none).or
      (firstMarkerError? pattern (front ++ [c]) back)

section Scanning

variable {pattern : String} {front text : List Char}

/-- A text whose first character is not to blame is read on behind it. -/
theorem firstMarkerError?_cons {c : Char}
    (blameless : opensWildcard c → markerError? pattern front c text = none) :
    firstMarkerError? pattern front (c :: text) = firstMarkerError? pattern (front ++ [c]) text := by
  rw [firstMarkerError?]
  split
  · next opens => rw [blameless opens, Option.none_or]
  · exact Option.none_or

/-- Text without markers is skipped. -/
theorem firstMarkerError?_append {plain : List Char}
    (free : ∀ c ∈ plain, opensWildcard c = false) :
    firstMarkerError? pattern front (plain ++ text) =
      firstMarkerError? pattern (front ++ plain) text := by
  induction plain generalizing front with
  | nil => rw [List.nil_append, List.append_nil]
  | cons c plain ih =>
      have hc : opensWildcard c = false := free c (List.mem_cons_self ..)
      rw [List.cons_append, firstMarkerError?_cons (fun opens => by rw [hc] at opens; cases opens),
        ih fun d hd => free d (List.mem_cons_of_mem _ hd), List.append_assoc, List.singleton_append]

/-- A refusal because of a marker in a text with none to blame before it. -/
def FirstBlamed (pattern : String) (front text : List Char) (error : RouteError) : Prop :=
  ∃ before marker back, text = before ++ marker :: back ∧ opensWildcard marker ∧
    markerError? pattern (front ++ before) marker back = some error ∧
    ∀ before' marker' back', text = before' ++ marker' :: back' →
      opensWildcard marker' → before'.length < before.length →
      markerError? pattern (front ++ before') marker' back' = none

/-- Where the first character is to blame, the refusal is its own. -/
theorem firstBlamed_here {c : Char} {first error : RouteError} (opens : opensWildcard c)
    (faulty : markerError? pattern front c text = some first) :
    FirstBlamed pattern front (c :: text) error ↔ first = error := by
  apply Iff.intro
  · rintro ⟨before, marker, back, htext, -, herror, earlier⟩
    cases before with
    | nil =>
        obtain ⟨rfl, rfl⟩ := List.cons.inj htext
        rw [List.append_nil, faulty] at herror
        exact Option.some.inj herror
    | cons d before =>
        have blameless := earlier [] c text rfl opens (Nat.succ_pos _)
        rw [List.append_nil, faulty] at blameless
        cases blameless
  · rintro rfl
    refine ⟨[], c, text, rfl, opens, by rwa [List.append_nil], ?_⟩
    exact fun _ _ _ _ _ shorter => absurd shorter (Nat.not_lt_zero _)

/-- Where the first character is not to blame, the refusal is because of a marker behind it. -/
theorem firstBlamed_cons {c : Char} {error : RouteError}
    (blameless : opensWildcard c → markerError? pattern front c text = none) :
    FirstBlamed pattern front (c :: text) error ↔
      FirstBlamed pattern (front ++ [c]) text error := by
  apply Iff.intro
  · rintro ⟨before, marker, back, htext, opens, herror, earlier⟩
    cases before with
    | nil =>
        obtain ⟨rfl, rfl⟩ := List.cons.inj htext
        rw [List.append_nil, blameless opens] at herror
        cases herror
    | cons d before =>
        obtain ⟨rfl, rfl⟩ := List.cons.inj htext
        refine ⟨before, marker, back, rfl, opens, by simpa using herror, ?_⟩
        intro before' marker' back' htext opens' shorter
        simpa using
          earlier (c :: before') marker' back' (by rw [htext]; rfl) opens'
            (Nat.succ_lt_succ shorter)
  · rintro ⟨before, marker, back, rfl, opens, herror, earlier⟩
    refine ⟨c :: before, marker, back, rfl, opens, by simpa using herror, ?_⟩
    intro before' marker' back' htext opens' shorter
    cases before' with
    | nil =>
        obtain ⟨rfl, rfl⟩ := List.cons.inj htext
        rw [List.append_nil]
        exact blameless opens'
    | cons d before' =>
        obtain ⟨rfl, hrest⟩ := List.cons.inj htext
        simpa using
          earlier before' marker' back' hrest opens' (Nat.lt_of_succ_lt_succ shorter)

/-- What a scan answers is the refusal because of a marker with none to blame before it. -/
theorem firstMarkerError?_eq_some_iff {error : RouteError} :
    firstMarkerError? pattern front text = some error ↔ FirstBlamed pattern front text error := by
  induction text generalizing front with
  | nil =>
      refine iff_of_false (fun h => by cases h) ?_
      rintro ⟨before, marker, back, h, -⟩
      cases before <;> cases h
  | cons c text ih =>
      by_cases blamed : opensWildcard c ∧ markerError? pattern front c text ≠ none
      · obtain ⟨opens, faulty⟩ := blamed
        obtain ⟨first, hfirst⟩ := Option.ne_none_iff_exists'.mp faulty
        rw [firstMarkerError?, if_pos opens, hfirst, Option.some_or, Option.some_inj,
          firstBlamed_here opens hfirst]
      · have blameless (opens : opensWildcard c) : markerError? pattern front c text = none :=
          not_not.mp fun faulty => blamed ⟨opens, faulty⟩
        rw [firstMarkerError?_cons blameless, ih, firstBlamed_cons blameless]

/-- A scan that finds nothing has seen no faulty marker. -/
theorem firstMarkerError?_eq_none_iff :
    firstMarkerError? pattern front text = none ↔
      ∀ before marker back, text = before ++ marker :: back → opensWildcard marker →
        markerError? pattern (front ++ before) marker back = none := by
  induction text generalizing front with
  | nil =>
      refine iff_of_true rfl fun before marker back h => ?_
      cases before <;> cases h
  | cons c text ih =>
      rw [firstMarkerError?, Option.or_eq_none_iff, ih]
      apply Iff.intro
      · rintro ⟨first, later⟩ before marker back htext opens
        cases before with
        | nil =>
            obtain ⟨rfl, rfl⟩ := List.cons.inj htext
            rwa [if_pos opens, ← List.append_nil front] at first
        | cons d before =>
            obtain ⟨rfl, hrest⟩ := List.cons.inj htext
            simpa using later before marker back hrest opens
      · intro all
        apply And.intro
        · split
          · next opens => simpa using all [] c text rfl opens
          · rfl
        · intro before marker back htext opens
          simpa using all (c :: before) marker back (by rw [htext]; rfl) opens

end Scanning

/-- The byte of a character that opens a wildcard. -/
theorem encodeChar_of_opensWildcard {c : Char} (opens : opensWildcard c) :
    ∃ b, encodeChar c = [b] ∧ isMarker b ∧ (b = star ↔ c = '*') := by
  rw [opensWildcard, Bool.or_eq_true, decide_eq_true_eq, decide_eq_true_eq] at opens
  rcases opens with rfl | rfl
  · exact ⟨colon, encodeChar_colon, by decide, by decide⟩
  · exact ⟨star, encodeChar_star, by decide, by decide⟩

theorem isMarker_of_not_opensWildcard {c : Char} (closed : opensWildcard c = false) :
    ∀ b ∈ encodeChar c, isMarker b = false := by
  rw [opensWildcard, Bool.or_eq_false_iff, decide_eq_false_iff_not,
    decide_eq_false_iff_not] at closed
  exact isMarker_encodeChar closed

theorem isMarker_encodeChars {chars : List Char} (free : ∀ c ∈ chars, opensWildcard c = false) :
    ∀ b ∈ encodeChars chars, isMarker b = false := by
  intro b hb
  obtain ⟨c, hc, hb⟩ := List.mem_flatMap.mp hb
  exact isMarker_of_not_opensWildcard (free c hc) b hb

theorem any_isMarker_encodeChars (chars : List Char) :
    (encodeChars chars).any isMarker = chars.any opensWildcard := by
  induction chars with
  | nil => rfl
  | cons c chars ih =>
      rw [encodeChars_cons, List.any_append, List.any_cons, ih]
      cases hc : opensWildcard c with
      | false =>
          rw [List.any_eq_false.mpr fun b hb => by rw [isMarker_of_not_opensWildcard hc b hb]; simp]
      | true =>
          obtain ⟨b, hb, marked, -⟩ := encodeChar_of_opensWildcard hc
          simp [hb, marked]

section Segment

variable {front plain name rest : List Char} {marker : Char}

/-- The bytes of a segment from its first marker on. -/
theorem dropWhile_encodeChars_append (free : ∀ c ∈ plain, opensWildcard c = false)
    (bytes : List UInt8) :
    (encodeChars plain ++ bytes).dropWhile (fun b => !isMarker b) =
      bytes.dropWhile (fun b => !isMarker b) :=
  List.dropWhile_append_of_pos fun b hb => by rw [isMarker_encodeChars free b hb]; rfl

theorem segmentAfter_append (noSlash : '/' ∉ name) (ended : ∀ c ∈ rest.head?, c = '/') :
    segmentAfter (name ++ rest) = name := by
  have inside : ∀ c ∈ name, decide (c ≠ '/') = true := by
    intro c hc
    exact decide_eq_true fun h => noSlash (h ▸ hc)
  rw [segmentAfter, List.takeWhile_append_of_pos inside]
  cases rest with
  | nil => exact List.append_nil name
  | cons c rest =>
      rw [ended c rfl]
      exact List.append_nil name

theorem segmentBefore_append (noSlash : '/' ∉ plain) (slashed : front.getLast? = some '/') :
    segmentBefore (front ++ plain) = plain.reverse := by
  have ended : ∀ c ∈ front.reverse.head?, c = '/' := by
    intro c hc
    rw [List.head?_reverse, slashed] at hc
    exact (Option.some.inj hc).symm
  have := segmentAfter_append (mt List.mem_reverse.mp noSlash) ended
  rwa [segmentAfter, ← List.reverse_append] at this

/-- A marker stands right after a slash when nothing else is in front of it in its segment. -/
theorem getLast?_append_eq_slash (noSlash : '/' ∉ plain) (slashed : front.getLast? = some '/') :
    (front ++ plain).getLast? = some '/' ↔ plain = [] := by
  apply Iff.intro
  · intro last
    by_contra nonempty
    rw [List.getLast?_append_of_ne_nil _ nonempty] at last
    exact noSlash (List.mem_of_getLast? last)
  · rintro rfl
    rwa [List.append_nil]

/-- In a segment with no marker in front of it, a catch-all is first where nothing precedes. -/
theorem head_encodeChars_eq_star (free : ∀ c ∈ plain, opensWildcard c = false)
    (bytes : List UInt8) :
    (encodeChars plain ++ star :: bytes).head? = some star ↔ plain = [] := by
  apply Iff.intro
  · intro first
    cases plain with
    | nil => rfl
    | cons c plain =>
        have marked : star ∈ encodeChar c := by
          obtain ⟨b, more, hc⟩ := List.exists_cons_of_ne_nil (encodeChar_ne_nil c)
          rw [encodeChars_cons, hc] at first
          rw [hc, ← Option.some.inj first]
          exact List.mem_cons_self ..
        have := isMarker_of_not_opensWildcard (free c (List.mem_cons_self ..)) star marked
        exact absurd this (by decide)
  · rintro rfl
    rfl

/-- A segment is judged as its first marker is. -/
theorem segmentFault?_eq_markerError? (pattern : String)
    (slashed : front.getLast? = some '/') (free : ∀ c ∈ plain, opensWildcard c = false)
    (opens : opensWildcard marker) (noSlash : '/' ∉ plain ++ marker :: name)
    (ended : ∀ c ∈ rest.head?, c = '/') :
    (segmentFault? (encodeChars (plain ++ marker :: name)) rest.isEmpty).map
        (RouteError.ofFault pattern) =
      markerError? pattern (front ++ plain) marker (name ++ rest) := by
  have plainSlash : '/' ∉ plain := fun h => noSlash (List.mem_append_left _ h)
  have nameSlash : '/' ∉ name :=
    fun h => noSlash (List.mem_append_right _ (List.mem_cons_of_mem _ h))
  have several : (segmentBefore (front ++ plain) ++ segmentAfter (name ++ rest)).any opensWildcard =
      (encodeChars name).any isMarker := by
    rw [segmentBefore_append plainSlash slashed, segmentAfter_append nameSlash ended,
      List.any_append, List.any_reverse, any_isMarker_encodeChars,
      List.any_eq_false.mpr fun c hc => by rw [free c hc]; simp]
    rfl
  have nameless : encodeChars name = [] ↔ name = [] :=
    ⟨encodeChars_eq_nil, fun h => by rw [h]; rfl⟩
  have last : '/' ∈ name ++ rest ↔ rest.isEmpty = false := by
    cases rest with
    | nil => simpa using nameSlash
    | cons c rest =>
        obtain rfl := ended c rfl
        simp
  obtain ⟨b, hb, marked, isStar⟩ := encodeChar_of_opensWildcard opens
  have written : b :: encodeChars name = encodeChars (marker :: name) := by
    rw [encodeChars_cons, hb]
    rfl
  have opened : (encodeChars (plain ++ marker :: name)).dropWhile (fun b => !isMarker b) =
      b :: encodeChars name := by
    rw [encodeChars_append, dropWhile_encodeChars_append free, ← written,
      List.dropWhile_cons_of_neg (by simpa using marked)]
  unfold segmentFault? markerError?
  rw [opened, several, segmentAfter_append nameSlash ended]
  dsimp only
  split
  · exact congrArg (fun text => some (RouteError.multipleWildcardsInSegment pattern text))
      (by rw [written, decodeLossy_encodeChars])
  · simp only [nameless, ne_eq, isStar]
    split
    · exact congrArg (fun text => some (RouteError.namelessWildcard pattern text))
        (by rw [← hb, ← List.append_nil (encodeChar marker)]; exact decodeLossy_encodeChars [marker])
    · split
      · rfl
      · next catchAll =>
          obtain rfl : marker = '*' := not_not.mp catchAll
          obtain rfl : b = star := isStar.mpr rfl
          have first : (encodeChars (plain ++ '*' :: name)).head? = some star ↔ plain = [] := by
            rw [encodeChars_append, ← written, head_encodeChars_eq_star free]
          have after := getLast?_append_eq_slash plainSlash slashed
          simp only [last, first, after, Bool.not_eq_true']
          split
          · rfl
          · split <;> rfl

/-- A segment with its markers, read behind a slash: it is judged whole, then the scan goes on. -/
theorem firstMarkerError?_segment (pattern : String) {segment : List Char}
    (slashed : front.getLast? = some '/') (noSlash : '/' ∉ segment)
    (ended : ∀ c ∈ rest.head?, c = '/') :
    firstMarkerError? pattern front (segment ++ rest) =
      ((segmentFault? (encodeChars segment) rest.isEmpty).map (RouteError.ofFault pattern)).or
        (firstMarkerError? pattern (front ++ segment) rest) := by
  let plain := segment.takeWhile (fun c => !opensWildcard c)
  have free : ∀ c ∈ plain, opensWildcard c = false := by
    intro c hc
    simpa using List.mem_takeWhile_imp hc
  have cut : segment = plain ++ segment.dropWhile (fun c => !opensWildcard c) :=
    List.takeWhile_append_dropWhile.symm
  cases hopen : segment.dropWhile (fun c => !opensWildcard c) with
  | nil =>
      rw [hopen, List.append_nil] at cut
      have faultless : segmentFault? (encodeChars segment) rest.isEmpty = none := by
        have nothing := dropWhile_encodeChars_append free []
        rw [List.append_nil, ← cut] at nothing
        rw [segmentFault?, nothing]
        rfl
      rw [faultless, Option.map_none, Option.none_or, firstMarkerError?_append (cut ▸ free)]
  | cons marker name =>
      have opens : opensWildcard marker := by
        have := List.head?_dropWhile_not (fun c => !opensWildcard c) segment
        rw [hopen] at this
        simpa using this
      rw [hopen] at cut
      rw [cut] at noSlash ⊢
      have nameSlash : '/' ∉ name :=
        fun h => noSlash (List.mem_append_right _ (List.mem_cons_of_mem _ h))
      rw [segmentFault?_eq_markerError? pattern slashed free opens noSlash ended,
        List.append_assoc, firstMarkerError?_append free, List.cons_append, firstMarkerError?,
        if_pos opens]
      cases herror : markerError? pattern (front ++ plain) marker (name ++ rest) with
      | some error => rfl
      | none =>
          -- one marker is all that the segment has, so its name is skipped
          have nameFree : ∀ c ∈ name, opensWildcard c = false := by
            rw [markerError?, segmentAfter_append nameSlash ended] at herror
            split at herror
            · cases herror
            · next single =>
                rw [List.any_append, Bool.or_eq_true, not_or] at single
                simpa using single.2
          rw [Option.none_or, Option.none_or, firstMarkerError?_append nameFree]
          simp only [List.append_assoc, List.singleton_append]

end Segment

/-- Behind a slash, judging segment by segment finds the first faulty marker. -/
theorem segmentsFault?_eq_firstMarkerError? (pattern : String) {front : List Char}
    (text : List Char) (slashed : front.getLast? = some '/') :
    (segmentsFault? (splitOn slash (encodeChars text))).map (RouteError.ofFault pattern) =
      firstMarkerError? pattern front text := by
  have whole : text.takeWhile (· ≠ '/') ++ text.dropWhile (· ≠ '/') = text :=
    List.takeWhile_append_dropWhile
  have segment := firstMarkerError?_segment pattern slashed (slash_not_mem_takeWhile text)
    (head_dropWhile_slash text)
  rw [whole] at segment
  rw [segment, splitOn_slash, untilSlash_encodeChars, fromSlash_encodeChars, segmentsFault?]
  cases hrest : text.dropWhile (· ≠ '/') with
  | nil => simp [segmentsFault?, firstMarkerError?]
  | cons c rest =>
      have shorter : rest.length < text.length := by
        have := (List.dropWhile_sublist (· ≠ '/') (l := text)).length_le
        rw [hrest] at this
        exact Nat.lt_of_succ_le this
      obtain rfl : c = '/' := head_dropWhile_slash text c (by rw [hrest]; rfl)
      have later := segmentsFault?_eq_firstMarkerError? pattern rest
        (List.getLast?_concat (l := front ++ text.takeWhile (· ≠ '/')) (a := '/'))
      rw [encodeChars_cons, encodeChar_slash, List.singleton_append]
      dsimp only
      rw [firstMarkerError?_cons (c := '/') (fun opens => by cases opens), ← later]
      have more : (splitOn slash (encodeChars rest)).isEmpty = false := by
        rw [List.isEmpty_eq_false_iff]
        exact splitOn_ne_nil slash (encodeChars rest)
      rw [more, List.isEmpty_cons, Option.map_or]
termination_by text.length

section Check

variable {pattern : String}

/-- A marker is not to blame when it is alone in its segment and named, and, for a catch-all,
the last segment is its own. -/
theorem markerError?_eq_none_iff {front back : List Char} {marker : Char} :
    markerError? pattern front marker back = none ↔
      (∀ c ∈ segmentBefore front ++ segmentAfter back, opensWildcard c = false) ∧
        segmentAfter back ≠ [] ∧
        (marker = '*' → '/' ∉ back ∧ front.getLast? = some '/') := by
  have alone : (segmentBefore front ++ segmentAfter back).any opensWildcard = false ↔
      ∀ c ∈ segmentBefore front ++ segmentAfter back, opensWildcard c = false := by
    rw [List.any_eq_false]
    simp only [Bool.not_eq_true]
  rw [← alone]
  unfold markerError?
  split
  · next several =>
      exact iff_of_false (Option.some_ne_none _) fun h => by rw [several] at h; cases h.1
  · next single =>
      rw [Bool.not_eq_true] at single
      split
      · next nameless => exact iff_of_false (Option.some_ne_none _) fun h => h.2.1 nameless
      · next named =>
          split
          · next param => exact iff_of_true rfl ⟨single, named, fun h => absurd h param⟩
          · next catchAll =>
              have isStar : marker = '*' := not_not.mp catchAll
              split
              · next more =>
                  exact iff_of_false (Option.some_ne_none _) fun h => (h.2.2 isStar).1 more
              · next last =>
                  split
                  · next inside =>
                      exact iff_of_false (Option.some_ne_none _) fun h => inside (h.2.2 isStar).2
                  · next after =>
                      exact iff_of_true rfl ⟨single, named, fun _ => ⟨last, not_not.mp after⟩⟩

/-- A character of the segment around a place has no slash between it and that place. -/
theorem exists_of_mem_segmentAfter {c : Char} {back : List Char} (inside : c ∈ segmentAfter back) :
    ∃ between more, back = between ++ c :: more ∧ '/' ∉ between := by
  obtain ⟨between, more, hsegment⟩ := List.append_of_mem inside
  refine ⟨between, more ++ back.dropWhile (· ≠ '/'), ?_, fun h => ?_⟩
  · rw [← List.cons_append, ← List.append_assoc, ← hsegment, segmentAfter,
      List.takeWhile_append_dropWhile]
  · apply slash_not_mem_takeWhile back
    rw [← segmentAfter, hsegment]
    exact List.mem_append_left _ h

theorem mem_segmentAfter_of_free {c : Char} {between : List Char} (free : '/' ∉ between)
    (hc : c ≠ '/') (more : List Char) : c ∈ segmentAfter (between ++ c :: more) := by
  have inside : ∀ d ∈ between, decide (d ≠ '/') = true := by
    intro d hd
    exact decide_eq_true fun h => free (h ▸ hd)
  rw [segmentAfter, List.takeWhile_append_of_pos inside,
    List.takeWhile_cons_of_pos (by simpa using hc)]
  exact List.mem_append_right _ (List.mem_cons_self ..)

theorem ne_slash_of_opensWildcard {c : Char} (opens : opensWildcard c) : c ≠ '/' := by
  rintro rfl
  cases opens

/-- A pattern is grammatical when it starts with a slash and none of its markers is to
blame. -/
theorem grammatical_iff :
    Grammatical pattern.toList ↔ pattern.toList.head? = some '/' ∧
      ∀ front marker back, pattern.toList = front ++ marker :: back → opensWildcard marker →
        markerError? pattern front marker back = none := by
  apply Iff.intro
  · intro grammatical
    refine ⟨grammatical.slashFirst, fun front marker back htext opens => ?_⟩
    refine markerError?_eq_none_iff.mpr ⟨fun c inside => ?_, fun nameless => ?_, ?_⟩
    · by_contra opens'
      rw [Bool.not_eq_false] at opens'
      rcases List.mem_append.mp inside with hbefore | hafter
      · obtain ⟨between, more, hfront, free⟩ := exists_of_mem_segmentAfter hbefore
        refine free (List.mem_reverse.mp (grammatical.oneMarker more.reverse c between.reverse
          marker back ?_ opens' opens))
        rw [htext, ← List.reverse_reverse front, hfront]
        simp
      · obtain ⟨between, more, hback, free⟩ := exists_of_mem_segmentAfter hafter
        refine free (grammatical.oneMarker front marker between c more ?_ opens opens')
        rw [htext, hback, List.append_assoc, List.cons_append]
    · obtain ⟨c, hc, notSlash⟩ := grammatical.named front marker back htext opens
      obtain ⟨more, rfl⟩ := List.head?_eq_some_iff.mp hc
      rw [segmentAfter, List.takeWhile_cons_of_pos (by simpa using notSlash)] at nameless
      cases nameless
    · rintro rfl
      exact ⟨grammatical.inLastSegment front back htext, grammatical.afterSlash front back htext⟩
  · rintro ⟨slashFirst, blameless⟩
    have kept (front : List Char) (marker : Char) (back : List Char)
        (htext : pattern.toList = front ++ marker :: back) (opens : opensWildcard marker) :=
      markerError?_eq_none_iff.mp (blameless front marker back htext opens)
    exact {
      slashFirst
      oneMarker := by
        intro front marker between marker' back htext opens opens'
        by_contra free
        rw [List.append_assoc, List.cons_append] at htext
        have inside :=
          mem_segmentAfter_of_free free (ne_slash_of_opensWildcard opens') back
        have closed := (kept front marker _ htext opens).1 marker' (List.mem_append_right _ inside)
        rw [opens'] at closed
        cases closed
      named := by
        intro front marker back htext opens
        have nonempty := (kept front marker back htext opens).2.1
        cases back with
        | nil => exact absurd rfl nonempty
        | cons c back =>
            refine ⟨c, rfl, ?_⟩
            rintro rfl
            exact nonempty rfl
      afterSlash := fun front back htext => ((kept front '*' back htext rfl).2.2 rfl).2
      inLastSegment := fun front back htext => ((kept front '*' back htext rfl).2.2 rfl).1 }

/-- A pattern that starts with a slash is scanned for its first faulty marker. -/
theorem syntaxError?_of_slash (slashFirst : pattern.toList.head? = some '/') :
    syntaxError? pattern = firstMarkerError? pattern [] pattern.toList := by
  obtain ⟨text, htext⟩ := List.head?_eq_some_iff.mp slashFirst
  have scan := @segmentsFault?_eq_firstMarkerError? pattern ['/'] text rfl
  rw [syntaxError?, encode_eq, htext, encodeChars_cons, encodeChar_slash, List.singleton_append,
    fault?, if_pos rfl, scan, firstMarkerError?_cons (c := '/') (fun opens => by cases opens)]
  rfl

/-- Any other pattern is refused for that. -/
theorem syntaxError?_of_no_slash (other : pattern.toList.head? ≠ some '/') :
    syntaxError? pattern = some (.pathMustStartWithSlash pattern) := by
  have fault : fault? (encode pattern) = some .noLeadingSlash := by
    rw [encode_eq]
    cases htext : pattern.toList with
    | nil => rfl
    | cons c text =>
        obtain ⟨b, more, hc⟩ := List.exists_cons_of_ne_nil (encodeChar_ne_nil c)
        have notSlash : b ≠ slash := by
          rintro rfl
          have inside : slash ∈ encodeChar c := by
            rw [hc]
            exact List.mem_cons_self ..
          rw [htext, slash_mem_encodeChar.mp inside] at other
          exact other rfl
        rw [encodeChars_cons, hc, List.cons_append, fault?, if_neg notSlash]
  rw [syntaxError?, fault]
  rfl

theorem syntaxError?_eq_none_iff : syntaxError? pattern = none ↔ Faultless pattern :=
  Option.map_eq_none_iff

/-- A pattern passes the check exactly when it is grammatical. -/
theorem faultless_iff_grammatical : Faultless pattern ↔ Grammatical pattern.toList := by
  rw [← syntaxError?_eq_none_iff, grammatical_iff]
  by_cases slashFirst : pattern.toList.head? = some '/'
  · rw [syntaxError?_of_slash slashFirst, firstMarkerError?_eq_none_iff]
    exact (and_iff_right slashFirst).symm
  · rw [syntaxError?_of_no_slash slashFirst]
    exact iff_of_false (Option.some_ne_none _) fun h => slashFirst h.1

/-- The scan of a pattern always comes to an end, with the refusal that its segments give. -/
theorem check?_eq_syntaxError? (pattern : String) :
    check? pattern = some ((syntaxError? pattern).elim (.ok ()) .error) := by
  rw [check?_eq, syntaxError?]
  cases fault? (encode pattern) <;> rfl

theorem check?_eq_ok_iff : check? pattern = some (.ok ()) ↔ syntaxError? pattern = none := by
  rw [check?_eq_syntaxError?]
  cases syntaxError? pattern <;> simp

theorem check?_eq_error_iff {error : RouteError} :
    check? pattern = some (.error error) ↔ syntaxError? pattern = some error := by
  rw [check?_eq_syntaxError?]
  cases syntaxError? pattern <;> simp

/-- The check of a pattern always has an answer, and it accepts exactly the grammar.  A pattern that
starts with a slash is refused for its first marker, from the left, whose segment breaks a rule, as
`markerError?` says. -/
theorem syntax_check_grammatical (pattern : String) :
    check? pattern = some ((syntaxError? pattern).elim (.ok ()) .error) ∧
      (check? pattern = some (.ok ()) ↔ Grammatical pattern.toList) ∧
      (pattern.toList.head? ≠ some '/' →
        check? pattern = some (.error (.pathMustStartWithSlash pattern))) ∧
      (pattern.toList.head? = some '/' → ∀ error, check? pattern = some (.error error) ↔
        ∃ front marker back, pattern.toList = front ++ marker :: back ∧ opensWildcard marker ∧
          markerError? pattern front marker back = some error ∧
          ∀ front' marker' back', pattern.toList = front' ++ marker' :: back' →
            opensWildcard marker' → front'.length < front.length →
            markerError? pattern front' marker' back' = none) := by
  refine ⟨check?_eq_syntaxError? pattern, ?_, fun other => ?_, fun slashFirst error => ?_⟩
  · rw [check?_eq_ok_iff, syntaxError?_eq_none_iff, faultless_iff_grammatical]
  · exact check?_eq_error_iff.mpr (syntaxError?_of_no_slash other)
  · rw [check?_eq_error_iff, syntaxError?_of_slash slashFirst, firstMarkerError?_eq_some_iff]
    rfl

/-- The second segment has one marker, the third two; the last would break a rule as well. -/
example : syntaxError? "/x/:a/:b*c/y*" =
    some (.multipleWildcardsInSegment "/x/:a/:b*c/y*" ":b*c") := by decide +kernel

end Check

end Pattern

end RadixRouter

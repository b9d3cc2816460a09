/-
# Checking a pattern by positions

`Pattern.nextWildcard?` seeks the next wildcard of a text: it finds the first marker, follows the
text to the next slash or its end, and cuts the name out.  `Pattern.check?` goes from wildcard to
wildcard of a pattern and refuses the first faulty one.  Every cut and every byte read is guarded.

No guard fails on any text, and the check is that of the grammar, `Pattern.fault?`.
-/

import RadixRouter.Proofs.Guards
import RadixRouter.Proofs.PatternShape
import RadixRouter.RouteError

namespace RadixRouter.Pattern

open Guard

/-- A wildcard in a text: where its marker stands, marker and name, and whether the name is free
of markers. -/
structure Wildcard where
  start : Nat
  text : List UInt8
  valid : Bool

/-- Follows a name byte by byte to the next slash or the end; `offset` bytes are behind. -/
def scanName? (text : List UInt8) (start : Nat) : (valid : Bool) → (offset : Nat) →
    List UInt8 → Option Wildcard
  | valid, _, [] => do return ⟨start, ← dropFrom? text start, valid⟩
  | valid, offset, b :: rest =>
    if b = slash then do return ⟨start, ← between? text start (start + 1 + offset), valid⟩
    else scanName? text start (valid && !isMarker b) (offset + 1) rest

/-- The next wildcard of a text. -/
def nextWildcard? (text : List UInt8) : Option (Option Wildcard) :=
  match text.findIdx? isMarker with
  | none => some none
  | some start => do return some (← scanName? text start true 0 (← dropFrom? text (start + 1)))

/-- A position in the text of a pattern. -/
structure Place where
  pattern : String
  offset : Nat

/-- Checks the wildcards of a pattern from a position on. -/
def Place.check? (place : Place) : Option (Except RouteError Unit) := do
  let bytes := Utf8.encode place.pattern
  match ← nextWildcard? (← dropFrom? bytes place.offset) with
  | none => return .ok ()
  | some wildcard =>
    let start := place.offset + wildcard.start
    let name := wildcard.text
    if !wildcard.valid then
      return .error (.multipleWildcardsInSegment place.pattern (Utf8.decodeLossy name))
    if name.length < 2 then
      return .error (.namelessWildcard place.pattern (Utf8.decodeLossy name))
    if (← name[0]?) = star then
      if start + name.length ≠ bytes.length then
        return .error (.catchAllMustBeLast place.pattern)
      if (← bytes[← minus? start 1]?) ≠ slash then
        return .error (.noSlashBeforeCatchAll place.pattern)
    { place with offset := start + name.length } |>.check?
partial_fixpoint

/-- Checks the text of a pattern. -/
def check? (pattern : String) : Option (Except RouteError Unit) :=
  if (Utf8.encode pattern).head? = some slash then Place.check? ⟨pattern, 0⟩
  else some (.error (.pathMustStartWithSlash pattern))

variable {plain name after text : List UInt8} {marker : UInt8}

theorem findIdx?_isMarker (free : ∀ b ∈ plain, isMarker b = false) (opens : isMarker marker = true)
    (text : List UInt8) : (plain ++ marker :: text).findIdx? isMarker = some plain.length :=
  findIdx?_middle free opens

/-- The name is cut out where it ends. -/
theorem scanName?_eq (noSlash : slash ∉ name) (ended : after = [] ∨ ∃ rest, after = slash :: rest)
    (valid : Bool) (scanned : List UInt8) :
    scanName? (plain ++ marker :: (scanned ++ (name ++ after))) plain.length valid scanned.length
        (name ++ after) =
      some ⟨plain.length, marker :: (scanned ++ name), valid && !name.any isMarker⟩ := by
  induction name generalizing valid scanned with
  | nil =>
      rcases ended with rfl | ⟨rest, rfl⟩
      · rw [List.append_nil, List.append_nil, scanName?, dropFrom?_append rfl]
        simp
      · rw [List.nil_append, scanName?, if_pos rfl, ← List.cons_append,
          between?_append rfl (by simp; omega)]
        simp
  | cons b name ih =>
      rw [List.mem_cons, not_or] at noSlash
      have hscanned : (scanned ++ [b]).length = scanned.length + 1 := by simp
      rw [List.cons_append, scanName?, if_neg (Ne.symm noSlash.1), ← hscanned]
      have h := ih noSlash.2 (valid && !isMarker b) (scanned ++ [b])
      simpa [Bool.and_assoc] using h

/-- The next wildcard is the one after text without markers. -/
theorem nextWildcard?_eq (free : ∀ b ∈ plain, isMarker b = false) (opens : isMarker marker = true)
    (noSlash : slash ∉ name) (ended : after = [] ∨ ∃ rest, after = slash :: rest) :
    nextWildcard? (plain ++ marker :: (name ++ after)) =
      some (some ⟨plain.length, marker :: name, !name.any isMarker⟩) := by
  rw [nextWildcard?, findIdx?_isMarker free opens]
  have hname : scanName? (plain ++ marker :: (name ++ after)) plain.length true 0 (name ++ after) =
      some ⟨plain.length, marker :: name, true && !name.any isMarker⟩ :=
    scanName?_eq noSlash ended true []
  dsimp only
  rw [dropFrom?_past rfl, Option.bind_eq_bind, Option.bind_some, hname]
  rfl

theorem nextWildcard?_plain (free : ∀ b ∈ text, isMarker b = false) :
    nextWildcard? text = some none := by
  rw [nextWildcard?, List.findIdx?_eq_none_iff.mpr free]

/-- The part of a text without markers ends with the text or before a marker. -/
theorem split_at_marker (text : List UInt8) :
    (text.dropWhile (fun b => !isMarker b) = [] ∧ ∀ b ∈ text, isMarker b = false) ∨
      ∃ plain marker name, text.dropWhile (fun b => !isMarker b) = marker :: name ∧
        text = plain ++ marker :: name ∧ (∀ b ∈ plain, isMarker b = false) ∧
          isMarker marker = true := by
  have hcut : text.takeWhile (fun b => !isMarker b) ++ text.dropWhile (fun b => !isMarker b) =
      text := List.takeWhile_append_dropWhile
  have hfree : ∀ b ∈ text.takeWhile (fun b => !isMarker b), isMarker b = false := by
    intro b hb
    simpa using List.mem_takeWhile_imp hb
  cases hopen : text.dropWhile (fun b => !isMarker b) with
  | nil =>
      rw [hopen, List.append_nil] at hcut
      exact Or.inl ⟨rfl, hcut ▸ hfree⟩
  | cons marker name =>
      have hmarker : isMarker marker = true := by
        have := List.head?_dropWhile_not (fun b => !isMarker b) text
        rw [hopen] at this
        simpa using this
      rw [hopen] at hcut
      exact Or.inr ⟨_, marker, name, rfl, hcut.symm, hfree, hmarker⟩

/-- A text has no marker, or a first one with a name behind it. -/
theorem exists_wildcard (text : List UInt8) :
    (∀ b ∈ text, isMarker b = false) ∨
      ∃ plain marker name after, text = plain ++ marker :: (name ++ after) ∧
        (∀ b ∈ plain, isMarker b = false) ∧ isMarker marker = true ∧ slash ∉ name ∧
          (after = [] ∨ ∃ rest, after = slash :: rest) := by
  obtain ⟨-, free⟩ | ⟨plain, marker, rest, -, htext, free, opens⟩ := split_at_marker text
  · exact Or.inl free
  · refine Or.inr ⟨plain, marker, untilSlash rest, fromSlash rest, ?_, free, opens,
      slash_not_mem_untilSlash rest, fromSlash_eq rest⟩
    rw [untilSlash_append_fromSlash, htext]

section Check

variable {pattern : String} {front : List UInt8}

/-- What a check says of a pattern with this fault, or none. -/
def verdictOf (pattern : String) : Option Fault → Except RouteError Unit
  | none => .ok ()
  | some fault => .error (.ofFault pattern fault)

theorem Place.check?_plain (bytes : Utf8.encode pattern = front ++ text)
    (free : ∀ b ∈ text, isMarker b = false) :
    Place.check? ⟨pattern, front.length⟩ = some (.ok ()) := by
  rw [Place.check?.eq_1, bytes, dropFrom?_append rfl, Option.bind_eq_bind, Option.bind_some,
    nextWildcard?_plain free]
  rfl

/-- What is wrong with the wildcard that is found, in the order of the checks, or else the check of
what follows it. -/
theorem Place.check?_wildcard
    (bytes : Utf8.encode pattern = front ++ (plain ++ marker :: (name ++ after)))
    (free : ∀ b ∈ plain, isMarker b = false) (opens : isMarker marker = true)
    (noSlash : slash ∉ name) (ended : after = [] ∨ ∃ rest, after = slash :: rest)
    (inside : front ++ plain ≠ []) :
    Place.check? ⟨pattern, front.length⟩ =
      if name.any isMarker then some (verdictOf pattern (some (.severalMarkers (marker :: name))))
      else if name = [] then some (verdictOf pattern (some (.nameless [marker])))
      else if marker = star ∧ after ≠ [] then some (verdictOf pattern (some .catchAllNotLast))
      else if marker = star ∧ (front ++ plain).getLast? ≠ some slash then
        some (verdictOf pattern (some .noSlashBeforeCatchAll))
      else Place.check? ⟨pattern, (front ++ (plain ++ marker :: name)).length⟩ := by
  obtain ⟨before, last, hlast⟩ := (List.eq_nil_or_concat (front ++ plain)).resolve_left inside
  rw [List.concat_eq_append] at hlast
  have hplace : front.length + plain.length = before.length + 1 := by
    rw [← List.length_append, hlast, List.length_append]
    rfl
  have hbefore : (front ++ (plain ++ marker :: (name ++ after)))[before.length]? = some last := by
    rw [← List.append_assoc, hlast, List.append_assoc]
    exact getElem?_middle rfl
  have hend : front.length + plain.length + (marker :: name).length =
      (front ++ (plain ++ marker :: name)).length := by
    simp [Nat.add_assoc]
  rw [Place.check?.eq_1, bytes, dropFrom?_append rfl, Option.bind_eq_bind, Option.bind_some,
    nextWildcard?_eq free opens noSlash ended]
  simp only [Option.bind_eq_bind, Option.bind_some, Bool.not_not, List.getElem?_cons_zero, hend]
  rw [hplace, minus?_add_right, hlast, List.getLast?_concat]
  simp only [Option.bind_some, hbefore]
  by_cases hmarkers : name.any isMarker
  · rw [if_pos hmarkers, if_pos hmarkers]
    rfl
  rw [if_neg hmarkers, if_neg hmarkers]
  by_cases hname : name = []
  · subst hname
    rfl
  have hlong : ¬ (marker :: name).length < 2 := by
    have := List.length_pos_iff.mpr hname
    simp only [List.length_cons]
    omega
  rw [if_neg hlong, if_neg hname]
  by_cases hstar : marker = star
  · have hrest : (front ++ (plain ++ marker :: name)).length ≠
        (front ++ (plain ++ marker :: (name ++ after))).length ↔ after ≠ [] := by
      rw [ne_eq, ne_eq, ← List.length_eq_zero_iff]
      simp
    simp only [hstar, true_and, if_true] at hrest ⊢
    simp only [hrest, ne_eq, Option.some.injEq]
    by_cases hafter : after = []
    · by_cases hslash : last = slash
      · simp [hafter, hslash]
      · rw [if_neg (not_not.mpr hafter), if_pos hslash, if_neg (not_not.mpr hafter), if_pos hslash]
        rfl
    · rw [if_pos hafter, if_pos hafter]
      rfl
  · simp only [hstar, false_and, if_false]

/-- Text without markers may be skipped. -/
theorem Place.check?_skip (bytes : Utf8.encode pattern = front ++ (plain ++ text))
    (free : ∀ b ∈ plain, isMarker b = false) (inside : front ++ plain ≠ []) :
    Place.check? ⟨pattern, front.length⟩ = Place.check? ⟨pattern, (front ++ plain).length⟩ := by
  have bytes' : Utf8.encode pattern = (front ++ plain) ++ text := by
    rw [bytes, List.append_assoc]
  rcases exists_wildcard text with
    hnone | ⟨plain', marker, name, after, rfl, hplain, opens, noSlash, ended⟩
  · rw [Place.check?_plain bytes' hnone, Place.check?_plain bytes]
    intro b hb
    rcases List.mem_append.mp hb with h | h
    · exact free b h
    · exact hnone b h
  · have inside' : (front ++ plain) ++ plain' ≠ [] :=
      fun h => inside (List.append_eq_nil_iff.mp h).1
    have whole : Utf8.encode pattern =
        front ++ ((plain ++ plain') ++ marker :: (name ++ after)) := by
      rw [bytes, List.append_assoc]
    have hfree : ∀ b ∈ plain ++ plain', isMarker b = false := by
      intro b hb
      rcases List.mem_append.mp hb with h | h
      · exact free b h
      · exact hplain b h
    rw [Place.check?_wildcard bytes' hplain opens noSlash ended inside',
      Place.check?_wildcard whole hfree opens noSlash ended (by rwa [← List.append_assoc])]
    simp only [List.append_assoc]

/-- A marker stands right after a slash where its segment starts with it. -/
theorem getLast?_eq_slash_iff (front name : List UInt8) (opens : isMarker marker = true)
    (free : ∀ b ∈ plain, isMarker b = false) (noSlash : slash ∉ plain) :
    (front ++ slash :: plain).getLast? = some slash ↔
      (plain ++ marker :: name).head? = some marker := by
  cases plain with
  | nil => simp
  | cons c plain =>
      have hc : c ≠ marker := by
        rintro rfl
        exact Bool.false_ne_true ((free c (List.mem_cons_self ..)).symm.trans opens)
      refine iff_of_false ?_ (by simpa using hc)
      intro hlast
      have inside : (c :: plain).getLast? = some slash := by simpa using hlast
      exact noSlash (List.mem_of_getLast? inside)

/-- The check of a segment, and of what follows it. -/
theorem Place.check?_segment {segment : List UInt8}
    (bytes : Utf8.encode pattern = front ++ slash :: (segment ++ after)) (noSlash : slash ∉ segment)
    (ended : after = [] ∨ ∃ rest, after = slash :: rest) :
    Place.check? ⟨pattern, front.length⟩ =
      match segmentFault? segment after.isEmpty with
      | some fault => some (verdictOf pattern (some fault))
      | none => Place.check? ⟨pattern, (front ++ slash :: segment).length⟩ := by
  rw [segmentFault?]
  obtain ⟨hnone, free⟩ | ⟨plain, marker, name, hopen, rfl, free, opens⟩ := split_at_marker segment
  · rw [hnone]
    have bytes' : Utf8.encode pattern = front ++ (slash :: segment ++ after) := by
      rw [bytes, List.cons_append]
    exact Place.check?_skip bytes' (List.forall_mem_cons.mpr ⟨rfl, free⟩) (by simp)
  · rw [hopen]
    rw [List.mem_append, List.mem_cons, not_or, not_or] at noSlash
    have bytes' : Utf8.encode pattern =
        front ++ ((slash :: plain) ++ marker :: (name ++ after)) := by
      rw [bytes, List.append_assoc, List.cons_append, List.cons_append]
    have hnext : front ++ ((slash :: plain) ++ marker :: name) =
        front ++ slash :: (plain ++ marker :: name) := by rw [List.cons_append]
    have hhead := getLast?_eq_slash_iff front name opens free noSlash.1
    rw [Place.check?_wildcard bytes' (List.forall_mem_cons.mpr ⟨rfl, free⟩) opens noSlash.2.2 ended
      (by simp), hnext]
    dsimp only
    by_cases hmarkers : name.any isMarker
    · rw [if_pos hmarkers, if_pos hmarkers]
    rw [if_neg hmarkers, if_neg hmarkers]
    by_cases hempty : name = []
    · rw [if_pos hempty, if_pos hempty]
    rw [if_neg hempty, if_neg hempty]
    by_cases hstar : marker = star
    · subst hstar
      simp only [ne_eq, hhead, true_and, not_true_eq_false, if_false]
      generalize (plain ++ star :: name).head? = first
      cases after with
      | nil => by_cases hfirst : first = some star <;> simp [hfirst]
      | cons c after => simp
    · simp [hstar]

/-- The check of a pattern from a slash on is that of its segments. -/
theorem Place.check?_eq (front rest : List UInt8)
    (bytes : Utf8.encode pattern = front ++ slash :: rest) :
    Place.check? ⟨pattern, front.length⟩ =
      some (verdictOf pattern (segmentsFault? (splitOn slash rest))) := by
  have hcut := untilSlash_append_fromSlash rest
  have bytes' : Utf8.encode pattern = front ++ slash :: (untilSlash rest ++ fromSlash rest) := by
    rw [hcut, bytes]
  rw [Place.check?_segment bytes' (slash_not_mem_untilSlash rest) (fromSlash_eq rest),
    splitOn_slash, segmentsFault?]
  rcases fromSlash_eq rest with hend | ⟨rest', hmore⟩
  · have whole : Utf8.encode pattern = (front ++ slash :: untilSlash rest) ++ [] := by
      rw [bytes', hend]
      simp
    have hstop : Place.check? ⟨pattern, (front ++ slash :: untilSlash rest).length⟩ =
        some (.ok ()) := Place.check?_plain whole (List.forall_mem_nil _)
    rw [hend, hstop]
    dsimp only [List.isEmpty_nil, segmentsFault?]
    cases segmentFault? (untilSlash rest) true <;> rfl
  · rw [hmore]
    have shorter : rest'.length < rest.length := by
      rw [← hcut, hmore]
      simp
      omega
    have hrest := Place.check?_eq (front ++ slash :: untilSlash rest) rest' (by
      rw [bytes', hmore]
      simp)
    have hlast : (splitOn slash rest').isEmpty = false := by
      simpa using splitOn_ne_nil slash rest'
    rw [hrest, List.isEmpty_cons]
    dsimp only
    rw [hlast]
    cases segmentFault? (untilSlash rest) false <;> rfl
termination_by rest.length

end Check

/-- Checking the text of a pattern, no access is out of bounds, and the check is that of the
grammar. -/
theorem check?_eq (pattern : String) :
    check? pattern = some (verdictOf pattern (fault? (Utf8.encode pattern))) := by
  rw [check?]
  cases hbytes : Utf8.encode pattern with
  | nil => rfl
  | cons b rest =>
      rw [fault?, List.head?_cons]
      by_cases hslash : b = slash
      · subst hslash
        rw [if_pos rfl, if_pos rfl]
        exact Place.check?_eq [] rest hbytes
      · rw [if_neg (by simpa using hslash), if_neg hslash]
        rfl

end RadixRouter.Pattern

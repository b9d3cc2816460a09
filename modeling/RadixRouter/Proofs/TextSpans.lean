/-
# Pieces of text

A walk stands somewhere in the bytes of a text.  Where a byte starts a character the text may be
cut, and the character that covers a position is found from any place in it, as long as its first
byte is in sight.
-/

import RadixRouter.Proofs.Acceptance
import RadixRouter.Proofs.CaseVariants

namespace RadixRouter

namespace Utf8

/-- Bytes of whole characters. -/
def Whole (bytes : List UInt8) : Prop := ∃ chars, bytes = encodeChars chars

theorem whole_nil : Whole [] := ⟨[], rfl⟩

theorem Whole.append {front back : List UInt8} (whole : Whole front) (whole' : Whole back) :
    Whole (front ++ back) := by
  obtain ⟨chars, rfl⟩ := whole
  obtain ⟨chars', rfl⟩ := whole'
  exact ⟨chars ++ chars', (encodeChars_append ..).symm⟩

/-- Text may be cut in front of a byte that starts a character. -/
theorem encodeChars_cut_start {front back : List UInt8} {b : UInt8} {chars : List Char}
    (starts : isStart b = true) (same : front ++ b :: back = encodeChars chars) :
    ∃ before after, chars = before ++ after ∧ front = encodeChars before ∧
      b :: back = encodeChars after := by
  induction chars generalizing front with
  | nil => exact absurd same (List.append_ne_nil_of_right_ne_nil _ (List.cons_ne_nil _ _))
  | cons c chars ih =>
      rw [encodeChars_cons] at same
      rcases List.append_eq_append_iff.mp same with ⟨inner, hchar, hrest⟩ | ⟨front, rfl, hrest⟩
      · cases front with
        | nil => exact ⟨[], c :: chars, rfl, rfl, same⟩
        | cons b₀ front =>
            cases inner with
            | nil =>
                refine ⟨[c], chars, rfl, ?_, hrest⟩
                rw [List.append_nil] at hchar
                rw [← hchar, encodeChars_cons, encodeChars_nil, List.append_nil]
            | cons b' inner =>
                obtain ⟨b₁, rest, hc, -, continues⟩ := encodeChar_eq_cons c
                rw [hc, List.cons_append] at hchar
                obtain ⟨-, rfl⟩ := List.cons.inj hchar
                obtain rfl : b = b' := (List.cons.inj hrest).1
                have inside := continues b (List.mem_append_right _ (List.mem_cons_self ..))
                rw [isStart, inside] at starts
                cases starts
      · obtain ⟨before, after, rfl, rfl, hback⟩ := ih hrest.symm
        exact ⟨c :: before, after, rfl, rfl, hback⟩

theorem Whole.cut {front back : List UInt8} {b : UInt8} (whole : Whole (front ++ b :: back))
    (starts : isStart b = true) : Whole front ∧ Whole (b :: back) := by
  obtain ⟨chars, hchars⟩ := whole
  obtain ⟨before, after, rfl, rfl, hback⟩ := encodeChars_cut_start starts hchars
  exact ⟨⟨before, rfl⟩, ⟨after, hback⟩⟩

/-- After whole characters the next one starts. -/
theorem Whole.next {front back : List UInt8} {b : UInt8} (whole : Whole (front ++ b :: back))
    (before : Whole front) : isContinuation b = false := by
  obtain ⟨chars, hchars⟩ := whole
  obtain ⟨front, rfl⟩ := before
  obtain ⟨after, -, hafter⟩ := encodeChars_append_eq hchars
  exact not_continuation_of_encodeChars hafter

/-- After its first byte a character continues. -/
theorem isContinuation_of_drop {c : Char} {k : Nat} {b : UInt8} {rest : List UInt8} (pos : k ≠ 0)
    (here : b :: rest = (encodeChar c).drop k) : isContinuation b = true := by
  obtain ⟨b₀, inner, hc, -, continues⟩ := encodeChar_eq_cons c
  obtain ⟨k, rfl⟩ := Nat.exists_eq_succ_of_ne_zero pos
  rw [hc, List.drop_succ_cons] at here
  exact continues b (List.mem_of_mem_drop (here ▸ List.mem_cons_self ..))

/-- Where a scan reads characters last, the bytes end with these. -/
theorem exists_of_scan_append {bytes : List UInt8} {pieces : List (Option Char)}
    {chars : List Char} (scanned : scan bytes = pieces ++ chars.map some) :
    ∃ front, bytes = front ++ encodeChars chars := by
  induction pieces generalizing bytes with
  | nil => exact ⟨[], eq_encodeChars_of_scan scanned⟩
  | cons piece pieces ih =>
      cases bytes with
      | nil => cases scanned
      | cons b rest =>
          rcases scan_cons b rest with ⟨d, rest', hbytes, hscan⟩ | ⟨n, hscan⟩
          · rw [hscan] at scanned
            obtain ⟨front, rfl⟩ := ih (List.cons.inj scanned).2
            exact ⟨encodeChar d ++ front, by rw [hbytes, List.append_assoc]⟩
          · rw [hscan] at scanned
            obtain ⟨front, hfront⟩ := ih (List.cons.inj scanned).2
            refine ⟨b :: (rest.take n ++ front), ?_⟩
            rw [List.cons_append, List.append_assoc, ← hfront, List.take_append_drop]

/-- A scan starts anew at every byte that starts a character. -/
theorem scan_append_start {b : UInt8} (starts : isStart b = true) (front back : List UInt8) :
    scan (front ++ b :: back) = scan front ++ scan (b :: back) := by
  have stops : isContinuation b = false := by simpa [isStart] using starts
  have three (b₀ : UInt8) : secondOfThree b₀ b = false := by
    rw [Bool.eq_false_iff]
    intro second
    rw [(secondOfThree_iff.mp second).1] at stops
    cases stops
  have four (b₀ : UInt8) : secondOfFour b₀ b = false := by
    rw [Bool.eq_false_iff]
    intro second
    rw [(secondOfFour_iff.mp second).1] at stops
    cases stops
  -- one case for each way in which a scan takes a piece off the front
  induction front using scan.induct with
  | case1 => rfl
  | _ =>
      conv_lhs => rw [scan.eq_def]
      conv_rhs => lhs; rw [scan.eq_def]
      simp_all [-UInt8.not_lt, -not_and]

end Utf8

open Utf8 (encodeChar encodeChars isStart isContinuation)

variable {α : Type}

/-- A place further on in a piece. -/
theorem piece_take {before path text : List UInt8} (piece : before ++ path = text) (n : Nat) :
    (before ++ path.take n) ++ path.drop n = text := by
  rw [List.append_assoc, List.take_append_drop, piece]

/-- What is carried on inside a character is not byte 0. -/
theorem ne_zero_of_drop {c : Char} {k : Nat} {b : UInt8} {rest : List UInt8} (pos : k ≠ 0)
    (here : b :: rest = (encodeChar c).drop k) : carriedByte (b :: rest) ≠ 0 := by
  have continues := Utf8.isContinuation_of_drop pos here
  rintro rfl
  cases continues

/-- The character that is found starts in sight. -/
theorem exists_of_characterAt {path : List UInt8} {n back : Nat} {c : Char}
    (found : characterAt path n = some (c, back)) :
    ∃ b rest, path.drop (n - back) = b :: rest ∧ isStart b = true ∧
      c = Utf8.firstChar (b :: rest) := by
  obtain ⟨k, -, hfound⟩ := List.exists_of_findSome?_eq_some found
  split at hfound
  · next b rest hdrop =>
      split at hfound
      · next hstart =>
          cases hfound
          exact ⟨b, rest, hdrop, hstart, rfl⟩
      · cases hfound
  · cases hfound

/-- In a piece of text, the character that is found is one of the text. -/
theorem mem_of_characterAt {before path : List UInt8} {chars : List Char}
    (piece : before ++ path = encodeChars chars) {n back : Nat} {c : Char}
    (found : characterAt path n = some (c, back)) : c ∈ chars := by
  obtain ⟨b, rest, hdrop, hstart, rfl⟩ := exists_of_characterAt found
  rw [← List.take_append_drop (n - back) path, hdrop, ← List.append_assoc] at piece
  obtain ⟨front, after, rfl, -, hafter⟩ := Utf8.encodeChars_cut_start hstart piece
  cases after with
  | nil => cases hafter
  | cons d after =>
      rw [Utf8.encodeChars_cons] at hafter
      rw [hafter, Utf8.firstChar_encodeChar]
      exact List.mem_append_right _ (List.mem_cons_self ..)

/-- The first number with a value is found. -/
theorem findSome?_range {β : Type} {f : Nat → Option β} {m k : Nat} {value : β} (inside : k < m)
    (before : ∀ i < k, f i = none) (here : f k = some value) :
    (List.range m).findSome? f = some value := by
  obtain ⟨more, rfl⟩ : ∃ more, m = k + (more + 1) := ⟨m - k - 1, by omega⟩
  have nothing : (List.range k).findSome? f = none :=
    List.findSome?_eq_none_iff.mpr fun i hi => before i (List.mem_range.mp hi)
  rw [List.range_add, List.findSome?_append, nothing, Option.none_or, List.range_succ_eq_map,
    List.map_cons, List.findSome?_cons, Nat.add_zero, here]

/-- From every place in a character it is found. -/
theorem characterAt_inside {front rest : List UInt8} {c : Char} {back : Nat}
    (inside : back < (encodeChar c).length) :
    characterAt (front ++ (encodeChar c ++ rest)) (front.length + back) = some (c, back) := by
  obtain ⟨b, inner, hc, hstart, hinner⟩ := Utf8.encodeChar_eq_cons c
  have short := Utf8.length_encodeChar c
  refine @findSome?_range _ _ _ back _ (by omega) ?_ ?_
  · intro k hk
    -- a byte between the start of the character and the position continues it
    obtain ⟨j, hj⟩ : ∃ j, back - k = j + 1 := ⟨back - k - 1, by omega⟩
    have within : j < inner.length := by
      rw [hc, List.length_cons] at inside
      omega
    have hdrop : (front ++ (encodeChar c ++ rest)).drop (front.length + back - k) =
        inner[j] :: (inner.drop (j + 1) ++ rest) := by
      rw [Nat.add_sub_assoc (Nat.le_of_lt hk), hj, List.drop_length_add_append, hc,
        List.cons_append, List.drop_succ_cons, List.drop_append_of_le_length (Nat.le_of_lt within),
        List.drop_eq_getElem_cons within, List.cons_append]
    have continues := hinner _ (List.getElem_mem within)
    rw [hdrop]
    simp [isStart, continues]
  · have first := Utf8.firstChar_encodeChar c rest
    rw [hc, List.cons_append] at first
    rw [Nat.add_sub_cancel, List.drop_left, hc, List.cons_append]
    simp [hstart, first]

/-- What the routes of a listing are as patterns, after the bytes in front of them. -/
def Reads (P : List UInt8 → Prop) (front : List UInt8) (listing : List (List Token × α)) : Prop :=
  ∀ route ∈ listing, P (front ++ Pattern.bytes route.1)

section Reads

variable {P : List UInt8 → Prop} {front : List UInt8} {listing listing' : List (List Token × α)}

theorem Reads.mono (reads : Reads P front listing) (among : listing' ⊆ listing) :
    Reads P front listing' := fun route hroute => reads route (among hroute)

/-- Below a label the routes go on after it, or one ends with it. -/
theorem Reads.below {label : List UInt8} {priority : Nat} {existing : Option α} {below : Below α}
    (reads : Reads P front (Node.static label priority existing below).listing) :
    Reads P (front ++ label) below.listing ∧ (existing.isSome = true → P (front ++ label)) := by
  constructor
  · rintro ⟨route, handler⟩ hroute
    have h := reads _ (mem_prependTokens.mpr ⟨route, rfl, List.mem_append_right _ hroute⟩)
    rwa [bytes_literal_append, ← List.append_assoc] at h
  · intro hexisting
    obtain ⟨handler, rfl⟩ := Option.isSome_iff_exists.mp hexisting
    have h := reads _ (mem_prependTokens.mpr
      ⟨[], rfl, List.mem_append_left _ (List.mem_singleton.mpr rfl)⟩)
    rwa [bytes_literal_append, show Pattern.bytes [] = [] from rfl, List.append_nil] at h

/-- After a name a route goes on with a slash, where what follows may be read alone. -/
theorem Reads.next {name : List UInt8} {hits : CounterId} {priority : Nat} {existing : Option α}
    {node : Node α} (sound : node.Sound slash)
    (reads : Reads P front (Below.param name hits priority existing (some node)).listing)
    (alone : ∀ before after, P (before ++ slash :: after) → P (slash :: after)) :
    Reads P [] node.listing := by
  rintro ⟨route, handler⟩ hroute
  obtain ⟨rest, rfl⟩ := sound.head_listing hroute
  refine alone (front ++ colon :: name) (Pattern.bytes rest) ?_
  rw [List.append_assoc]
  exact reads _ (mem_prependTokens.mpr ⟨_, rfl, List.mem_append_right _ hroute⟩)

end Reads

section Log

variable {trees : StringMap (Node α)} {log : List (Registration α)} {method : String}
  {tree : Node α}

/-- The routes of a tree are those of the accepted patterns. -/
theorem Registers.exists_pattern (registers : Registers trees log)
    (htree : trees.get? method = some tree) {route : List Token × α}
    (listed : route ∈ tree.listing) :
    ∃ pattern ∈ patternsOf method log, Pattern.route pattern = route.1 := by
  have holds := registers.holds method
  rw [htree] at holds
  obtain ⟨registration, hlogged, hmethod, hroute, -⟩ :=
    mem_routesOf.mp (holds.2.mem_iff.mp listed)
  exact ⟨_, mem_patternsOf.mpr ⟨registration, hlogged, hmethod, rfl⟩, hroute⟩

/-- So a tree reads as the accepted patterns do. -/
theorem Registers.reads (registers : Registers trees log) (htree : trees.get? method = some tree)
    {P : List UInt8 → Prop} (all : ∀ pattern ∈ patternsOf method log, P (Utf8.encode pattern)) :
    Reads P [] tree.listing := by
  intro route hroute
  obtain ⟨pattern, inside, hpattern⟩ := registers.exists_pattern htree hroute
  rw [List.nil_append, ← hpattern, Pattern.route, Pattern.bytes_tokens]
  exact all pattern inside

end Log

end RadixRouter

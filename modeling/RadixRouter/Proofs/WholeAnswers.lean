/-
# Answers that are text

The walk of the corrector may lose its place inside a character, and a value that it takes there is
no text.  It does not where only ASCII characters stand in front of a name in its segment, and the
path has no other character with a form among them: then the label in front of the name is met by
ASCII characters of the path, back to a slash, and a value starts where a character does.
-/

import RadixRouter.Proofs.AsciiCase
import RadixRouter.Proofs.TextSpans

namespace RadixRouter

open Pattern (untilSlash_append_fromSlash)
open SimpleCase (lower upper sameFold eq_slash_of_lower)
open Utf8 (charsLossy encodeChar encodeChars replacement Whole whole_nil)

variable {α : Type}

/-- What looks like ASCII bytes is text. -/
theorem whole_of_sameFold {piece label : List UInt8} (ascii : AsciiBytes label)
    (alike : sameFold piece label = true) : Whole piece := by
  have textual : Utf8.Textual label :=
    ⟨_, replacement_not_mem_letters ascii, (encodeChars_letters ascii).symm⟩
  obtain ⟨chars, -, hpiece, -, -⟩ := texts_of_sameFold alike (Or.inr textual)
  exact ⟨chars, hpiece⟩

/-- What looks like bytes that end in a slash and ASCII bytes is text from a slash on. -/
theorem exists_slash_of_sameFold {piece label tail : List UInt8} (ascii : AsciiBytes tail)
    (alike : sameFold piece (label ++ slash :: tail) = true) :
    ∃ before after, piece = before ++ slash :: after ∧ Whole after := by
  have read : charsLossy (label ++ slash :: tail) =
      charsLossy label ++ (slash :: tail).map letter := by
    have ascii' : AsciiBytes (slash :: tail) := List.forall_mem_cons.mpr ⟨by decide, ascii⟩
    rw [← charsLossy_ascii ascii', charsLossy, Utf8.scan_append_start (by decide), List.map_append]
    rfl
  rw [sameFold, decide_eq_true_eq, read, List.map_append] at alike
  obtain ⟨chars, rest, hchars, -, hrest⟩ := List.map_eq_append_iff.mp alike
  obtain ⟨d, after, rfl, hd, hafter⟩ := List.map_eq_cons_iff.mp hrest
  obtain rfl := eq_slash_of_lower (hd.trans (by decide +kernel))
  obtain ⟨pieces, last, hscan, -, hlast⟩ := List.map_eq_append_iff.mp hchars
  have same : (tail.map letter).map lower = after.map lower := hafter.symm
  have whole : replacement ∉ last.map (·.getD replacement) := by
    rw [hlast]
    intro h
    rcases List.mem_cons.mp h with h | h
    · revert h
      decide
    · exact replacement_not_mem same (replacement_not_mem_letters ascii) h
  rw [Utf8.eq_map_some_of_whole whole, hlast] at hscan
  obtain ⟨before, rfl⟩ := Utf8.exists_of_scan_append hscan
  exact ⟨before, encodeChars after, rfl, after, rfl⟩

/-- A character beyond ASCII has no form in ASCII. -/
def AsciiFromAscii (c : Char) : Prop :=
  (lower c).toNat < 0x80 ∨ (upper c).toNat < 0x80 → c.toNat < 0x80

instance (c : Char) : Decidable (AsciiFromAscii c) := inferInstanceAs (Decidable (_ → _))

/-- A byte that may stand in front of a name, where the path has these characters. -/
def MayLead (chars : List Char) (b : UInt8) : Prop :=
  b.toNat < 0x80 ∧ ∀ c ∈ chars, AsciiFromAscii c

instance (chars : List Char) (b : UInt8) : Decidable (MayLead chars b) :=
  letI : Decidable (∀ c ∈ chars, AsciiFromAscii c) := List.decidableBAll _ _
  inferInstanceAs (Decidable (_ ∧ _))

/-- The bytes of a segment up to here, last first. -/
def sinceSlash (front : List UInt8) : List UInt8 := untilSlash front.reverse

/-- Whether a name may follow: what stands in front of it in the segment may do so. -/
def StartsName (chars : List Char) (front : List UInt8) : Prop :=
  ∀ b ∈ sinceSlash front, MayLead chars b

instance (chars : List Char) (front : List UInt8) : Decidable (StartsName chars front) :=
  List.decidableBAll _ _

/-- Text in which every colon stands where a name may. -/
structure Segmented (chars : List Char) (bytes : List UInt8) : Prop where
  whole : Whole bytes
  named : ∀ before after, bytes = before ++ colon :: after → StartsName chars before

section Segments

variable {chars : List Char} {front back : List UInt8}

theorem sinceSlash_append_slash (before rest : List UInt8) :
    sinceSlash (before ++ slash :: rest) = sinceSlash rest := by
  have cut (first second : List UInt8) :
      untilSlash (first ++ slash :: second) = untilSlash first := by
    induction first with
    | nil => simp [untilSlash]
    | cons b first ih =>
        by_cases h : b = slash
        · simp [untilSlash, h]
        · simpa [untilSlash, h] using ih
  rw [sinceSlash, List.reverse_append, List.reverse_cons, List.append_assoc, List.singleton_append,
    cut]
  rfl

theorem sinceSlash_append {label : List UInt8} (free : slash ∉ label) (front : List UInt8) :
    sinceSlash (front ++ label) = label.reverse ++ sinceSlash front := by
  rw [sinceSlash, List.reverse_append]
  refine List.takeWhile_append_of_pos fun b hb => decide_eq_true ?_
  rintro rfl
  exact free (List.mem_reverse.mp hb)

theorem sinceSlash_of_free {last : List UInt8} (free : slash ∉ last) :
    sinceSlash last = last.reverse := by
  have h := sinceSlash_append free []
  rwa [List.nil_append, show sinceSlash [] = [] from rfl, List.append_nil] at h

/-- A label with a slash is cut at the last one. -/
theorem exists_last_slash {label : List UInt8} (inside : slash ∈ label) :
    ∃ before last, label = before ++ slash :: last ∧ slash ∉ last := by
  obtain ⟨last, before, hlabel, free⟩ :=
    List.eq_append_cons_of_mem (List.mem_reverse.mpr inside)
  refine ⟨before.reverse, last.reverse, ?_, fun h => free (List.mem_reverse.mp h)⟩
  rw [← List.reverse_reverse label, hlabel]
  simp

/-- What follows a slash may be read alone. -/
theorem Segmented.alone (segmented : Segmented chars (front ++ slash :: back)) :
    Segmented chars (slash :: back) where
  whole := (segmented.whole.cut (by decide)).2
  named := by
    intro before after same
    have started : StartsName chars (front ++ before) := by
      refine segmented.named (front ++ before) after ?_
      rw [same, List.append_assoc]
    cases before with
    | nil => cases (List.cons.inj same).1
    | cons b before =>
        obtain ⟨rfl, -⟩ := List.cons.inj same
        rw [StartsName, sinceSlash_append_slash] at started
        rw [StartsName, ← List.nil_append (slash :: before), sinceSlash_append_slash]
        exact started

/-- A name stands after whole characters. -/
theorem Segmented.before_name (segmented : Segmented chars (front ++ colon :: back)) :
    StartsName chars front ∧ Whole front :=
  ⟨segmented.named front back rfl, (segmented.whole.cut (by decide)).1⟩

/-- Up to a slash a piece of text is text. -/
theorem whole_past_slash {after rest : List UInt8}
    (piece : front ++ slash :: (after ++ rest) = encodeChars chars) (whole : Whole after) :
    Whole (front ++ slash :: after) := by
  have text : Whole (front ++ slash :: (after ++ rest)) := ⟨chars, piece⟩
  exact (text.cut (by decide)).1.append (Whole.append ⟨['/'], rfl⟩ whole)

end Segments

/-- A label after which a name may follow is met by text of the path, up to where it ends. -/
theorem whole_of_matchesLoosely {label front before path : List UInt8} {index : UInt8}
    {chars : List Char} (first : label.head? = some index)
    (matched : matchesLoosely label path = true) (piece : before ++ path = encodeChars chars)
    (slashed : index = slash → path.head? = some slash)
    (low : MayLead chars index → Whole before → ∃ b ∈ path.head?, b.toNat < 0x80)
    (starts : StartsName chars front → Whole before) (named : StartsName chars (front ++ label)) :
    Whole (before ++ path.take label.length) := by
  obtain ⟨tail, rfl⟩ := List.head?_eq_some_iff.mp first
  rw [matchesLoosely, Bool.and_eq_true, decide_eq_true_eq, List.tail_cons] at matched
  obtain ⟨long, alike⟩ := matched
  obtain ⟨b, path, rfl⟩ : ∃ b rest, path = b :: rest :=
    List.exists_cons_of_length_pos (Nat.lt_of_lt_of_le (Nat.succ_pos _) long)
  rw [List.length_cons, List.take_succ_cons, List.tail_cons] at alike
  rw [List.length_cons, List.take_succ_cons]
  rw [← List.take_append_drop tail.length path] at piece
  generalize path.take tail.length = met at alike piece
  generalize path.drop tail.length = rest at piece
  by_cases inside : slash ∈ index :: tail
  · -- the last slash of the label is met by one of the path, and so is what follows it
    obtain ⟨label, last, hlabel, free⟩ := exists_last_slash inside
    rw [hlabel, ← List.append_assoc, StartsName, sinceSlash_append_slash,
      sinceSlash_of_free free] at named
    have ascii : AsciiBytes last := fun b hb => (named b (List.mem_reverse.mpr hb)).1
    cases label with
    | nil =>
        obtain ⟨rfl, rfl⟩ := List.cons.inj hlabel
        obtain rfl : b = slash := Option.some.inj (slashed rfl)
        exact whole_past_slash piece (whole_of_sameFold ascii alike)
    | cons b' label =>
        obtain ⟨rfl, rfl⟩ := List.cons.inj hlabel
        obtain ⟨met, after, rfl, hafter⟩ := exists_slash_of_sameFold ascii alike
        have hpiece : (before ++ b :: met) ++ slash :: (after ++ rest) = encodeChars chars := by
          rw [← piece]
          simp only [List.append_assoc, List.cons_append]
        have h := whole_past_slash hpiece hafter
        rwa [List.append_assoc] at h
  · rw [StartsName, sinceSlash_append inside] at named
    have lead (b : UInt8) (hb : b ∈ index :: tail) : MayLead chars b :=
      named b (List.mem_append_left _ (List.mem_reverse.mpr hb))
    have hbefore := starts fun b hb => named b (List.mem_append_right _ hb)
    obtain ⟨b', hb', hlow⟩ := low (lead index (List.mem_cons_self ..)) hbefore
    obtain rfl := Option.some.inj hb'
    have hmet := whole_of_sameFold (fun b hb => (lead b (List.mem_cons_of_mem _ hb)).1) alike
    have one : Whole [b] :=
      ⟨[letter b], (encodeChars_letters (List.forall_mem_singleton.mpr hlow)).symm⟩
    exact hbefore.append (one.append hmet)

/-- What is carried along is the rest of a character. -/
def RestOfChar (carry : List UInt8) : Prop := ∃ c back, carry = (encodeChar c).drop back

theorem restOfChar_nil : RestOfChar [] := ⟨'/', 1, rfl⟩

theorem RestOfChar.drop {carry : List UInt8} (rest : RestOfChar carry) (n : Nat) :
    RestOfChar (carry.drop n) := by
  obtain ⟨c, back, rfl⟩ := rest
  exact ⟨c, back + n, List.drop_drop⟩

theorem RestOfChar.on {path carry carried : List UInt8} {n : Nat} (rest : RestOfChar carry)
    (on : CarriesOn path n carry carried) : RestOfChar carried := by
  rcases on with ⟨-, rfl⟩ | ⟨-, c, back, -, rfl | rfl⟩
  · exact rest.drop n
  · exact ⟨lower c, back, rfl⟩
  · exact ⟨upper c, back, rfl⟩

/-- A character that starts with an ASCII byte is ASCII. -/
theorem ascii_of_carriedByte {c : Char} (low : (carriedByte (encodeChar c)).toNat < 0x80) :
    c.toNat < 0x80 := by
  obtain ⟨b, rest, hc, -⟩ := Utf8.encodeChar_eq_cons c
  rw [hc] at low
  have inside : b ∈ encodeChar c := hc ▸ List.mem_cons_self ..
  rw [Utf8.eq_of_ascii_mem_encodeChar low inside]
  exact letter_ascii low

/-- Where a character starts, a byte that may stand in front of a name is one that an ASCII
character leads to. -/
theorem CarriesOn.low {before path carry carried : List UInt8} {chars : List Char} {n : Nat}
    (on : CarriesOn path n carry carried) (rest : RestOfChar carry) (pos : n ≠ 0)
    (goesOn : path.drop n ≠ []) (piece : before ++ path = encodeChars chars)
    (lead : MayLead chars (carriedByte carried)) (whole : Whole (before ++ path.take n)) :
    ∃ b ∈ (path.drop n).head?, b.toNat < 0x80 := by
  obtain ⟨low, plain⟩ := lead
  rcases on with ⟨going, rfl⟩ | ⟨-, c, back, found, forms⟩
  · -- inside a character no byte is ASCII
    obtain ⟨c, back, rfl⟩ := rest
    rw [List.drop_drop] at low going
    cases hrest : (encodeChar c).drop (back + n) with
    | nil =>
        rw [hrest] at going
        exact absurd rfl going
    | cons b rest =>
        rw [hrest] at low
        have continues := Utf8.isContinuation_of_drop (by omega) hrest.symm
        exact absurd low (Nat.not_lt.mpr (Utf8.toNat_of_isContinuation continues).1)
  · obtain ⟨front, hfront⟩ := whole
    have hpiece := piece_take piece n
    rw [hfront] at hpiece
    obtain ⟨after, rfl, hafter⟩ := Utf8.encodeChars_append_eq hpiece
    obtain ⟨d, after, rfl⟩ : ∃ d rest, after = d :: rest := by
      refine List.exists_cons_of_ne_nil ?_
      rintro rfl
      exact goesOn hafter
    rw [Utf8.encodeChars_cons] at hafter
    rw [characterAt_start hafter] at found
    cases found
    have ascii : c.toNat < 0x80 := by
      refine plain c (List.mem_append_right _ (List.mem_cons_self ..)) ?_
      rcases forms with rfl | rfl
      · exact Or.inl (ascii_of_carriedByte low)
      · exact Or.inr (ascii_of_carriedByte low)
    obtain ⟨b, hchar, rfl⟩ := exists_letter ascii
    rw [hafter, hchar]
    exact ⟨b, rfl, ascii_of_letter ascii⟩

/-- A value that starts where a character does is text. -/
theorem Utf8.Whole.untilSlash {front back : List UInt8} {chars : List Char}
    (piece : front ++ back = encodeChars chars) (whole : Whole front) :
    Whole (untilSlash back) := by
  obtain ⟨before, rfl⟩ := whole
  obtain ⟨after, -, rfl⟩ := Utf8.encodeChars_append_eq piece
  exact ⟨_, Utf8.untilSlash_encodeChars after⟩

/-- From a piece of text a node makes text, after what stands in front.  Where a name may follow in
the tree, whole characters lie behind. -/
def Node.SpeaksText (fix : Bool) (node : Node α) : Prop :=
  ∀ (index : UInt8) (front before path carry : List UInt8) (chars : List Char) (ends : Bool)
      (spelling : List UInt8),
    node.Sound index → Reads (Segmented chars) front node.listing →
      before ++ path = encodeChars chars → (StartsName chars front → Whole before) →
        RestOfChar carry → Carries carry path → (index = slash → path.head? = some slash) →
          (MayLead chars index → Whole before → ∃ b ∈ path.head?, b.toNat < 0x80) →
            (ends = true → Whole front) → node.respell fix path carry ends = some spelling →
              Whole (front ++ spelling)

/-- The same of what follows a label of `n` bytes, at least one. -/
def Below.SpeaksText (fix : Bool) (below : Below α) : Prop :=
  ∀ (n : Nat) (front before path carry : List UInt8) (chars : List Char) (ends : Bool)
      (spelling : List UInt8),
    below.Sound → n ≠ 0 → Reads (Segmented chars) front below.listing →
      before ++ path = encodeChars chars → (StartsName chars front → Whole (before ++ path.take n)) →
        RestOfChar carry → Carries (carry.drop n) (path.drop n) → (ends = true → Whole front) →
          below.respell fix path n carry ends = some spelling → Whole (front ++ spelling)

/-- Where a catch-all starts, what the path goes on with is put together to text. -/
theorem whole_of_catchAll {front before tail name : List UInt8} {chars : List Char} {handler : α}
    (reads : Reads (Segmented chars) front [([.byte slash, .catchAll name], handler)])
    (piece : before ++ slash :: tail = encodeChars chars) : Whole (front ++ slash :: tail) := by
  have route : Whole (front ++ slash :: Pattern.bytes [.catchAll name]) :=
    (reads _ (List.mem_singleton.mpr rfl)).whole
  have text : Whole (before ++ slash :: tail) := ⟨chars, piece⟩
  exact (route.cut (by decide)).1.append (text.cut (by decide)).2

theorem speaksText_static {fix : Bool} {below : Below α} (ih : below.SpeaksText fix)
    (label : List UInt8) (priority : Nat) (existing : Option α) :
    (Node.static label priority existing below).SpeaksText fix := by
  intro index front before path carry chars ends spelling sound reads piece starts rest carries
    slashed low whole respelled
  obtain ⟨hbelow, -, hlabel | ⟨rfl, rfl, rfl, name, hits, priority', existing', rfl⟩⟩ := sound
  · have pos : label.length ≠ 0 := by
      intro h
      rw [List.eq_nil_of_length_eq_zero h] at hlabel
      cases hlabel
    obtain ⟨hreads, hexisting⟩ := reads.below
    rw [Node.respell] at respelled
    split at respelled
    · next matched =>
        obtain ⟨tail, htail, rfl⟩ := Option.map_eq_some_iff.mp respelled
        have hstarts := whole_of_matchesLoosely hlabel matched piece slashed low starts
        rw [← List.append_assoc]
        exact ih label.length (front ++ label) before path carry chars _ tail hbelow pos hreads
          piece hstarts rest (carries.drop pos) (fun h => (hexisting h).whole) htail
    · split at respelled
      · split at respelled
        · next hends =>
            rw [← Option.some.inj respelled, List.append_nil]
            exact whole hends
        · cases respelled
      · split at respelled
        · next h =>
            simp only [Bool.and_eq_true] at h
            rw [← Option.some.inj respelled]
            exact (hexisting h.1.2).whole
        · cases respelled
  · -- the empty node in front of a catch-all takes the path as it is
    obtain ⟨tail, rfl⟩ := List.head?_eq_some_iff.mp (slashed rfl)
    rw [eq_of_respell_doorway (List.cons_ne_nil _ _) respelled]
    exact whole_of_catchAll reads piece

theorem speaksText_catchAll (fix : Bool) (name : List UInt8) (hits : CounterId) (priority : Nat)
    (existing : α) : (Node.catchAll name hits priority existing).SpeaksText fix := by
  intro index front before path carry chars ends spelling sound reads piece starts rest carries
    slashed low whole respelled
  rw [Node.Sound] at sound
  rw [Node.respell] at respelled
  obtain ⟨tail, rfl⟩ := List.head?_eq_some_iff.mp (slashed sound)
  rw [← Option.some.inj respelled]
  exact whole_of_catchAll reads piece

/-- A slash that is offered below a label is one that a route goes on with. -/
theorem whole_of_offered {es : List (Edge α)} (sound : (Below.edges es).Sound)
    {front : List UInt8} {chars : List Char}
    (reads : Reads (Segmented chars) front (Below.edges es).listing)
    (offers : (Below.edges es).offersSlash = true) : Whole (front ++ [slash]) := by
  obtain ⟨handler, captures, route, hroute, fits⟩ := takes_of_offered sound offers
  obtain ⟨edge, hedge, rest, rfl⟩ := sound.head_listing_edges hroute
  have h : Whole (front ++ edge.1 :: Pattern.bytes rest) := (reads _ hroute).whole
  rw [← Option.some.inj fits.head_path] at h
  exact (h.cut (by decide)).1.append ⟨['/'], rfl⟩

theorem speaksText_edges {fix : Bool} {es : List (Edge α)}
    (ih : ∀ edge ∈ es, edge.2.SpeaksText fix) : (Below.edges es).SpeaksText fix := by
  intro n front before path carry chars ends spelling sound pos reads piece starts rest carries
    whole respelled
  have ended (h : ends = true ∧ spelling = []) : Whole (front ++ spelling) := by
    rw [h.2, List.append_nil]
    exact whole h.1
  by_cases hrest : path.drop n = []
  · rcases respell_end_eq_some hrest respelled with h | ⟨-, hoffers, rfl⟩
    · exact ended h
    · exact whole_of_offered sound reads hoffers
  · rcases respell_edges_eq_some hrest respelled with ⟨carried, hon, hfollowed⟩ | ⟨-, h⟩
    · obtain ⟨edge, hedge, hindex, hnode⟩ := respellEdges_eq_some hfollowed
      have hcarries := carries.on hon
      exact ih edge hedge edge.1 front (before ++ path.take n) (path.drop n) carried chars ends
        spelling ((Below.sound_edges_iff.mp sound).2 edge hedge)
        (reads.mono (listing_subset_edges hedge)) (piece_take piece n) starts (rest.on hon) hcarries
        (fun h => hcarries.reached (hindex.symm.trans h))
        (fun lead => hon.low rest pos hrest piece (hindex ▸ lead)) whole hnode
    · exact ended h

theorem speaksText_param {fix : Bool} {next : Option (Node α)}
    (ih : ∀ node, next = some node → node.SpeaksText fix) (name : List UInt8)
    (hits : CounterId) (priority : Nat) (existing : Option α) :
    (Below.param name hits priority existing next).SpeaksText fix := by
  intro n front before path carry chars ends spelling sound pos reads piece starts rest carries
    whole respelled
  by_cases hrest : path.drop n = []
  · rcases respell_end_eq_some hrest respelled with ⟨hends, rfl⟩ | ⟨-, hoffers, -⟩
    · rw [List.append_nil]
      exact whole hends
    · cases hoffers
  · obtain ⟨-, tail, rfl, trails⟩ := respell_param_eq_some hrest respelled
    -- a route goes on with the name, so one may follow here
    have filled : (Below.param name hits priority existing next).listing ≠ [] :=
      listing_ne_nil.2 _ sound (param_ne_edges [])
    obtain ⟨⟨route, handler⟩, hroute⟩ := List.exists_mem_of_ne_nil _ filled
    obtain ⟨tokens, rfl⟩ := head_listing_param hroute
    have hroute : Segmented chars (front ++ colon :: (name ++ Pattern.bytes tokens)) :=
      reads _ hroute
    obtain ⟨named, hfront⟩ := hroute.before_name
    have hbefore := starts named
    have value := hbefore.untilSlash (piece_take piece n)
    rw [← List.append_assoc]
    refine (hfront.append value).append ?_
    have parts := untilSlash_append_fromSlash (path.drop n)
    generalize fromSlash (path.drop n) = after at trails parts
    cases trails with
    | ends => exact whole_nil
    | slashed => exact ⟨['/'], rfl⟩
    | unslashed => exact whole_nil
    | @next node after tail goesOn htail =>
        subst goesOn
        refine ih node rfl slash [] (before ++ path.take n ++ untilSlash (path.drop n))
          (slash :: after) [] chars _ tail sound.2 (reads.next sound.2 fun _ _ h => h.alone) ?_
          (fun _ => hbefore.append value) restOfChar_nil (carries_nil _) (fun _ => rfl)
          (fun _ _ => ⟨slash, rfl, by decide⟩) (fun _ => whole_nil) htail
        rw [List.append_assoc, parts, piece_take piece n]

/-- Where only ASCII characters stand in front of the names of the routes in their segments, and no
other character of the path has a form among them, what the walk puts together is text. -/
theorem speaks_text (fix : Bool) :
    (∀ node : Node α, node.SpeaksText fix) ∧ ∀ below : Below α, below.SpeaksText fix := by
  refine tree_induction ?static ?catchAll ?edges ?param
  case static =>
    intro label priority existing below ih
    exact speaksText_static ih label priority existing
  case catchAll => exact speaksText_catchAll fix
  case edges =>
    intro es ih
    exact speaksText_edges ih
  case param =>
    intro name hits priority existing next ih
    exact speaksText_param ih name hits priority existing

end RadixRouter

/-
# What the corrector does to characters

The walk that corrects letter case compares bytes, so it may lose its place inside a character.
On an ASCII path it cannot, and in a plain tree it finds no way on where it does: there every
label is text and every edge is an ASCII byte, so the character of an edge is compared by its
mapping, the rest of a label character by character, and what goes on inside a character does
not decode.
-/

import Mathlib.Data.List.Forall2
import RadixRouter.Proofs.PlainPartings
import RadixRouter.Proofs.Respelling

namespace RadixRouter

open SimpleCase (lower upper sameFold eq_replacement_of_lower lower_of_ascii_form
  upper_of_ascii_form ascii_forms)
open Utf8 (Textual Broken encodeChar encodeChars replacement isContinuation)

variable {α : Type}

namespace SimpleCase

/-- Two characters are equal, or have equal lowercase or equal uppercase forms. -/
def Variant (c d : Char) : Prop := c = d ∨ lower c = lower d ∨ upper c = upper d

instance (c d : Char) : Decidable (Variant c d) :=
  inferInstanceAs (Decidable (_ ∨ _ ∨ _))

theorem Variant.refl (c : Char) : Variant c c := Or.inl rfl

theorem variants_refl (chars : List Char) : List.Forall₂ Variant chars chars :=
  List.forall₂_same.mpr fun c _ => Variant.refl c

end SimpleCase

open SimpleCase (Variant variants_refl)

/-- Nothing looks like U+FFFD but itself. -/
theorem replacement_not_mem {chars chars' : List Char} (same : chars.map lower = chars'.map lower)
    (whole : replacement ∉ chars) : replacement ∉ chars' := by
  intro h
  have hmem : lower replacement ∈ chars.map lower := by
    rw [same]
    exact List.mem_map_of_mem h
  obtain ⟨c, hc, hlower⟩ := List.mem_map.mp hmem
  rw [eq_replacement_of_lower (hlower.trans (by decide +kernel))] at hc
  exact whole hc

/-- Two byte strings that look alike, one of them text, are texts of variants. -/
theorem texts_of_sameFold {first second : List UInt8} (alike : sameFold first second = true)
    (textual : Textual first ∨ Textual second) :
    ∃ chars chars', first = encodeChars chars ∧ second = encodeChars chars' ∧
      List.Forall₂ Variant chars chars' := by
  have same : (Utf8.charsLossy first).map lower = (Utf8.charsLossy second).map lower := by
    simpa [sameFold] using alike
  have variants : List.Forall₂ Variant (Utf8.charsLossy first) (Utf8.charsLossy second) := by
    have hforms := List.forall₂_eq_eq_eq ▸ same
    rw [List.forall₂_map_left_iff, List.forall₂_map_right_iff] at hforms
    exact hforms.imp fun _ _ h => Or.inr (Or.inl h)
  have hwhole {bytes : List UInt8} : Textual bytes → replacement ∉ Utf8.charsLossy bytes := by
    rintro ⟨chars, hchars, rfl⟩
    simpa [Utf8.charsLossy, Utf8.scan_encodeChars, Function.comp_def] using hchars
  have both : replacement ∉ Utf8.charsLossy first ∧ replacement ∉ Utf8.charsLossy second := by
    rcases textual with h | h
    · exact ⟨hwhole h, replacement_not_mem same (hwhole h)⟩
    · exact ⟨replacement_not_mem same.symm (hwhole h), hwhole h⟩
  exact ⟨_, _, Utf8.eq_encodeChars_of_charsLossy both.1,
    Utf8.eq_encodeChars_of_charsLossy both.2, variants⟩

/-- A spelling has the characters of a path up to case, or with `fix` those of the path with one
slash more or less at its end. -/
def Respelled (fix : Bool) (path spelling : List Char) : Prop :=
  List.Forall₂ Variant path spelling ∨
    fix = true ∧ (List.Forall₂ Variant (path ++ ['/']) spelling ∨
      ∃ shorter, path = shorter ++ ['/'] ∧ List.Forall₂ Variant shorter spelling)

theorem Respelled.append {fix : Bool} {front front' path spelling : List Char}
    (respelled : Respelled fix path spelling) (variants : List.Forall₂ Variant front front') :
    Respelled fix (front ++ path) (front' ++ spelling) := by
  rcases respelled with h | ⟨hfix, h | ⟨shorter, rfl, h⟩⟩
  · exact Or.inl (List.rel_append variants h)
  · refine Or.inr ⟨hfix, Or.inl ?_⟩
    rw [List.append_assoc]
    exact List.rel_append variants h
  · exact Or.inr ⟨hfix, Or.inr ⟨front ++ shorter, (List.append_assoc ..).symm,
      List.rel_append variants h⟩⟩

/-- Bytes that spell a path up to case, or do not decode. -/
def Restores (fix : Bool) (path : List Char) (bytes : List UInt8) : Prop :=
  Broken bytes ∨ ∃ spelling, bytes = encodeChars spelling ∧ Respelled fix path spelling

theorem Restores.append {fix : Bool} {front front' path : List Char} {bytes : List UInt8}
    (restores : Restores fix path bytes) (variants : List.Forall₂ Variant front front') :
    Restores fix (front ++ path) (encodeChars front' ++ bytes) := by
  rcases restores with h | ⟨spelling, rfl, h⟩
  · exact Or.inl (h.append front')
  · exact Or.inr ⟨front' ++ spelling, (Utf8.encodeChars_append ..).symm, h.append variants⟩

theorem restores_self (fix : Bool) (path : List Char) : Restores fix path (encodeChars path) :=
  Or.inr ⟨path, rfl, Or.inl (variants_refl path)⟩

theorem restores_unslashed (path : List Char) :
    Restores true (path ++ ['/']) (encodeChars path) :=
  Or.inr ⟨path, rfl, Or.inr ⟨rfl, Or.inr ⟨path, rfl, variants_refl path⟩⟩⟩

theorem restores_slashed (path : List Char) :
    Restores true path (encodeChars path ++ [slash]) :=
  Or.inr ⟨path ++ ['/'], by simp [Utf8.encodeChar_slash],
    Or.inr ⟨rfl, Or.inl (variants_refl _)⟩⟩

/-- Where a character starts, it is found there. -/
theorem characterAt_start {path : List UInt8} {n : Nat} {c : Char} {rest : List UInt8}
    (starts : path.drop n = encodeChar c ++ rest) : characterAt path n = some (c, 0) := by
  obtain ⟨b, tail, hc, hstart, -⟩ := Utf8.encodeChar_eq_cons c
  have hfirst := Utf8.firstChar_encodeChar c rest
  rw [hc, List.cons_append] at hfirst starts
  rw [characterAt, List.range_succ_eq_map, List.findSome?_cons, Nat.sub_zero, starts]
  simp [hstart, hfirst]

/-- Inside a character, the one found has started before. -/
theorem back_ne_zero {path : List UInt8} {n back : Nat} {b : UInt8} {rest : List UInt8} {c : Char}
    (inside : path.drop n = b :: rest) (continues : isContinuation b = true)
    (found : characterAt path n = some (c, back)) : back ≠ 0 := by
  rintro rfl
  obtain ⟨k, -, hfound⟩ := List.exists_of_findSome?_eq_some found
  split at hfound
  · next b' rest' hdrop =>
      split at hfound
      · next hstart =>
          obtain rfl : k = 0 := (Prod.mk.inj (Option.some.inj hfound)).2
          rw [Nat.sub_zero, inside] at hdrop
          rw [← (List.cons.inj hdrop).1, Utf8.isStart, continues] at hstart
          cases hstart
      · cases hfound
  · cases hfound

/-- What is carried into a character finds no plain edge. -/
theorem not_plain_carried {c : Char} {back : Nat} (pos : back ≠ 0) :
    (Token.byte (carriedByte ((encodeChar c).drop back))).plain = false := by
  obtain ⟨b, rest, hc, -, hrest⟩ := Utf8.encodeChar_eq_cons c
  obtain ⟨back, rfl⟩ := Nat.exists_eq_succ_of_ne_zero pos
  rw [hc, List.drop_succ_cons]
  cases hdrop : rest.drop back with
  | nil => rfl
  | cons b' rest' =>
      have hb' := hrest b' (List.mem_of_mem_drop (by rw [hdrop]; exact List.mem_cons_self ..))
      have hlow := (Utf8.toNat_of_isContinuation hb').1
      by_contra plain
      rw [Bool.not_eq_false] at plain
      have hhigh : b'.toNat < 0x80 := (toNat_of_plain plain).2
      omega

/-- Inside a character a plain tree leads nowhere, except into a value. -/
theorem broken_of_inside {fix : Bool} {below : Below α} (plain : below.Plain)
    {path carry spelling : List UInt8} {n : Nat} {ends : Bool} {b : UInt8} {rest : List UInt8}
    (inside : path.drop n = b :: rest) (continues : isContinuation b = true)
    (spent : carry.drop n = [])
    (respelled : below.respell fix path n carry ends = some spelling) : Broken spelling := by
  have hslash : b ≠ slash := by
    rintro rfl
    cases continues
  have goesOn : path.drop n ≠ [] := by
    rw [inside]
    exact List.cons_ne_nil _ _
  cases below with
  | edges es =>
      -- every way on is a byte inside a character, and no edge has one
      rcases respell_edges_eq_some goesOn respelled with ⟨carried, hon, hfollowed⟩ | ⟨⟨-, h⟩, -⟩
      · obtain ⟨edge, hedge, hindex, -⟩ := respellEdges_eq_some hfollowed
        have hplain := (plainEdges_iff.mp plain edge hedge).1
        rw [hindex] at hplain
        rcases hon with ⟨hcarry, -⟩ | ⟨-, c, back, hfound, rfl | rfl⟩
        · rw [spent] at hcarry
          exact absurd rfl hcarry
        · rw [not_plain_carried (back_ne_zero inside continues hfound)] at hplain
          cases hplain
        · rw [not_plain_carried (back_ne_zero inside continues hfound)] at hplain
          cases hplain
      · rw [inside] at h
        exact absurd (List.cons.inj h).1 hslash
  | param name hits priority existing next =>
      obtain ⟨-, tail, htail, -⟩ := respell_param_eq_some goesOn respelled
      have hvalue : untilSlash (b :: rest) = b :: untilSlash rest :=
        List.takeWhile_cons_of_pos (by simpa using hslash)
      rw [inside, hvalue] at htail
      exact ⟨[], b, untilSlash rest ++ tail, htail, continues⟩

/-- Whether all characters are ASCII. -/
def Ascii (chars : List Char) : Prop := ∀ c ∈ chars, c.toNat < 0x80

theorem Ascii.textual {chars : List Char} (ascii : Ascii chars) : Textual (encodeChars chars) := by
  refine ⟨chars, fun h => ?_, rfl⟩
  have hlow := ascii _ h
  revert hlow
  decide

/-- An ASCII path may be cut anywhere. -/
theorem Ascii.take_encodeChars {path : List Char} (ascii : Ascii path) (n : Nat) :
    (encodeChars path).take n = encodeChars (path.take n) := by
  induction path generalizing n with
  | nil => simp
  | cons c path ih =>
      cases n with
      | zero => rfl
      | succ n =>
          rw [Utf8.encodeChars_cons, Utf8.encodeChar_of_ascii (ascii c (List.mem_cons_self ..)),
            List.singleton_append, List.take_succ_cons, List.take_succ_cons, Utf8.encodeChars_cons,
            Utf8.encodeChar_of_ascii (ascii c (List.mem_cons_self ..)),
            ih fun d h => ascii d (List.mem_cons_of_mem _ h)]
          rfl

/-- The byte is an ASCII form of the character. -/
def Leads (index : UInt8) (c : Char) : Prop :=
  index.toNat < 0x80 ∧ (lower c = Char.ofNat index.toNat ∨ upper c = Char.ofNat index.toNat)

theorem Leads.variant {index : UInt8} {c : Char} (leads : Leads index c) :
    Variant c (Char.ofNat index.toNat) := by
  obtain ⟨hindex, hform⟩ := leads
  have ascii : (Char.ofNat index.toNat).toNat < 0x80 := by
    rwa [show (Char.ofNat index.toNat).toNat = index.toNat from
      Utf8.val_ofNat (Or.inl (by omega))]
  rcases hform with h | h
  · exact Or.inr (Or.inl (h.trans (lower_of_ascii_form ascii h).symm))
  · exact Or.inr (Or.inr (h.trans (upper_of_ascii_form ascii h).symm))

theorem leads_slash : Leads slash '/' := ⟨by decide, Or.inl (by decide +kernel)⟩

/-- The bytes of the forms of an ASCII character are ASCII bytes. -/
theorem ascii_of_form {index : UInt8} {c form : Char} (mapped : form = lower c ∨ form = upper c)
    (hindex : index = carriedByte (encodeChar form)) (ascii : c.toNat < 0x80) :
    index.toNat < 0x80 := by
  have hform : form.toNat < 0x80 := by
    rcases mapped with rfl | rfl
    · exact (ascii_forms ascii).1
    · exact (ascii_forms ascii).2
  rw [Utf8.encodeChar_of_ascii hform] at hindex
  obtain rfl : index = UInt8.ofNat form.toNat := hindex
  rwa [UInt8.toNat_ofNat_of_lt' (show form.toNat < 256 by omega)]

/-- A form of a character that is an ASCII byte leads to it, and nothing is carried beyond. -/
theorem leads_of_form {index : UInt8} {c form : Char} (mapped : form = lower c ∨ form = upper c)
    (hindex : index = carriedByte (encodeChar form)) (ascii : index.toNat < 0x80) :
    Leads index c ∧ (encodeChar form).tail = [] := by
  have inside : index ∈ encodeChar form := by
    obtain ⟨b, rest, hform, -, -⟩ := Utf8.encodeChar_eq_cons form
    rw [hform] at hindex ⊢
    rw [hindex]
    exact List.mem_cons_self ..
  have hform := Utf8.eq_of_ascii_mem_encodeChar ascii inside
  refine ⟨⟨ascii, ?_⟩, by rw [Utf8.encodeChar_of_ascii_mem ascii inside, List.tail_cons]⟩
  exact mapped.imp (fun h => h.symm.trans hform) fun h => h.symm.trans hform

/-- A node that a form of the next character leads to restores the case of an ASCII path, and of
every path if it is plain. -/
def Node.RestoresCase (fix : Bool) (node : Node α) : Prop :=
  ∀ (index : UInt8) (c : Char) (path : List Char) (carry : List UInt8) (ends : Bool)
      (spelling : List UInt8),
    node.Sound index → Leads index c → carry.tail = [] → (Ascii (c :: path) ∨ node.Plain) →
      node.respell fix (encodeChars (c :: path)) carry ends = some spelling →
        Restores fix (c :: path) spelling

/-- The same after a label that ends with a character. -/
def Below.RestoresCase (fix : Bool) (below : Below α) : Prop :=
  ∀ (path : List UInt8) (n : Nat) (rest : List Char) (carry : List UInt8) (ends : Bool)
      (spelling : List UInt8),
    below.Sound → (Ascii rest ∨ below.Plain) → path.drop n = encodeChars rest →
      carry.drop n = [] → below.respell fix path n carry ends = some spelling →
        Restores fix rest spelling

section Label

variable {c : Char} {path : List Char} {b : UInt8} {inner : List UInt8}

theorem Ascii.inner_eq_nil (ascii : Ascii (c :: path)) (char : encodeChar c = b :: inner) :
    inner = [] := by
  rw [Utf8.encodeChar_of_ascii (ascii c (List.mem_cons_self ..))] at char
  exact (List.cons.inj char).2.symm

/-- What follows the first byte of a label is compared character by character, unless nothing
does. -/
theorem tail_alike {label : List UInt8} {k : Nat} (char : encodeChar c = b :: inner)
    (tame : Ascii (c :: path) ∨ Textual label)
    (alike : sameFold ((inner ++ encodeChars path).take k) label = true)
    (goesOn : k ≠ 0 ∨ inner = []) :
    inner = [] ∧ ∃ front front', (encodeChars path).take k = encodeChars front ∧
      label = encodeChars front' ∧ List.Forall₂ Variant front front' := by
  have textual : Textual ((inner ++ encodeChars path).take k) ∨ Textual label := by
    refine tame.imp_left fun ascii => ?_
    have hpath : Ascii path := fun d h => ascii d (List.mem_cons_of_mem _ h)
    rw [ascii.inner_eq_nil char, List.nil_append, hpath.take_encodeChars]
    exact Ascii.textual fun d h => hpath d (List.mem_of_mem_take h)
  obtain ⟨front, front', hfront, hfront', variants⟩ := texts_of_sameFold alike textual
  have hinner : inner = [] := by
    cases inner with
    | nil => rfl
    | cons b' inner =>
        obtain ⟨k, rfl⟩ :=
          Nat.exists_eq_succ_of_ne_zero (goesOn.resolve_right (List.cons_ne_nil _ _))
        obtain ⟨b₀, rest, hc, -, hrest⟩ := Utf8.encodeChar_eq_cons c
        rw [hc] at char
        obtain ⟨rfl, rfl⟩ := List.cons.inj char
        rw [List.cons_append, List.take_succ_cons] at hfront
        have hstart := Utf8.not_continuation_of_encodeChars hfront
        rw [hrest b' (List.mem_cons_self ..)] at hstart
        cases hstart
  subst hinner
  exact ⟨rfl, front, front', hfront, hfront', variants⟩

variable {fix : Bool} {index : UInt8} {label carry spelling : List UInt8} {below : Below α}
  {ends : Bool}

/-- The first byte of a label is a variant of the first character, so text after it can be
compared with text after that. -/
theorem Restores.after_index {front front' rest : List Char} (leads : Leads index c)
    (variants : List.Forall₂ Variant front front') (restores : Restores fix rest spelling) :
    Restores fix (c :: front ++ rest) (index :: encodeChars front' ++ spelling) := by
  have h := restores.append (List.Forall₂.cons leads.variant variants)
  rwa [Utf8.encodeChars_cons, Utf8.encodeChar_ascii leads.1] at h

/-- The walk goes on below a label that matches. -/
theorem restores_below (ih : below.RestoresCase fix) (sound : below.Sound)
    (leads : Leads index c) (spent : carry.tail = [])
    (tame : Ascii (c :: path) ∨ Textual label ∧ below.Plain)
    (matched : matchesLoosely (index :: label) (encodeChars (c :: path)) = true)
    (respelled : below.respell fix (encodeChars (c :: path)) (index :: label).length carry ends =
      some spelling) :
    Restores fix (c :: path) (index :: label ++ spelling) := by
  obtain ⟨b, inner, hchar, -, hinner⟩ := Utf8.encodeChar_eq_cons c
  have hpath : encodeChars (c :: path) = b :: (inner ++ encodeChars path) := by
    rw [Utf8.encodeChars_cons, hchar, List.cons_append]
  have hspent : carry.drop (index :: label).length = [] := by
    rw [List.length_cons, ← List.drop_tail, spent, List.drop_nil]
  rw [matchesLoosely, hpath, Bool.and_eq_true, List.length_cons, List.take_succ_cons,
    List.tail_cons, List.tail_cons] at matched
  by_cases goesOn : label.length ≠ 0 ∨ inner = []
  · obtain ⟨rfl, front, front', hfront, rfl, variants⟩ :=
      tail_alike hchar (tame.imp_right And.left) matched.2 goesOn
    rw [List.nil_append] at hpath
    obtain ⟨rest, rfl, hrest⟩ : ∃ rest, path = front ++ rest ∧
        (encodeChars path).drop (encodeChars front').length = encodeChars rest := by
      apply Utf8.encodeChars_append_eq
      rw [← hfront, List.take_append_drop]
    have hdrop : (encodeChars (c :: (front ++ rest))).drop
        (index :: encodeChars front').length = encodeChars rest := by
      rw [hpath, List.length_cons, List.drop_succ_cons, hrest]
    have htame : Ascii rest ∨ below.Plain :=
      tame.imp (fun ascii d h => ascii d (List.mem_cons_of_mem _ (List.mem_append_right _ h)))
        And.right
    exact (ih _ _ rest carry ends spelling sound htame hdrop hspent respelled).after_index leads
      variants
  · obtain ⟨hlabel, hinside⟩ := not_or.mp goesOn
    obtain rfl : label = [] := List.length_eq_zero_iff.mp (not_not.mp hlabel)
    obtain ⟨b', inner, rfl⟩ := List.exists_cons_of_ne_nil hinside
    have hplain := tame.resolve_left fun ascii => hinside (ascii.inner_eq_nil hchar)
    -- the walk stands inside the character
    have hdrop : (encodeChars (c :: path)).drop [index].length =
        b' :: (inner ++ encodeChars path) := by
      rw [hpath]
      rfl
    have broken := broken_of_inside hplain.2 hdrop (hinner b' (List.mem_cons_self ..)) hspent
      respelled
    have h := broken.append [Char.ofNat index.toNat]
    rw [Utf8.encodeChars_cons, Utf8.encodeChar_ascii leads.1] at h
    exact Or.inl h

/-- The label has one slash more than the path. -/
theorem restores_slash (leads : Leads index c) (tame : Ascii (c :: path) ∨ Textual label)
    (matched : matchesButSlash (index :: label) (encodeChars (c :: path)) = true) :
    Restores true (c :: path) (index :: label) := by
  obtain ⟨b, inner, hchar, -, -⟩ := Utf8.encodeChar_eq_cons c
  have hpath : encodeChars (c :: path) = b :: (inner ++ encodeChars path) := by
    rw [Utf8.encodeChars_cons, hchar, List.cons_append]
  rw [matchesButSlash, hpath] at matched
  simp only [Bool.and_eq_true, decide_eq_true_eq, List.length_cons, List.tail_cons] at matched
  obtain ⟨⟨⟨-, hlength⟩, hlast⟩, halike⟩ := matched
  obtain ⟨front, rfl⟩ : ∃ front, label = front ++ [slash] := by
    obtain ⟨front, hfront⟩ := List.getLast?_eq_some_iff.mp hlast
    cases front with
    | nil =>
        obtain ⟨-, rfl⟩ := List.cons.inj hfront
        cases hlength
    | cons b' front => exact ⟨front, (List.cons.inj hfront).2⟩
  rw [← List.cons_append, List.dropLast_concat, List.tail_cons] at halike
  have whole := List.take_of_length_le (Nat.le_refl (inner ++ encodeChars path).length)
  rw [← whole] at halike
  have goesOn : (inner ++ encodeChars path).length ≠ 0 ∨ inner = [] := by
    cases inner with
    | nil => exact Or.inr rfl
    | cons b' inner => exact Or.inl (Nat.succ_ne_zero _)
  obtain ⟨rfl, chars, chars', hchars, rfl, variants⟩ :=
    tail_alike hchar (tame.imp_right fun textual => (textual.cut (by decide)).1) halike goesOn
  rw [List.nil_append, List.take_length] at hchars
  obtain rfl := Utf8.encodeChars_injective hchars
  have h := (restores_slashed []).after_index leads variants
  rw [List.append_nil] at h
  exact h

end Label

theorem restoresCase_static {fix : Bool} {below : Below α} (ih : below.RestoresCase fix)
    (label : List UInt8) (priority : Nat) (existing : Option α) :
    (Node.static label priority existing below).RestoresCase fix := by
  intro index c path carry ends spelling sound leads spent tame respelled
  obtain ⟨hbelow, -, hlabel | ⟨rfl, -, rfl, name, hits, priority', existing', rfl⟩⟩ := sound
  · obtain ⟨label, rfl⟩ := List.head?_eq_some_iff.mp hlabel
    have htame : Ascii (c :: path) ∨ Textual label ∧ below.Plain :=
      tame.imp_right fun plain => ⟨(@Textual.cut [] label index plain.1 leads.1).2.2, plain.2⟩
    rw [Node.respell] at respelled
    split at respelled
    · next matched =>
        obtain ⟨rest, hrest, rfl⟩ := Option.map_eq_some_iff.mp respelled
        exact restores_below ih hbelow leads spent htame matched hrest
    · split at respelled
      · next h =>
          split at respelled
          · rw [Bool.and_eq_true, decide_eq_true_eq] at h
            obtain ⟨rfl, hpath⟩ := h
            rw [Utf8.eq_slash_of_encodeChars hpath, ← Option.some.inj respelled]
            exact restores_unslashed []
          · cases respelled
      · split at respelled
        · next h =>
            rw [Bool.and_eq_true, Bool.and_eq_true] at h
            obtain ⟨⟨rfl, -⟩, matched⟩ := h
            rw [← Option.some.inj respelled]
            exact restores_slash leads (htame.imp_right And.left) matched
        · cases respelled
  · -- the empty node in front of a catch-all takes the path as it is
    have goesOn : (encodeChars (c :: path)).drop 0 ≠ [] := fun h =>
      List.cons_ne_nil _ _ (Utf8.encodeChars_eq_nil h)
    have matched : matchesLoosely [] (encodeChars (c :: path)) = true := rfl
    rw [Node.respell, if_pos matched] at respelled
    obtain ⟨rest, hrest, rfl⟩ := Option.map_eq_some_iff.mp respelled
    rcases respell_edges_eq_some goesOn hrest with ⟨carried, -, hfollowed⟩ | ⟨-, h, -⟩
    · obtain ⟨edge, hedge, -, htaken⟩ := respellEdges_eq_some hfollowed
      rw [List.mem_singleton.mp hedge, Node.respell] at htaken
      rw [← Option.some.inj htaken]
      exact restores_self fix (c :: path)
    · cases h

theorem restoresCase_catchAll (fix : Bool) (name : List UInt8) (hits : CounterId)
    (priority : Nat) (existing : α) :
    (Node.catchAll name hits priority existing).RestoresCase fix := by
  intro index c path carry ends spelling _ _ _ _ respelled
  rw [Node.respell] at respelled
  rw [← Option.some.inj respelled]
  exact restores_self fix (c :: path)

/-- At the end of the path nothing is added but a slash. -/
theorem restores_end {fix : Bool} {below : Below α} {path carry : List UInt8} {n : Nat}
    {ends : Bool} {spelling : List UInt8} (here : path.drop n = [])
    (respelled : below.respell fix path n carry ends = some spelling) :
    Restores fix [] spelling := by
  rcases respell_end_eq_some here respelled with ⟨-, rfl⟩ | ⟨rfl, -, rfl⟩
  · exact restores_self fix []
  · exact restores_slashed []

theorem restoresCase_edges {fix : Bool} {es : List (Edge α)}
    (ih : ∀ edge ∈ es, edge.2.RestoresCase fix) : (Below.edges es).RestoresCase fix := by
  intro path n rest carry ends spelling sound tame here spent respelled
  cases rest with
  | nil =>
      exact restores_end here respelled
  | cons c rest =>
      have goesOn : path.drop n ≠ [] := by
        rw [here]
        exact fun h => List.cons_ne_nil _ _ (Utf8.encodeChars_eq_nil h)
      rcases respell_edges_eq_some goesOn respelled with
        ⟨carried, hon, hfollowed⟩ | ⟨⟨rfl, h⟩, -, rfl⟩
      · obtain ⟨form, mapped, rfl⟩ : ∃ form, (form = lower c ∨ form = upper c) ∧
            carried = encodeChar form := by
          rcases hon with ⟨hcarry, -⟩ | ⟨-, d, back, hfound, hcarried⟩
          · rw [spent] at hcarry
            exact absurd rfl hcarry
          · rw [characterAt_start (here.trans (Utf8.encodeChars_cons ..))] at hfound
            cases hfound
            rcases hcarried with h | h
            · exact ⟨_, Or.inl rfl, h⟩
            · exact ⟨_, Or.inr rfl, h⟩
        obtain ⟨edge, hedge, hindex, hnode⟩ := respellEdges_eq_some hfollowed
        have ascii : edge.1.toNat < 0x80 := by
          rcases tame with ascii | plain
          · exact ascii_of_form mapped hindex (ascii c (List.mem_cons_self ..))
          · exact (toNat_of_plain (plainEdges_iff.mp plain edge hedge).1).2
        obtain ⟨leads, spent'⟩ := leads_of_form mapped hindex ascii
        rw [here] at hnode
        exact ih edge hedge edge.1 c rest _ ends spelling
          ((Below.sound_edges_iff.mp sound).2 edge hedge) leads spent'
          (tame.imp_right fun plain => (plainEdges_iff.mp plain edge hedge).2) hnode
      · rw [Utf8.eq_slash_of_encodeChars (here.symm.trans h)]
        exact restores_unslashed []

/-- What is put behind a value restores the case of what follows it. -/
theorem restores_trail {fix : Bool} {existing : Option α} {next : Option (Node α)}
    (ih : ∀ node, next = some node → node.RestoresCase fix) (sound : soundNext next)
    {after : List Char} (tame : Ascii after ∨ plainNext next) {tail : List UInt8}
    (trails : Trails fix existing next (encodeChars after) tail) : Restores fix after tail := by
  generalize hafter : encodeChars after = bytes at trails
  cases trails with
  | ends _ =>
      rw [Utf8.encodeChars_eq_nil hafter]
      exact restores_self fix []
  | slashed fixing _ =>
      rw [Utf8.encodeChars_eq_nil hafter, fixing]
      exact restores_slashed []
  | next goesOn htail =>
      subst goesOn
      obtain ⟨chars, rfl, rfl⟩ : ∃ chars, after = ['/'] ++ chars ∧ _ :=
        Utf8.encodeChars_append_eq hafter.symm
      exact ih _ rfl slash '/' chars [] _ tail sound leads_slash rfl tame htail
  | unslashed fixing _ =>
      rw [Utf8.eq_slash_of_encodeChars hafter, fixing]
      exact restores_unslashed []

theorem restoresCase_param {fix : Bool} {next : Option (Node α)}
    (ih : ∀ node, next = some node → node.RestoresCase fix) (name : List UInt8)
    (hits : CounterId) (priority : Nat) (existing : Option α) :
    (Below.param name hits priority existing next).RestoresCase fix := by
  intro path n rest carry ends spelling sound tame here _ respelled
  by_cases hrest : rest = []
  · subst hrest
    exact restores_end here respelled
  · have goesOn : path.drop n ≠ [] := by
      rw [here]
      exact fun h => hrest (Utf8.encodeChars_eq_nil h)
    obtain ⟨-, tail, rfl, trails⟩ := respell_param_eq_some goesOn respelled
    have whole : rest.takeWhile (· ≠ '/') ++ rest.dropWhile (· ≠ '/') = rest :=
      List.takeWhile_append_dropWhile
    rw [here, Utf8.fromSlash_encodeChars] at trails
    rw [here, Utf8.untilSlash_encodeChars]
    have htame : Ascii (rest.dropWhile (· ≠ '/')) ∨ plainNext next :=
      tame.imp_left fun ascii c h => ascii c ((List.dropWhile_sublist _).subset h)
    have h := (restores_trail ih sound.2 htame trails).append
      (variants_refl (rest.takeWhile (· ≠ '/')))
    rwa [whole] at h

/-- On an ASCII path, and on every path in a plain tree, the corrector changes no character but
in its case. -/
theorem restores_case (fix : Bool) :
    (∀ node : Node α, node.RestoresCase fix) ∧ ∀ below : Below α, below.RestoresCase fix := by
  refine tree_induction ?static ?catchAll ?edges ?param
  case static =>
    intro label priority existing below ih
    exact restoresCase_static ih label priority existing
  case catchAll => exact restoresCase_catchAll fix
  case edges =>
    intro es ih
    exact restoresCase_edges ih
  case param =>
    intro name hits priority existing next ih
    exact restoresCase_param ih name hits priority existing

end RadixRouter

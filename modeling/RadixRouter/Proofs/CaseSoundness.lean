/-
# Corrections of ASCII paths are right

On an ASCII path whatever the corrector puts together is a route's spelling of the path, or with
`fix` of the path with one slash more or less.  The byte that leads to a node is a form of the next
byte of the path, and nothing else of that form is carried on.
-/

import RadixRouter.Proofs.MatchingUpToCase
import RadixRouter.Proofs.TrailingSlash

namespace RadixRouter

open Pattern (slash_not_mem_untilSlash untilSlash_append_fromSlash)
open Utf8 (encodeChar)

variable {α : Type}

/-- A path fits one of the routes up to case, with this spelling. -/
def TakesUpToCase (listing : List (List Token × α)) (path spelling : List UInt8) : Prop :=
  ∃ route handler, (route, handler) ∈ listing ∧ FitsUpToCase route path spelling

/-- A spelling of a path, or with `fix` of the path with one slash more or without its last. -/
def Corrects (fix : Bool) (listing : List (List Token × α)) (path spelling : List UInt8) : Prop :=
  TakesUpToCase listing path spelling ∨
    fix = true ∧ Toggled (TakesUpToCase listing · spelling) path

/-- Nothing is added where a route ends above; with `fix` a last slash is given up for it. -/
def Stops (fix ends : Bool) (path spelling : List UInt8) : Prop :=
  ends = true ∧ spelling = [] ∧ (path = [] ∨ fix = true ∧ path = [slash])

theorem TakesUpToCase.mono {listing listing' : List (List Token × α)} {path spelling : List UInt8}
    (takes : TakesUpToCase listing path spelling) (among : listing ⊆ listing') :
    TakesUpToCase listing' path spelling := by
  obtain ⟨route, handler, hroute, fits⟩ := takes
  exact ⟨route, handler, among hroute, fits⟩

theorem Corrects.mono {listing listing' : List (List Token × α)} {fix : Bool}
    {path spelling : List UInt8} (corrects : Corrects fix listing path spelling)
    (among : listing ⊆ listing') : Corrects fix listing' path spelling := by
  rcases corrects with h | ⟨hfix, h⟩
  · exact Or.inl (h.mono among)
  · exact Or.inr ⟨hfix, h.imp fun _ taken => taken.mono among⟩

/-- What a route takes exactly it takes up to case. -/
theorem Takes.upToCase {listing : List (List Token × α)} {path : List UInt8}
    (takes : Takes listing path) : TakesUpToCase listing path path := by
  obtain ⟨handler, captures, route, hroute, fits⟩ := takes
  exact ⟨route, handler, hroute, fits.upToCase⟩

theorem takesUpToCase_static {label front : List UInt8} {priority : Nat} {existing : Option α}
    {below : Below α} (letters : List.Forall₂ SameLetter label front) {rest spelling : List UInt8}
    (taken : existing.isSome = true ∧ rest = [] ∧ spelling = [] ∨
      TakesUpToCase below.listing rest spelling) :
    TakesUpToCase (Node.static label priority existing below).listing (front ++ rest)
      (label ++ spelling) := by
  rcases taken with ⟨hexisting, rfl, rfl⟩ | ⟨route, handler, hroute, fits⟩
  · obtain ⟨handler, rfl⟩ := Option.isSome_iff_exists.mp hexisting
    refine ⟨_, handler, mem_prependTokens.mpr ⟨[], rfl, ?_⟩,
      FitsUpToCase.literal_append letters .done⟩
    exact List.mem_append_left _ (List.mem_singleton.mpr rfl)
  · refine ⟨_, handler, mem_prependTokens.mpr ⟨route, rfl, ?_⟩, fits.literal_append letters⟩
    exact List.mem_append_right _ hroute

theorem takesUpToCase_edges {es : List (Edge α)} {path spelling : List UInt8} :
    TakesUpToCase (Below.edges es).listing path spelling ↔
      ∃ edge ∈ es, TakesUpToCase edge.2.listing path spelling := by
  constructor
  · rintro ⟨route, handler, hroute, fits⟩
    obtain ⟨edge, hedge, hlisted⟩ := mem_listingEdges.mp hroute
    exact ⟨edge, hedge, route, handler, hlisted, fits⟩
  · rintro ⟨edge, hedge, route, handler, hlisted, fits⟩
    exact ⟨route, handler, mem_listingEdges.mpr ⟨edge, hedge, hlisted⟩, fits⟩

theorem takesUpToCase_param {name value : List UInt8} {hits : CounterId} {priority : Nat}
    {existing : Option α} {next : Option (Node α)} (nonempty : value ≠ [])
    (noSlash : slash ∉ value) {rest spelling : List UInt8}
    (taken : existing.isSome = true ∧ rest = [] ∧ spelling = [] ∨
      TakesUpToCase (listingNext next) rest spelling) :
    TakesUpToCase (Below.param name hits priority existing next).listing (value ++ rest)
      (value ++ spelling) := by
  rcases taken with ⟨hexisting, rfl, rfl⟩ | ⟨route, handler, hroute, fits⟩
  · obtain ⟨handler, rfl⟩ := Option.isSome_iff_exists.mp hexisting
    refine ⟨_, handler, mem_prependTokens.mpr ⟨[], rfl, ?_⟩, .param nonempty noSlash .done⟩
    exact List.mem_append_left _ (List.mem_singleton.mpr rfl)
  · refine ⟨_, handler, mem_prependTokens.mpr ⟨route, rfl, ?_⟩, .param nonempty noSlash fits⟩
    exact List.mem_append_right _ hroute

/-- What follows text is corrected together with the text in front of it. -/
theorem corrects_append {above listing : List (List Token × α)} {fix ends : Bool}
    {front front' rest spelling : List UInt8}
    (takes : ∀ tail spelling,
      ends = true ∧ tail = [] ∧ spelling = [] ∨ TakesUpToCase listing tail spelling →
        TakesUpToCase above (front ++ tail) (front' ++ spelling))
    (corrected : Stops fix ends rest spelling ∨ Corrects fix listing rest spelling) :
    Corrects fix above (front ++ rest) (front' ++ spelling) := by
  rcases corrected with ⟨hends, rfl, rfl | ⟨hfix, rfl⟩⟩ | h | ⟨hfix, h⟩
  · exact Or.inl (takes _ _ (Or.inl ⟨hends, rfl, rfl⟩))
  · refine Or.inr ⟨hfix, Or.inr ⟨front, rfl, ?_⟩⟩
    have h := takes [] [] (Or.inl ⟨hends, rfl, rfl⟩)
    rwa [List.append_nil] at h
  · exact Or.inl (takes _ _ (Or.inr h))
  · exact Or.inr ⟨hfix, h.append fun tail taken => takes tail _ (Or.inr taken)⟩

section Label

variable {index c : UInt8} {label path : List UInt8}

/-- A label matches loosely exactly if its bytes after the first do. -/
theorem matchesLoosely_iff (ascii : AsciiBytes path) :
    matchesLoosely (index :: label) (c :: path) = true ↔
      ∃ front rest, path = front ++ rest ∧ List.Forall₂ SameLetter label front := by
  rw [matchesLoosely, Bool.and_eq_true, decide_eq_true_eq, List.length_cons, List.length_cons,
    List.take_succ_cons, List.tail_cons, List.tail_cons]
  have hfront (n : Nat) : AsciiBytes (path.take n) := fun b hb => ascii b (List.mem_of_mem_take hb)
  constructor
  · rintro ⟨hlength, alike⟩
    have hsize : (path.take label.length).length = label.length := by
      rw [List.length_take]
      omega
    exact ⟨_, _, (List.take_append_drop label.length path).symm,
      (sameFold_iff (hfront _) hsize).mp alike⟩
  · rintro ⟨front, rest, rfl, letters⟩
    have hsize := letters.length_eq
    refine ⟨by rw [List.length_append]; omega, ?_⟩
    rw [hsize, List.take_left]
    exact (sameFold_iff (fun b hb => ascii b (List.mem_append_left _ hb)) hsize.symm).mpr letters

/-- A label with one slash more than the path. -/
theorem letters_of_matchesButSlash (ascii : AsciiBytes path)
    (matched : matchesButSlash (index :: label) (c :: path) = true) :
    ∃ front, label = front ++ [slash] ∧ List.Forall₂ SameLetter front path := by
  rw [matchesButSlash] at matched
  simp only [Bool.and_eq_true, decide_eq_true_eq, List.length_cons, List.tail_cons] at matched
  obtain ⟨⟨⟨-, hlength⟩, hlast⟩, alike⟩ := matched
  obtain ⟨front, rfl⟩ : ∃ front, label = front ++ [slash] := by
    obtain ⟨front, hfront⟩ := List.getLast?_eq_some_iff.mp hlast
    cases front with
    | nil =>
        obtain ⟨-, rfl⟩ := List.cons.inj hfront
        cases hlength
    | cons b front => exact ⟨front, (List.cons.inj hfront).2⟩
  rw [← List.cons_append, List.dropLast_concat, List.tail_cons] at alike
  rw [List.length_append, List.length_singleton] at hlength
  exact ⟨front, rfl, (sameFold_iff ascii (by omega)).mp alike⟩

end Label

/-- What a node that a form of the next byte leads to adds to an ASCII path is right. -/
def Node.CorrectsTruly (fix : Bool) (node : Node α) : Prop :=
  ∀ (index c : UInt8) (path carry : List UInt8) (ends : Bool) (spelling : List UInt8),
    node.Sound index → SameLetter index c → AsciiBytes (c :: path) →
      node.respell fix (c :: path) carry ends = some spelling → carry.tail = [] →
        Stops fix ends (c :: path) spelling ∨ Corrects fix node.listing (c :: path) spelling

/-- The same after a label of `n` bytes. -/
def Below.CorrectsTruly (fix : Bool) (below : Below α) : Prop :=
  ∀ (path : List UInt8) (n : Nat) (carry : List UInt8) (ends : Bool) (spelling : List UInt8),
    below.Sound → AsciiBytes (path.drop n) → carry.drop n = [] →
      below.respell fix path n carry ends = some spelling →
        Stops fix ends (path.drop n) spelling ∨
          Corrects fix below.listing (path.drop n) spelling

theorem correctsTruly_static {fix : Bool} {below : Below α} (ih : below.CorrectsTruly fix)
    (label : List UInt8) (priority : Nat) (existing : Option α) :
    (Node.static label priority existing below).CorrectsTruly fix := by
  intro index c path carry ends spelling sound leads ascii respelled spent
  obtain ⟨hfirst, hrest⟩ := List.forall_mem_cons.mp ascii
  obtain ⟨hbelow, -, hlabel | ⟨rfl, rfl, rfl, name, hits, priority', existing', rfl⟩⟩ := sound
  · obtain ⟨label, rfl⟩ := List.head?_eq_some_iff.mp hlabel
    rw [Node.respell] at respelled
    split at respelled
    · next matched =>
        obtain ⟨front, rest, rfl, letters⟩ := (matchesLoosely_iff hrest).mp matched
        obtain ⟨tail, htail, rfl⟩ := Option.map_eq_some_iff.mp respelled
        have hdrop : (c :: (front ++ rest)).drop (index :: label).length = rest := by
          rw [List.length_cons, letters.length_eq, List.drop_succ_cons, List.drop_left]
        have hspent : carry.drop (index :: label).length = [] := by
          rw [List.length_cons, ← List.drop_tail, spent, List.drop_nil]
        have hascii : AsciiBytes rest := (List.forall_mem_append.mp hrest).2
        have corrected := ih _ _ carry _ tail hbelow (by rwa [hdrop]) hspent htail
        rw [hdrop] at corrected
        exact Or.inr (corrects_append
          (fun _ _ => takesUpToCase_static (.cons leads letters)) corrected)
    · split at respelled
      · next h =>
          rw [Bool.and_eq_true, decide_eq_true_eq] at h
          split at respelled
          · next hends => exact Or.inl ⟨hends, (Option.some.inj respelled).symm, Or.inr h⟩
          · cases respelled
      · split at respelled
        · next h =>
            rw [Bool.and_eq_true, Bool.and_eq_true] at h
            obtain ⟨⟨hfix, hexisting⟩, matched⟩ := h
            obtain ⟨front, rfl, letters⟩ := letters_of_matchesButSlash hrest matched
            have hslash : List.Forall₂ SameLetter [slash] [slash] := .cons (.refl _) .nil
            have taken : TakesUpToCase
                (Node.static (index :: (front ++ [slash])) priority existing below).listing
                (c :: (path ++ [slash]) ++ []) (index :: (front ++ [slash]) ++ []) :=
              takesUpToCase_static (.cons leads (List.rel_append letters hslash))
                (Or.inl ⟨hexisting, rfl, rfl⟩)
            rw [List.append_nil, List.append_nil] at taken
            rw [← Option.some.inj respelled]
            exact Or.inr (Or.inr ⟨hfix, Or.inl taken⟩)
        · cases respelled
  · -- the empty node in front of a catch-all takes the path as it is
    rw [eq_of_respell_doorway (List.cons_ne_nil _ _) respelled, eq_slash_of_sameLetter leads]
    refine Or.inr (Or.inl (takesUpToCase_static .nil (Or.inr ?_)))
    exact takesUpToCase_edges.mpr ⟨_, List.mem_singleton.mpr rfl, _, existing',
      List.mem_singleton.mpr rfl, .catchAll⟩

theorem correctsTruly_catchAll (fix : Bool) (name : List UInt8) (hits : CounterId)
    (priority : Nat) (existing : α) :
    (Node.catchAll name hits priority existing).CorrectsTruly fix := by
  intro index c path carry ends spelling sound leads _ respelled _
  rw [Node.Sound] at sound
  subst sound
  rw [Node.respell] at respelled
  rw [← Option.some.inj respelled, eq_slash_of_sameLetter leads]
  exact Or.inr (Or.inl ⟨_, existing, List.mem_singleton.mpr rfl, .catchAll⟩)

/-- At the end of the path nothing is added but a slash. -/
theorem correctsTruly_end {fix : Bool} {below : Below α} {path carry : List UInt8} {n : Nat}
    {ends : Bool} {spelling : List UInt8} (sound : below.Sound) (here : path.drop n = [])
    (respelled : below.respell fix path n carry ends = some spelling) :
    Stops fix ends (path.drop n) spelling ∨ Corrects fix below.listing (path.drop n) spelling := by
  rw [here]
  rcases respell_end_eq_some here respelled with ⟨hends, rfl⟩ | ⟨hfix, hoffers, rfl⟩
  · exact Or.inl ⟨hends, rfl, Or.inl rfl⟩
  · exact Or.inr (Or.inr ⟨hfix, Or.inl (takes_of_offered sound hoffers).upToCase⟩)

/-- On an ASCII path the character at a position is that of the byte there. -/
theorem characterAt_letter {path : List UInt8} {n : Nat} {c : UInt8} {rest : List UInt8}
    (here : path.drop n = c :: rest) (ascii : c.toNat < 0x80) :
    characterAt path n = some (letter c, 0) := by
  have single := (encodeChar_eq_singleton (letter_ascii ascii)).mpr (Eq.refl (letter c))
  have starts : path.drop n = encodeChar (letter c) ++ rest := by
    rw [single]
    exact here
  exact characterAt_start starts

/-- On an ASCII path a form of the next byte is carried to the edges, and nothing else. -/
theorem carried_form {path carry carried : List UInt8} {n : Nat} {c : UInt8} {rest : List UInt8}
    (here : path.drop n = c :: rest) (ascii : c.toNat < 0x80) (spent : carry.drop n = [])
    (on : CarriesOn path n carry carried) : ∃ b, carried = [b] ∧ SameLetter b c := by
  rcases on with ⟨hcarry, -⟩ | ⟨-, d, back, hfound, hcarried⟩
  · rw [spent] at hcarry
    exact absurd rfl hcarry
  · rw [characterAt_letter here ascii] at hfound
    cases hfound
    have forms := SimpleCase.ascii_forms (letter_ascii ascii)
    rcases hcarried with rfl | rfl
    · obtain ⟨b, hb, -⟩ := exists_letter forms.1
      exact ⟨b, hb, (sameLetter_iff ascii).mpr (Or.inl hb)⟩
    · obtain ⟨b, hb, -⟩ := exists_letter forms.2
      exact ⟨b, hb, (sameLetter_iff ascii).mpr (Or.inr hb)⟩

theorem correctsTruly_edges {fix : Bool} {es : List (Edge α)}
    (ih : ∀ edge ∈ es, edge.2.CorrectsTruly fix) : (Below.edges es).CorrectsTruly fix := by
  intro path n carry ends spelling sound ascii spent respelled
  cases hrest : path.drop n with
  | nil =>
      rw [← hrest]
      exact correctsTruly_end sound hrest respelled
  | cons c rest =>
      rw [hrest] at ascii
      have goesOn : path.drop n ≠ [] := by
        rw [hrest]
        exact List.cons_ne_nil _ _
      rcases respell_edges_eq_some goesOn respelled with ⟨carried, hon, hfollowed⟩ | ⟨h, hends, rfl⟩
      · obtain ⟨b, rfl, leads⟩ :=
          carried_form hrest (ascii c (List.mem_cons_self ..)) spent hon
        obtain ⟨edge, hedge, hindex, hnode⟩ := respellEdges_eq_some hfollowed
        obtain rfl : edge.1 = b := hindex
        rw [hrest] at hnode
        exact (ih edge hedge edge.1 c rest _ ends spelling
          ((Below.sound_edges_iff.mp sound).2 edge hedge) leads ascii hnode rfl).imp_right
            fun corrects => corrects.mono (listing_subset_edges hedge)
      · exact Or.inl ⟨hends, rfl, Or.inr ⟨h.1, hrest ▸ h.2⟩⟩

theorem correctsTruly_param {fix : Bool} {next : Option (Node α)}
    (ih : ∀ node, next = some node → node.CorrectsTruly fix) (name : List UInt8)
    (hits : CounterId) (priority : Nat) (existing : Option α) :
    (Below.param name hits priority existing next).CorrectsTruly fix := by
  intro path n carry ends spelling sound ascii _ respelled
  by_cases hrest : path.drop n = []
  · exact correctsTruly_end sound hrest respelled
  · obtain ⟨hvalue, tail, rfl, trails⟩ := respell_param_eq_some hrest respelled
    have whole := untilSlash_append_fromSlash (path.drop n)
    have takes (after spelling : List UInt8) : existing.isSome = true ∧ after = [] ∧ spelling = [] ∨
        TakesUpToCase (listingNext next) after spelling →
          TakesUpToCase (Below.param name hits priority existing next).listing
            (untilSlash (path.drop n) ++ after) (untilSlash (path.drop n) ++ spelling) :=
      takesUpToCase_param hvalue (slash_not_mem_untilSlash _)
    refine Or.inr ?_
    suffices followed : Stops fix existing.isSome (fromSlash (path.drop n)) tail ∨
        Corrects fix (listingNext next) (fromSlash (path.drop n)) tail by
      have h := corrects_append takes followed
      rwa [whole] at h
    have hascii : AsciiBytes (fromSlash (path.drop n)) := by
      rw [← whole] at ascii
      exact (List.forall_mem_append.mp ascii).2
    generalize fromSlash (path.drop n) = after at trails hascii
    cases trails with
    | ends hexisting => exact Or.inl ⟨hexisting, rfl, Or.inl rfl⟩
    | slashed fixing lone =>
        obtain ⟨node, rfl, hlone⟩ := (Option.any_eq_true _ _).mp lone
        exact Or.inr (Or.inr ⟨fixing, Or.inl (takes_lone_slash sound.2 hlone).upToCase⟩)
    | next goesOn htail =>
        subst goesOn
        exact ih _ rfl slash slash _ [] _ tail sound.2 (.refl _) hascii htail rfl
    | unslashed fixing last =>
        have hexisting : existing.isSome = true :=
          Option.isSome_iff_ne_none.mpr fun h => sound.1 h last
        exact Or.inl ⟨hexisting, rfl, Or.inr ⟨fixing, rfl⟩⟩

/-- On an ASCII path the corrector adds nothing wrong. -/
theorem corrects_truly (fix : Bool) :
    (∀ node : Node α, node.CorrectsTruly fix) ∧ ∀ below : Below α, below.CorrectsTruly fix := by
  refine tree_induction ?static ?catchAll ?edges ?param
  case static =>
    intro label priority existing below ih
    exact correctsTruly_static ih label priority existing
  case catchAll => exact correctsTruly_catchAll fix
  case edges =>
    intro es ih
    exact correctsTruly_edges ih
  case param =>
    intro name hits priority existing next ih
    exact correctsTruly_param ih name hits priority existing

end RadixRouter

/-
# Every ASCII path with a spelling is corrected

Where an ASCII path fits a route up to case, the corrector finds a spelling.  The walk tries the
branch of the lowercase form to its end and then that of the uppercase form; the route stands in
one of the two, so whatever the first branch does, the second is there to be followed.
-/

import RadixRouter.Proofs.CaseSoundness

namespace RadixRouter

open Pattern (fromSlash_eq)
open SimpleCase (lower upper)
open Utf8 (encodeChar)

variable {α : Type}

/-- Below a label no path fits a route where it ends. -/
theorem TakesUpToCase.path_ne_nil {below : Below α} (sound : below.Sound)
    {path spelling : List UInt8} (takes : TakesUpToCase below.listing path spelling) :
    path ≠ [] := by
  obtain ⟨route, handler, hroute, fits⟩ := takes
  obtain ⟨token, tail, rfl⟩ := List.exists_cons_of_ne_nil (sound.route_ne_nil hroute)
  exact fits.path_ne_nil

/-- A route that a path fits at a node starts with the byte that leads there. -/
theorem TakesUpToCase.head {node : Node α} {index : UInt8} (sound : node.Sound index)
    {path spelling : List UInt8} (takes : TakesUpToCase node.listing path spelling) :
    ∃ c rest, path = c :: rest ∧ SameLetter index c := by
  obtain ⟨route, handler, hroute, fits⟩ := takes
  obtain ⟨tail, rfl⟩ := sound.head_listing hroute
  exact fits.head

theorem TakesUpToCase.sameLetter {node : Node α} {index c : UInt8} (sound : node.Sound index)
    {path spelling : List UInt8} (takes : TakesUpToCase node.listing (c :: path) spelling) :
    SameLetter index c := by
  obtain ⟨c', rest, hpath, same⟩ := takes.head sound
  rwa [(List.cons.inj hpath).1]

/-- A path that fits a route of a literal node starts with the label, and the rest fits what comes
after. -/
theorem TakesUpToCase.of_static {label : List UInt8} {priority : Nat} {existing : Option α}
    {below : Below α} (sound : below.Sound) {path spelling : List UInt8}
    (takes : TakesUpToCase (Node.static label priority existing below).listing path spelling) :
    ∃ front rest, path = front ++ rest ∧ List.Forall₂ SameLetter label front ∧
      (existing.isSome = true ∧ rest = [] ∨ ∃ tail, TakesUpToCase below.listing rest tail) := by
  obtain ⟨route, handler, hroute, fits⟩ := takes
  obtain ⟨tail, rfl, hmem⟩ := mem_prependTokens.mp hroute
  rcases List.mem_append.mp hmem with h | h
  · obtain ⟨existing', hexisting, heq⟩ := List.mem_map.mp h
    cases heq
    have hend : slash ∈ label → ∀ name, ([] : List Token).head? ≠ some (.catchAll name) :=
      fun _ => nofun
    obtain ⟨front, rest, rfl, letters, tail, -, hrest⟩ :=
      (fitsUpToCase_literal_append hend).mp fits
    exact ⟨front, rest, rfl, letters, Or.inl ⟨Option.isSome_of_eq_some
      (Option.mem_toList.mp hexisting), (fitsUpToCase_nil.mp hrest).1⟩⟩
  · obtain ⟨front, rest, rfl, letters, tail, -, hrest⟩ :=
      (fitsUpToCase_literal_append fun _ => sound.head_ne_catchAll h).mp fits
    exact ⟨front, rest, rfl, letters, Or.inr ⟨tail, _, handler, h, hrest⟩⟩

/-- A path that fits a route below a parameter starts with a value, and the rest fits what comes
after. -/
theorem TakesUpToCase.of_param {name : List UInt8} {hits : CounterId} {priority : Nat}
    {existing : Option α} {next : Option (Node α)} (sound : soundNext next)
    {path spelling : List UInt8}
    (takes : TakesUpToCase (Below.param name hits priority existing next).listing path spelling) :
    untilSlash path ≠ [] ∧
      (existing.isSome = true ∧ fromSlash path = [] ∨
        ∃ node, next = some node ∧
          ∃ tail, TakesUpToCase node.listing (fromSlash path) tail) := by
  obtain ⟨route, handler, hroute, fits⟩ := takes
  obtain ⟨rest, rfl, hrest⟩ := mem_prependTokens.mp hroute
  obtain ⟨hvalue, tail, -, fits'⟩ := (fitsUpToCase_param (head_listing_next sound hrest)).mp fits
  refine ⟨hvalue, ?_⟩
  rcases List.mem_append.mp hrest with h | h
  · obtain ⟨existing', hexisting, heq⟩ := List.mem_map.mp h
    cases heq
    exact Or.inl ⟨Option.isSome_of_eq_some (Option.mem_toList.mp hexisting),
      (fitsUpToCase_nil.mp fits').1⟩
  · obtain ⟨node, hnode, hlisted⟩ := mem_listingNext.mp h
    exact Or.inr ⟨node, hnode, tail, rest, handler, hlisted, fits'⟩

/-- A node that a form of the next byte leads to has a spelling for every ASCII path that fits a
route there.  What is carried is that form, if anything. -/
def Node.CorrectsFully (fix : Bool) (node : Node α) : Prop :=
  ∀ (index c : UInt8) (path carry : List UInt8) (ends : Bool) (spelling : List UInt8),
    node.Sound index → AsciiBytes (c :: path) → carry = [] ∨ carry = [index] →
      TakesUpToCase node.listing (c :: path) spelling →
        (node.respell fix (c :: path) carry ends).isSome = true

/-- The same after a label of `n` bytes. -/
def Below.CorrectsFully (fix : Bool) (below : Below α) : Prop :=
  ∀ (path : List UInt8) (n : Nat) (carry : List UInt8) (ends : Bool) (spelling : List UInt8),
    below.Sound → AsciiBytes (path.drop n) → carry.drop n = [] →
      ends = true ∧ path.drop n = [] ∨ TakesUpToCase below.listing (path.drop n) spelling →
        (below.respell fix path n carry ends).isSome = true

/-- At the end of the path the walk stops where a route ends. -/
theorem respell_end {fix : Bool} {below : Below α} {path carry : List UInt8} {n : Nat}
    (here : path.drop n = []) : below.respell fix path n carry true = some [] := by
  cases below <;> simp [Below.respell, here]

/-- The empty node in front of a catch-all leads to it, with the slash carried or not. -/
theorem respell_doorway {fix : Bool} {name : List UInt8} {hits : CounterId} {priority : Nat}
    {existing : α} {path carry : List UInt8} {ends : Bool} (spent : carry = [] ∨ carry = [slash]) :
    (Below.edges [(slash, Node.catchAll name hits priority existing)]).respell fix (slash :: path) 0
      carry ends = some (slash :: path) := by
  have starts : characterAt (slash :: path) 0 = some ('/', 0) :=
    characterAt_start (show (slash :: path).drop 0 = encodeChar '/' ++ path from rfl)
  have form : encodeChar (lower '/') = [slash] := by decide +kernel
  have other : slash ≠ 0 := by decide
  rcases spent with rfl | rfl
  · simp [Below.respell, carriedByte, starts, form, respellEdges, Node.respell]
  · simp [Below.respell, carriedByte, other, respellEdges, Node.respell]

theorem correctsFully_static {fix : Bool} {below : Below α} (ih : below.CorrectsFully fix)
    (label : List UInt8) (priority : Nat) (existing : Option α) :
    (Node.static label priority existing below).CorrectsFully fix := by
  intro index c path carry ends spelling sound ascii spent takes
  have leads := takes.sameLetter sound
  obtain ⟨hfirst, hrest⟩ := List.forall_mem_cons.mp ascii
  obtain ⟨hbelow, -, hlabel | ⟨rfl, rfl, rfl, name, hits, priority', existing', rfl⟩⟩ := sound
  · obtain ⟨label, rfl⟩ := List.head?_eq_some_iff.mp hlabel
    obtain ⟨front, rest, hpath, hletters, taken⟩ := takes.of_static hbelow
    obtain ⟨c', front, -, letters, rfl⟩ := List.forall₂_cons_left_iff.mp hletters
    rw [List.cons_append] at hpath
    obtain ⟨rfl, rfl⟩ := List.cons.inj hpath
    have hdrop : (c :: (front ++ rest)).drop (index :: label).length = rest := by
      rw [List.length_cons, letters.length_eq, List.drop_succ_cons, List.drop_left]
    have hspent : carry.drop (index :: label).length = [] := by
      rcases spent with rfl | rfl <;> simp
    have hascii : AsciiBytes rest := (List.forall_mem_append.mp hrest).2
    rw [Node.respell, if_pos ((matchesLoosely_iff hrest).mpr ⟨front, rest, rfl, letters⟩),
      Option.isSome_map]
    rcases taken with ⟨hexisting, hend⟩ | ⟨tail, taken⟩
    · exact ih _ _ carry _ [] hbelow (by rwa [hdrop]) hspent (Or.inl ⟨hexisting, hdrop.trans hend⟩)
    · exact ih _ _ carry _ tail hbelow (by rwa [hdrop]) hspent (Or.inr (by rwa [hdrop]))
  · rw [eq_slash_of_sameLetter leads, Node.respell, if_pos (by rfl), List.length_nil,
      respell_doorway spent]
    rfl

theorem correctsFully_catchAll (fix : Bool) (name : List UInt8) (hits : CounterId)
    (priority : Nat) (existing : α) :
    (Node.catchAll name hits priority existing).CorrectsFully fix := by
  intro index c path carry ends spelling _ _ _ _
  rw [Node.respell]
  rfl

theorem correctsFully_edges {fix : Bool} {es : List (Edge α)}
    (ih : ∀ edge ∈ es, edge.2.CorrectsFully fix) : (Below.edges es).CorrectsFully fix := by
  intro path n carry ends spelling sound ascii spent taken
  cases hrest : path.drop n with
  | nil =>
      rw [hrest] at taken
      rcases taken with ⟨rfl, -⟩ | takes
      · rw [respell_end hrest]
        rfl
      · exact absurd rfl (takes.path_ne_nil sound)
  | cons c rest =>
      rw [hrest] at taken ascii
      obtain ⟨edge, hedge, takes⟩ :=
        takesUpToCase_edges.mp (taken.resolve_left fun h => List.cons_ne_nil _ _ h.2)
      obtain ⟨hkeys, hsound⟩ := Below.sound_edges_iff.mp sound
      have leads := takes.sameLetter (hsound edge hedge)
      have hfirst := ascii c (List.mem_cons_self ..)
      -- the branch that the route stands in
      have followed : (respellEdges fix es (c :: rest) [edge.1] ends).isSome = true := by
        rw [respellEdges_of_index hkeys hedge rfl]
        exact ih edge hedge edge.1 c rest _ ends spelling (hsound edge hedge) ascii (Or.inr rfl)
          takes
      rw [Below.respell]
      dsimp only
      rw [characterAt_letter hrest hfirst, hrest, spent, if_neg (by simp),
        if_neg (by simp [carriedByte])]
      dsimp only
      split
      · rfl
      · next hlow =>
          rcases (sameLetter_iff hfirst).mp leads with hform | hform
          · rw [hform, List.drop_zero] at hlow
            rw [hlow] at followed
            cases followed
          · have apart : upper (letter c) ≠ lower (letter c) := by
              intro same
              rw [← same, hform, List.drop_zero] at hlow
              rw [hlow] at followed
              cases followed
            have inside : es.any (·.1 = carriedByte [edge.1]) = true :=
              List.any_eq_true.mpr ⟨edge, hedge, decide_eq_true rfl⟩
            rw [hform, List.drop_zero, if_pos ⟨apart, inside⟩]
            exact followed

theorem correctsFully_param {fix : Bool} {next : Option (Node α)}
    (ih : ∀ node, next = some node → node.CorrectsFully fix) (name : List UInt8)
    (hits : CounterId) (priority : Nat) (existing : Option α) :
    (Below.param name hits priority existing next).CorrectsFully fix := by
  intro path n carry ends spelling sound ascii spent taken
  by_cases hrest : path.drop n = []
  · rw [hrest] at taken
    rcases taken with ⟨rfl, -⟩ | takes
    · rw [respell_end hrest]
      rfl
    · exact absurd rfl (takes.path_ne_nil sound)
  · obtain ⟨hvalue, taken⟩ := (taken.resolve_left fun h => hrest h.2).of_param sound.2
    have hascii : AsciiBytes (fromSlash (path.drop n)) := fun b hb =>
      ascii b ((List.dropWhile_sublist _).subset hb)
    rw [Below.respell]
    dsimp only
    rw [if_neg (by rwa [List.isEmpty_iff]), if_neg hvalue]
    rcases fromSlash_eq (path.drop n) with hfrom | ⟨after, hfrom⟩
    · rw [hfrom] at taken ⊢
      rcases taken with ⟨hexisting, -⟩ | ⟨node, hnode, tail, takes⟩
      · dsimp only
        rw [if_pos hexisting]
        rfl
      · subst hnode
        obtain ⟨c, rest, hcons, -⟩ := takes.head sound.2
        cases hcons
    · rw [hfrom] at taken hascii ⊢
      rcases taken with ⟨-, h⟩ | ⟨node, rfl, tail, takes⟩
      · cases h
      · dsimp only
        rw [Option.isSome_map]
        exact ih node rfl slash slash after [] _ tail sound.2 hascii (Or.inl rfl) takes

/-- On an ASCII path the corrector misses nothing. -/
theorem corrects_fully (fix : Bool) :
    (∀ node : Node α, node.CorrectsFully fix) ∧ ∀ below : Below α, below.CorrectsFully fix := by
  refine tree_induction ?static ?catchAll ?edges ?param
  case static =>
    intro label priority existing below ih
    exact correctsFully_static ih label priority existing
  case catchAll => exact correctsFully_catchAll fix
  case edges =>
    intro es ih
    exact correctsFully_edges ih
  case param =>
    intro name hits priority existing next ih
    exact correctsFully_param ih name hits priority existing

end RadixRouter

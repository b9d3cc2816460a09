/-
# Registered paths are found again

The corrector compares a character of the path by its lowercase and its uppercase form only.  Where
each character is one of its own two forms, the way of the exact search is among those that the
corrector tries, so its walk misses no path that the search finds.
-/

import RadixRouter.Proofs.SlashFixing
import RadixRouter.Proofs.TextSpans

namespace RadixRouter

open Pattern (fromSlash_eq untilSlash_append_fromSlash)
open SimpleCase (lower upper sameFold)
open Utf8 (encodeChar encodeChars)

variable {α : Type}

/-- A character is its own lowercase or uppercase form. -/
def OwnForm (c : Char) : Prop := lower c = c ∨ upper c = c

instance (c : Char) : Decidable (OwnForm c) := inferInstanceAs (Decidable (_ ∨ _))

/-- What is carried is the rest of a character of the path, and whole characters follow it. -/
structure Tracks (path carry : List UInt8) (c : Char) (back : Nat) (after : List Char) : Prop where
  carried : carry = (encodeChar c).drop back
  piece : path = carry ++ encodeChars after
  own : ∀ d ∈ c :: after, OwnForm d

section Tracks

variable {path carry : List UInt8} {c : Char} {back : Nat} {after : List Char}

theorem tracks_start {chars : List Char} (own : ∀ d ∈ chars, OwnForm d) :
    Tracks (encodeChars chars) [] '/' 1 chars where
  carried := rfl
  piece := rfl
  own := List.forall_mem_cons.mpr ⟨Or.inl (by decide +kernel), own⟩

/-- Inside what is carried. -/
theorem Tracks.inside (tracks : Tracks path carry c back after) {n : Nat}
    (goesOn : carry.drop n ≠ []) : Tracks (path.drop n) (carry.drop n) c (back + n) after where
  carried := by rw [tracks.carried, List.drop_drop]
  piece := by
    rw [List.ne_nil_iff_length_pos, List.length_drop] at goesOn
    rw [tracks.piece, List.drop_append_of_le_length (by omega)]
  own := tracks.own

/-- The character that covers a position in a text. -/
theorem exists_char_covering {chars : List Char} {m : Nat} (inside : m < (encodeChars chars).length) :
    ∃ before c after back, chars = before ++ c :: after ∧ back < (encodeChar c).length ∧
      m = (encodeChars before).length + back := by
  induction chars generalizing m with
  | nil => cases inside
  | cons c chars ih =>
      by_cases here : m < (encodeChar c).length
      · exact ⟨[], c, chars, m, rfl, here, (Nat.zero_add m).symm⟩
      · rw [Utf8.encodeChars_cons, List.length_append] at inside
        obtain ⟨before, d, after, back, rfl, hback, hm⟩ :=
          ih (m := m - (encodeChar c).length) (by omega)
        refine ⟨c :: before, d, after, back, rfl, hback, ?_⟩
        rw [Utf8.encodeChars_cons, List.length_append]
        omega

/-- After what is carried, the character at a position is found, and its rest can be carried on. -/
theorem Tracks.beyond (tracks : Tracks path carry c back after) {n : Nat}
    (spent : carry.drop n = []) (goesOn : path.drop n ≠ []) :
    ∃ d back' after', characterAt path n = some (d, back') ∧ (encodeChar d).drop back' ≠ [] ∧
      Tracks (path.drop n) ((encodeChar d).drop back') d back' after' := by
  obtain ⟨-, rfl, own⟩ := tracks
  rw [List.drop_eq_nil_iff] at spent
  rw [List.ne_nil_iff_length_pos, List.length_drop, List.length_append] at goesOn
  have covered : n - carry.length < (encodeChars after).length := by omega
  obtain ⟨before, d, after', back', rfl, hback, hn⟩ := exists_char_covering covered
  have position : n = (carry ++ encodeChars before).length + back' := by
    rw [List.length_append]
    omega
  rw [Utf8.encodeChars_append, Utf8.encodeChars_cons, ← List.append_assoc, position]
  refine ⟨d, back', after', characterAt_inside hback, ?_, rfl, ?_, ?_⟩
  · exact List.drop_eq_nil_iff.not.mpr (by omega)
  · rw [List.drop_length_add_append, List.drop_append_of_le_length (by omega)]
  · intro e he
    exact own e (List.mem_cons_of_mem _ (List.mem_append_right _ he))

/-- Where the path goes on with a slash, that is carried or nothing is. -/
theorem Tracks.spent {rest : List UInt8}
    (tracks : Tracks (slash :: rest) carry c back after) :
    carry = [] ∨ carry = [slash] := by
  obtain ⟨carried, piece, -⟩ := tracks
  cases carry with
  | nil => exact Or.inl rfl
  | cons b carry =>
      obtain ⟨rfl, -⟩ := List.cons.inj piece
      have inside : slash ∈ encodeChar c :=
        List.mem_of_mem_drop (carried ▸ List.mem_cons_self ..)
      rw [Utf8.slash_mem_encodeChar.mp inside, Utf8.encodeChar_slash] at carried
      cases back with
      | zero => exact Or.inr carried
      | succ back =>
          rw [List.drop_succ_cons, List.drop_nil] at carried
          cases carried

/-- From a slash on nothing is carried. -/
theorem Tracks.after_slash {front rest : List UInt8}
    (tracks : Tracks (front ++ slash :: rest) carry c back after) :
    ∃ after', Tracks (slash :: rest) [] '/' 1 after' := by
  have whole : ((encodeChar c).take back ++ front) ++ slash :: rest =
      encodeChars (c :: after) := by
    rw [List.append_assoc, tracks.piece, tracks.carried, ← List.append_assoc,
      List.take_append_drop, Utf8.encodeChars_cons]
  obtain ⟨before, after', hchars, -, hafter⟩ := Utf8.encodeChars_cut_start (by decide) whole
  refine ⟨after', hafter ▸ tracks_start fun d hd => tracks.own d ?_⟩
  rw [hchars]
  exact List.mem_append_right _ hd

end Tracks

/-- A node has a spelling for every path that the exact search takes to one of its routes. -/
def Node.FindsAgain (fix : Bool) (node : Node α) : Prop :=
  ∀ (index : UInt8) (path carry : List UInt8) (c : Char) (back : Nat) (after : List Char)
      (ends : Bool), node.Sound index → Tracks path carry c back after →
    Takes node.listing path → (node.respell fix path carry ends).isSome = true

/-- The same after a label of `n` bytes, at least one. -/
def Below.FindsAgain (fix : Bool) (below : Below α) : Prop :=
  ∀ (path carry : List UInt8) (n : Nat) (c : Char) (back : Nat) (after : List Char) (ends : Bool),
    below.Sound → n ≠ 0 → Tracks path carry c back after →
      ends = true ∧ path.drop n = [] ∨ Takes below.listing (path.drop n) →
        (below.respell fix path n carry ends).isSome = true

/-- Below a label no route takes the end of the path. -/
theorem Takes.path_ne_nil {below : Below α} (sound : below.Sound) {path : List UInt8}
    (takes : Takes below.listing path) : path ≠ [] := by
  obtain ⟨handler, captures, route, hroute, fits⟩ := takes
  obtain ⟨token, tail, rfl⟩ := List.exists_cons_of_ne_nil (sound.route_ne_nil hroute)
  exact fits.path_ne_nil

/-- What a node takes starts with the byte that leads there. -/
theorem Takes.head {node : Node α} {index : UInt8} (sound : node.Sound index) {path : List UInt8}
    (takes : Takes node.listing path) : path.head? = some index := by
  obtain ⟨handler, captures, route, hroute, fits⟩ := takes
  obtain ⟨tail, rfl⟩ := sound.head_listing hroute
  exact fits.head_path

theorem takes_edges {es : List (Edge α)} {path : List UInt8} :
    Takes (Below.edges es).listing path ↔ ∃ edge ∈ es, Takes edge.2.listing path := by
  constructor
  · rintro ⟨handler, captures, route, hroute, fits⟩
    obtain ⟨edge, hedge, hlisted⟩ := mem_listingEdges.mp hroute
    exact ⟨edge, hedge, handler, captures, route, hlisted, fits⟩
  · rintro ⟨edge, hedge, handler, captures, route, hlisted, fits⟩
    exact ⟨handler, captures, route, mem_listingEdges.mpr ⟨edge, hedge, hlisted⟩, fits⟩

/-- A label looks like itself. -/
theorem matchesLoosely_append (label rest : List UInt8) :
    matchesLoosely label (label ++ rest) = true := by
  simp [matchesLoosely, sameFold]

theorem findsAgain_static {fix : Bool} {below : Below α} (ih : below.FindsAgain fix)
    (label : List UInt8) (priority : Nat) (existing : Option α) :
    (Node.static label priority existing below).FindsAgain fix := by
  intro index path carry c back after ends sound tracks takes
  have leads := takes.head sound
  obtain ⟨hbelow, -, hlabel | ⟨rfl, rfl, rfl, name, hits, priority', existing', rfl⟩⟩ := sound
  · obtain ⟨handler, captures, hroute⟩ := takes
    obtain ⟨rest, rfl, taken⟩ := (fits_static hbelow).mp hroute
    have hdrop : (label ++ rest).drop label.length = rest := List.drop_left
    have pos : label.length ≠ 0 := by
      intro h
      rw [List.eq_nil_of_length_eq_zero h] at hlabel
      cases hlabel
    rw [Node.respell, if_pos (matchesLoosely_append label rest), Option.isSome_map]
    refine ih _ carry _ c back after _ hbelow pos tracks ?_
    rw [hdrop]
    rcases taken with ⟨rfl, rfl, -⟩ | hroute
    · exact Or.inl ⟨rfl, rfl⟩
    · exact Or.inr ⟨handler, captures, hroute⟩
  · -- the slash in front of a catch-all is carried, or nothing is
    obtain ⟨rest, rfl⟩ := List.head?_eq_some_iff.mp leads
    have spent := tracks.spent
    rw [Node.respell, if_pos (by rfl), List.length_nil, respell_doorway spent]
    rfl

theorem findsAgain_catchAll (fix : Bool) (name : List UInt8) (hits : CounterId) (priority : Nat)
    (existing : α) : (Node.catchAll name hits priority existing).FindsAgain fix := by
  intro index path carry c back after ends _ _ _
  rw [Node.respell]
  rfl

/-- Along the edges the walk follows what is carried. -/
theorem findsAgain_along {fix : Bool} {es : List (Edge α)}
    (ih : ∀ edge ∈ es, edge.2.FindsAgain fix) (sound : (Below.edges es).Sound)
    {path carry : List UInt8} {c : Char} {back : Nat} {after : List Char}
    (tracks : Tracks path carry c back after) (carries : carry ≠ [])
    (takes : Takes (Below.edges es).listing path) (ends : Bool) :
    es.any (·.1 = carriedByte carry) = true ∧
      (respellEdges fix es path carry ends).isSome = true := by
  obtain ⟨hkeys, hsound⟩ := Below.sound_edges_iff.mp sound
  obtain ⟨edge, hedge, htaken⟩ := takes_edges.mp takes
  obtain ⟨b, carry, rfl⟩ := List.exists_cons_of_ne_nil carries
  have hindex : edge.1 = carriedByte (b :: carry) := by
    have leads := htaken.head (hsound edge hedge)
    rw [tracks.piece] at leads
    exact (Option.some.inj leads).symm
  refine ⟨List.any_eq_true.mpr ⟨edge, hedge, decide_eq_true hindex⟩, ?_⟩
  rw [respellEdges_of_index hkeys hedge hindex]
  exact ih edge hedge edge.1 path _ c back after ends (hsound edge hedge) tracks htaken

theorem findsAgain_edges {fix : Bool} {es : List (Edge α)}
    (ih : ∀ edge ∈ es, edge.2.FindsAgain fix) : (Below.edges es).FindsAgain fix := by
  intro path carry n c back after ends sound pos tracks taken
  by_cases goesOn : path.drop n = []
  · rcases taken with ⟨rfl, -⟩ | takes
    · rw [respell_end goesOn]
      rfl
    · exact absurd goesOn (takes.path_ne_nil sound)
  · have takes := taken.resolve_left fun h => goesOn h.2
    rw [respell_edges_eq fix goesOn]
    by_cases spent : carry.drop n = []
    · obtain ⟨d, back', after', hfound, hcarries, htracks⟩ := tracks.beyond spent goesOn
      obtain ⟨hbranch, hfollowed⟩ := findsAgain_along ih sound htracks hcarries takes ends
      rw [spent, if_neg (by simp [carriedByte]), hfound]
      dsimp only
      rw [Option.isSome_or]
      rcases htracks.own d (List.mem_cons_self ..) with form | form
      · rw [form, hfollowed]
        rfl
      · by_cases same : upper d = lower d
        · rw [← same, form, hfollowed]
          rfl
        · rw [form] at same ⊢
          rw [if_pos ⟨same, hbranch⟩, hfollowed, Bool.or_true]
    · have htracks := tracks.inside spent
      obtain ⟨hbranch, hfollowed⟩ := findsAgain_along ih sound htracks spent takes ends
      have carried : carriedByte (carry.drop n) ≠ 0 := by
        obtain ⟨b, rest, hcarry⟩ := List.exists_cons_of_ne_nil spent
        have here := htracks.carried
        rw [hcarry] at here ⊢
        exact ne_zero_of_drop (by omega) here
      rw [if_pos carried, if_pos hbranch]
      exact hfollowed

theorem findsAgain_param {fix : Bool} {next : Option (Node α)}
    (ih : ∀ node, next = some node → node.FindsAgain fix) (name : List UInt8) (hits : CounterId)
    (priority : Nat) (existing : Option α) :
    (Below.param name hits priority existing next).FindsAgain fix := by
  intro path carry n c back after ends sound pos tracks taken
  by_cases goesOn : path.drop n = []
  · rcases taken with ⟨rfl, -⟩ | takes
    · rw [respell_end goesOn]
      rfl
    · exact absurd goesOn (takes.path_ne_nil sound)
  · obtain ⟨handler, captures, hroute⟩ := taken.resolve_left fun h => goesOn h.2
    obtain ⟨hvalue, captures', -, hrest⟩ := (fits_below_param sound.2).mp hroute
    rw [respell_param_eq fix goesOn, if_neg hvalue]
    have whole := untilSlash_append_fromSlash (path.drop n)
    rcases fromSlash_eq (path.drop n) with hfrom | ⟨rest, hfrom⟩
    · rw [hfrom] at hrest ⊢
      rw [((fits_param_end sound.2).mp hrest).1]
      rfl
    · rw [hfrom] at hrest whole ⊢
      obtain ⟨node, hnode, htaken⟩ := fits_param_next.mp hrest
      cases hnode
      rw [← List.take_append_drop n path, ← whole, ← List.append_assoc] at tracks
      obtain ⟨after', htracks⟩ := tracks.after_slash
      dsimp only
      rw [Option.isSome_map]
      exact ih node rfl slash (slash :: rest) [] '/' 1 after' existing.isSome sound.2 htracks
        ⟨handler, captures', htaken⟩

/-- On a path whose characters have forms of their own, the walk of the corrector misses nothing
that the exact search takes. -/
theorem finds_again (fix : Bool) :
    (∀ node : Node α, node.FindsAgain fix) ∧ ∀ below : Below α, below.FindsAgain fix := by
  refine tree_induction ?static ?catchAll ?edges ?param
  case static =>
    intro label priority existing below ih
    exact findsAgain_static ih label priority existing
  case catchAll => exact findsAgain_catchAll fix
  case edges =>
    intro es ih
    exact findsAgain_edges ih
  case param =>
    intro name hits priority existing next ih
    exact findsAgain_param ih name hits priority existing

end RadixRouter

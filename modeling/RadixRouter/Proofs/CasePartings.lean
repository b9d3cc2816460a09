/-
# Patterns that part by case

The corrector follows the lowercase form of a character to the end before it tries the uppercase
one.  With a final slash to fix, the first branch has more ends, and one of these may come before
the answer that the second branch has.  This takes two patterns that go on with the two forms of a
character: where no accepted patterns part in this way, fixing a slash never changes an answer.
-/

import RadixRouter.Proofs.SlashFixing
import RadixRouter.Proofs.TextSpans

namespace RadixRouter

open SimpleCase (lower upper)
open Utf8 (encodeChar Whole isContinuation)

variable {α : Type}

/-- Different bytes that stand at one place in the lowercase and in the uppercase form of a
character. -/
def CaseFork (c : Char) : Token → Token → Prop
  | .byte b, .byte b' => b ≠ b' ∧ (b, b') ∈ (encodeChar (lower c)).zip (encodeChar (upper c))
  | _, _ => False

instance (c : Char) : (token token' : Token) → Decidable (CaseFork c token token')
  | .byte _, .byte _ => instDecidableAnd
  | .byte _, .param _ | .byte _, .catchAll _ | .param _, _ | .catchAll _, _ => instDecidableFalse

/-- Two routes go on, after the same tokens, with the two forms of a character. -/
def CaseParting (c : Char) (small capital : List Token) : Prop :=
  ∃ front token token' rest rest', small = front ++ token :: rest ∧
    capital = front ++ token' :: rest' ∧ CaseFork c token token'

theorem caseParting_cons {c : Char} {token token' : Token} {small capital : List Token} :
    CaseParting c (token :: small) (token' :: capital) ↔
      token = token' ∧ CaseParting c small capital ∨ CaseFork c token token' := by
  constructor
  · rintro ⟨front, first, second, rest, rest', hsmall, hcapital, forks⟩
    cases front with
    | nil =>
        obtain ⟨rfl, -⟩ := List.cons.inj hsmall
        obtain ⟨rfl, -⟩ := List.cons.inj hcapital
        exact Or.inr forks
    | cons shared front =>
        obtain ⟨rfl, rfl⟩ := List.cons.inj hsmall
        obtain ⟨rfl, rfl⟩ := List.cons.inj hcapital
        exact Or.inl ⟨rfl, front, first, second, rest, rest', rfl, rfl, forks⟩
  · rintro (⟨rfl, front, first, second, rest, rest', rfl, rfl, forks⟩ | forks)
    · exact ⟨token :: front, first, second, rest, rest', rfl, rfl, forks⟩
    · exact ⟨[], token, token', small, capital, rfl, rfl, forks⟩

theorem CaseParting.ne_nil {c : Char} {small capital : List Token}
    (parting : CaseParting c small capital) : small ≠ [] ∧ capital ≠ [] := by
  obtain ⟨front, token, token', rest, rest', rfl, rfl, -⟩ := parting
  exact ⟨List.append_ne_nil_of_right_ne_nil _ (List.cons_ne_nil _ _),
    List.append_ne_nil_of_right_ne_nil _ (List.cons_ne_nil _ _)⟩

instance decidableCaseParting (c : Char) :
    (small capital : List Token) → Decidable (CaseParting c small capital)
  | [], _ => isFalse fun parting => parting.ne_nil.1 rfl
  | _ :: _, [] => isFalse fun parting => parting.ne_nil.2 rfl
  | _ :: small, _ :: capital =>
    have := decidableCaseParting c small capital
    decidable_of_iff _ caseParting_cons.symm

/-- Two routes of a listing part by the case of a character. -/
def PartsByCase (c : Char) (listing : List (List Token × α)) : Prop :=
  ∃ small ∈ listing, ∃ capital ∈ listing, CaseParting c small.1 capital.1

theorem PartsByCase.mono {c : Char} {listing listing' : List (List Token × α)}
    (parts : PartsByCase c listing) (among : listing ⊆ listing') : PartsByCase c listing' := by
  obtain ⟨small, hsmall, capital, hcapital, parting⟩ := parts
  exact ⟨small, among hsmall, capital, among hcapital, parting⟩

theorem PartsByCase.prepend {c : Char} {listing : List (List Token × α)}
    (parts : PartsByCase c listing) (tokens : List Token) :
    PartsByCase c (prependTokens tokens listing) := by
  obtain ⟨⟨small, handler⟩, hsmall, ⟨capital, handler'⟩, hcapital, front, token, token', rest, rest',
    rfl, rfl, forks⟩ := parts
  refine ⟨_, mem_prependTokens.mpr ⟨_, rfl, hsmall⟩, _, mem_prependTokens.mpr ⟨_, rfl, hcapital⟩,
    tokens ++ front, token, token', rest, rest', ?_, ?_, forks⟩
  · exact (List.append_assoc ..).symm
  · exact (List.append_assoc ..).symm

/-- The two forms of a character have equally many bytes. -/
def EvenForms (c : Char) : Prop := (encodeChar (lower c)).length = (encodeChar (upper c)).length

instance (c : Char) : Decidable (EvenForms c) := inferInstanceAs (Decidable (_ = _))

/-- What is left of the two forms of a character, which have equally many bytes. -/
structure Forms (c : Char) (k : Nat) (low high : List UInt8) : Prop where
  low : low = (encodeChar (lower c)).drop k
  high : high = (encodeChar (upper c)).drop k
  even : EvenForms c

section Forms

variable {c : Char} {k : Nat} {low high : List UInt8}

theorem Forms.drop (forms : Forms c k low high) (n : Nat) :
    Forms c (k + n) (low.drop n) (high.drop n) := by
  obtain ⟨rfl, rfl, even⟩ := forms
  exact ⟨List.drop_drop, List.drop_drop, even⟩

theorem Forms.eq_nil_iff (forms : Forms c k low high) : low = [] ↔ high = [] := by
  obtain ⟨rfl, rfl, even⟩ := forms
  rw [EvenForms] at even
  rw [List.drop_eq_nil_iff, List.drop_eq_nil_iff, even]

theorem Forms.fork {b b' : UInt8} (forms : Forms c k (b :: low) (b' :: high)) (apart : b ≠ b') :
    CaseFork c (.byte b) (.byte b') := by
  have zipped : ((encodeChar (lower c)).zip (encodeChar (upper c))).drop k =
      (b, b') :: low.zip high := by
    rw [List.zip, List.drop_zipWith, ← forms.low, ← forms.high]
    rfl
  exact ⟨apart, List.mem_of_mem_drop (zipped ▸ List.mem_cons_self ..)⟩

end Forms

/-- Where the lowercase form leads to an answer only with slashes to fix, and the uppercase form
leads to one without, routes part by case. -/
def Node.PartsTwins (node : Node α) : Prop :=
  ∀ (index : UInt8) (c : Char) (k : Nat) (low high path front : List UInt8) (ends : Bool),
    node.Sound index → Reads Whole front node.listing → Forms c k low high →
      carriedByte low = carriedByte high → node.respell false path low ends = none →
        (node.respell true path low ends).isSome = true →
          (node.respell false path high ends).isSome = true → PartsByCase c node.listing

/-- The same after a label of `n` bytes, at least one. -/
def Below.PartsTwins (below : Below α) : Prop :=
  ∀ (c : Char) (k n : Nat) (low high path front : List UInt8) (ends : Bool),
    below.Sound → Reads Whole front below.listing → (ends = true → Whole front) →
      Forms c k low high → n ≠ 0 → below.respell false path n low ends = none →
        (below.respell true path n low ends).isSome = true →
          (below.respell false path n high ends).isSome = true → PartsByCase c below.listing

/-- A node that is sound has a route that starts with the byte that leads there. -/
theorem Node.Sound.exists_route {node : Node α} {index : UInt8} (sound : node.Sound index) :
    ∃ rest handler, (.byte index :: rest, handler) ∈ node.listing := by
  obtain ⟨⟨route, handler⟩, hroute⟩ :=
    List.exists_mem_of_ne_nil _ (listing_ne_nil.1 node index sound)
  obtain ⟨rest, rfl⟩ := sound.head_listing hroute
  exact ⟨rest, handler, hroute⟩

/-- Along the edges: the two forms lead along one edge, or routes part here. -/
theorem partsByCase_along {es : List (Edge α)} (ih : ∀ edge ∈ es, edge.2.PartsTwins)
    (sound : (Below.edges es).Sound) {front : List UInt8}
    (spelled : Reads Whole front (Below.edges es).listing) {c : Char} {k : Nat}
    {low high path : List UInt8} {ends : Bool} (forms : Forms c k low high)
    (plain : respellEdges false es path low ends = none)
    (fixed : (respellEdges true es path low ends).isSome = true)
    (other : (respellEdges false es path high ends).isSome = true) :
    PartsByCase c (Below.edges es).listing := by
  obtain ⟨hkeys, hsound⟩ := Below.sound_edges_iff.mp sound
  obtain ⟨found, hfound⟩ := Option.isSome_iff_exists.mp fixed
  obtain ⟨found', hfound'⟩ := Option.isSome_iff_exists.mp other
  obtain ⟨edge, hedge, hindex, hnode⟩ := respellEdges_eq_some hfound
  obtain ⟨edge', hedge', hindex', hnode'⟩ := respellEdges_eq_some hfound'
  by_cases same : carriedByte low = carriedByte high
  · have hother : respellEdges false es path high ends = edge.2.respell false path high ends :=
      respellEdges_of_index hkeys hedge (hindex.trans same)
    rw [respellEdges_of_index hkeys hedge hindex] at plain
    rw [hother] at other
    refine PartsByCase.mono ?_ (listing_subset_edges hedge)
    exact ih edge hedge edge.1 c k low high path front ends (hsound edge hedge)
      (spelled.mono (listing_subset_edges hedge)) forms same plain
      (Option.isSome_of_eq_some hnode) other
  · obtain ⟨rest, handler, hroute⟩ := (hsound edge hedge).exists_route
    obtain ⟨rest', handler', hroute'⟩ := (hsound edge' hedge').exists_route
    refine ⟨_, listing_subset_edges hedge hroute, _, listing_subset_edges hedge' hroute', [], _, _,
      rest, rest', rfl, rfl, ?_⟩
    rw [hindex, hindex']
    cases low with
    | nil =>
        rw [forms.eq_nil_iff.mp rfl] at same
        exact absurd rfl same
    | cons b low =>
        obtain ⟨b', high, rfl⟩ := List.exists_cons_of_ne_nil
          (mt forms.eq_nil_iff.mpr (List.cons_ne_nil b low))
        exact forms.fork same

/-- In front of a catch-all only the byte that leads on counts. -/
theorem respell_doorway_carried {fix : Bool} {name : List UInt8} {hits : CounterId}
    {priority : Nat} {existing : α} {path low high : List UInt8} {ends : Bool}
    (same : carriedByte low = carriedByte high) :
    (Below.edges [(slash, Node.catchAll name hits priority existing)]).respell fix path 0 low ends =
      (Below.edges [(slash, Node.catchAll name hits priority existing)]).respell fix path 0 high
        ends := by
  simp [Below.respell, respellEdges, Node.respell, same]

theorem partsTwins_static {below : Below α} (ih : below.PartsTwins) (label : List UInt8)
    (priority : Nat) (existing : Option α) :
    (Node.static label priority existing below).PartsTwins := by
  intro index c k low high path front ends sound spelled forms same plain fixed other
  rw [Node.respell] at plain fixed other
  by_cases matched : matchesLoosely label path = true
  · rw [if_pos matched] at plain fixed other
    rw [Option.isSome_map] at fixed other
    rw [Option.map_eq_none_iff] at plain
    obtain ⟨hbelow, -, hlabel | ⟨rfl, -, rfl, name, hits, priority', existing', rfl⟩⟩ := sound
    · have pos : label.length ≠ 0 := by
        rintro h
        rw [List.eq_nil_of_length_eq_zero h] at hlabel
        cases hlabel
      obtain ⟨hfront, hwhole⟩ := spelled.below
      have parts := ih c k label.length low high path (front ++ label) existing.isSome hbelow hfront
        hwhole forms pos plain fixed other
      exact (parts.mono (List.subset_append_right ..)).prepend (label.map .byte)
    · rw [List.length_nil, ← respell_doorway_carried same, ← List.length_nil (α := UInt8),
        plain] at other
      cases other
  · rw [if_neg matched] at other
    simp at other

theorem partsTwins_catchAll (name : List UInt8) (hits : CounterId) (priority : Nat)
    (existing : α) : (Node.catchAll name hits priority existing).PartsTwins := by
  intro index c k low high path front ends sound spelled forms same plain
  rw [Node.respell] at plain
  cases plain

theorem partsTwins_edges {es : List (Edge α)} (ih : ∀ edge ∈ es, edge.2.PartsTwins) :
    (Below.edges es).PartsTwins := by
  intro c k n low high path front ends sound spelled whole forms pos plain fixed other
  by_cases goesOn : path.drop n = []
  · -- at the end of the path nothing that is carried counts
    have same : (Below.edges es).respell false path n low ends =
        (Below.edges es).respell false path n high ends := by
      rw [Below.respell, Below.respell]
      simp [goesOn]
    rw [← same, plain] at other
    cases other
  · rw [respell_edges_eq _ goesOn] at plain fixed other
    have rest := forms.drop n
    cases hlow : low.drop n with
    | nil =>
        rw [hlow] at plain rest
        rw [rest.eq_nil_iff.mp rfl, plain] at other
        cases other
    | cons b low' =>
        obtain ⟨b', high', hhigh⟩ := List.exists_cons_of_ne_nil
          (mt rest.eq_nil_iff.mpr (by rw [hlow]; exact List.cons_ne_nil b low'))
        rw [hlow] at plain fixed
        rw [hhigh] at other
        rw [hlow, hhigh] at rest
        have inner : k + n ≠ 0 := by omega
        have continues := Utf8.isContinuation_of_drop inner rest.high
        rw [if_pos (ne_zero_of_drop inner rest.low)] at plain fixed
        rw [if_pos (ne_zero_of_drop inner rest.high)] at other
        split at other
        · by_cases branch : es.any (·.1 = carriedByte (b :: low')) = true
          · rw [if_pos branch] at plain fixed
            exact partsByCase_along ih sound spelled rest plain fixed other
          · -- a slash is given up where a route ends, and the other one goes on there
            rw [if_neg branch] at fixed
            obtain ⟨found, hfound⟩ := Option.isSome_iff_exists.mp other
            obtain ⟨edge, hedge, hindex, -⟩ := respellEdges_eq_some hfound
            obtain ⟨tail, handler, hroute⟩ :=
              ((Below.sound_edges_iff.mp sound).2 edge hedge).exists_route
            have hends : ends = true := by
              unfold unslashed at fixed
              split at fixed
              · next hall => exact (Bool.and_eq_true_iff.mp hall).2
              · cases fixed
            have starts := (spelled _ (listing_subset_edges hedge hroute)).next (whole hends)
            rw [hindex] at starts
            exact absurd (starts.symm.trans continues) Bool.false_ne_true
        · cases other

theorem partsTwins_param (name : List UInt8) (hits : CounterId) (priority : Nat)
    (existing : Option α) (next : Option (Node α)) :
    (Below.param name hits priority existing next).PartsTwins := by
  intro c k n low high path front ends sound spelled whole forms pos plain fixed other
  rw [Below.respell] at plain other
  rw [plain] at other
  cases other

/-- Two forms of a character that lead apart do so where routes part. -/
theorem parts_twins :
    (∀ node : Node α, node.PartsTwins) ∧ ∀ below : Below α, below.PartsTwins := by
  refine tree_induction ?static ?catchAll ?edges ?param
  case static =>
    intro label priority existing below ih
    exact partsTwins_static ih label priority existing
  case catchAll => exact partsTwins_catchAll
  case edges =>
    intro es ih
    exact partsTwins_edges ih
  case param =>
    intro name hits priority existing next _
    exact partsTwins_param name hits priority existing next

end RadixRouter

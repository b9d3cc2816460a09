/-
# Routes in each other's way

`rivalry` compares a registered route with a new one, token by token, and says whether the two
cannot stand together and why.  `standing` is the verdict of a whole listing: the gravest of
the rivalries of its routes, so it does not depend on their order.

The catch-all token comes after its slash, and that slash is shared with every route that goes
on or ends there.  So a new catch-all also fails against a route that ends with the slash.
-/

import RadixRouter.Proofs.TreeShape
import RadixRouter.Tree.Insert

namespace RadixRouter

variable {α : Type}

/-- Why two routes cannot stand together, the least grave first. -/
inductive Rivalry where
  | duplicate
  | catchAll
  | wildcard
deriving DecidableEq

/-- What a clash is about. -/
def Clash.kind : Clash → Rivalry
  | .duplicate => .duplicate
  | .wildcard .. => .wildcard
  | .catchAll .. => .catchAll

/-- The kind of clash in a verdict. -/
def refusal? : Except Clash CounterId → Option Rivalry
  | .ok _ => none
  | .error clash => some clash.kind

/-- Two different tokens after the same text. -/
def parting : (old new : Token) → Option Rivalry
  | .byte _, .byte _ => none
  | .byte _, .catchAll _ => some .catchAll
  | _, _ => some .wildcard

/-- Why a new route cannot stand beside an old one, if it cannot. -/
def rivalry : (old new : List Token) → Option Rivalry
  | [], [] => some .duplicate
  | [], .catchAll _ :: _ => some .catchAll
  | [], _ :: _ => none
  | .catchAll _ :: _, [] => some .wildcard
  | _ :: _, [] => none
  | old :: olds, new :: news => if old = new then rivalry olds news else parting old new

/-- The graver of two verdicts. -/
def graver : Option Rivalry → Option Rivalry → Option Rivalry
  | some .wildcard, _ => some .wildcard
  | _, some .wildcard => some .wildcard
  | some .catchAll, _ => some .catchAll
  | _, some .catchAll => some .catchAll
  | some .duplicate, _ => some .duplicate
  | none, other => other

/-- The gravest rivalry of a new route with the routes of a listing. -/
def standing (listing : List (List Token × α)) (new : List Token) : Option Rivalry :=
  listing.foldr (fun route verdict => graver (rivalry route.1 new) verdict) none

theorem graver_none (verdict : Option Rivalry) : graver verdict none = verdict := by
  rcases verdict with _ | _ | _ | _ <;> rfl

theorem none_graver (verdict : Option Rivalry) : graver none verdict = verdict := by
  rcases verdict with _ | _ | _ | _ <;> rfl

theorem graver_self (verdict : Option Rivalry) : graver verdict verdict = verdict := by
  rcases verdict with _ | _ | _ | _ <;> rfl

theorem graver_comm (first second : Option Rivalry) :
    graver first second = graver second first := by
  rcases first with _ | _ | _ | _ <;> rcases second with _ | _ | _ | _ <;> rfl

theorem graver_assoc (first second third : Option Rivalry) :
    graver (graver first second) third = graver first (graver second third) := by
  rcases first with _ | _ | _ | _ <;> rcases second with _ | _ | _ | _ <;>
    rcases third with _ | _ | _ | _ <;> rfl

theorem graver_eq_none_iff {first second : Option Rivalry} :
    graver first second = none ↔ first = none ∧ second = none := by
  rcases first with _ | _ | _ | _ <;> rcases second with _ | _ | _ | _ <;> simp [graver]

theorem graver_eq_some {first second : Option Rivalry} {kind : Rivalry}
    (graver_eq : graver first second = some kind) : first = some kind ∨ second = some kind := by
  rcases first with _ | _ | _ | _ <;> rcases second with _ | _ | _ | _ <;>
    simp_all [graver]

@[simp]
theorem standing_nil (new : List Token) :
    standing ([] : List (List Token × α)) new = none := rfl

@[simp]
theorem standing_cons (route : List Token × α) (listing : List (List Token × α))
    (new : List Token) :
    standing (route :: listing) new = graver (rivalry route.1 new) (standing listing new) := rfl

theorem standing_append (first second : List (List Token × α)) (new : List Token) :
    standing (first ++ second) new = graver (standing first new) (standing second new) := by
  induction first with
  | nil => exact (none_graver _).symm
  | cons route first ih => rw [List.cons_append, standing_cons, ih, standing_cons, graver_assoc]

/-- The order of the routes does not matter. -/
theorem standing_perm {first second : List (List Token × α)} (same : first.Perm second)
    (new : List Token) : standing first new = standing second new := by
  induction same with
  | nil => rfl
  | cons route _ ih => rw [standing_cons, standing_cons, ih]
  | swap route route' listing =>
      rw [standing_cons, standing_cons, standing_cons, standing_cons, ← graver_assoc,
        ← graver_assoc, graver_comm (rivalry route.1 new)]
  | trans _ _ first second => exact first.trans second

theorem standing_eq_none_iff {listing : List (List Token × α)} {new : List Token} :
    standing listing new = none ↔ ∀ route ∈ listing, rivalry route.1 new = none := by
  induction listing with
  | nil => simp
  | cons route listing ih => simp [graver_eq_none_iff, ih]

/-- The gravest rivalry is that of some route. -/
theorem exists_of_standing {listing : List (List Token × α)} {new : List Token} {kind : Rivalry}
    (refused : standing listing new = some kind) :
    ∃ route ∈ listing, rivalry route.1 new = some kind := by
  induction listing with
  | nil => cases refused
  | cons route listing ih =>
      rw [standing_cons] at refused
      rcases graver_eq_some refused with h | h
      · exact ⟨route, List.mem_cons_self .., h⟩
      · obtain ⟨route', hmem, hroute'⟩ := ih h
        exact ⟨route', List.mem_cons_of_mem _ hmem, hroute'⟩

/-- Where every route says the same, so does the listing. -/
theorem standing_eq_of_forall {listing : List (List Token × α)} {new : List Token}
    {verdict : Option Rivalry} (nonempty : listing ≠ [])
    (same : ∀ route ∈ listing, rivalry route.1 new = verdict) :
    standing listing new = verdict := by
  induction listing with
  | nil => exact absurd rfl nonempty
  | cons route listing ih =>
      rw [List.forall_mem_cons] at same
      rw [standing_cons, same.1]
      cases listing with
      | nil => exact graver_none verdict
      | cons other listing => rw [ih (List.cons_ne_nil _ _) same.2, graver_self]

theorem rivalry_of_ne {first second : Token} (different : first ≠ second)
    (old new : List Token) : rivalry (first :: old) (second :: new) = parting first second := by
  rw [rivalry, if_neg different]

theorem rivalry_cons_self (token : Token) (old new : List Token) :
    rivalry (token :: old) (token :: new) = rivalry old new := by
  rw [rivalry, if_pos rfl]

theorem rivalry_append_left (shared old new : List Token) :
    rivalry (shared ++ old) (shared ++ new) = rivalry old new := by
  induction shared with
  | nil => rfl
  | cons token shared ih => rw [List.cons_append, List.cons_append, rivalry_cons_self, ih]

theorem standing_prependTokens (shared : List Token) (listing : List (List Token × α))
    (new : List Token) :
    standing (prependTokens shared listing) (shared ++ new) = standing listing new := by
  induction listing with
  | nil => rfl
  | cons route listing ih =>
      rw [standing_cons, ← ih, ← rivalry_append_left shared route.1 new]
      rfl

end RadixRouter

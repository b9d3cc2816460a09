/-
# New records

Where a pattern leaves a tree, `RawNode.extend` builds the records of its rest, wildcard by
wildcard, below a record that has nothing in their way.  Every access is guarded.

For the patterns that the grammar lets through no guard fails, and the new records stand for the
new nodes: `growsTo` on a new record, `extend_param_grown` on one that is there already.
-/

import RadixRouter.Proofs.PlainPartings
import RadixRouter.Proofs.RecordGrammar
import RadixRouter.Proofs.Records
import RadixRouter.Router.Basic

namespace RadixRouter

open Guard
open Pattern (IsName Proper head_byte_ne_catchAll head_param_ne_catchAll nextWildcard?
  nextWildcard?_eq nextWildcard?_plain)

variable {α : Type}

/-- What an insertion leaves: a record, the number of counters, and the answer. -/
structure Inserted (α : Type) where
  record : RawNode α
  tracked : Nat
  verdict : Except RouteError Unit

namespace RawNode

mutual

/-- The label of a record followed by the labels down to the first route below it. -/
def sample : RawNode α → List UInt8
  | ⟨label, _, _, _, _, children, handler⟩ =>
    label ++ if handler.isSome then [] else sampleFirst children

def sampleFirst : List (RawNode α) → List UInt8
  | [] => []
  | child :: _ => child.sample

end

/-- The part of a pattern that is placed when this much is left. -/
def placed? (pattern : String) (path : List UInt8) : Option String := do
  let bytes := Utf8.encode pattern
  return Utf8.decodeLossy (← takeTo? bytes (← minus? bytes.length path.length))

/-- The route in the way of what is left of a pattern. -/
def inTheWay? (pattern : String) (path : List UInt8) (n : RawNode α) : Option String := do
  return (← placed? pattern path) ++ Utf8.decodeLossy n.sample

/-- Takes the text in front of a parameter as the label, which stays where there is none. -/
def relabel? (label path : List UInt8) (start : Nat) : Option (List UInt8 × List UInt8) :=
  if 0 < start then do return (← takeTo? path start, ← dropFrom? path start)
  else some (label, path)

/-- Builds the records of what is left of a pattern. -/
def extend (pattern : String) (handler : α) (n : RawNode α) (path : List UInt8)
    (tracked : Nat) : Option (Inserted α) := do
  match ← nextWildcard? path with
  | none => return ⟨{ n with label := path, handler := some handler }, tracked, .ok ()⟩
  | some ⟨start, name, valid⟩ =>
    let refused (error : RouteError) : Inserted α := ⟨n, tracked, .error error⟩
    if !valid then
      return refused (.multipleWildcardsInSegment pattern (Utf8.decodeLossy name))
    if name.length < 2 then return refused (.namelessWildcard pattern (Utf8.decodeLossy name))
    let marker ← name[0]?
    match n.children.head? with
    | some first =>
      let existing ← inTheWay? pattern path first
      if marker = colon then
        return refused (.conflictingWildcard pattern (Utf8.decodeLossy name) existing)
      return refused (.catchAllConflictsWithChildren pattern existing)
    | none =>
      if marker = colon then
        let (label, path) ← relabel? n.label path start
        if name.length < path.length then
          let below ← (bud : RawNode α) |>.extend pattern handler (← dropFrom? path name.length)
            (tracked + 1)
          let child : RawNode α := { blank with
            label := name, kind := .param tracked, priority := 1, children := [below.record] }
          return { below with record := { n with label, wildChild := true, children := [child] } }
        let child : RawNode α := { blank with
          label := name, kind := .param tracked, priority := 1, handler := some handler }
        return ⟨{ n with label, wildChild := true, children := [child] }, tracked + 1, .ok ()⟩
      if start + name.length ≠ path.length then return refused (.catchAllMustBeLast pattern)
      if n.label.getLast? = some slash then
        return refused (.catchAllConflictsWithChildren pattern (← placed? pattern path))
      if start = 0 then return refused (.noSlashBeforeCatchAll pattern)
      let before ← minus? start 1
      if (← path[before]?) ≠ slash then return refused (.noSlashBeforeCatchAll pattern)
      let leaf : RawNode α := { blank with
        label := ← dropFrom? path before, kind := .catchAll tracked, priority := 1,
        handler := some handler }
      let slot : RawNode α := { blank with
        wildChild := true, kind := .catchAll tracked, priority := 1, children := [leaf] }
      return ⟨{ n with label := ← takeTo? path before, indices := [slash], children := [slot] },
        tracked + 1, .ok ()⟩
partial_fixpoint

end RawNode

/-- The first route below a record is that below its node. -/
theorem sample_eq :
    (∀ (node : Node α) (top : Bool) (record : RawNode α), Stored top node record →
        record.sample = node.sample) ∧
      ∀ (below : Below α) (indices : List UInt8) (wildChild : Bool) (children : List (RawNode α)),
        StoredBelow below indices wildChild children →
          RawNode.sampleFirst children = below.sample := by
  refine tree_induction ?static ?catchAll ?edges ?param
  case static =>
    intro label priority handler below ih top record stored
    obtain ⟨_, indices, wildChild, _, _, children, _⟩ := record
    cases stored with
    | static stored => rw [RawNode.sample, Node.sample, ih _ _ _ stored]
  case catchAll =>
    intro name hits priority handler top record stored
    cases stored with
    | catchAll =>
        simp [RawNode.slot, RawNode.leaf, RawNode.sample, RawNode.sampleFirst, Node.sample]
  case edges =>
    intro es ih indices wildChild children stored
    cases stored with
    | edges stored =>
        cases stored with
        | nil => rfl
        | cons hchild _ => exact ih _ (List.mem_cons_self ..) _ _ hchild
  case param =>
    intro name hits priority handler next ih indices wildChild children stored
    cases stored with
    | last => rfl
    | next stored =>
        rw [RawNode.sampleFirst, RawNode.value, RawNode.sample, RawNode.sampleFirst,
          ih _ rfl _ _ stored]
        rfl

theorem inTheWay_eq_append (pattern : String) (rest : List Token) (existing : List UInt8) :
    Router.refusal.inTheWay pattern rest existing =
      Router.refusal.inTheWay pattern rest [] ++ Utf8.decodeLossy existing := by
  show _ = _ ++ "" ++ _
  rw [String.append_empty]
  rfl

/-- Naming the route in the way, no access is out of bounds. -/
theorem placed?_eq {pattern : String} {rest : List Token}
    (within : (Pattern.bytes rest).length ≤ (Utf8.encode pattern).length) :
    RawNode.placed? pattern (Pattern.bytes rest) =
      some (Router.refusal.inTheWay pattern rest []) := by
  show _ = some (_ ++ "")
  rw [RawNode.placed?, minus?_of_le within, Option.bind_eq_bind, Option.bind_some,
    takeTo?_of_le (Nat.sub_le _ _), String.append_empty]
  rfl

theorem inTheWay?_eq {pattern : String} {rest : List Token}
    (within : (Pattern.bytes rest).length ≤ (Utf8.encode pattern).length) (n : RawNode α) :
    RawNode.inTheWay? pattern (Pattern.bytes rest) n =
      some (Router.refusal.inTheWay pattern rest n.sample) := by
  rw [RawNode.inTheWay?, placed?_eq within, inTheWay_eq_append pattern rest n.sample]
  rfl

section Steps

open RawNode (placed? inTheWay?)

variable (pattern : String) (handler : α) (tracked : Nat) {n : RawNode α}
  {literal name after : List UInt8} {marker : UInt8}

/-- A named wildcard after literal text is found. -/
theorem nextWildcard?_named (free : ∀ b ∈ literal, isMarker b = false)
    (opens : isMarker marker = true) (named : IsName name)
    (ended : after = [] ∨ ∃ rest, after = slash :: rest) :
    nextWildcard? (literal ++ marker :: (name ++ after)) =
      some (some ⟨literal.length, marker :: name, true⟩) := by
  rw [nextWildcard?_eq free opens named.no_slash ended, List.any_eq_false.mpr]
  · rfl
  · intro b hb
    rw [named.no_marker b hb]
    exact Bool.false_ne_true

theorem not_short_of_named (named : IsName name) (marker : UInt8) :
    ¬ (marker :: name).length < 2 := by
  have := List.length_pos_iff.mpr named.nonempty
  rw [List.length_cons]
  omega

/-- Text without wildcards becomes the label. -/
theorem extend_plain (free : ∀ b ∈ literal, isMarker b = false) :
    n.extend pattern handler literal tracked =
      some ⟨{ n with label := literal, handler := some handler }, tracked, .ok ()⟩ := by
  rw [RawNode.extend.eq_1, nextWildcard?_plain free]
  rfl

/-- A wildcard is refused where there are children. -/
theorem extend_refused {first : RawNode α} (free : ∀ b ∈ literal, isMarker b = false)
    (opens : isMarker marker = true) (named : IsName name)
    (ended : after = [] ∨ ∃ rest, after = slash :: rest) (child : n.children.head? = some first) :
    n.extend pattern handler (literal ++ marker :: (name ++ after)) tracked =
      (inTheWay? pattern (literal ++ marker :: (name ++ after)) first).map fun existing =>
        ⟨n, tracked, .error <|
          if marker = colon then
            .conflictingWildcard pattern (Utf8.decodeLossy (marker :: name)) existing
          else .catchAllConflictsWithChildren pattern existing⟩ := by
  rw [RawNode.extend.eq_1, nextWildcard?_named free opens named ended]
  simp only [Option.bind_eq_bind, Option.bind_some, Bool.not_true, Bool.false_eq_true, if_false,
    not_short_of_named named, List.getElem?_cons_zero, child]
  cases inTheWay? pattern (literal ++ marker :: (name ++ after)) first with
  | none => rfl
  | some existing => by_cases hcolon : marker = colon <;> simp [hcolon]

/-- A parameter becomes the only child, and what follows it is built below. -/
theorem extend_param (free : ∀ b ∈ literal, isMarker b = false) (named : IsName name)
    (ended : after = [] ∨ ∃ rest, after = slash :: rest) (childless : n.children = []) :
    n.extend pattern handler (literal ++ colon :: (name ++ after)) tracked =
      let label := if literal = [] then n.label else literal
      if after = [] then
        some ⟨{ n with
          label, wildChild := true,
          children := [.value name [] tracked 1 [] (some handler)] }, tracked + 1, .ok ()⟩
      else
        (RawNode.extend pattern handler .bud after (tracked + 1)).map
          fun below => { below with record := { n with
            label, wildChild := true,
            children := [.value name [] tracked 1 [below.record] none] } } := by
  have hrelabel : RawNode.relabel? n.label (literal ++ colon :: (name ++ after)) literal.length =
      some (if literal = [] then n.label else literal, (colon :: name) ++ after) := by
    rw [RawNode.relabel?, takeTo?_append rfl, dropFrom?_append rfl]
    cases literal <;> rfl
  rw [RawNode.extend.eq_1, nextWildcard?_named free rfl named ended]
  simp only [Option.bind_eq_bind, Option.bind_some, Bool.not_true, Bool.false_eq_true, if_false,
    not_short_of_named named, List.getElem?_cons_zero, childless, List.head?_nil, if_true, hrelabel,
    dropFrom?_append (rfl : (colon :: name).length = (colon :: name).length)]
  cases after with
  | nil => simp [RawNode.value, RawNode.blank]
  | cons b after =>
      rw [if_pos (by simp), if_neg (List.cons_ne_nil _ _)]
      cases RawNode.extend pattern handler .bud (b :: after) (tracked + 1) <;>
        rfl

/-- A catch-all takes the slash in front of it from the text. -/
theorem extend_catchAll (free : ∀ b ∈ literal, isMarker b = false) (named : IsName name)
    (childless : n.children = []) (unslashed : n.label.getLast? ≠ some slash) :
    n.extend pattern handler (literal ++ slash :: star :: name) tracked =
      some ⟨{ n with
        label := literal, indices := [slash], children := [.slot name tracked 1 handler] },
        tracked + 1, .ok ()⟩ := by
  have hfree : ∀ b ∈ literal ++ [slash], isMarker b = false := by
    intro b hb
    rcases List.mem_append.mp hb with h | h
    · exact free b h
    · rw [List.mem_singleton.mp h]
      rfl
  have hwild : nextWildcard? (literal ++ slash :: star :: name) =
      some (some ⟨literal.length + 1, star :: name, true⟩) := by
    have := nextWildcard?_named hfree (rfl : isMarker star = true) named (Or.inl rfl)
    simpa using this
  have hwhole : literal.length + 1 + (star :: name).length =
      (literal ++ slash :: star :: name).length := by
    simp only [List.length_append, List.length_cons]
    omega
  rw [RawNode.extend.eq_1, hwild]
  simp only [Option.bind_eq_bind, Option.bind_some, Bool.not_true, Bool.false_eq_true, if_false,
    not_short_of_named named, List.getElem?_cons_zero, childless, List.head?_nil, hwhole, unslashed,
    minus?_add_right, getElem?_middle rfl, dropFrom?_append rfl, takeTo?_append rfl]
  rw [if_neg (by decide), if_neg (not_not.mpr rfl), if_neg (Nat.succ_ne_zero _),
    if_neg (not_not.mpr rfl)]
  rfl

/-- A catch-all is refused where a label ends with the slash that it would take. -/
theorem extend_catchAll_closed (named : IsName name) (childless : n.children = [])
    (slashed : n.label.getLast? = some slash) :
    n.extend pattern handler (star :: name) tracked =
      (placed? pattern (star :: name)).map fun existing =>
        ⟨n, tracked, .error (.catchAllConflictsWithChildren pattern existing)⟩ := by
  have hwild : nextWildcard? ([] ++ star :: (name ++ [])) =
      some (some ⟨0, star :: name, true⟩) :=
    nextWildcard?_named (List.forall_mem_nil _) rfl named (Or.inl rfl)
  rw [List.nil_append, List.append_nil] at hwild
  rw [RawNode.extend.eq_1, hwild]
  simp only [Option.bind_eq_bind, Option.bind_some, Bool.not_true, Bool.false_eq_true, if_false,
    not_short_of_named named, List.getElem?_cons_zero, childless, List.head?_nil, slashed]
  rw [if_neg (by decide), if_neg (by simp), if_pos trivial]
  cases placed? pattern (star :: name) <;> rfl

end Steps

/-- Tokens start with literal text, which ends before a wildcard or with them. -/
theorem exists_literal {slashed : Bool} {rest : List Token} (proper : Proper slashed rest)
    (head : ∀ name, rest.head? ≠ some (.catchAll name)) :
    ∃ literal : List UInt8, (∀ b ∈ literal, isMarker b = false) ∧
      (rest = literal.map .byte ∨
        (∃ name after, rest = literal.map .byte ++ .param name :: after ∧ IsName name ∧
          (∀ token ∈ after.head?, token = .byte slash) ∧ Proper false after) ∨
        ∃ name, rest = literal.map .byte ++ [.byte slash, .catchAll name] ∧ IsName name) := by
  induction rest generalizing slashed with
  | nil => exact ⟨[], List.forall_mem_nil _, Or.inl rfl⟩
  | cons token rest ih =>
      cases token with
      | catchAll name => exact absurd rfl (head name)
      | param name => exact ⟨[], List.forall_mem_nil _, Or.inr (Or.inl ⟨name, rest, rfl, proper⟩)⟩
      | byte b =>
          obtain ⟨plain, proper⟩ := proper
          by_cases closing : ∃ name, rest.head? = some (.catchAll name)
          · obtain ⟨name, hname⟩ := closing
            obtain ⟨rest, rfl⟩ := List.head?_eq_some_iff.mp hname
            obtain ⟨hslash, named, rfl⟩ := proper
            obtain rfl : b = slash := by simpa using hslash
            exact ⟨[], List.forall_mem_nil _, Or.inr (Or.inr ⟨name, rfl, named⟩)⟩
          · obtain ⟨literal, free, hrest⟩ := ih proper fun name h => closing ⟨name, h⟩
            refine ⟨b :: literal, List.forall_mem_cons.mpr ⟨plain, free⟩, ?_⟩
            rcases hrest with rfl | ⟨name, after, rfl, hafter⟩ | ⟨name, rfl, named⟩
            · exact Or.inl rfl
            · exact Or.inr (Or.inl ⟨name, after, rfl, hafter⟩)
            · exact Or.inr (Or.inr ⟨name, rfl, named⟩)

/-- Literal text stands in front of the label of the first new node. -/
theorem ofTokens_literal_append {handler : α} {rest : List Token} {fresh used : CounterId}
    {label : List UInt8} {existing : Option α} {below : Below α}
    (head : ∀ name, rest.head? ≠ some (.catchAll name))
    (built : Node.ofTokens handler rest fresh = (.static label 1 existing below, used))
    (literal : List UInt8) :
    Node.ofTokens handler (literal.map .byte ++ rest) fresh =
      (.static (literal ++ label) 1 existing below, used) := by
  induction literal with
  | nil => exact built
  | cons b literal ih =>
      have hnext : ∀ name rest', literal.map .byte ++ rest = .catchAll name :: rest' → False := by
        intro name rest' h
        cases literal with
        | nil => exact head name (by rw [show rest = _ from h]; rfl)
        | cons c literal => cases h
      rw [List.map_cons, List.cons_append, Node.ofTokens.eq_6 handler fresh b _ hnext, ih]
      rfl

/-- What follows a parameter is written with a slash first. -/
theorem ended_of_slash {after : List Token} (slashed : ∀ token ∈ after.head?, token = .byte slash) :
    Pattern.bytes after = [] ∨ ∃ rest, Pattern.bytes after = slash :: rest := by
  cases after with
  | nil => exact Or.inl rfl
  | cons token after =>
      rw [slashed token rfl]
      exact Or.inr ⟨_, rfl⟩

/-- On a new record these tokens grow to the records of their new nodes. -/
def GrowsTo (pattern : String) (handler : α) (rest : List Token) : Prop :=
  ∀ fresh, ∃ record,
    RawNode.extend pattern handler .bud (Pattern.bytes rest) fresh =
        some ⟨record, (Node.ofTokens handler rest fresh).2, .ok ()⟩ ∧
      Stored false (Node.ofTokens handler rest fresh).1 record

/-- A parameter grows on any record without children, as soon as what follows it grows. -/
theorem extend_param_grown {pattern : String} {handler : α} {n : RawNode α}
    {literal name : List UInt8} {after : List Token} (free : ∀ b ∈ literal, isMarker b = false)
    (named : IsName name) (slashed : ∀ token ∈ after.head?, token = .byte slash)
    (childless : n.children = []) (grows : GrowsTo pattern handler after) (fresh : CounterId) :
    ∃ below used child, Node.ofTokens handler (.param name :: after) fresh =
        (.static [] 1 none below, used) ∧
      n.extend pattern handler (literal ++ Pattern.bytes (.param name :: after)) fresh =
        some ⟨{ n with
          label := if literal = [] then n.label else literal, wildChild := true,
          children := [child] }, used, .ok ()⟩ ∧
      StoredBelow below [] true [child] := by
  have hextend := extend_param pattern handler fresh free named (ended_of_slash slashed) childless
  rw [bytes_cons, Token.bytes, List.cons_append, hextend]
  cases after with
  | nil => exact ⟨_, _, _, rfl, rfl, .last⟩
  | cons token after =>
      obtain ⟨record, hbelow, stored⟩ := grows (fresh + 1)
      have hmore : Pattern.bytes (token :: after) ≠ [] := by
        rw [slashed token rfl]
        exact List.cons_ne_nil _ _
      dsimp only
      rw [if_neg hmore, hbelow]
      exact ⟨_, _, _, rfl, rfl, .next stored⟩

/-- The tokens of a pattern grow to the records of their new nodes. -/
theorem growsTo (pattern : String) (handler : α) {slashed : Bool} {rest : List Token}
    (proper : Proper slashed rest) (head : ∀ name, rest.head? ≠ some (.catchAll name)) :
    GrowsTo pattern handler rest := by
  intro fresh
  obtain ⟨literal, free,
    hrest | ⟨name, after, hrest, named, hslash, hafter⟩ | ⟨name, hrest, named⟩⟩ :=
    exists_literal proper head
  · have hbuilt : Node.ofTokens handler (literal.map .byte ++ []) fresh =
        (.static (literal ++ []) 1 (some handler) (.edges []), fresh) :=
      ofTokens_literal_append (fun _ h => by cases h) (Node.ofTokens.eq_1 handler fresh) literal
    rw [List.append_nil, List.append_nil] at hbuilt
    rw [hrest, hbuilt, Pattern.bytes_map_byte, extend_plain pattern handler fresh free]
    exact ⟨_, rfl, .static (.edges .nil)⟩
  · have shorter : after.length < rest.length := by
      rw [hrest, List.length_append, List.length_cons]
      omega
    have hgrows : GrowsTo pattern handler after :=
      growsTo pattern handler hafter fun name' h => by cases hslash _ h
    obtain ⟨below, used, child, hbuilt, hextend, stored⟩ :=
      extend_param_grown free named hslash (n := .bud) rfl hgrows fresh
    have hlabel : (if literal = [] then [] else literal) = literal := by
      cases literal <;> rfl
    rw [hrest, ofTokens_literal_append (head_param_ne_catchAll name after) hbuilt,
      bytes_literal_append, hextend, List.append_nil]
    refine ⟨_, rfl, ?_⟩
    show Stored false _ ⟨if literal = [] then [] else literal, _, _, _, _, _, _⟩
    rw [hlabel]
    exact .static stored
  · have hbuilt : Node.ofTokens handler [.byte slash, .catchAll name] fresh =
        (.static [] 1 none (.edges [(slash, .catchAll name fresh 1 handler)]), fresh + 1) := rfl
    have hbytes : Pattern.bytes [.byte slash, .catchAll name] = slash :: star :: name := by
      simp [Pattern.bytes, Token.bytes]
    rw [hrest, ofTokens_literal_append (head_byte_ne_catchAll slash _) hbuilt, bytes_literal_append,
      hbytes, extend_catchAll pattern handler fresh free named rfl (fun h => by cases h),
      List.append_nil]
    exact ⟨_, rfl, .static (.edges (.cons .catchAll .nil))⟩
termination_by rest.length

end RadixRouter

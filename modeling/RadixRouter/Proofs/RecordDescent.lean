/-
# Descent by positions

`RawNode.descend` carries what is left of a pattern into a record and cuts its label where they
part; `RawNode.goOn` goes on below a label, into a wildcard, along an index byte or with new
records.  Each record on the way counts one route more before it is entered.  Every access and
every sum is guarded.

Here are the steps of the descent: what it does at a label, at a parameter, behind a catch-all
and where nothing takes the next byte.
-/

import RadixRouter.Proofs.RecordGrowth
import RadixRouter.Proofs.RecordOrder

namespace RadixRouter

open Guard
open Pattern (IsName Proper)

variable {α : Type}

/-- The number of bytes that two texts share. -/
def commonLength (first second : List UInt8) : Nat :=
  ((first.zip second).takeWhile fun (b, c) => b = c).length

/-- Puts the record that an insertion leaves back among the children. -/
def Inserted.under (below : Inserted α) (n : RawNode α) (pos : Nat) : Inserted α :=
  { below with record := { n with children := n.children.set pos below.record } }

namespace RawNode

/-- Cuts a label; what is behind the cut becomes the only child. -/
def cut? (n : RawNode α) (i : Nat) : Option (RawNode α) :=
  if i < n.label.length then do
    let suffix ← dropFrom? n.label i
    let lower : RawNode α := { n with label := suffix, kind := .static, priority := n.priority - 1 }
    return { n with
      label := ← takeTo? n.label i, indices := [← suffix[0]?], wildChild := false,
      children := [lower], handler := none }
  else some n

/-- Whether a pattern that goes on with this text can go on below this wildcard. -/
def accepts? (n : RawNode α) (path : List UInt8) : Option Bool := do
  if n.label.isPrefixOf path && !n.kind.isCatchAll then
    if path.length ≤ n.label.length then return true
    return (← path[n.label.length]?) = slash
  return false

mutual

/-- Adds the route at or below a record. -/
def descend (pattern : String) (handler : α) (n : RawNode α) (path : List UInt8) (tracked : Nat) :
    Option (Inserted α) := do
  let i := commonLength path n.label
  let n ← n.cut? i
  if i = path.length then
    match n.handler with
    | some _ => return ⟨n, tracked, .error (.duplicateRoute pattern)⟩
    | none => return ⟨{ n with handler := some handler }, tracked, .ok ()⟩
  n |>.goOn pattern handler (← dropFrom? path i) tracked
partial_fixpoint

/-- Adds the route below a label. -/
def goOn (pattern : String) (handler : α) (n : RawNode α) (path : List UInt8) (tracked : Nat) :
    Option (Inserted α) := do
  if n.wildChild then
    let child ← (← n.children[0]?).bump?
    if ← child.accepts? path then
      return (← child |>.descend pattern handler path tracked).under n 0
    let refused (error : RouteError) : Inserted α :=
      ⟨{ n with children := n.children.set 0 child }, tracked, .error error⟩
    if child.kind.isCatchAll && path = child.label then return refused (.duplicateRoute pattern)
    let segment := if child.kind.isCatchAll then path else untilSlash path
    return refused (.conflictingWildcard pattern (Utf8.decodeLossy segment)
      (← inTheWay? pattern path child))
  let b ← path[0]?
  if n.kind.isParam && b = slash && n.children.length = 1 then
    let child ← (← n.children[0]?).bump?
    return (← child |>.descend pattern handler path tracked).under n 0
  match n.indices.findIdx? (· = b) with
  | some pos =>
    let (n, place) ← n.raise? pos
    return (← (← n.children[place]?) |>.descend pattern handler path tracked).under n place
  | none =>
    if isMarker b then extend pattern handler n path tracked
    else
      let n := { n with indices := n.indices ++ [b], children := n.children ++ [blank] }
      let (n, place) ← n.raise? (← minus? n.indices.length 1)
      return (← extend pattern handler (← n.children[place]?) path tracked).under n place
partial_fixpoint

end

end RawNode

section Label

variable (pattern : String) (handler : α)

theorem commonLength_append (common first second : List UInt8) :
    commonLength (common ++ first) (common ++ second) =
      common.length + commonLength first second := by
  induction common with
  | nil => rw [List.nil_append, List.nil_append, List.length_nil, Nat.zero_add]
  | cons c common ih =>
      rw [List.length_cons, Nat.add_right_comm, ← ih]
      simp [commonLength]

theorem commonLength_apart {first second : List UInt8}
    (apart : ∀ b ∈ second.head?, first.head? ≠ some b) : commonLength first second = 0 := by
  cases first with
  | nil => rfl
  | cons b first =>
      cases second with
      | nil => rfl
      | cons c second =>
          have hne : b ≠ c := fun h => apart c rfl (congrArg some h)
          simp [commonLength, hne]

/-- Where text and label part, the label is cut. -/
theorem descend_cut {path : List UInt8} {b : UInt8} (apart : path.head? ≠ some b)
    (common suffix indices : List UInt8) (wildChild : Bool) (kind : Kind) (priority : Nat)
    (children : List (RawNode α)) (existing : Option α) (tracked : Nat) :
    RawNode.descend pattern handler
        ⟨common ++ b :: suffix, indices, wildChild, kind, priority + 1, children, existing⟩
        (common ++ path) tracked =
      let lower : RawNode α :=
        ⟨b :: suffix, indices, wildChild, .static, priority, children, existing⟩
      if path = [] then
        some ⟨⟨common, [b], false, kind, priority + 1, [lower], some handler⟩, tracked, .ok ()⟩
      else
        RawNode.goOn pattern handler ⟨common, [b], false, kind, priority + 1, [lower], none⟩ path
          tracked := by
  have hcommon : commonLength (common ++ path) (common ++ b :: suffix) = common.length := by
    rw [commonLength_append, commonLength_apart (by simpa using apart), Nat.add_zero]
  rw [RawNode.descend.eq_1]
  simp only [hcommon, RawNode.cut?, List.length_append, List.length_cons, Option.bind_eq_bind,
    dropFrom?_append rfl, takeTo?_append rfl, Option.bind_some, List.getElem?_cons_zero]
  rw [if_pos (by omega)]
  cases path with
  | nil => simp
  | cons c path => simp

/-- Where text and label agree to the end of the label, the label stays. -/
theorem descend_whole (n : RawNode α) (path : List UInt8) (tracked : Nat) :
    n.descend pattern handler (n.label ++ path) tracked =
      if path = [] then
        match n.handler with
        | some _ => some ⟨n, tracked, .error (.duplicateRoute pattern)⟩
        | none => some ⟨{ n with handler := some handler }, tracked, .ok ()⟩
      else n.goOn pattern handler path tracked := by
  have hcommon : commonLength (n.label ++ path) n.label = n.label.length := by
    have hpast : commonLength path [] = 0 := commonLength_apart nofun
    have h := commonLength_append n.label path []
    rwa [List.append_nil, hpast] at h
  rw [RawNode.descend.eq_1]
  simp only [hcommon, RawNode.cut?, Nat.lt_irrefl, if_false, Option.bind_eq_bind, Option.bind_some,
    dropFrom?_append rfl, List.length_append]
  cases path with
  | nil => simp only [List.length_nil, Nat.add_zero, if_true, pure]
  | cons c path => simp

end Label

section Wild

variable {pattern : String} {handler existing : α} {n : RawNode α} {name indices after : List UInt8}
  {hits priority tracked : Nat} {children : List (RawNode α)} {ending : Option α}

/-- Only the same parameter is gone on below. -/
theorem accepts?_same (ended : after = [] ∨ ∃ rest, after = slash :: rest) :
    (RawNode.value name indices hits priority children ending).accepts?
      (colon :: (name ++ after)) = some true := by
  rcases ended with rfl | ⟨rest, rfl⟩ <;>
    simp [RawNode.accepts?, RawNode.value, Kind.isCatchAll]

theorem accepts?_other {token : Token} {rest : List Token} {slashed : Bool} (named : IsName name)
    (proper : Proper slashed (token :: rest)) (different : token ≠ .param name) :
    (RawNode.value name indices hits priority children ending).accepts?
      (Pattern.bytes (token :: rest)) = some false := by
  rw [RawNode.accepts?]
  by_cases fits : (colon :: name).isPrefixOf (Pattern.bytes (token :: rest)) = true
  · obtain ⟨after, hafter⟩ := List.isPrefixOf_iff_prefix.mp fits
    cases token with
    | byte b =>
        obtain rfl : colon = b := (List.cons.inj hafter).1
        cases proper.1
    | catchAll name' => cases (List.cons.inj hafter).1
    | param name' =>
        obtain ⟨named', slashed, -⟩ := proper
        have hname : name ++ after = name' ++ Pattern.bytes rest := (List.cons.inj hafter).2
        have hmore : ¬ (after = [] ∨ ∃ rest, after = slash :: rest) := by
          intro ended
          refine different (congrArg Token.param ?_)
          rw [← (Pattern.untilSlash_append named'.no_slash (ended_of_slash slashed)).1, ← hname,
            (Pattern.untilSlash_append named.no_slash ended).1]
        cases after with
        | nil => exact absurd (Or.inl rfl) hmore
        | cons c after =>
            have hc : c ≠ slash := fun h => hmore (Or.inr ⟨after, by rw [h]⟩)
            rw [← hafter]
            simp [RawNode.value, Kind.isCatchAll, hc]
  · simp [RawNode.value, fits]

theorem bump?_value (fits : priority + 1 < 2 ^ 32) :
    (RawNode.value name indices hits priority children ending).bump? =
      some (.value name indices hits (priority + 1) children ending) := bump?_eq fits

theorem bump?_leaf (fits : priority + 1 < 2 ^ 32) :
    (RawNode.leaf name hits priority existing).bump? =
      some (.leaf name hits (priority + 1) existing) := bump?_eq fits

/-- The same parameter is entered. -/
theorem goOn_same {label indices' : List UInt8} {kind : Kind} {count : Nat} {own : Option α}
    (ended : after = [] ∨ ∃ rest, after = slash :: rest) (fits : priority + 1 < 2 ^ 32) :
    RawNode.goOn pattern handler
        ⟨label, indices', true, kind, count,
          [.value name indices hits priority children ending], own⟩
        (colon :: (name ++ after)) tracked =
      (RawNode.descend pattern handler (.value name indices hits (priority + 1) children ending)
        (colon :: (name ++ after)) tracked).map fun below =>
          { below with record := ⟨label, indices', true, kind, count, [below.record], own⟩ } := by
  rw [RawNode.goOn.eq_1]
  simp only [if_true, List.getElem?_cons_zero, Option.bind_eq_bind, Option.bind_some,
    bump?_value fits, accepts?_same ended]
  cases RawNode.descend pattern handler _ (colon :: (name ++ after)) tracked <;> rfl

/-- Anything else is refused at a parameter. -/
theorem goOn_other {label indices' : List UInt8} {kind : Kind} {count : Nat} {own : Option α}
    {token : Token} {rest : List Token} {slashed : Bool} (named : IsName name)
    (proper : Proper slashed (token :: rest)) (different : token ≠ .param name)
    (within : (Pattern.bytes (token :: rest)).length ≤ (Utf8.encode pattern).length)
    (fits : priority + 1 < 2 ^ 32) :
    RawNode.goOn pattern handler
        ⟨label, indices', true, kind, count,
          [.value name indices hits priority children ending], own⟩
        (Pattern.bytes (token :: rest)) tracked =
      some ⟨⟨label, indices', true, kind, count,
          [.value name indices hits (priority + 1) children ending], own⟩, tracked,
        .error (Router.refusal pattern (.wildcard (token :: rest)
          (untilSlash (Pattern.bytes (token :: rest)))
          (RawNode.value name indices hits priority children ending).sample))⟩ := by
  have hkind : (RawNode.value name indices hits (priority + 1) children ending).kind.isCatchAll =
      false := rfl
  rw [RawNode.goOn.eq_1]
  simp only [if_true, List.getElem?_cons_zero, Option.bind_eq_bind, Option.bind_some,
    bump?_value fits, accepts?_other named proper different, Bool.false_eq_true, if_false, hkind,
    Bool.false_and, inTheWay?_eq within]
  rfl

/-- What follows a parameter is entered without its index byte. -/
theorem goOn_value {child : RawNode α} {path : List UInt8} (fits : child.priority + 1 < 2 ^ 32) :
    (RawNode.value name indices hits priority [child] ending).goOn pattern handler (slash :: path)
        tracked =
      (RawNode.descend pattern handler { child with priority := child.priority + 1 } (slash :: path)
        tracked).map fun below =>
          { below with record := .value name indices hits priority [below.record] ending } := by
  have hparam : (Kind.param hits).isParam = true := rfl
  rw [RawNode.goOn.eq_1]
  simp only [RawNode.value, Bool.false_eq_true, if_false, List.getElem?_cons_zero,
    Option.bind_eq_bind, Option.bind_some, hparam, List.length_singleton, decide_true,
    Bool.and_self, if_true, bump?_eq fits]
  cases RawNode.descend pattern handler _ (slash :: path) tracked <;> rfl

/-- The tokens of a catch-all behind its slash. -/
theorem bytes_eq_catchAll_iff {rest : List Token} {slashed : Bool} (proper : Proper slashed rest)
    (head : rest.head? = some (.byte slash)) :
    Pattern.bytes rest = slash :: star :: name ↔ rest = [.byte slash, .catchAll name] := by
  obtain ⟨rest, rfl⟩ := List.head?_eq_some_iff.mp head
  rw [bytes_cons, Token.bytes, List.singleton_append, List.cons.injEq, List.cons.injEq]
  refine and_congr (iff_of_true rfl rfl) ?_
  constructor
  · intro h
    obtain ⟨-, proper⟩ := proper
    cases rest with
    | nil => cases h
    | cons token rest =>
        cases token with
        | byte b =>
            obtain rfl : b = star := (List.cons.inj h).1
            cases proper.1
        | param name' => cases (List.cons.inj h).1
        | catchAll name' =>
            obtain ⟨-, -, rfl⟩ := proper
            simpa [Pattern.bytes, Token.bytes] using h
  · rintro rfl
    simp [Pattern.bytes, Token.bytes]

/-- Whatever comes behind the slash of a catch-all is refused. -/
theorem descend_slot {rest : List Token} {slashed : Bool} (proper : Proper slashed rest)
    (head : rest.head? = some (.byte slash))
    (within : (Pattern.bytes rest).length ≤ (Utf8.encode pattern).length)
    (fits : priority + 1 < 2 ^ 32) :
    RawNode.descend pattern handler
        { RawNode.slot name hits priority existing with priority := priority + 1 }
        (Pattern.bytes rest) tracked =
      some ⟨.slot name hits (priority + 1) existing, tracked, .error <| Router.refusal pattern <|
        if rest = [.byte slash, .catchAll name] then .duplicate
        else .wildcard rest (Pattern.bytes rest) (slash :: star :: name)⟩ := by
  have hkind : (RawNode.leaf name hits (priority + 1) existing).kind.isCatchAll = true := rfl
  have hlabel : (RawNode.leaf name hits (priority + 1) existing).label =
      slash :: star :: name := rfl
  have haccepts (path : List UInt8) :
      (RawNode.leaf name hits (priority + 1) existing).accepts? path = some false := by
    simp [RawNode.accepts?, hkind]
  have hpath : Pattern.bytes rest ≠ [] := by
    obtain ⟨rest, rfl⟩ := List.head?_eq_some_iff.mp head
    exact List.cons_ne_nil _ _
  have hsample : (RawNode.leaf name hits (priority + 1) existing).sample =
      slash :: star :: name := by
    simp [RawNode.leaf, RawNode.sample]
  have hwhole := descend_whole pattern handler
    { RawNode.slot name hits priority existing with priority := priority + 1 } (Pattern.bytes rest)
    tracked
  rw [if_neg hpath] at hwhole
  refine hwhole.trans ?_
  rw [RawNode.goOn.eq_1]
  simp only [RawNode.slot, if_true, List.getElem?_cons_zero, Option.bind_eq_bind, Option.bind_some,
    bump?_leaf fits, haccepts, Bool.false_eq_true, if_false, hkind, Bool.true_and, hlabel,
    inTheWay?_eq within, hsample, bytes_eq_catchAll_iff proper head]
  by_cases twin : rest = [.byte slash, .catchAll name]
  · rw [if_pos twin, if_pos (decide_eq_true twin)]
    rfl
  · rw [if_neg twin, if_neg (by simpa using twin)]
    rfl

end Wild

section Edges

variable {pattern : String} {handler : α} {label path : List UInt8} {b : UInt8} {kind : Kind}
  {priority tracked : Nat} {own : Option α} {es before after : List (Edge α)} {child : RawNode α}
  {children front back : List (RawNode α)}

/-- A child that is raised is entered where it stops, and what is left of it there stands for the
edge that was raised. -/
theorem exists_raised {n : RawNode α} (free : b ∉ before.map (·.1))
    (hbefore : StoredEdges before front) (hafter : StoredEdges after back)
    (hindices : n.indices = before.map (·.1) ++ b :: after.map (·.1))
    (hchildren : n.children = front ++ child :: back) (fits : child.priority + 1 < 2 ^ 32) :
    ∃ raised place, n.raise? front.length = some (raised, place) ∧
      raised.children[place]? = some { child with priority := child.priority + 1 } ∧
      ∀ (below : Inserted α) (node : Node α), Stored false node below.record →
        node.priority = child.priority + 1 → ∃ indices' children',
          below.under raised place =
            { below with record := { n with indices := indices', children := children' } } ∧
          StoredBelow (.edges (raise b (before ++ (b, node) :: after))) indices' false
            children' := by
  obtain ⟨ahead, passed, front', back', rfl, hahead, hpassed, hraise, horder⟩ :=
    raise?_eq free hbefore hindices hchildren fits
  refine ⟨_, _, hraise, getElem?_middle rfl, fun below node stored count => ?_⟩
  have hstored : StoredEdges (ahead ++ (b, node) :: (passed ++ after))
      (front' ++ below.record :: (back' ++ back)) :=
    List.rel_append hahead (.cons stored (List.rel_append hpassed hafter))
  refine ⟨_, _, rfl, ?_⟩
  rw [horder node after count, set_middle rfl]
  have hindices' := StoredBelow.edges hstored
  simpa using hindices'

theorem findIdx?_of_free {indices : List UInt8} (free : b ∉ indices) :
    indices.findIdx? (· = b) = none := by
  rw [List.findIdx?_eq_none_iff]
  intro c hc
  exact decide_eq_false fun h => free (h ▸ hc)

/-- A wildcard that no child takes is built at the record itself. -/
theorem goOn_marker {n : RawNode α} (opens : isMarker b = true) (free : b ∉ n.indices)
    (closed : n.wildChild = false) :
    n.goOn pattern handler (b :: path) tracked =
      n.extend pattern handler (b :: path) tracked := by
  have hslash : b ≠ slash := by
    rintro rfl
    cases opens
  rw [RawNode.goOn.eq_1]
  simp only [closed, Bool.false_eq_true, if_false, List.getElem?_cons_zero, Option.bind_eq_bind,
    Option.bind_some, hslash, decide_false, Bool.and_false, Bool.false_and, findIdx?_of_free free,
    opens, if_true]

/-- The child of an index byte is raised and entered. -/
theorem goOn_edge {n : RawNode α} {node : Node α} (closed : n.wildChild = false)
    (noParam : n.kind.isParam = false) (free : b ∉ before.map (·.1))
    (hindices : n.indices = before.map (·.1) ++ b :: after.map (·.1))
    (hchildren : n.children = front ++ child :: back) (hbefore : StoredEdges before front)
    (hafter : StoredEdges after back) (fits : child.priority + 1 < 2 ^ 32) {below : Inserted α}
    (entered : RawNode.descend pattern handler { child with priority := child.priority + 1 }
      (b :: path) tracked = some below)
    (stored : Stored false node below.record) (count : node.priority = child.priority + 1) :
    ∃ indices' children',
      n.goOn pattern handler (b :: path) tracked =
        some { below with record := { n with indices := indices', children := children' } } ∧
      StoredBelow (.edges (raise b (before ++ (b, node) :: after))) indices' n.wildChild
        children' := by
  have hindex : n.indices.findIdx? (· = b) = some front.length := by
    have hpass : ∀ c ∈ before.map (·.1), decide (c = b) = false :=
      fun c hc => decide_eq_false fun h => free (h ▸ hc)
    rw [hindices, findIdx?_middle hpass (by simp), List.length_map, hbefore.length_eq]
  obtain ⟨raised, place, hraise, hchild, hunder⟩ :=
    exists_raised free hbefore hafter hindices hchildren fits
  obtain ⟨indices', children', hleft, hstored⟩ := hunder below node stored count
  refine ⟨indices', children', ?_, closed ▸ hstored⟩
  rw [RawNode.goOn.eq_1]
  simp only [closed, Bool.false_eq_true, if_false, List.getElem?_cons_zero, Option.bind_eq_bind,
    Option.bind_some, noParam, Bool.false_and, hindex, hraise, hchild, entered]
  rw [← closed]
  exact congrArg some hleft

/-- Where no child takes the next byte, a new one is raised and built. -/
theorem goOn_new {n : RawNode α} {node : Node α} (closed : n.wildChild = false)
    (noParam : n.kind.isParam = false ∨ n.children = []) (plain : isMarker b = false)
    (free : b ∉ es.map (·.1)) (hindices : n.indices = es.map (·.1))
    (hes : StoredEdges es n.children) {below : Inserted α}
    (built : RawNode.extend pattern handler .bud (b :: path) tracked = some below)
    (stored : Stored false node below.record) (count : node.priority = 1) :
    ∃ indices' children',
      n.goOn pattern handler (b :: path) tracked =
        some { below with record := { n with indices := indices', children := children' } } ∧
      StoredBelow (.edges (raise b (es ++ [(b, node)]))) indices' n.wildChild children' := by
  have hindex : n.indices.findIdx? (· = b) = none := by
    rw [hindices]
    exact findIdx?_of_free free
  have hplace : (n.indices ++ [b]).length = n.children.length + 1 := by
    rw [List.length_append, hindices, List.length_map, hes.length_eq]
    rfl
  have hparam : (n.kind.isParam && decide (b = slash) && decide (n.children.length = 1)) =
      false := by
    rcases noParam with h | h
    · rw [h, Bool.false_and, Bool.false_and]
    · rw [h, Bool.and_eq_false_iff]
      exact Or.inr rfl
  obtain ⟨raised, place, hraise, hchild, hunder⟩ := exists_raised
    (n := { n with indices := n.indices ++ [b], children := n.children ++ [.blank] })
    free hes .nil (by rw [hindices]; rfl) rfl (Nat.one_lt_two_pow (by decide))
  obtain ⟨indices', children', hleft, hstored⟩ := hunder below node stored count
  have hbud : raised.children[place]? = some .bud := hchild
  refine ⟨indices', children', ?_, closed ▸ hstored⟩
  rw [RawNode.goOn.eq_1]
  simp only [closed, Bool.false_eq_true, if_false, List.getElem?_cons_zero, Option.bind_eq_bind,
    Option.bind_some, hparam, hindex, plain, hplace, minus?_add_right]
  rw [← closed, hraise]
  simp only [Option.bind_some, hbud, built]
  exact congrArg some hleft

end Edges

end RadixRouter

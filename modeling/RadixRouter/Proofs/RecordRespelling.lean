/-
# Finding registered spellings on records

`RawNode.respell` looks for the registered spelling of a path as a loop over records.  The bytes
of a mapped character that are still to be followed are kept in four places, the spelling found
so far is written in front of what is to come, and the character at a cut is found by looking
back at most three bytes.  Every access is guarded.

On the records of a tree no guard fails, and the spelling is the one that `Node.respell` finds.
-/

import RadixRouter.Proofs.RecordWalk
import RadixRouter.Tree.Respell

namespace RadixRouter

open Guard
open SimpleCase (lower upper sameFold)

variable {α : Type}

/-- The bytes of a character that are still to be followed, with zeros behind them. -/
structure Carry where
  first : UInt8
  second : UInt8
  third : UInt8
  fourth : UInt8

namespace Carry

/-- Up to four bytes from the front of a list. -/
def ofBytes (bytes : List UInt8) : Carry :=
  ⟨bytes.getD 0 0, bytes.getD 1 0, bytes.getD 2 0, bytes.getD 3 0⟩

/-- Without the bytes that a label took. -/
def shift (carry : Carry) : Nat → Carry
  | 0 => carry
  | 1 => ⟨carry.second, carry.third, carry.fourth, 0⟩
  | 2 => ⟨carry.third, carry.fourth, 0, 0⟩
  | 3 => ⟨carry.fourth, 0, 0, 0⟩
  | _ => ofBytes []

/-- The bytes of a character, which must find room. -/
def encode? (c : Char) : Option Carry :=
  let bytes := Utf8.encodeChar c
  if bytes.length ≤ 4 then some (ofBytes bytes) else none

theorem first_ofBytes (bytes : List UInt8) : (ofBytes bytes).first = carriedByte bytes := by
  cases bytes <;> rfl

theorem shift_ofBytes {bytes : List UInt8} (room : bytes.length ≤ 4) (n : Nat) :
    (ofBytes bytes).shift n = ofBytes (bytes.drop n) := by
  have last : bytes[4]? = none := List.getElem?_eq_none room
  rcases n with _ | _ | _ | _ | n
  · rfl
  · simp [shift, ofBytes, last]
  · simp [shift, ofBytes, last, List.getElem?_eq_none (show bytes.length ≤ 5 by omega)]
  · simp [shift, ofBytes, last, List.getElem?_eq_none (show bytes.length ≤ 5 by omega),
      List.getElem?_eq_none (show bytes.length ≤ 6 by omega)]
  · rw [List.drop_eq_nil_of_le (by omega)]
    rfl

theorem length_encodeChar_le (c : Char) : (Utf8.encodeChar c).length ≤ 4 := by
  rw [Utf8.encodeChar, String.length_utf8EncodeChar]
  exact Char.utf8Size_le_four c

theorem encode?_eq (c : Char) : encode? c = some (ofBytes (Utf8.encodeChar c)) :=
  if_pos (length_encodeChar_le c)

end Carry

namespace RawNode

/-- The character that covers position `n` of a path, sought at the given distances before it. -/
def character? (path : List UInt8) (n : Nat) : List Nat → Option (Option (Char × Nat))
  | [] => some none
  | back :: further => do
    let i ← minus? n back
    if Utf8.isStart (← path[i]?) then
      return some (Utf8.firstChar (← dropFrom? path i), back)
    else character? path n further

/-- Whether a path starts with a label up to case, its first byte aside. -/
def loosely? (n : RawNode α) (path : List UInt8) : Option Bool := do
  if n.label.length ≤ path.length then
    if n.label.length = 0 then return true
    return sameFold (← between? path 1 n.label.length) (← dropFrom? n.label 1)
  return false

/-- Whether a route ends with a label that is a path up to case and one slash more. -/
def butSlash? (n : RawNode α) (path : List UInt8) : Option Bool := do
  if path ≠ [] ∧ path.length + 1 = n.label.length then
    if (← n.label[path.length]?) = slash then
      return sameFold (← dropFrom? path 1) (← between? n.label 1 path.length) && n.handler.isSome
  return false

mutual

/-- The registered spelling of a path from a record on, behind what is written already. -/
def respell (fix : Bool) (n : RawNode α) (path written : List UInt8) (carry : Carry)
    (above : Bool) : Option (Option (List UInt8)) := do
  if ← n.loosely? path then n |>.respellBelow fix path (written ++ n.label) carry
  else if fix then
    if path = [slash] then return if above then some written else none
    return if ← n.butSlash? path then some (written ++ n.label) else none
  else return none
partial_fixpoint

/-- The registered spelling of what follows the label of a record at the front of a path. -/
def respellBelow (fix : Bool) (n : RawNode α) (path written : List UInt8) (carry : Carry) :
    Option (Option (List UInt8)) := do
  let rest ← dropFrom? path n.label.length
  if rest = [] then
    if n.handler.isSome then return some written
    if fix then return if ← n.slashEnds? then some (written ++ [slash]) else none
    return none
  else if n.wildChild then
    let child ← n.children[0]?
    match child.kind with
    | .param _ =>
      let stop := (rest.findIdx? (· = slash)).getD rest.length
      if stop = 0 then return none
      let written := written ++ (← takeTo? rest stop)
      if stop < rest.length then
        match child.children.head? with
        | some next =>
          next |>.respell fix (← dropFrom? rest stop) written (.ofBytes []) child.handler.isSome
        | none => return if fix && rest.length = stop + 1 then some written else none
      else
        if child.handler.isSome then return some written
        if fix then return if ← child.loneSlash? then some (written ++ [slash]) else none
        return none
    | .catchAll _ => return if child.handler.isSome then some (written ++ rest) else none
    -- a wildcard child is never literal
    | .static | .root => none
  else
    let unslashed := if fix && rest = [slash] && n.handler.isSome then some written else none
    let carry := carry.shift n.label.length
    if carry.first ≠ 0 then n |>.respellAlong fix rest written carry unslashed
    else
      match ← character? path n.label.length (List.range (min n.label.length 3 + 1)) with
      | none => return unslashed
      | some (c, back) =>
        let low := (← Carry.encode? (lower c)).shift back
        match ← n |>.respellAlong fix rest written low none with
        | some spelling => return some spelling
        | none =>
          if upper c ≠ lower c then
            let high := (← Carry.encode? (upper c)).shift back
            n |>.respellAlong fix rest written high unslashed
          else return unslashed
partial_fixpoint

/-- The registered spelling of a path from the child of the carried byte on, if there is one. -/
def respellAlong (fix : Bool) (n : RawNode α) (path written : List UInt8) (carry : Carry)
    (otherwise : Option (List UInt8)) : Option (Option (List UInt8)) := do
  match n.indices.findIdx? (· = carry.first) with
  | some i =>
    let child ← n.children[i]?
    child |>.respell fix path written carry n.handler.isSome
  | none => return otherwise
partial_fixpoint

end

end RawNode

/-- The character that starts so many places before a position, if one does. -/
def startingAt (path : List UInt8) (n back : Nat) : Option (Char × Nat) :=
  match path.drop (n - back) with
  | b :: rest => if Utf8.isStart b then some (Utf8.firstChar (b :: rest), back) else none
  | [] => none

theorem characterAt_eq (path : List UInt8) (n : Nat) :
    characterAt path n = (List.range (min n 3 + 1)).findSome? (startingAt path n) := rfl

theorem character?_eq {path : List UInt8} {n : Nat} (inside : n < path.length) :
    RawNode.character? path n (List.range (min n 3 + 1)) = some (characterAt path n) := by
  suffices sought : ∀ distances : List Nat, (∀ back ∈ distances, back ≤ n) →
      RawNode.character? path n distances =
        some (distances.findSome? (startingAt path n)) by
    rw [characterAt_eq]
    refine sought _ fun back hback => ?_
    rw [List.mem_range] at hback
    omega
  intro distances near
  induction distances with
  | nil => rfl
  | cons back distances ih =>
      rw [List.forall_mem_cons] at near
      have place : n - back < path.length := by omega
      rw [RawNode.character?, minus?_of_le near.1, List.findSome?_cons, startingAt,
        List.drop_eq_getElem_cons place]
      simp only [Option.bind_eq_bind, Option.bind_some, List.getElem?_eq_getElem place,
        dropFrom?_of_le (Nat.le_of_lt place), ← List.drop_eq_getElem_cons place]
      split
      · rfl
      · exact ih near.2

theorem loosely?_eq (n : RawNode α) (path : List UInt8) :
    n.loosely? path = some (matchesLoosely n.label path) := by
  unfold RawNode.loosely? matchesLoosely
  by_cases hlength : n.label.length ≤ path.length
  · rw [if_pos hlength, decide_eq_true hlength]
    cases hlabel : n.label with
    | nil => rfl
    | cons b label =>
        rw [hlabel] at hlength
        rw [if_neg (by simp), between?_of_le (by simp) hlength, dropFrom?_cons_one, List.drop_one]
        rfl
  · simp [hlength]

theorem butSlash?_eq (n : RawNode α) (path : List UInt8) :
    n.butSlash? path = some (n.handler.isSome && matchesButSlash n.label path) := by
  unfold RawNode.butSlash? matchesButSlash
  by_cases hshape : path ≠ [] ∧ path.length + 1 = n.label.length
  · obtain ⟨hpath, hlength⟩ := hshape
    rcases List.eq_nil_or_concat n.label with hnil | ⟨front, last, hlabel⟩
    · simp [hnil] at hlength
    · rw [List.concat_eq_append] at hlabel
      have hfront : front.length = path.length := by simpa [hlabel] using hlength.symm
      have hpos := List.length_pos_of_ne_nil hpath
      rw [if_pos ⟨hpath, hlength⟩, hlabel, getElem?_middle hfront]
      by_cases hlast : last = slash
      · subst hlast
        have hdrop : dropFrom? path 1 = some path.tail := by
          rw [dropFrom?_of_le hpos, List.drop_one]
        have hcut : between? (front ++ [slash]) 1 path.length = some front.tail := by
          rw [between?_of_le hpos (by simp [hfront]), ← hfront, List.take_left, List.drop_one]
        simp [hdrop, hcut, hfront, List.isEmpty_eq_false_iff.mpr hpath, Bool.and_comm]
      · simp [hlast]
  · have hno : (!path.isEmpty && decide (n.label.length = path.length + 1)) = false := by
      rw [Bool.eq_false_iff]
      intro h
      simp only [Bool.and_eq_true, Bool.not_eq_true', List.isEmpty_eq_false_iff,
        decide_eq_true_eq] at h
      exact hshape ⟨h.1, h.2.symm⟩
    rw [if_neg hshape, hno]
    simp

/-- The edge of the carried byte is followed, the first of them. -/
theorem respellEdges_eq_find? (fix : Bool) (es : List (Edge α)) (path carry : List UInt8)
    (ends : Bool) :
    respellEdges fix es path carry ends =
      (es.find? (·.1 = carriedByte carry)).bind fun edge =>
        edge.2.respell fix path carry ends := by
  induction es with
  | nil => rfl
  | cons edge es ih =>
      obtain ⟨index, node⟩ := edge
      rw [respellEdges, List.find?_cons, ih]
      by_cases hindex : index = carriedByte carry <;> simp [hindex]

/-- On the records of a node the same spelling is found as in the node. -/
def Node.RespelledAlike (fix : Bool) (node : Node α) : Prop :=
  ∀ (top : Bool) (record : RawNode α) (path written carry : List UInt8) (above : Bool),
    Stored top node record →
      (path ≠ [] ∨ ∀ name hits priority handler, node ≠ .catchAll name hits priority handler) →
        carry.length ≤ 4 →
          record.respell fix path written (.ofBytes carry) above =
            some ((node.respell fix path carry above).map (written ++ ·))

/-- On the records below a label the same spelling is found as in what they stand for. -/
def Below.RespelledAlike (fix : Bool) (below : Below α) : Prop :=
  ∀ (n : RawNode α) (path written carry : List UInt8),
    StoredBelow below n.indices n.wildChild n.children → n.label.length ≤ path.length →
      carry.length ≤ 4 →
        n.respellBelow fix path written (.ofBytes carry) =
          some ((below.respell fix path n.label.length carry n.handler.isSome).map (written ++ ·))

variable {fix : Bool}

theorem respelledAlike_static {below : Below α} (ih : below.RespelledAlike fix)
    (label : List UInt8) (priority : Nat) (handler : Option α) :
    (Node.static label priority handler below).RespelledAlike fix := by
  intro top record path written carry above stored _ room
  obtain ⟨hbelow⟩ := stored
  rename_i indices wildChild children
  rw [RawNode.respell.eq_1, loosely?_eq, butSlash?_eq, Node.respell.eq_def]
  dsimp only
  cases hloose : matchesLoosely label path with
  | true =>
      have within : label.length ≤ path.length := by
        simp only [matchesLoosely, Bool.and_eq_true, decide_eq_true_eq] at hloose
        exact hloose.1
      have hrest := ih ⟨label, indices, wildChild, .literal top, priority, children, handler⟩
        path (written ++ label) carry hbelow within room
      simp [hrest, Function.comp_def]
  | false =>
      cases fix with
      | false => simp
      | true =>
          by_cases hslash : path = [slash]
          · cases above <;> simp [hslash]
          · simp only [Bool.true_and, hslash, decide_false, Bool.false_eq_true, if_false, if_true]
            generalize (handler.isSome && matchesButSlash label path) = fits
            cases fits <;> simp

theorem respelledAlike_catchAll (name : List UInt8) (hits : CounterId) (priority : Nat)
    (handler : α) : (Node.catchAll name hits priority handler).RespelledAlike fix := by
  intro top record path written carry above stored literal _
  cases stored
  have more : path ≠ [] := literal.resolve_right fun h => h _ _ _ _ rfl
  have hloose : (RawNode.slot name hits priority handler).loosely? path = some true := by
    rw [loosely?_eq]
    simp [matchesLoosely, RawNode.slot]
    rfl
  rw [RawNode.respell.eq_1, hloose, Node.respell.eq_def]
  simp [RawNode.respellBelow.eq_1, RawNode.slot, RawNode.leaf, more]

/-- The child of the carried byte gives what the edges give. -/
theorem respellAlong_eq {es : List (Edge α)} (ih : ∀ edge ∈ es, edge.2.RespelledAlike fix)
    {n : RawNode α} (stored : StoredBelow (.edges es) n.indices n.wildChild n.children)
    {path : List UInt8} (more : path ≠ []) (written : List UInt8) {carry : List UInt8}
    (room : carry.length ≤ 4) (otherwise : Option (List UInt8)) :
    n.respellAlong fix path written (.ofBytes carry) (otherwise.map (written ++ ·)) =
      some ((if es.any (·.1 = carriedByte carry) then
        respellEdges fix es path carry n.handler.isSome else otherwise).map (written ++ ·)) := by
  obtain ⟨label, indices, wildChild, kind, priority, children, handler⟩ := n
  cases stored with | edges hchildren =>
  rw [RawNode.respellAlong.eq_1, Carry.first_ofBytes, respellEdges_eq_find?]
  dsimp only
  rw [← List.isSome_find?]
  rcases child_of_index hchildren (carriedByte carry) with
    ⟨hnone, hfind⟩ | ⟨i, node, child, hsome, hchild, hfind, inside, hnode⟩
  · rw [hnone, hfind]
    rfl
  · rw [hsome, hfind]
    dsimp only
    rw [hchild]
    exact ih _ inside false child path written carry _ hnode (Or.inl more) room

theorem respellEdges_eq_ite (es : List (Edge α)) (path carry : List UInt8) (ends : Bool) :
    (if es.any (·.1 = carriedByte carry) then respellEdges fix es path carry ends else none) =
      respellEdges fix es path carry ends := by
  rw [respellEdges_eq_find?, ← List.isSome_find?]
  cases es.find? (·.1 = carriedByte carry) <;> rfl

/-- Where the path ends with the label, a route ends there or one slash more would end one. -/
theorem respell_of_ended {below : Below α} {path : List UInt8} {n : Nat} (ended : path.drop n = [])
    (carry : List UInt8) (ends : Bool) :
    below.respell fix path n carry ends =
      if ends then some [] else if fix && below.offersSlash then some [slash] else none := by
  cases below with
  | edges es => rw [Below.respell, ended]; rfl
  | param name hits priority handler next => rw [Below.respell, ended]; simp [Below.offersSlash]

theorem respellBelow_end {n : RawNode α} {below : Below α}
    (stored : StoredBelow below n.indices n.wildChild n.children) {path : List UInt8}
    (ended : path.drop n.label.length = []) (within : n.label.length ≤ path.length)
    (written carry : List UInt8) (carry' : Carry) :
    n.respellBelow fix path written carry' =
      some ((below.respell fix path n.label.length carry n.handler.isSome).map (written ++ ·)) := by
  rw [RawNode.respellBelow.eq_1, respell_of_ended ended, dropFrom?_of_le within, ended,
    slashEnds?_eq stored]
  cases n.handler <;> cases fix <;> cases below.offersSlash <;> simp

theorem respelledAlike_edges {es : List (Edge α)} (ih : ∀ edge ∈ es, edge.2.RespelledAlike fix) :
    (Below.edges es).RespelledAlike fix := by
  intro n path written carry stored within room
  by_cases hrest : path.drop n.label.length = []
  · exact respellBelow_end stored hrest within written carry _
  have inside : n.label.length < path.length := by simpa using hrest
  let unslashed : Option (List UInt8) :=
    if fix && path.drop n.label.length = [slash] && n.handler.isSome then some [] else none
  have hunslashed :
      (if fix && path.drop n.label.length = [slash] && n.handler.isSome then some written else none)
        = unslashed.map (written ++ ·) := by
    simp only [unslashed]
    split <;> simp
  have along (bytes : List UInt8) (room : bytes.length ≤ 4) (otherwise : Option (List UInt8)) :=
    respellAlong_eq ih stored hrest written room otherwise
  have literal : n.wildChild = false := by
    obtain ⟨label, indices, wildChild, kind, priority, children, handler⟩ := n
    cases stored
    rfl
  have whole : (path.drop n.label.length).isEmpty = false := by simpa using hrest
  rw [RawNode.respellBelow.eq_1, Below.respell.eq_def, dropFrom?_of_le within, literal,
    Option.bind_eq_bind, Option.bind_some, if_neg hrest, if_neg Bool.false_ne_true,
    Carry.shift_ofBytes room]
  dsimp only
  rw [Carry.first_ofBytes, hunslashed, whole, if_neg Bool.false_ne_true]
  by_cases hcarried : carriedByte (carry.drop n.label.length) ≠ 0
  · rw [if_pos hcarried, if_pos hcarried, along _ (by rw [List.length_drop]; omega)]
  rw [if_neg hcarried, if_neg hcarried, character?_eq inside]
  cases characterAt path n.label.length with
  | none => rfl
  | some found =>
      obtain ⟨c, back⟩ := found
      have short (d : Char) : ((Utf8.encodeChar d).drop back).length ≤ 4 := by
        have := Carry.length_encodeChar_le d
        rw [List.length_drop]
        omega
      have lowered := along _ (short (lower c)) none
      rw [respellEdges_eq_ite, Option.map_none] at lowered
      simp only [Option.bind_eq_bind, Option.bind_some, Carry.encode?_eq,
        Carry.shift_ofBytes (Carry.length_encodeChar_le _), lowered]
      cases respellEdges fix es (path.drop n.label.length)
          ((Utf8.encodeChar (lower c)).drop back) n.handler.isSome with
      | some spelling => rfl
      | none =>
          dsimp only [Option.map_none]
          by_cases hcase : upper c ≠ lower c
          · rw [if_pos hcase, along _ (short (upper c))]
            simp only [hcase, ne_eq, not_false_eq_true, true_and]
            rfl
          · rw [if_neg hcase, if_neg fun both => hcase both.1]
            rfl

/-- A parameter takes the path up to the next slash as it is. -/
theorem respellBelow_value {label taken indices name path : List UInt8} {kind : Kind}
    {count priority : Nat} {hits : CounterId} {ending handler : Option α}
    {next : List (RawNode α)} (within : label.length ≤ path.length)
    (more : path.drop label.length ≠ [])
    (written : List UInt8) (carry : Carry) :
    (RawNode.mk label taken true kind count [.value name indices hits priority next handler]
        ending).respellBelow fix path written carry =
      let rest := path.drop label.length
      let written := written ++ untilSlash rest
      if untilSlash rest = [] then some none
      else if fromSlash rest = [] then
        if handler.isSome then some (some written)
        else if fix then
          (RawNode.value name indices hits priority next handler).loneSlash?.map fun lone =>
            if lone then some (written ++ [slash]) else none
        else some none
      else
        match next.head? with
        | some next => next.respell fix (fromSlash rest) written (.ofBytes []) handler.isSome
        | none => some (if fix && (fromSlash rest).length = 1 then some written else none) := by
  rw [RawNode.respellBelow.eq_1, dropFrom?_of_le within]
  dsimp only
  generalize path.drop label.length = rest at more
  simp only [RawNode.value, List.getElem?_cons_zero, if_true, Option.bind_eq_bind, Option.bind_some,
    stop_eq, takeTo?_stop, dropFrom?_stop, List.length_eq_zero_iff, if_neg more]
  have hlength := length_stop rest
  by_cases hvalue : untilSlash rest = []
  · rw [if_pos hvalue, if_pos hvalue]
    rfl
  · rw [if_neg hvalue, if_neg hvalue]
    by_cases hrest : fromSlash rest = []
    · rw [hrest, List.length_nil] at hlength
      rw [if_neg (by omega), if_pos hrest]
      cases handler with
      | some _ => rfl
      | none =>
          cases fix with
          | false => rfl
          | true => exact Option.map_eq_bind.symm
    · have hpos := List.length_pos_of_ne_nil hrest
      rw [if_pos (by omega), if_neg hrest]
      cases next.head? with
      | some next => rfl
      | none =>
          have hone : rest.length = (untilSlash rest).length + 1 ↔
              (fromSlash rest).length = 1 := by omega
          simp only [hone]
          rfl

theorem respelledAlike_param {next : Option (Node α)}
    (ih : ∀ node ∈ next, node.RespelledAlike fix) (name : List UInt8) (hits : CounterId)
    (priority : Nat) (handler : Option α) :
    (Below.param name hits priority handler next).RespelledAlike fix := by
  intro n path written carry stored within room
  by_cases hrest : path.drop n.label.length = []
  · exact respellBelow_end stored hrest within written carry _
  have whole : (path.drop n.label.length).isEmpty = false := by simpa using hrest
  obtain ⟨label, indices, wildChild, kind, count, children, ending⟩ := n
  rw [Below.respell.eq_def]
  dsimp only at stored within hrest whole ⊢
  rw [whole, if_neg Bool.false_ne_true]
  by_cases hvalue : untilSlash (path.drop label.length) = []
  · cases stored <;> rw [respellBelow_value within hrest] <;> simp [hvalue]
  · rw [if_neg hvalue]
    cases stored with
    | last =>
        rw [respellBelow_value within hrest, loneSlash?_last]
        dsimp only
        rw [if_neg hvalue]
        cases fromSlash (path.drop label.length) with
        | nil => cases handler <;> cases fix <;> rfl
        | cons b rest => cases rest <;> cases fix <;> rfl
    | next hnext =>
        rw [respellBelow_value within hrest, loneSlash?_next hnext]
        dsimp only
        rw [if_neg hvalue]
        cases fromSlash (path.drop label.length) with
        | nil => cases handler <;> cases fix <;> simp [apply_ite]
        | cons b rest =>
            have hrespell := ih _ rfl false _ (b :: rest)
              (written ++ untilSlash (path.drop label.length)) [] handler.isSome hnext
              (Or.inl (List.cons_ne_nil b rest)) (Nat.zero_le 4)
            rw [if_neg (List.cons_ne_nil b rest)]
            dsimp only [respellNext, List.head?_cons]
            rw [hrespell]
            simp [Function.comp_def]

/-- Looking for a spelling on the records of a tree, no access is out of bounds, and the spelling is
the one found in the tree. -/
theorem respell_eq (fix : Bool) :
    (∀ node : Node α, node.RespelledAlike fix) ∧
      ∀ below : Below α, below.RespelledAlike fix := by
  refine tree_induction ?static ?catchAll ?edges ?param
  case static =>
    intro label priority handler below ih
    exact respelledAlike_static ih label priority handler
  case catchAll => exact respelledAlike_catchAll
  case edges =>
    intro es ih
    exact respelledAlike_edges ih
  case param =>
    intro name hits priority handler next ih
    exact respelledAlike_param ih name hits priority handler

end RadixRouter

/-
# Trees that are cut at ASCII bytes

A tree is cut where routes part.  If they only part before wildcards and ASCII bytes other than
0, no cut falls into a character and none before a character of several bytes: every label is
text, and every edge has an ASCII byte.  Refused routes leave their cuts behind, so this is asked
of them too.
-/

import RadixRouter.Proofs.Conflict
import RadixRouter.Proofs.Insertion
import RadixRouter.Proofs.Texts

namespace RadixRouter

open Pattern (Proper remainders head_byte_ne_catchAll)
open Utf8 (Textual textual_nil)

variable {α : Type}

/-- Whether an edge or a wildcard of this token is told apart by an ASCII byte other than 0. -/
def Token.plain : Token → Bool
  | .byte b => 0 < b && b < 0x80
  | _ => true

namespace Pattern

/-- Whether routes go on with plain tokens where they part. -/
def partsPlainly (first second : List Token) : Bool :=
  (remainders first second).1.head?.all Token.plain &&
    (remainders first second).2.head?.all Token.plain

/-- Two patterns part before wildcards and ASCII characters only. -/
def PartPlainly (first second : String) : Prop := partsPlainly (route first) (route second) = true

instance (first second : String) : Decidable (PartPlainly first second) :=
  inferInstanceAs (Decidable (_ = true))

theorem remainders_append (common first second : List Token) :
    remainders (common ++ first) (common ++ second) = remainders first second := by
  induction common with
  | nil => rfl
  | cons token common ih => rw [List.cons_append, List.cons_append, remainders, if_pos rfl, ih]

theorem partsPlainly_append (common first second : List Token) :
    partsPlainly (common ++ first) (common ++ second) = partsPlainly first second := by
  unfold partsPlainly
  rw [remainders_append]

theorem remainders_of_apart {first second : List Token} (apart : first.head? ≠ second.head?) :
    remainders first second = (first, second) := by
  cases first with
  | nil => rfl
  | cons s first =>
      cases second with
      | nil => rfl
      | cons t second =>
          rw [remainders, if_neg fun h => apart (congrArg some h)]

/-- Where routes part, the next token of either is plain. -/
theorem plain_of_apart {first second : List Token} (apart : first.head? ≠ second.head?)
    (plainly : partsPlainly first second = true) :
    (∀ token ∈ first.head?, token.plain = true) ∧ ∀ token ∈ second.head?, token.plain = true := by
  unfold partsPlainly at plainly
  rw [remainders_of_apart apart, Bool.and_eq_true] at plainly
  simpa [Option.all_eq_true] using plainly

end Pattern

open Pattern (partsPlainly partsPlainly_append plain_of_apart)

theorem toNat_of_plain {b : UInt8} (plain : (Token.byte b).plain = true) :
    b ≠ 0 ∧ b.toNat < 0x80 := by
  simp only [Token.plain, Bool.and_eq_true, decide_eq_true_eq] at plain
  exact ⟨(UInt8.pos_iff_ne_zero).mp plain.1, UInt8.lt_iff_toNat_lt.mp plain.2⟩

mutual

/-- Labels of a node are text, and edges have plain bytes. -/
def Node.Plain : Node α → Prop
  | .static label _ _ below => Textual label ∧ below.Plain
  | .catchAll .. => True

/-- The same below a label. -/
def Below.Plain : Below α → Prop
  | .edges es => plainEdges es
  | .param _ _ _ _ next => plainNext next

def plainEdges : List (UInt8 × Node α) → Prop
  | [] => True
  | (index, node) :: es => ((Token.byte index).plain = true ∧ node.Plain) ∧ plainEdges es

def plainNext : Option (Node α) → Prop
  | none => True
  | some node => node.Plain

end

theorem plainEdges_iff {es : List (Edge α)} :
    plainEdges es ↔ ∀ edge ∈ es, (Token.byte edge.1).plain = true ∧ edge.2.Plain := by
  induction es with
  | nil => simp [plainEdges]
  | cons edge es ih =>
      rw [List.forall_mem_cons, ← ih]
      rfl

theorem plainEdges_singleton {index : UInt8} {node : Node α} :
    plainEdges [(index, node)] ↔ (Token.byte index).plain = true ∧ node.Plain := by
  simp [plainEdges_iff]

/-- The edges of a plain node may stand in any order. -/
theorem plainEdges_perm {es es' : List (Edge α)} (plain : plainEdges es) (same : es.Perm es') :
    plainEdges es' := by
  rw [plainEdges_iff] at plain ⊢
  exact fun edge inside => plain edge (same.mem_iff.mpr inside)

theorem plain_slash : (Token.byte slash).plain = true := rfl

theorem bytes_cons (token : Token) (rest : List Token) :
    Pattern.bytes (token :: rest) = token.bytes ++ Pattern.bytes rest := rfl

theorem bytes_literal_append (literal : List UInt8) (rest : List Token) :
    Pattern.bytes (literal.map .byte ++ rest) = literal ++ Pattern.bytes rest := by
  induction literal with
  | nil => rfl
  | cons b literal ih =>
      rw [List.map_cons, List.cons_append, bytes_cons, ih]
      rfl

/-- After a parameter the text of a route is text again. -/
theorem textual_after_param {before name : List UInt8} {rest : List Token}
    (slashed : ∀ token ∈ rest.head?, token = .byte slash)
    (textual : Textual (before ++ Pattern.bytes (.param name :: rest))) :
    Textual (Pattern.bytes rest) := by
  cases rest with
  | nil => exact textual_nil
  | cons token rest =>
      obtain rfl := slashed token rfl
      rw [bytes_cons, ← List.append_assoc] at textual
      exact (textual.cut (by decide)).2.1

/-- Text in front of a wildcard is text. -/
theorem textual_before_wildcard {before : List UInt8} {token : Token} {rest : List Token}
    (textual : Textual (before ++ Pattern.bytes (token :: rest)))
    (wildcard : ∀ b, token ≠ .byte b) : Textual (before ++ []) := by
  rw [List.append_nil]
  cases token with
  | byte b => exact absurd rfl (wildcard b)
  | param name => exact (textual.cut (by decide)).1
  | catchAll name => exact (textual.cut (by decide)).1

/-- The nodes of a single route are plain, with what comes before its first byte. -/
theorem plain_ofTokens (handler : α) (rest : List Token) (fresh : CounterId) {slashed : Bool}
    (proper : Proper slashed rest) {before : List UInt8}
    (textual : Textual (before ++ Pattern.bytes rest)) :
    Textual (before ++ (Node.ofTokens handler rest fresh).1.label) ∧
      (Node.ofTokens handler rest fresh).1.under.Plain := by
  fun_induction Node.ofTokens handler rest fresh generalizing slashed before with
  | case1 fresh => exact ⟨textual, trivial⟩
  | case2 name rest fresh =>
      exact ⟨textual_before_wildcard textual (by simp),
        plainEdges_singleton.mpr ⟨plain_slash, trivial⟩⟩
  | case3 name fresh => exact ⟨textual_before_wildcard textual (by simp), trivial⟩
  | case4 name rest fresh hrest next fresh' heq ih =>
      obtain ⟨-, hslash, hproper⟩ := proper
      refine ⟨textual_before_wildcard textual (by simp), ?_⟩
      have hnext := @ih _ hproper [] (textual_after_param hslash textual)
      obtain ⟨label, existing, below, hshape⟩ := exists_ofTokens_eq handler rest (fresh + 1)
      rw [heq] at hnext hshape
      dsimp only at hnext hshape
      rw [hshape] at hnext
      show next.Plain
      rw [hshape]
      exact hnext
  | case5 b name rest fresh ih =>
      obtain ⟨-, hslash, -⟩ := proper
      obtain rfl : b = slash := of_decide_eq_true hslash
      rw [Node.ofTokens]
      refine ⟨?_, plainEdges_singleton.mpr ⟨plain_slash, trivial⟩⟩
      show Textual (before ++ [])
      rw [List.append_nil]
      exact (textual.cut (by decide)).1
  | case6 b rest fresh hrest node fresh' heq ih =>
      rw [bytes_cons, ← List.append_assoc] at textual
      obtain ⟨hlabel, hbelow⟩ := ih proper.2 textual
      obtain ⟨label, existing, below, hshape⟩ := exists_ofTokens_eq handler rest fresh
      rw [heq] at hlabel hbelow hshape
      dsimp only at hlabel hbelow hshape ⊢
      rw [hshape] at hlabel hbelow ⊢
      refine ⟨?_, hbelow⟩
      rwa [List.append_assoc] at hlabel

/-- The tree of a single route is plain. -/
theorem node_plain_ofTokens (handler : α) {rest : List Token} (fresh : CounterId) {slashed : Bool}
    (proper : Proper slashed rest) (textual : Textual (Pattern.bytes rest)) :
    (Node.ofTokens handler rest fresh).1.Plain := by
  have hplain : Textual ([] ++ _) ∧ _ := plain_ofTokens handler rest fresh proper textual
  obtain ⟨label, existing, below, hshape⟩ := exists_ofTokens_eq handler rest fresh
  rw [hshape] at hplain ⊢
  exact hplain

section Sprout

variable {handler : α} {fresh : CounterId} {es : List (Edge α)} {rest : List Token}
  {slashed : Bool}

/-- A route that leaves the edges goes on with a plain token. -/
theorem plain_of_free (sound : (Below.edges es).Sound)
    (plainly : ∀ old ∈ listingEdges es, partsPlainly old.1 rest = true)
    (alone : es = [] → ∀ token ∈ rest.head?, token.plain = true)
    (free : ∀ b, rest.head? = some (.byte b) → b ∉ es.map (·.1)) :
    ∀ token ∈ rest.head?, token.plain = true := by
  cases es with
  | nil => exact alone rfl
  | cons edge es =>
      have hedge := (Below.sound_edges_iff.mp sound).2 edge (List.mem_cons_self ..)
      obtain ⟨⟨route, existing⟩, hroute⟩ :=
        List.exists_mem_of_ne_nil _ (listing_ne_nil.1 edge.2 edge.1 hedge)
      obtain ⟨tail, rfl⟩ := hedge.head_listing hroute
      refine (plain_of_apart ?_ (plainly _ (List.mem_append_left _ hroute))).2
      intro h
      exact free edge.1 h.symm (List.mem_cons_self ..)

/-- A new edge is plain. -/
theorem plain_sprout (plain : plainEdges es) (proper : Proper slashed rest)
    (textual : Textual (Pattern.bytes rest)) (head : ∀ token ∈ rest.head?, token.plain = true) :
    (sprout handler fresh es rest).tree.Plain := by
  cases rest with
  | nil => exact plain
  | cons token rest =>
      cases token with
      | byte b =>
          refine plainEdges_perm (plainEdges_iff.mpr ?_) (raise_perm b _).symm
          intro edge hedge
          rcases List.mem_append.mp hedge with h | h
          · exact plainEdges_iff.mp plain edge h
          · rw [List.mem_singleton.mp h]
            exact ⟨head _ rfl, node_plain_ofTokens handler fresh proper textual⟩
      | param name =>
          rw [sprout]
          split
          · have hnode : Textual ([] ++ _) ∧ _ := plain_ofTokens handler _ fresh proper textual
            exact hnode.2
          · exact plain
      | catchAll name => exact plain

end Sprout

/-- A graft of a route that parts plainly from all others keeps a node plain. -/
def Node.StaysPlain (handler : α) (node : Node α) : Prop :=
  ∀ (index : UInt8) (fresh : CounterId) (rest : List Token) (slashed : Bool),
    node.Sound index → node.Plain → Proper slashed rest → rest.head? = some (.byte index) →
      Textual (Pattern.bytes rest) → (∀ old ∈ node.listing, partsPlainly old.1 rest = true) →
        (node.graft handler fresh rest).tree.Plain

/-- The same below a label, where nothing but the route that ends there may be to part from. -/
def Below.StaysPlain (handler : α) (below : Below α) : Prop :=
  ∀ (fresh : CounterId) (rest : List Token) (slashed : Bool),
    below.Sound → below.Plain → Proper slashed rest → rest ≠ [] →
      Textual (Pattern.bytes rest) → (∀ old ∈ below.listing, partsPlainly old.1 rest = true) →
        (below = .edges [] → ∀ token ∈ rest.head?, token.plain = true) →
          (below.graft handler fresh rest).tree.Plain

/-- A route that parts plainly from those of a node does so past its label. -/
theorem partsPlainly_past {label : List UInt8} {rest : List Token}
    {listing : List (List Token × α)}
    (plainly : ∀ old ∈ prependTokens (label.map .byte) listing,
      partsPlainly old.1 (label.map .byte ++ rest) = true) :
    ∀ old ∈ listing, partsPlainly old.1 rest = true := by
  rintro ⟨route, existing⟩ hold
  rw [← partsPlainly_append (label.map .byte)]
  exact plainly _ (mem_prependTokens.mpr ⟨route, rfl, hold⟩)

theorem staysPlain_static {handler : α} {below : Below α} (ih : below.StaysPlain handler)
    (label : List UInt8) (priority : Nat) (existing : Option α) :
    (Node.static label priority existing below).StaysPlain handler := by
  intro index fresh rest slashed sound plain proper head textual plainly
  have ⟨hbelow, hroute, _⟩ := sound
  obtain ⟨hlabel, hplain⟩ := plain
  rcases hmet : overlap label rest with ⟨common, label', rest'⟩
  obtain ⟨rfl, rfl, hparting⟩ := overlap_eq hmet
  obtain ⟨slashed', proper'⟩ := Proper.drop_literal proper
  rw [bytes_literal_append] at textual
  cases label' with
  | nil =>
      rw [List.append_nil] at hlabel hmet plainly ⊢
      have hpast := partsPlainly_past plainly
      cases rest' with
      | nil =>
          rw [graft_here hmet]
          cases existing <;> exact ⟨hlabel, hplain⟩
      | cons token rest' =>
          rw [graft_below hmet]
          refine ⟨hlabel, ih fresh _ slashed' hbelow hplain proper' (List.cons_ne_nil _ _)
            (textual.of_append hlabel) (fun old hold => ?_) ?_⟩
          · exact hpast old (List.mem_append_right _ hold)
          -- without edges a route ends with the label
          intro hnil
          cases existing with
          | none => exact absurd hnil (hroute rfl)
          | some existing =>
              have hends := hpast ([], existing) (List.mem_cons_self ..)
              have hapart : ([] : List Token).head? ≠ (token :: rest').head? := nofun
              exact (plain_of_apart hapart hends).2
  | cons b suffix =>
      rw [listing_cut] at plainly
      have hlower : (Below.edges [(b, .static (b :: suffix) priority existing below)]).Sound :=
        sound_cut hbelow hroute
      obtain ⟨old, hold⟩ :=
        List.exists_mem_of_ne_nil _ (listing_ne_nil.2 _ hlower (edges_cons_ne_nil _ _))
      obtain ⟨edge, hedge, tail, htail⟩ := hlower.head_listing_edges hold
      obtain rfl := List.mem_singleton.mp hedge
      have hpast := partsPlainly_past plainly old hold
      rw [htail] at hpast
      obtain ⟨hb, hrest⟩ := plain_of_apart (fun h => hparting b rfl h.symm) hpast
      obtain ⟨hcommon, hsuffix, -⟩ := hlabel.cut (toNat_of_plain (hb _ rfl)).2
      have hedges : plainEdges [(b, .static (b :: suffix) priority existing below)] :=
        plainEdges_singleton.mpr ⟨hb _ rfl, hsuffix, hplain⟩
      cases rest' with
      | nil =>
          rw [graft_cut_end hmet]
          exact ⟨hcommon, hedges⟩
      | cons token rest' =>
          rw [graft_cut_sprout hmet]
          exact ⟨hcommon, plain_sprout hedges proper' (textual.of_append hcommon) hrest⟩

theorem staysPlain_edges {handler : α} {es : List (Edge α)}
    (ih : ∀ edge ∈ es, edge.2.StaysPlain handler) : (Below.edges es).StaysPlain handler := by
  intro fresh rest slashed sound plain proper goesOn textual plainly alone
  rcases graft_edges handler fresh es rest with
    ⟨hsprout, hfree⟩ | ⟨before, b, node, after, head, rfl, hfollow⟩
  · rw [hsprout]
    exact plain_sprout plain proper textual
      (plain_of_free sound plainly (fun h => alone (congrArg Below.edges h)) hfree)
  · have hmem : (b, node) ∈ before ++ (b, node) :: after :=
      List.mem_append_right _ (List.mem_cons_self ..)
    have hall := plainEdges_iff.mp plain
    have hnode := ih _ hmem b fresh rest slashed ((Below.sound_edges_iff.mp sound).2 _ hmem)
      (hall _ hmem).2 proper head textual
      fun old hold => plainly old (mem_listingEdges.mpr ⟨_, hmem, hold⟩)
    rw [hfollow]
    refine plainEdges_perm (plainEdges_iff.mpr ?_) (raise_perm b _).symm
    intro edge hedge
    rcases List.mem_append.mp hedge with h | h
    · exact hall edge (List.mem_append_left _ h)
    · rcases List.mem_cons.mp h with rfl | h
      · exact ⟨(hall _ hmem).1, hnode⟩
      · exact hall edge (List.mem_append_right _ (List.mem_cons_of_mem _ h))

theorem staysPlain_param {handler : α} {next : Option (Node α)}
    (ih : ∀ node, next = some node → node.StaysPlain handler) (name : List UInt8)
    (hits : CounterId) (priority : Nat) (existing : Option α) :
    (Below.param name hits priority existing next).StaysPlain handler := by
  intro fresh rest slashed sound plain proper goesOn textual plainly _
  obtain ⟨token, rest, rfl⟩ := List.exists_cons_of_ne_nil goesOn
  by_cases htoken : token = .param name
  · subst htoken
    cases rest with
    | nil =>
        rw [graft_param_here]
        cases existing <;> exact plain
    | cons token rest =>
        obtain ⟨-, hslash, hproper⟩ := proper
        have htail : Textual (Pattern.bytes (token :: rest)) :=
          @textual_after_param [] name _ hslash textual
        rw [graft_param_next]
        cases next with
        | none => exact node_plain_ofTokens handler fresh hproper htail
        | some node =>
            refine ih node rfl slash fresh _ _ sound.2 plain hproper
              (congrArg some (hslash token rfl)) htail ?_
            rintro ⟨route, found⟩ hold
            have hpast := plainly (.param name :: route, found)
              (mem_prependTokens.mpr ⟨route, rfl, List.mem_append_right _ hold⟩)
            rwa [← List.singleton_append, ← @List.singleton_append _ _ (token :: rest),
              partsPlainly_append] at hpast
  · obtain ⟨clash, hclash, -⟩ := graft_param_clash htoken
    rw [hclash]
    exact plain

/-- A graft of a route that parts plainly from all others keeps a tree plain. -/
theorem plain_graft (handler : α) :
    (∀ node : Node α, node.StaysPlain handler) ∧ ∀ below : Below α, below.StaysPlain handler := by
  refine tree_induction ?static ?catchAll ?edges ?param
  case static =>
    intro label priority existing below ih
    exact staysPlain_static ih label priority existing
  case catchAll =>
    intro name hits priority existing index fresh rest slashed _ _ _ _ _ _
    exact trivial
  case edges =>
    intro es ih
    exact staysPlain_edges ih
  case param =>
    intro name hits priority existing next ih
    exact staysPlain_param ih name hits priority existing

/-- Counting afresh keeps a tree plain. -/
theorem plain_recount :
    (∀ node : Node α, node.Plain → node.recount.Plain) ∧
      ∀ below : Below α, below.Plain → below.recount.Plain := by
  refine tree_induction ?static ?catchAll ?edges ?param
  case static =>
    intro label priority existing below ih plain
    exact ⟨plain.1, ih plain.2⟩
  case catchAll =>
    intro name hits priority existing plain
    exact plain
  case edges =>
    intro es ih plain
    refine plainEdges_perm (plainEdges_iff.mpr ?_) (rank_perm _).symm
    rw [recountEdges_eq_map]
    intro edge hedge
    obtain ⟨edge', hedge', rfl⟩ := List.mem_map.mp hedge
    have hplain := plainEdges_iff.mp plain edge' hedge'
    exact ⟨hplain.1, ih edge' hedge' hplain.2⟩
  case param =>
    intro name hits priority existing next ih plain
    cases next with
    | none => exact plain
    | some node => exact ih node rfl plain

/-- Insertion of a route that parts plainly from all others keeps a tree plain. -/
theorem Node.Rooted.plain_insert {tree : Node α} (rooted : tree.Rooted) (plain : tree.Plain)
    (handler : α) (fresh : CounterId) {rest : List Token} (proper : Proper true rest)
    (textual : Textual (Pattern.bytes (.byte slash :: rest)))
    (plainly : ∀ old ∈ tree.listing, partsPlainly old.1 (.byte slash :: rest) = true) :
    (tree.insert handler fresh (.byte slash :: rest)).tree.Plain := by
  have hgraft := (plain_graft handler).1 tree slash fresh (.byte slash :: rest) false rooted.sound
    plain ⟨rfl, proper⟩ rfl textual plainly
  rcases (insert_eq tree handler fresh (.byte slash :: rest)).2 with h | h
  · rw [h]
    exact hgraft
  · rw [h]
    exact plain_recount.1 _ hgraft

end RadixRouter

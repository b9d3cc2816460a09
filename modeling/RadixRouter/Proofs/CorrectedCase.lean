/-
# Corrected paths keep their characters

A corrected path has the characters of the request up to case, and up to a final slash where that
is asked for.  This holds of every ASCII request.  Of other requests it holds where the patterns
offered for the method part before wildcards and ASCII characters only; where they part before or
inside another character, pieces of that character are compared, and these look alike.
-/

import RadixRouter.Proofs.CaseVariants
import RadixRouter.Proofs.TreeHistory
import RadixRouter.Scripted

namespace RadixRouter

open Pattern (Faultless PartPlainly)
open SimpleCase (Variant)
open Utf8 (Textual replacement)

variable {α γ : Type}

/-- Patterns that part plainly and hold no character that stands for what cannot be decoded. -/
structure CutPlainly (patterns : List String) : Prop where
  parting : ∀ first ∈ patterns, ∀ second ∈ patterns, PartPlainly first second
  whole : ∀ pattern ∈ patterns, replacement ∉ pattern.toList

/-- The tree of a method, if there is one, is plain, and its routes are among the patterns. -/
def PlainAmong (patterns : List String) (tree : Option (Node α)) (listing : List (List Token × α)) :
    Prop :=
  (∀ node, tree = some node → node.Plain) ∧
    ∀ old ∈ listing, ∃ pattern ∈ patterns, old.1 = Pattern.route pattern

theorem CutPlainly.textual {patterns : List String} (plainly : CutPlainly patterns)
    {pattern : String} (inside : pattern ∈ patterns) :
    Textual (Pattern.bytes (Pattern.route pattern)) := by
  rw [Pattern.route, Pattern.bytes_tokens]
  exact ⟨pattern.toList, plainly.whole pattern inside, rfl⟩

/-- A registration, accepted or refused, keeps the tree plain. -/
theorem plainAmong_insertRoute {patterns : List String} (plainly : CutPlainly patterns)
    {tree : Option (Node α)} {listing : List (List Token × α)} (holds : Holds tree listing)
    (among : PlainAmong patterns tree listing) {pattern : String}
    (offered : Faultless pattern → pattern ∈ patterns) (handler : α) (fresh : CounterId) :
    PlainAmong patterns (Router.insertRoute tree pattern handler fresh).1
      (extended (code? (Router.insertRoute tree pattern handler fresh).2)
        (Pattern.route pattern, handler) listing) := by
  by_cases faultless : Faultless pattern
  · have inside := offered faultless
    have textual := plainly.textual inside
    obtain ⟨rest, hroute, hproper⟩ := faultless.route_eq
    apply And.intro
    · intro node hnode
      unfold Router.insertRoute at hnode
      rw [Faultless] at faultless
      dsimp only at hnode
      rw [faultless, ← Pattern.route, hroute] at hnode
      rw [hroute] at textual
      cases tree with
      | none =>
          rw [← Option.some.inj hnode]
          exact node_plain_ofTokens handler fresh (show Pattern.Proper false _ from ⟨rfl, hproper⟩)
            textual
      | some tree =>
          rw [← Option.some.inj hnode]
          refine holds.1.plain_insert (among.1 tree rfl) handler fresh hproper textual ?_
          intro old hold
          obtain ⟨pattern', inside', hroute'⟩ := among.2 old (holds.2.mem_iff.mp hold)
          rw [hroute', ← hroute]
          exact plainly.parting pattern' inside' pattern inside
    · intro old hold
      rw [extended] at hold
      split at hold
      · rcases List.mem_append.mp hold with h | h
        · exact among.2 old h
        · rw [List.mem_singleton.mp h]
          exact ⟨pattern, inside, rfl⟩
      · exact among.2 old hold
  · obtain ⟨fault, hfault⟩ := Option.ne_none_iff_exists'.mp faultless
    unfold Router.insertRoute
    dsimp only
    rw [hfault]
    exact among

/-- The patterns that were offered for a method and follow the grammar, accepted or not. -/
def offered (method : String) (operations : List (Operation α γ)) : List String :=
  operations.filterMap fun
    | .handle method' pattern _ =>
      if method' = method ∧ Faultless pattern then some pattern else none
    | _ => none

theorem mem_offered {method pattern : String} {handler : α} {operations : List (Operation α γ)}
    (inside : .handle method pattern handler ∈ operations) (faultless : Faultless pattern) :
    pattern ∈ offered method operations :=
  List.mem_filterMap.mpr ⟨_, inside, if_pos ⟨rfl, faultless⟩⟩

/-- A tree corrects a path to one with the same characters up to case, if the path is ASCII or the
tree is plain. -/
theorem Node.Rooted.respelled {tree : Node α} (rooted : tree.Rooted) {path corrected : String}
    {fix : Bool} (tame : Ascii path.toList ∨ tree.Plain)
    (respelled : tree.respelling? path fix = some corrected) :
    Respelled fix path.toList corrected.toList := by
  obtain ⟨rest, hpath, hspelling⟩ := Node.respelling?_eq_some_iff.mp respelled
  obtain ⟨after, hchars, -⟩ : ∃ after, path.toList = ['/'] ++ after ∧ _ :=
    Utf8.encodeChars_append_eq hpath.symm
  rw [← hpath, Utf8.encode_eq, hchars] at hspelling
  rw [hchars] at tame ⊢
  rcases (restores_case fix).1 tree slash '/' after [] false _ rooted.sound leads_slash rfl tame
    hspelling with broken | ⟨chars, hencode, h⟩
  · exact absurd rfl (broken.ne_encodeChars corrected.toList)
  · rw [Utf8.encodeChars_injective hencode]
    exact h

namespace Router

variable [Handler α γ] [ParamSink γ]

/-- After any operations, a corrected path has the characters of the request up to case, and with
`fix` up to a final slash: on every ASCII path, and on every path if the patterns offered for its
method are cut plainly. -/
theorem corrected_path_varies (config : RouterConfig) (operations : List (Operation α γ))
    (method path corrected : String) (fix : Bool)
    (tame : (∀ c ∈ path.toList, c.toNat < 0x80) ∨ CutPlainly (offered method operations)) :
    let router := ((Router.new config : Router α γ).run operations).state
    router.respelling? method path fix = some corrected →
      Respelled fix path.toList corrected.toList := by
  intro router respelled
  obtain ⟨tree, htree, hcorrected⟩ := Option.bind_eq_some_iff.mp respelled
  have holds := (keeps_run_new (α := α) (γ := γ) config operations).registers.holds method
  rw [htree] at holds
  refine holds.1.respelled (tame.imp_right fun plainly => ?_) hcorrected
  have among : PlainAmong (offered method operations) (router.trees.get? method)
      (routesOf method ((Router.new config : Router α γ).accepted operations)) := by
    refine law_run_new config operations ⟨nofun, nofun⟩ ?_
    intro pattern handler inside tree listing fresh holds among
    exact plainAmong_insertRoute plainly holds among (mem_offered inside) handler fresh
  exact among.1 tree htree

/-- Patterns that part before an ASCII character, one of them with another character in it. -/
theorem corrected_path_varies_menu :
    let router := ((Router.new {} : Router Scripted Record).run
      [.handle "GET" "/café/:item" ⟨"menu", none⟩, .handle "GET" "/carte" ⟨"card", none⟩]).state
    router.respelling? "GET" "/CAFÉ/Thé/" true = some "/café/Thé" ∧
      Respelled true "/CAFÉ/Thé/".toList "/café/Thé".toList := by
  have corrected : ((Router.new {} : Router Scripted Record).run
      [.handle "GET" "/café/:item" ⟨"menu", none⟩, .handle "GET" "/carte" ⟨"card", none⟩]
        ).state.respelling? "GET" "/CAFÉ/Thé/" true = some "/café/Thé" := by
    decide +kernel
  have plainly : CutPlainly (offered "GET"
      ([.handle "GET" "/café/:item" ⟨"menu", none⟩, .handle "GET" "/carte" ⟨"card", none⟩] :
        List (Operation Scripted Record))) :=
    ⟨by decide +kernel, by decide +kernel⟩
  exact ⟨corrected, corrected_path_varies {} _ "GET" _ _ true (Or.inr plainly) corrected⟩

/-- Where patterns part before a character, its bytes after the first look alike. -/
theorem corrected_path_differs :
    let router := ((Router.new {} : Router Scripted Record).run
      [.handle "GET" "/x" ⟨"letter", none⟩, .handle "GET" "/ä" ⟨"umlaut", none⟩]).state
    router.respelling? "GET" "/ö" false = some "/ä" ∧
      ¬ Respelled false "/ö".toList "/ä".toList := by
  refine ⟨by decide +kernel, ?_⟩
  rintro (h | ⟨h, -⟩)
  · have apart : ¬ Variant 'ö' 'ä' := by decide +kernel
    have same : List.Forall₂ Variant ['/', 'ö'] ['/', 'ä'] := h
    simp [apart] at same
  · cases h

/-- Where patterns part inside a character, its first byte looks like any other. -/
example :
    let router := ((Router.new {} : Router Scripted Record).run
      [.handle "GET" "/é" ⟨"acute", none⟩, .handle "GET" "/è" ⟨"grave", none⟩]).state
    router.respelling? "GET" "/ĩ" false = some "/é" ∧ ¬ Variant 'ĩ' 'é' := by
  decide +kernel

end Router

end RadixRouter

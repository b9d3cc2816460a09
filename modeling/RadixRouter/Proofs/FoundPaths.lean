/-
# Found paths are corrected

A path that a look-up finds is one that the corrector answers, with or without slashes to fix.  This
holds of every ASCII path.  Of other paths it holds where each character is its own lowercase or
uppercase form, so that the corrector can follow it, and the accepted patterns have only ASCII
characters in front of a name in its segment, so that what the corrector puts together is text.
-/

import Mathlib.Data.Bool.AllAny
import Mathlib.Data.List.Infix
import RadixRouter.Proofs.CaseExactness
import RadixRouter.Proofs.CorrectedPaths
import RadixRouter.Proofs.OwnForms
import RadixRouter.Proofs.WholeAnswers
import RadixRouter.Scripted

namespace RadixRouter

open Utf8 (encode)

variable {α γ : Type}

/-- In a pattern every colon stands where a name may, if the path has these characters. -/
def NamesLed (chars : List Char) (pattern : List UInt8) : Prop :=
  ∀ before ∈ pattern.inits, before ++ [colon] <+: pattern → StartsName chars before

instance (chars : List Char) (pattern : List UInt8) : Decidable (NamesLed chars pattern) :=
  List.decidableBAll _ _

theorem NamesLed.segmented {chars : List Char} {pattern : String}
    (led : NamesLed chars (encode pattern)) : Segmented chars (encode pattern) where
  whole := ⟨pattern.toList, Utf8.encode_eq pattern⟩
  named := by
    intro before after same
    refine led before ((List.mem_inits _ _).mpr ⟨colon :: after, same.symm⟩) ⟨after, ?_⟩
    rw [same, List.append_assoc]
    rfl

/-- From the root of a tree, a path that fits a route is corrected. -/
theorem Node.Rooted.respelling_of_own {tree : Node α} (rooted : tree.Rooted) {path : String}
    (own : ∀ c ∈ path.toList, OwnForm c)
    (reads : Reads (Segmented path.toList) [] tree.listing)
    (takes : Takes tree.listing (encode path)) (fix : Bool) :
    (tree.respelling? path fix).isSome = true := by
  obtain ⟨rest, hpath⟩ := List.head?_eq_some_iff.mp (takes.head rooted.sound)
  have found := (finds_again fix).1 tree slash _ [] '/' 1 path.toList false rooted.sound
    (tracks_start own) takes
  obtain ⟨spelling, hspelling⟩ := Option.isSome_iff_exists.mp found
  rw [← Utf8.encode_eq, hpath] at hspelling
  obtain ⟨chars, hchars⟩ := (speaks_text fix).1 tree slash [] [] _ [] path.toList false spelling
    rooted.sound reads (hpath.symm.trans (Utf8.encode_eq path)) (fun _ => Utf8.whole_nil)
    restOfChar_nil (carries_nil _) (fun _ => rfl) (fun _ _ => ⟨slash, rfl, by decide⟩) nofun
    hspelling
  have corrected : spelling = encode (String.ofList chars) := by
    rw [Utf8.encode_eq, String.toList_ofList, ← hchars, List.nil_append]
  rw [corrected] at hspelling
  exact Option.isSome_of_eq_some (Node.respelling?_eq_some_iff.mpr ⟨rest, hpath, hspelling⟩)

/-- What matches an accepted pattern is taken by the tree of the method. -/
theorem Registers.tree_of_matching {trees : StringMap (Node α)} {log : List (Registration α)}
    {method path : String} (registers : Registers trees log)
    (matching : Matching log method path) :
    ∃ tree, trees.get? method = some tree ∧ Takes tree.listing (encode path) := by
  cases htree : trees.get? method with
  | none =>
      rw [← registers.walk_isSome_iff, walk, htree] at matching
      cases matching
  | some tree => exact ⟨tree, rfl, (registers.takes_iff htree).mpr matching⟩

namespace Router

variable [Handler α γ] [ParamSink γ]

/-- In every reachable router, a path that a look-up finds is corrected, with slashes to fix and
without, if it is ASCII, or if each of its characters is its own lowercase or uppercase form and in
the accepted patterns only ASCII characters stand in front of a colon in its segment.  Where any do,
no character of the path beyond ASCII may have an ASCII form. -/
theorem found_path_corrected (config : RouterConfig) (operations : List (Operation α γ))
    (method path : String) (fix : Bool)
    (tame : (∀ c ∈ path.toList, c.toNat < 0x80) ∨
      (∀ c ∈ path.toList, OwnForm c) ∧
        ∀ pattern ∈ patternsOf method ((Router.new config : Router α γ).accepted operations),
          NamesLed path.toList (encode pattern)) :
    let router := ((Router.new config : Router α γ).run operations).state
    (router.lookup method path).answer.handler.isSome = true →
      (router.respelling? method path fix).isSome = true := by
  intro router found
  have keeps : router.Keeps _ := keeps_run_new config operations
  obtain ⟨tree, htree, takes⟩ :=
    keeps.registers.tree_of_matching ((keeps.lookup_isSome_iff method path).mp found)
  have holds := keeps.registers.holds method
  rw [htree] at holds
  rw [respelling?, htree]
  rcases tame with ascii | ⟨own, named⟩
  · exact holds.1.respelling_of_takes ascii takes.upToCase
  · have reads : Reads (Segmented path.toList) [] tree.listing :=
      keeps.registers.reads htree fun pattern inside => (named pattern inside).segmented
    exact holds.1.respelling_of_own own reads takes fix

/-- Patterns that part inside a character, one of them with a parameter behind it. -/
theorem found_path_corrected_trains :
    let router := ((Router.new {} : Router Scripted Record).run
      [.handle "GET" "/züge/nr_:nr" ⟨"trains", none⟩, .handle "GET" "/zöpfe" ⟨"plaits", none⟩,
        .handle "GET" "/ZÜGE/7" ⟨"seven", none⟩]).state
    (router.lookup "GET" "/ZÜGE/7").answer.handler.isSome = true ∧
      (router.respelling? "GET" "/ZÜGE/7" true).isSome = true := by
  have found : (((Router.new {} : Router Scripted Record).run
      [.handle "GET" "/züge/nr_:nr" ⟨"trains", none⟩, .handle "GET" "/zöpfe" ⟨"plaits", none⟩,
        .handle "GET" "/ZÜGE/7" ⟨"seven", none⟩]).state.lookup "GET"
          "/ZÜGE/7").answer.handler.isSome = true := by
    decide +kernel
  refine ⟨found, found_path_corrected {} _ "GET" "/ZÜGE/7" true (Or.inr ⟨?own, ?named⟩) found⟩
  case own => exact List.all_iff_forall_prop.mp (by decide +kernel)
  case named => decide +kernel

/-- A titlecase letter is neither of its forms, and is not followed. -/
theorem found_path_not_corrected :
    let router := ((Router.new {} : Router Scripted Record).run
      [.handle "GET" "/\u01C5" ⟨"titlecase", none⟩, .handle "GET" "/\u01E1" ⟨"other", none⟩]).state
    (router.lookup "GET" "/\u01C5").answer.handler.isSome = true ∧
      router.respelling? "GET" "/\u01C5" false = none ∧
      router.respelling? "GET" "/\u01C5" true = none := by
  decide +kernel

/-- A value that starts inside a character is no text, and the branch with the path is not tried. -/
example :
    let router := ((Router.new {} : Router Scripted Record).run
      [.handle "GET" "/ⱥ:x" ⟨"named", none⟩, .handle "GET" "/ȺȺ" ⟨"plain", none⟩]).state
    (router.lookup "GET" "/ȺȺ").answer.handler.isSome = true ∧
      router.respelling? "GET" "/ȺȺ" false = none := by
  decide +kernel

end Router

end RadixRouter

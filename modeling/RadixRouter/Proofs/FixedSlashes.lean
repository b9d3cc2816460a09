/-
# Fixing slashes keeps answers

A path that the corrector answers without touching a slash keeps its answer where slashes are fixed
too, unless two accepted patterns part by the case of a character of the path.  Where they do, the
answer may come from the other of the two, one byte longer or shorter than the path.
-/

import Mathlib.Data.Bool.AllAny
import RadixRouter.Proofs.CasePartings
import RadixRouter.Scripted

namespace RadixRouter

open Pattern (untilSlash_append_fromSlash)
open SimpleCase (lower upper)
open Utf8 (encode encodeChar encodeChars Whole)

variable {α γ : Type}

/-- An answer without slashes to fix, to a piece of a text, is the answer with them, or routes part
by the case of a character of the text. -/
def Stays (chars : List Char) (listing : List (List Token × α)) (plain fixed : Option (List UInt8)) :
    Prop :=
  ∀ spelling, plain = some spelling →
    fixed = some spelling ∨ ∃ c ∈ chars, PartsByCase c listing

section Stays

variable {chars : List Char} {listing listing' : List (List Token × α)}
  {plain fixed : Option (List UInt8)}

theorem Stays.mono (stays : Stays chars listing plain fixed) (among : listing ⊆ listing') :
    Stays chars listing' plain fixed := by
  intro spelling respelled
  exact (stays spelling respelled).imp_right fun ⟨c, hc, parts⟩ => ⟨c, hc, parts.mono among⟩

/-- Tokens in front of the routes, and bytes in front of the answers. -/
theorem Stays.prepend (stays : Stays chars listing plain fixed) (tokens : List Token)
    (front : List UInt8) :
    Stays chars (prependTokens tokens listing) (plain.map (front ++ ·)) (fixed.map (front ++ ·)) := by
  intro spelling respelled
  obtain ⟨tail, htail, rfl⟩ := Option.map_eq_some_iff.mp respelled
  rcases stays tail htail with same | ⟨c, hc, parts⟩
  · exact Or.inl (by rw [same]; rfl)
  · exact Or.inr ⟨c, hc, parts.prepend tokens⟩

theorem stays_none (fixed : Option (List UInt8)) : Stays chars listing none fixed := nofun

theorem Stays.refl (plain : Option (List UInt8)) : Stays chars listing plain plain :=
  fun _ h => Or.inl h

end Stays

/-- A node keeps its answers where slashes are fixed too, or its routes part by the case of a
character of the text. -/
def Node.KeepsAnswers (node : Node α) : Prop :=
  ∀ (index : UInt8) (before path carry front : List UInt8) (chars : List Char) (ends : Bool),
    node.Sound index → Reads Whole front node.listing → before ++ path = encodeChars chars →
      (∀ c ∈ chars, EvenForms c) →
        Stays chars node.listing (node.respell false path carry ends)
          (node.respell true path carry ends)

/-- The same of what follows a label of `n` bytes. -/
def Below.KeepsAnswers (below : Below α) : Prop :=
  ∀ (n : Nat) (before path carry front : List UInt8) (chars : List Char) (ends : Bool),
    below.Sound → Reads Whole front below.listing → before ++ path = encodeChars chars →
      (∀ c ∈ chars, EvenForms c) →
        Stays chars below.listing (below.respell false path n carry ends)
          (below.respell true path n carry ends)

theorem keepsAnswers_static {below : Below α} (ih : below.KeepsAnswers) (label : List UInt8)
    (priority : Nat) (existing : Option α) :
    (Node.static label priority existing below).KeepsAnswers := by
  intro index before path carry front chars ends sound spelled piece even
  rw [Node.respell, Node.respell]
  by_cases matched : matchesLoosely label path = true
  · rw [if_pos matched, if_pos matched]
    refine Stays.prepend (Stays.mono ?_ (List.subset_append_right ..)) _ label
    exact ih label.length before path carry (front ++ label) chars existing.isSome sound.1
      spelled.below.1 piece even
  · rw [if_neg matched, if_neg matched]
    exact stays_none _

theorem keepsAnswers_catchAll (name : List UInt8) (hits : CounterId) (priority : Nat)
    (existing : α) : (Node.catchAll name hits priority existing).KeepsAnswers := by
  intro index before path carry front chars ends sound spelled piece even
  rw [Node.respell, Node.respell]
  exact Stays.refl _

/-- Along the edges an answer comes from one of them, which keeps it. -/
theorem stays_along {es : List (Edge α)} (ih : ∀ edge ∈ es, edge.2.KeepsAnswers)
    (sound : (Below.edges es).Sound) {front : List UInt8}
    (spelled : Reads Whole front (Below.edges es).listing) {before path : List UInt8}
    {chars : List Char} (piece : before ++ path = encodeChars chars)
    (even : ∀ c ∈ chars, EvenForms c) (carry : List UInt8) (ends : Bool) :
    Stays chars (Below.edges es).listing (respellEdges false es path carry ends)
      (respellEdges true es path carry ends) := by
  intro spelling respelled
  obtain ⟨hkeys, hsound⟩ := Below.sound_edges_iff.mp sound
  obtain ⟨edge, hedge, hindex, hnode⟩ := respellEdges_eq_some respelled
  rw [respellEdges_of_index hkeys hedge hindex]
  have kept := ih edge hedge edge.1 before path carry front chars ends (hsound edge hedge)
    (spelled.mono (listing_subset_edges hedge)) piece even
  exact kept.mono (listing_subset_edges hedge) spelling hnode

theorem keepsAnswers_edges {es : List (Edge α)} (ih : ∀ edge ∈ es, edge.2.KeepsAnswers) :
    (Below.edges es).KeepsAnswers := by
  intro n before path carry front chars ends sound spelled piece even
  by_cases goesOn : path.drop n = []
  · intro spelling respelled
    rcases respell_end_eq_some goesOn respelled with ⟨rfl, rfl⟩ | ⟨h, -⟩
    · exact Or.inl (respell_end goesOn)
    · cases h
  · have along := stays_along ih sound spelled (piece_take piece n) even
    have given : unslashed false (path.drop n) ends = none := rfl
    rw [respell_edges_eq false goesOn, respell_edges_eq true goesOn, given]
    split
    · split
      · exact along _ ends
      · exact stays_none _
    · cases hfound : characterAt path n with
      | none => exact stays_none _
      | some found =>
          obtain ⟨c, back⟩ := found
          have inside := mem_of_characterAt piece hfound
          have forms : Forms c back ((encodeChar (lower c)).drop back)
              ((encodeChar (upper c)).drop back) := ⟨rfl, rfl, even c inside⟩
          intro spelling respelled
          dsimp only at respelled ⊢
          cases plain : respellEdges false es (path.drop n) ((encodeChar (lower c)).drop back) ends
          case some first =>
            rw [plain, Option.some_or] at respelled
            refine (along _ ends first plain).imp_left fun same => ?_
            rw [same, Option.some_or, respelled]
          case none =>
            rw [plain, Option.none_or] at respelled
            split at respelled
            case isFalse => cases respelled
            case isTrue branch =>
              rw [if_pos branch]
              cases fixed : respellEdges true es (path.drop n) ((encodeChar (lower c)).drop back) ends
              case none =>
                rw [Option.none_or]
                exact along _ ends spelling respelled
              case some other =>
                refine Or.inr ⟨c, inside, partsByCase_along ?_ sound spelled forms plain ?_ ?_⟩
                · exact fun edge _ => parts_twins.1 edge.2
                · exact Option.isSome_of_eq_some fixed
                · exact Option.isSome_of_eq_some respelled

theorem keepsAnswers_param {next : Option (Node α)}
    (ih : ∀ node, next = some node → node.KeepsAnswers) (name : List UInt8) (hits : CounterId)
    (priority : Nat) (existing : Option α) :
    (Below.param name hits priority existing next).KeepsAnswers := by
  intro n before path carry front chars ends sound spelled piece even spelling respelled
  by_cases goesOn : path.drop n = []
  · rcases respell_end_eq_some goesOn respelled with ⟨rfl, rfl⟩ | ⟨h, -⟩
    · exact Or.inl (respell_end goesOn)
    · cases h
  · obtain ⟨hvalue, tail, rfl, trails⟩ := respell_param_eq_some goesOn respelled
    rw [respell_param_eq true goesOn, if_neg hvalue]
    have whole := untilSlash_append_fromSlash (path.drop n)
    generalize fromSlash (path.drop n) = after at trails whole
    cases trails with
    | ends hexisting =>
        dsimp only
        rw [if_pos hexisting, List.append_nil]
        exact Or.inl rfl
    | slashed h => cases h
    | unslashed h => cases h
    | @next node after tail goesOn htail =>
        subst goesOn
        have piece' : (before ++ path.take n ++ untilSlash (path.drop n)) ++ slash :: after =
            encodeChars chars := by
          rw [List.append_assoc, whole, piece_take piece n]
        have kept := ih node rfl slash _ (slash :: after) [] [] chars existing.isSome sound.2
          (spelled.next sound.2 fun _ _ whole => (whole.cut (by decide)).2) piece' even
        have among : node.listing ⊆ existing.toList.map (([], ·)) ++ listingNext (some node) :=
          List.subset_append_right ..
        refine (kept.mono among).prepend [.param name] (untilSlash (path.drop n)) _ ?_
        rw [htail]
        rfl

/-- Fixing slashes keeps every answer, unless routes part by case. -/
theorem keeps_answers :
    (∀ node : Node α, node.KeepsAnswers) ∧ ∀ below : Below α, below.KeepsAnswers := by
  refine tree_induction ?static ?catchAll ?edges ?param
  case static =>
    intro label priority existing below ih
    exact keepsAnswers_static ih label priority existing
  case catchAll => exact keepsAnswers_catchAll
  case edges =>
    intro es ih
    exact keepsAnswers_edges ih
  case param =>
    intro name hits priority existing next ih
    exact keepsAnswers_param ih name hits priority existing

namespace Router

variable [Handler α γ] [ParamSink γ]

/-- In every reachable router, what the corrector answers without touching a slash is what it
answers with slashes to fix, if the two forms of each character of the path have equally many bytes
and no two accepted patterns part by the case of such a character.  In any case the other answer is
the same or a byte longer or shorter than the path. -/
theorem slash_fixing_extends (config : RouterConfig) (operations : List (Operation α γ))
    (method path corrected : String) :
    let router := ((Router.new config : Router α γ).run operations).state
    let accepted := patternsOf method ((Router.new config : Router α γ).accepted operations)
    router.respelling? method path false = some corrected →
      ((∀ c ∈ path.toList, EvenForms c ∧ ∀ small ∈ accepted, ∀ capital ∈ accepted,
          ¬ CaseParting c (Pattern.route small) (Pattern.route capital)) →
        router.respelling? method path true = some corrected) ∧
      ∀ other, router.respelling? method path true = some other →
        other = corrected ∨ Touches (encode path) (encode other) := by
  intro router accepted respelled
  have keeps : router.Keeps _ := keeps_run_new config operations
  obtain ⟨tree, htree, hcorrected⟩ := Option.bind_eq_some_iff.mp respelled
  obtain ⟨rest, hpath, hplain⟩ := Node.respelling?_eq_some_iff.mp hcorrected
  have holds := keeps.registers.holds method
  rw [htree] at holds
  have fixed_eq : router.respelling? method path true = tree.respelling? path true := by
    rw [respelling?, htree]
    rfl
  rw [fixed_eq]
  constructor
  · intro tame
    have piece : [] ++ slash :: rest = encodeChars path.toList := by
      rw [List.nil_append, ← hpath, Utf8.encode_eq]
    have spelled : Reads Whole [] tree.listing :=
      keeps.registers.reads htree fun pattern _ => ⟨pattern.toList, rfl⟩
    rcases keeps_answers.1 tree slash [] (slash :: rest) [] [] path.toList false holds.1.sound
      spelled piece (fun c hc => (tame c hc).1) _ hplain with
        h | ⟨c, hc, first, hfirst, second, hsecond, parting⟩
    · exact Node.respelling?_eq_some_iff.mpr ⟨rest, hpath, h⟩
    · obtain ⟨small, hsmall, hroute⟩ := keeps.registers.exists_pattern htree hfirst
      obtain ⟨capital, hcapital, hroute'⟩ := keeps.registers.exists_pattern htree hsecond
      rw [← hroute, ← hroute'] at parting
      exact absurd parting ((tame c hc).2 small hsmall capital hcapital)
  · intro other hother
    obtain ⟨rest', hpath', hfixed⟩ := Node.respelling?_eq_some_iff.mp hother
    rw [hpath] at hpath' ⊢
    obtain rfl := (List.cons.inj hpath').2
    refine ((fixes_slashes.1 tree (slash :: rest) [] false).touched _ hfixed).imp_left fun h => ?_
    rw [hplain] at h
    exact Utf8.encode_injective (Option.some.inj h).symm

/-- The same text with and without a slash at its end. -/
theorem slash_fixing_extends_news :
    let router := ((Router.new {} : Router Scripted Record).run
      [.handle "GET" "/née/" ⟨"slashed", none⟩, .handle "GET" "/née" ⟨"plain", none⟩,
        .handle "GET" "/news/:id" ⟨"news", none⟩]).state
    router.respelling? "GET" "/NÉE" false = some "/née" ∧
      router.respelling? "GET" "/NÉE" true = some "/née" := by
  have plain : ((Router.new {} : Router Scripted Record).run
      [.handle "GET" "/née/" ⟨"slashed", none⟩, .handle "GET" "/née" ⟨"plain", none⟩,
        .handle "GET" "/news/:id" ⟨"news", none⟩]).state.respelling? "GET" "/NÉE" false =
          some "/née" := by
    decide +kernel
  refine ⟨plain, (slash_fixing_extends {} _ "GET" "/NÉE" "/née" plain).1 ?_⟩
  exact List.all_iff_forall_prop.mp (by decide +kernel)

/-- The lowercase branch ends with a slash more before the uppercase one is tried. -/
theorem slash_fixing_differs :
    let router := ((Router.new {} : Router Scripted Record).run
      [.handle "GET" "/a/" ⟨"slashed", none⟩, .handle "GET" "/A" ⟨"plain", none⟩]).state
    router.respelling? "GET" "/A" false = some "/A" ∧
      router.respelling? "GET" "/A" true = some "/a/" := by
  decide +kernel

/-- The answer with a slash less begins with a longer form of the same character, and ends inside
the next one. -/
example :
    let router := ((Router.new {} : Router Scripted Record).run
      [.handle "GET" "/ⱥ:x/" ⟨"named", none⟩, .handle "GET" "/ȺȺ" ⟨"plain", none⟩]).state
    router.respelling? "GET" "/ȺȺ" false = some "/ȺȺ" ∧
      router.respelling? "GET" "/ȺȺ" true = none := by
  decide +kernel

end Router

end RadixRouter

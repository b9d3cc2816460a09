/-
# Clean paths

A path is canonical when it is `/`, or elements that each name something, with a slash in front of
each and perhaps one more at the end.  `cleanPath` gives canonical paths only and leaves exactly
these as they are.

Cleaning reads a path part by part and keeps a stack of elements.  All that it keeps of a path is
this stack and whether the last part asks for a final slash.  So two paths are cleaned alike as soon
as their parts lead to the same stack and end in the same part: slashes in a row, `.` and an element
that is taken back by `..` make no difference, wherever they stand.
-/

import Mathlib.Data.List.Basic
import RadixRouter.CleanPath

namespace RadixRouter

/-- A part of a path that names something. -/
structure IsElement (part : List Char) : Prop where
  unslashed : '/' ∉ part
  nonempty : part ≠ []
  notHere : part ≠ ['.']
  notParent : part ≠ ['.', '.']

/-- The root, or elements joined by slashes behind a slash, perhaps with one more at the end. -/
def IsCanonical (path : String) : Prop :=
  path = "/" ∨ ∃ elements ending, elements ≠ [] ∧ (∀ element ∈ elements, IsElement element) ∧
    (ending = [] ∨ ending = ['/']) ∧ path.toList = '/' :: ['/'].intercalate elements ++ ending

/-- What stands behind the last slash of a path, all of it if there is none. -/
def LastPart (path part : List Char) : Prop :=
  '/' ∉ part ∧ (path = part ∨ ∃ front, path = front ++ '/' :: part)

theorem LastPart.getLast? {path part : List Char} (last : LastPart path part) :
    (splitOn '/' path).getLast? = some part := by
  obtain ⟨unslashed, rfl | ⟨front, rfl⟩⟩ := last
  · rw [splitOn_of_not_mem unslashed, List.getLast?_singleton]
  · rw [splitOn_append, splitOn_of_not_mem unslashed, List.getLast?_concat]

theorem exists_lastPart (path : List Char) : ∃ part, LastPart path part := by
  induction path with
  | nil => exact ⟨[], List.not_mem_nil, Or.inl rfl⟩
  | cons c path ih =>
      obtain ⟨part, unslashed, rfl | ⟨front, rfl⟩⟩ := ih
      · by_cases hslash : c = '/'
        · exact ⟨path, unslashed, Or.inr ⟨[], by rw [hslash, List.nil_append]⟩⟩
        · refine ⟨c :: path, ?_, Or.inl rfl⟩
          rw [List.mem_cons, not_or]
          exact ⟨Ne.symm hslash, unslashed⟩
      · exact ⟨part, unslashed, Or.inr ⟨c :: front, rfl⟩⟩

/-- The last of the parts is what stands behind the last slash. -/
theorem getLast?_splitOn_iff {path part : List Char} :
    (splitOn '/' path).getLast? = some part ↔ LastPart path part := by
  constructor
  · intro hlast
    obtain ⟨other, last⟩ := exists_lastPart path
    rw [last.getLast?] at hlast
    rwa [← Option.some.inj hlast]
  · exact LastPart.getLast?

namespace CleanPath

/-- What a part does to the elements before it, the latest on top. -/
def pile (stack : List (List Char)) (part : List Char) : List (List Char) :=
  if part = [] ∨ part = ['.'] then stack
  else if part = ['.', '.'] then stack.tail
  else part :: stack

/-- The elements that the parts of a path amount to, in order. -/
def elements (parts : List (List Char)) : List (List Char) := (parts.foldl pile []).reverse

/-- A path whose last part is empty or `.` ends in a slash. -/
def isDirectory (parts : List (List Char)) : Bool :=
  parts.getLast? = some [] || parts.getLast? = some ['.']

@[simp]
theorem pile_nil (stack : List (List Char)) : pile stack [] = stack := if_pos (Or.inl rfl)

@[simp]
theorem pile_here (stack : List (List Char)) : pile stack ['.'] = stack := if_pos (Or.inr rfl)

@[simp]
theorem pile_parent (stack : List (List Char)) : pile stack ['.', '.'] = stack.tail := rfl

theorem pile_of_element {element : List Char} (named : IsElement element)
    (stack : List (List Char)) : pile stack element = element :: stack := by
  rw [pile, if_neg (not_or.mpr ⟨named.nonempty, named.notHere⟩), if_neg named.notParent]

/-- A part changes the elements, and the mark only if it is a `.` with nothing behind it. -/
theorem step_eq (cleaning : Cleaning) (part : List Char) (last : Bool) :
    step cleaning part last =
      ⟨pile cleaning.elements part, cleaning.trailing || (part = ['.'] && last)⟩ := by
  obtain ⟨stack, trailing⟩ := cleaning
  unfold step
  by_cases hempty : part = []
  · simp [hempty]
  by_cases hhere : part = ['.']
  · cases last <;> simp [hhere]
  by_cases hparent : part = ['.', '.']
  · simp [hparent]
  · simp [pile, hempty, hhere, hparent]

theorem scan_eq (cleaning : Cleaning) (parts : List (List Char)) :
    scan cleaning parts =
      ⟨parts.foldl pile cleaning.elements,
        cleaning.trailing || parts.getLast? = some ['.']⟩ := by
  induction parts generalizing cleaning with
  | nil => simp [scan]
  | cons part parts ih =>
      rw [scan, ih, step_eq]
      cases parts with
      | nil => simp
      | cons next parts => simp

/-- Elements are piled up, the latest on top. -/
theorem foldl_pile_of_elements {elements : List (List Char)}
    (named : ∀ element ∈ elements, IsElement element) (stack : List (List Char)) :
    elements.foldl pile stack = elements.reverse ++ stack := by
  induction elements generalizing stack with
  | nil => rfl
  | cons element elements ih =>
      rw [List.forall_mem_cons] at named
      rw [List.foldl_cons, pile_of_element named.1, ih named.2, List.reverse_cons,
        List.append_assoc, List.singleton_append]

/-- A part leaves nothing but elements on the stack. -/
theorem isElement_of_mem_pile {part : List Char} (unslashed : '/' ∉ part)
    {stack : List (List Char)} (named : ∀ element ∈ stack, IsElement element) :
    ∀ element ∈ pile stack part, IsElement element := by
  unfold pile
  split
  · exact named
  · next hidle =>
      rw [not_or] at hidle
      split
      · exact fun element inside => named element (List.mem_of_mem_tail inside)
      · next hparent =>
          exact List.forall_mem_cons.mpr ⟨⟨unslashed, hidle.1, hidle.2, hparent⟩, named⟩

theorem isElement_of_mem_foldl {parts : List (List Char)} (unslashed : ∀ part ∈ parts, '/' ∉ part)
    {stack : List (List Char)} (named : ∀ element ∈ stack, IsElement element) :
    ∀ element ∈ parts.foldl pile stack, IsElement element := by
  induction parts generalizing stack with
  | nil => exact named
  | cons part parts ih =>
      rw [List.forall_mem_cons] at unslashed
      exact ih unslashed.2 (isElement_of_mem_pile unslashed.1 named)

/-- What the parts of a path amount to names something. -/
theorem isElement_of_mem_elements {path element : List Char}
    (inside : element ∈ elements (splitOn '/' path)) : IsElement element :=
  isElement_of_mem_foldl (fun _ => not_mem_of_mem_splitOn) (List.forall_mem_nil _) element
    (List.mem_reverse.mp inside)

/-- A slash in front of each element, or between them behind a first one. -/
theorem flatMap_slash {elements : List (List Char)} (present : elements ≠ []) :
    elements.flatMap ('/' :: ·) = '/' :: ['/'].intercalate elements := by
  induction elements with
  | nil => exact absurd rfl present
  | cons element elements ih =>
      cases elements with
      | nil => simp
      | cons next more =>
          rw [List.flatMap_cons, ih (List.cons_ne_nil next more), List.intercalate_cons_cons]
          simp

theorem render_of_ne_nil {elements : List (List Char)} (present : elements ≠ [])
    (directory : Bool) :
    render elements directory =
      '/' :: ['/'].intercalate elements ++ if directory then ['/'] else [] := by
  rw [render, flatMap_slash present, if_neg (List.cons_ne_nil _ _)]
  cases directory with
  | true => rfl
  | false => exact (List.append_nil _).symm

/-- The parts of elements joined by slashes behind a slash. -/
theorem splitOn_intercalate {elements : List (List Char)} (present : elements ≠ [])
    (unslashed : ∀ element ∈ elements, '/' ∉ element) :
    splitOn '/' (['/'].intercalate elements) = elements := by
  induction elements with
  | nil => exact absurd rfl present
  | cons element elements ih =>
      rw [List.forall_mem_cons] at unslashed
      cases elements with
      | nil => rw [List.intercalate_singleton, splitOn_of_not_mem unslashed.1]
      | cons next more =>
          rw [List.intercalate_cons_cons, List.append_assoc, List.singleton_append, splitOn_append,
            splitOn_of_not_mem unslashed.1, ih (List.cons_ne_nil next more) unslashed.2,
            List.singleton_append]

/-- No element ends in a slash, so a slash at the end was asked for. -/
theorem getLast?_render_iff {elements : List (List Char)}
    (named : ∀ element ∈ elements, IsElement element) (directory : Bool) :
    (render elements directory).getLast? = some '/' ↔ elements = [] ∨ directory = true := by
  rcases List.eq_nil_or_concat elements with rfl | ⟨before, element, rfl⟩
  · exact iff_of_true rfl (Or.inl rfl)
  · rw [List.concat_eq_append] at named ⊢
    have present : before ++ [element] ≠ [] := List.append_ne_nil_of_right_ne_nil _ nofun
    rw [render_of_ne_nil present, ← flatMap_slash present, List.flatMap_append,
      List.flatMap_singleton]
    cases directory with
    | true => exact iff_of_true List.getLast?_concat (Or.inr rfl)
    | false =>
        refine iff_of_false ?_ (not_or.mpr ⟨present, Bool.false_ne_true⟩)
        have last := named element (List.mem_append_right _ List.mem_cons_self)
        obtain ⟨c, hc⟩ := Option.isSome_iff_exists.mp
          (List.getLast?_isSome.mpr last.nonempty)
        rw [if_neg Bool.false_ne_true, List.append_nil,
          List.getLast?_append_of_ne_nil _ (List.cons_ne_nil '/' element),
          List.getLast?_cons_of_ne_nil last.nonempty, hc]
        rintro ⟨⟩
        exact last.unslashed (List.mem_of_getLast? hc)

/-- A path asks for a final slash when it ends in one or in `.`. -/
theorem isDirectory_splitOn_iff {path : List Char} :
    isDirectory (splitOn '/' path) = true ↔ LastPart path [] ∨ LastPart path ['.'] := by
  rw [isDirectory, Bool.or_eq_true, decide_eq_true_iff, decide_eq_true_iff, getLast?_splitOn_iff,
    getLast?_splitOn_iff]

/-- What the loop over the parts amounts to. -/
theorem ofChars_eq (path : List Char) :
    ofChars path = render (elements (splitOn '/' path)) (isDirectory (splitOn '/' path)) := by
  by_cases hempty : path = []
  · subst hempty
    rfl
  rw [ofChars, if_neg hempty]
  dsimp only
  rw [scan_eq]
  dsimp only
  rw [← elements]
  by_cases hroot : elements (splitOn '/' path) = []
  · rw [hroot]
    rfl
  -- a path that is more than a slash and ends in one has an empty last part
  have slashed : (1 < path.length ∧ path.getLast? = some '/') ↔
      (splitOn '/' path).getLast? = some [] := by
    rw [getLast?_splitOn_iff, List.getLast?_eq_some_iff]
    constructor
    · rintro ⟨-, front, hpath⟩
      exact ⟨List.not_mem_nil, Or.inr ⟨front, hpath⟩⟩
    · rintro ⟨-, hnil | ⟨front, rfl⟩⟩
      · exact absurd hnil hempty
      · refine ⟨?_, front, rfl⟩
        cases front with
        | nil => exact absurd rfl hroot
        | cons c front => simp
  rw [isDirectory, ← Bool.decide_and, decide_eq_decide.mpr slashed]

theorem isDirectory_of_elements {parts : List (List Char)} (present : parts ≠ [])
    (named : ∀ part ∈ parts, IsElement part) : isDirectory ([] :: parts) = false := by
  obtain ⟨last, hlast⟩ := Option.isSome_iff_exists.mp (List.getLast?_isSome.mpr present)
  have element := named last (List.mem_of_getLast? hlast)
  rw [isDirectory, List.getLast?_cons_of_ne_nil present, hlast]
  simp [element.nonempty, element.notHere]

end CleanPath

open CleanPath

theorem toList_cleanPath (path : String) : (cleanPath path).toList = ofChars path.toList :=
  String.toList_ofList

theorem toList_cleanPath_eq (path : String) :
    (cleanPath path).toList =
      render (elements (splitOn '/' path.toList)) (isDirectory (splitOn '/' path.toList)) :=
  (toList_cleanPath path).trans (ofChars_eq _)

/-- A canonical path stands for its own elements. -/
theorem cleanPath_of_canonical {path : String} (canonical : IsCanonical path) :
    cleanPath path = path := by
  rw [← String.toList_inj, toList_cleanPath]
  rcases canonical with rfl | ⟨names, ending, present, named, hending, hpath⟩
  · rfl
  · have joined := splitOn_intercalate present fun name inside => (named name inside).unslashed
    have piled := foldl_pile_of_elements named []
    rw [List.append_nil] at piled
    rcases hending with rfl | rfl
    · have parts : splitOn '/' path.toList = [] :: names := by
        rw [hpath, List.append_nil, splitOn, if_pos rfl, joined]
      have stacked : elements ([] :: names) = names := by simp [elements, piled]
      have unmarked : isDirectory ([] :: names) = false := isDirectory_of_elements present named
      rw [ofChars_eq, parts, stacked, unmarked, render_of_ne_nil present, hpath]
      rfl
    · have parts : splitOn '/' path.toList = [] :: names ++ [[]] := by
        rw [hpath, List.cons_append, splitOn, if_pos rfl, splitOn_append, joined]
        rfl
      have stacked : elements ([] :: names ++ [[]]) = names := by simp [elements, piled]
      have marked : isDirectory ([] :: names ++ [[]]) = true := by
        rw [isDirectory, List.getLast?_concat]
        rfl
      rw [ofChars_eq, parts, stacked, marked, render_of_ne_nil present, hpath]
      rfl

theorem isCanonical_cleanPath (path : String) : IsCanonical (cleanPath path) := by
  have named (element : List Char) :
      element ∈ elements (splitOn '/' path.toList) → IsElement element :=
    isElement_of_mem_elements
  have hclean : (cleanPath path).toList = render (elements (splitOn '/' path.toList))
      (isDirectory (splitOn '/' path.toList)) := toList_cleanPath_eq path
  generalize elements (splitOn '/' path.toList) = names at named hclean
  generalize isDirectory (splitOn '/' path.toList) = directory at hclean
  by_cases present : names = []
  · refine Or.inl (String.toList_inj.mp ?_)
    rw [hclean, present]
    rfl
  · rw [render_of_ne_nil present] at hclean
    refine Or.inr ⟨names, _, present, named, ?_, hclean⟩
    cases directory
    · exact Or.inl rfl
    · exact Or.inr rfl

theorem exists_front_iff {path : String} :
    (∃ front, path = front ++ "/") ↔ path.toList.getLast? = some '/' := by
  rw [List.getLast?_eq_some_iff]
  constructor
  · rintro ⟨front, rfl⟩
    exact ⟨front.toList, String.toList_append⟩
  · rintro ⟨front, hfront⟩
    refine ⟨String.ofList front, String.toList_inj.mp ?_⟩
    rw [hfront, String.toList_append, String.toList_ofList]
    rfl

/-- A clean path ends in a slash when it is the root or was asked to. -/
theorem cleanPath_ends_iff (path : String) :
    (∃ front, cleanPath path = front ++ "/") ↔
      cleanPath path = "/" ∨ LastPart path.toList [] ∨ LastPart path.toList ['.'] := by
  have ends : (∃ front, cleanPath path = front ++ "/") ↔
      elements (splitOn '/' path.toList) = [] ∨ isDirectory (splitOn '/' path.toList) = true := by
    rw [exists_front_iff, toList_cleanPath_eq]
    exact getLast?_render_iff (fun _ => isElement_of_mem_elements) _
  rw [← isDirectory_splitOn_iff]
  constructor
  · intro hends
    refine (ends.mp hends).imp_left fun rooted => String.toList_inj.mp ?_
    rw [toList_cleanPath_eq, rooted]
    rfl
  · rintro (root | asked)
    · exact ⟨"", root⟩
    · exact ends.mpr (Or.inr asked)

/-- Cleaning gives a canonical path and leaves exactly the canonical ones as they are, so that
cleaning twice is cleaning once.  A slash stands at the end of what it gives when that is the root,
or when the part of the path behind its last slash is empty or `.`. -/
theorem cleanPath_canonical (path : String) :
    IsCanonical (cleanPath path) ∧
      (cleanPath path = path ↔ IsCanonical path) ∧
      cleanPath (cleanPath path) = cleanPath path ∧
      ((∃ front, cleanPath path = front ++ "/") ↔
        cleanPath path = "/" ∨ LastPart path.toList [] ∨ LastPart path.toList ['.']) := by
  refine ⟨isCanonical_cleanPath path, ⟨?_, cleanPath_of_canonical⟩,
    cleanPath_of_canonical (isCanonical_cleanPath path), cleanPath_ends_iff path⟩
  intro same
  rw [← same]
  exact isCanonical_cleanPath path

namespace CleanPath

/-- Nothing of a path counts but the stack it leads to and whether it asks for a final slash. -/
theorem ofChars_congr {path path' : List Char}
    (stack : (splitOn '/' path).foldl pile [] = (splitOn '/' path').foldl pile [])
    (directory : isDirectory (splitOn '/' path) = isDirectory (splitOn '/' path')) :
    ofChars path = ofChars path' := by
  rw [ofChars_eq, ofChars_eq, elements, elements, stack, directory]

/-- Only the last part asks for a final slash. -/
theorem isDirectory_append (front : List (List Char)) {parts : List (List Char)}
    (present : parts ≠ []) : isDirectory (front ++ parts) = isDirectory parts := by
  rw [isDirectory, isDirectory, List.getLast?_append_of_ne_nil front present]

/-- A stretch between two slashes that leaves the stack as it was makes no difference. -/
theorem ofChars_skip {front middle : List Char} (back : List Char)
    (idle : (splitOn '/' middle).foldl pile ((splitOn '/' front).foldl pile []) =
      (splitOn '/' front).foldl pile []) :
    ofChars (front ++ '/' :: (middle ++ '/' :: back)) = ofChars (front ++ '/' :: back) := by
  have present : splitOn '/' back ≠ [] := splitOn_ne_nil '/' back
  refine ofChars_congr ?stack ?directory
  case stack =>
    rw [splitOn_append, splitOn_append, splitOn_append, List.foldl_append, List.foldl_append, idle,
      List.foldl_append]
  case directory =>
    rw [splitOn_append, splitOn_append, splitOn_append,
      isDirectory_append _ (List.append_ne_nil_of_right_ne_nil _ present),
      isDirectory_append _ present, isDirectory_append _ present]

/-- An element and the reference to its parent cancel out. -/
theorem foldl_pile_taken_back {element : List Char} (named : IsElement element)
    (stack : List (List Char)) :
    (splitOn '/' (element ++ ['/', '.', '.'])).foldl pile stack = stack := by
  have parts : splitOn '/' (element ++ ['/', '.', '.']) = [element, ['.', '.']] := by
    rw [splitOn_append, splitOn_of_not_mem named.unslashed]
    rfl
  rw [parts, List.foldl_cons, pile_of_element named, List.foldl_cons, pile_parent, List.foldl_nil,
    List.tail_cons]

/-- A slash in front of a path is no part of it. -/
theorem ofChars_slash (path : List Char) : ofChars ('/' :: path) = ofChars path := by
  have parts : splitOn '/' ('/' :: path) = [[]] ++ splitOn '/' path := if_pos rfl
  refine ofChars_congr ?stack ?directory
  case stack => rw [parts, List.foldl_append, List.foldl_cons, pile_nil, List.foldl_nil]
  case directory => rw [parts, isDirectory_append _ (splitOn_ne_nil '/' path)]

/-- A final `.` is a final slash. -/
theorem ofChars_here (path : List Char) :
    ofChars (path ++ ['/', '.']) = ofChars (path ++ ['/']) := by
  refine ofChars_congr ?stack ?directory
  case stack => simp [splitOn_append, splitOn]
  case directory => simp [splitOn_append, splitOn, isDirectory]

end CleanPath

theorem cleanPath_skip {front middle : String} (back : String)
    (idle : (splitOn '/' middle.toList).foldl pile ((splitOn '/' front.toList).foldl pile []) =
      (splitOn '/' front.toList).foldl pile []) :
    cleanPath (front ++ "/" ++ middle ++ "/" ++ back) = cleanPath (front ++ "/" ++ back) := by
  rw [← String.toList_inj, toList_cleanPath, toList_cleanPath]
  simpa using ofChars_skip back.toList idle

/-- Slashes in a row, `.`, an element taken back by `..`, a reference to the parent of the root and
a slash in front make no difference to the clean path, wherever they stand, and a final `.` stands
for a final slash. -/
theorem cleanPath_equivalent (front back element : String) (named : IsElement element.toList) :
    cleanPath (front ++ "//" ++ back) = cleanPath (front ++ "/" ++ back) ∧
      cleanPath (front ++ "/./" ++ back) = cleanPath (front ++ "/" ++ back) ∧
      cleanPath (front ++ "/" ++ element ++ "/../" ++ back) = cleanPath (front ++ "/" ++ back) ∧
      cleanPath ("/../" ++ back) = cleanPath ("/" ++ back) ∧
      cleanPath ("/" ++ front) = cleanPath front ∧
      cleanPath (front ++ "/.") = cleanPath (front ++ "/") := by
  refine ⟨?slashes, ?here, ?parent, ?root, ?leading, ?final⟩
  case slashes =>
    have text : front ++ "//" ++ back = front ++ "/" ++ "" ++ "/" ++ back := by
      simp [← String.toList_inj]
    rw [text]
    exact cleanPath_skip back rfl
  case here =>
    have text : front ++ "/./" ++ back = front ++ "/" ++ "." ++ "/" ++ back := by
      simp [← String.toList_inj]
    rw [text]
    exact cleanPath_skip back rfl
  case parent =>
    have text : front ++ "/" ++ element ++ "/../" ++ back =
        front ++ "/" ++ (element ++ "/..") ++ "/" ++ back := by
      simp [← String.toList_inj]
    rw [text]
    refine cleanPath_skip back ?_
    rw [String.toList_append]
    exact foldl_pile_taken_back named _
  case root =>
    have text : "/../" ++ back = "" ++ "/" ++ ".." ++ "/" ++ back := by simp
    have text' : "/" ++ back = "" ++ "/" ++ back := by simp
    rw [text, text']
    exact cleanPath_skip back rfl
  case leading =>
    rw [← String.toList_inj, toList_cleanPath, toList_cleanPath, String.toList_append]
    exact ofChars_slash front.toList
  case final =>
    rw [← String.toList_inj, toList_cleanPath, toList_cleanPath, String.toList_append,
      String.toList_append]
    exact ofChars_here front.toList

/-- An element is taken back between two others, one of them a reference to a parent itself. -/
theorem cleanPath_equivalent_docs :
    IsElement "...".toList ∧ cleanPath ("/docs/a" ++ "/" ++ "..." ++ "/../" ++ "../b/.") =
      cleanPath ("/docs/a" ++ "/" ++ "../b/.") := by
  have named : IsElement "...".toList := ⟨by decide, by decide, by decide, by decide⟩
  exact ⟨named, (cleanPath_equivalent "/docs/a" "../b/." "..." named).2.2.1⟩

end RadixRouter

import Mathlib
import Renaming.Symbol.Check

/-!
# The shapes of class names

Class names are cut at `/`. Each of the three grammars asks something else of the pieces, and this
module brings the requirements to one form: no piece is empty, and certain characters do not occur.
A name that may stand in a signature is an object name without `<`, `>` and `:`.
-/

namespace Renaming

namespace Text

/-- The pieces of a text have its characters, the separator apart. -/
theorem forall_mem_parts {separator : Char} {good : Char → Prop} (text : List Char) :
    (∀ piece ∈ parts separator text, ∀ c ∈ piece, good c) ↔
      ∀ c ∈ text, c ≠ separator → good c := by
  induction text with
  | nil => simp [parts]
  | cons c rest ih =>
    rw [parts]
    split
    case isTrue same => simp [same, ih]
    case isFalse other =>
      cases pieces : parts separator rest with
      | nil => exact absurd pieces (parts_ne_nil separator rest)
      | cons piece more =>
        rw [pieces] at ih
        simp only [List.forall_mem_cons] at ih ⊢
        grind

/-- A text without the separator is its only piece. -/
theorem parts_of_splitLast_eq_none {separator : Char} {text : List Char}
    (uncut : splitLast separator text = none) : parts separator text = [text] := by
  induction text with
  | nil => rfl
  | cons c rest ih =>
    rw [splitLast] at uncut
    split at uncut
    case h_1 => cases uncut
    case h_2 whole =>
      have other : c ≠ separator := by
        rintro rfl
        simp at uncut
      rw [parts, if_neg other, ih whole]

/-- The last piece is what stands after the last separator. -/
theorem parts_of_splitLast_eq_some {separator : Char} {text before after : List Char}
    (cut : splitLast separator text = some (before, after)) :
    parts separator text = parts separator before ++ [after] := by
  induction text generalizing before with
  | nil => cases cut
  | cons c rest ih =>
    rw [splitLast] at cut
    split at cut
    case h_1 earlier later found =>
      cases cut
      rw [parts, parts, ih found]
      cases pieces : parts separator earlier with
      | nil => exact absurd pieces (parts_ne_nil separator earlier)
      | cons piece more =>
        by_cases same : c = separator
        · rw [if_pos same, if_pos same]
          rfl
        · rw [if_neg same, if_neg same]
          rfl
    case h_2 whole =>
      split at cut
      case isTrue same =>
        cases cut
        have single := parts_of_splitLast_eq_none whole
        simp [parts, same, single]
      case isFalse => cases cut

/-- The text is what stands before and after the last separator, with the separator between. -/
theorem eq_of_splitLast_eq_some {separator : Char} {text before after : List Char}
    (cut : splitLast separator text = some (before, after)) :
    text = before ++ separator :: after := by
  induction text generalizing before with
  | nil => cases cut
  | cons c rest ih =>
    rw [splitLast] at cut
    split at cut
    case h_1 earlier later found =>
      cases cut
      rw [ih found]
      rfl
    case h_2 =>
      split at cut
      case isTrue same =>
        cases cut
        rw [same]
        rfl
      case isFalse => cases cut

/-- A text that holds no separator is its only piece. -/
theorem parts_of_not_mem {separator : Char} {text : List Char} (free : separator ∉ text) :
    parts separator text = [text] := by
  induction text with
  | nil => rfl
  | cons c rest ih =>
    rw [List.mem_cons, not_or] at free
    rw [parts, if_neg (Ne.symm free.1), ih free.2]

/-- What stands before the first separator is the first piece. -/
theorem parts_append_separator {separator : Char} {first : List Char} (free : separator ∉ first)
    (rest : List Char) :
    parts separator (first ++ separator :: rest) = first :: parts separator rest := by
  induction first with
  | nil => rw [List.nil_append, parts, if_pos rfl]
  | cons c more ih =>
    rw [List.mem_cons, not_or] at free
    rw [List.cons_append, parts, if_neg (Ne.symm free.1), ih free.2]

/-- What holds no separator goes to the last piece. -/
theorem parts_append {separator : Char} {tail : List Char} (free : separator ∉ tail)
    (text : List Char) :
    ∃ before last, parts separator text = before ++ [last] ∧
      parts separator (text ++ tail) = before ++ [last ++ tail] := by
  induction text with
  | nil =>
    refine ⟨[], [], rfl, ?_⟩
    induction tail with
    | nil => rfl
    | cons c rest ih =>
      have other : c ≠ separator := fun same => free (same ▸ List.mem_cons_self)
      have single : parts separator rest = [rest] :=
        ih fun member => free (List.mem_cons_of_mem _ member)
      rw [List.nil_append, parts, if_neg other, single]
      rfl
  | cons c rest ih =>
    obtain ⟨before, last, pieces, extended⟩ := ih
    rw [List.cons_append, parts, parts, pieces, extended]
    by_cases same : c = separator
    · rw [if_pos same, if_pos same]
      exact ⟨[] :: before, last, rfl, rfl⟩
    · rw [if_neg same, if_neg same]
      cases before with
      | nil => exact ⟨[], c :: last, rfl, rfl⟩
      | cons piece more => exact ⟨(c :: piece) :: more, last, rfl, rfl⟩

end Text

/-- No piece of the name is empty. -/
def HasNoGap (name : List Char) : Prop := ∀ piece ∈ Text.parts '/' name, piece ≠ []

/-- What it means that all pieces are free of certain characters and not empty. -/
theorem all_pieces_iff {banned name : List Char} :
    (Text.parts '/' name).all (fun piece => !piece.isEmpty && piece.all fun c => c ∉ banned) =
      true ↔ HasNoGap name ∧ ∀ c ∈ name, c ≠ '/' → c ∉ banned := by
  simp only [List.all_eq_true, Bool.and_eq_true, Bool.not_eq_true', List.isEmpty_eq_false_iff,
    decide_eq_true_eq]
  rw [← Text.forall_mem_parts]
  constructor
  · intro both
    exact ⟨fun piece member => (both piece member).1, fun piece member => (both piece member).2⟩
  · rintro ⟨noGap, free⟩ piece member
    exact ⟨noGap piece member, free piece member⟩

theorem isObjectName_iff {name : List Char} :
    isObjectName name = true ↔ HasNoGap name ∧ ∀ c ∈ name, c ∉ ['.', ';', '['] := by
  refine all_pieces_iff.trans (and_congr_right fun _ => forall_congr' fun c => ?_)
  refine forall_congr' fun _ => ?_
  by_cases slash : c = '/' <;> simp [slash]

/-- The name of a class in a signature: identifiers with `/` between them. -/
def isSignatureName (name : List Char) : Bool :=
  (Text.parts '/' name).all isIdentifier

/-- The names in signatures are the object names without the characters that structure
signatures. -/
theorem isSignatureName_iff {name : List Char} :
    isSignatureName name = true ↔
      isObjectName name = true ∧ ∀ c ∈ name, c ∉ ['<', '>', ':'] := by
  rw [isObjectName_iff, and_assoc]
  refine all_pieces_iff.trans (and_congr_right fun _ => ?_)
  have sorted : ∀ c : Char, (c ≠ '/' → c ∉ ['.', ';', '[', '/', '<', '>', ':']) ↔
      c ∉ ['.', ';', '['] ∧ c ∉ ['<', '>', ':'] := by
    intro c
    by_cases slash : c = '/' <;> simp [slash, and_assoc]
  constructor
  · intro free
    exact ⟨fun c member => ((sorted c).mp (free c member)).1,
      fun c member => ((sorted c).mp (free c member)).2⟩
  · rintro ⟨free, others⟩ c member
    exact (sorted c).mpr ⟨free c member, others c member⟩

theorem isObjectName_of_isSignatureName {name : List Char} (valid : isSignatureName name = true) :
    isObjectName name = true :=
  (isSignatureName_iff.mp valid).1

theorem isIdentifier_iff {name : List Char} :
    isIdentifier name = true ↔
      name ≠ [] ∧ ∀ c ∈ name, c ∉ ['.', ';', '[', '/', '<', '>', ':'] := by
  simp only [isIdentifier, Bool.and_eq_true, Bool.not_eq_true', List.isEmpty_eq_false_iff,
    List.all_eq_true, decide_eq_true_eq]

/-! ### Nested classes -/

theorem ClassName.toList_nested (outer : ClassName) (part : String) :
    (outer.nested part).text.toList = outer.text.toList ++ '$' :: part.toList := by
  simp [nested]

/-- A class nested in one that may stand in a signature may stand there too. -/
theorem ClassName.isSignatureName_nested {outer : ClassName} {part : String}
    (valid : isSignatureName outer.text.toList = true)
    (identifier : isIdentifier part.toList = true) :
    isSignatureName (outer.nested part).text.toList = true := by
  obtain ⟨_, free⟩ := isIdentifier_iff.mp identifier
  have tailFree : ∀ c ∈ '$' :: part.toList, c ∉ ['.', ';', '[', '/', '<', '>', ':'] := by
    rintro c (_ | ⟨_, member⟩)
    · decide
    · exact free c member
  obtain ⟨before, last, pieces, extended⟩ :=
    Text.parts_append (fun slash => tailFree '/' slash (by decide)) outer.text.toList
  rw [isSignatureName, pieces, List.all_append, Bool.and_eq_true] at valid
  obtain ⟨first, identifierLast⟩ := valid
  rw [List.all_cons, List.all_nil, Bool.and_true, isIdentifier_iff] at identifierLast
  rw [toList_nested, isSignatureName, extended, List.all_append, first, List.all_cons, List.all_nil,
    Bool.and_true, Bool.true_and, isIdentifier_iff]
  refine ⟨fun empty => identifierLast.1 (List.append_eq_nil_iff.mp empty).1, fun c member => ?_⟩
  rcases List.mem_append.mp member with early | late
  · exact identifierLast.2 c early
  · exact tailFree c late

/-- The simple name is a piece of the name. -/
theorem ClassName.simpleName_mem_parts (name : ClassName) :
    name.simpleName.toList ∈ Text.parts '/' name.text.toList := by
  rw [simpleName]
  split
  case h_1 before after cut =>
    rw [Text.parts_of_splitLast_eq_some cut, String.toList_ofList]
    exact List.mem_append_right _ List.mem_cons_self
  case h_2 uncut =>
    rw [Text.parts_of_splitLast_eq_none uncut]
    exact List.mem_cons_self

theorem ClassName.isIdentifier_simpleName {name : ClassName}
    (valid : isSignatureName name.text.toList = true) :
    isIdentifier name.simpleName.toList = true :=
  List.all_eq_true.mp valid _ name.simpleName_mem_parts

theorem ClassName.isIdentifier_innermostName {name : ClassName}
    (valid : isSignatureName name.text.toList = true) :
    isIdentifier name.innermostName.toList = true := by
  have simple := isIdentifier_simpleName valid
  rw [innermostName]
  split
  case h_1 outer inner cut =>
    split
    case isTrue => exact simple
    case isFalse full =>
      rw [String.toList_ofList, isIdentifier_iff]
      rw [Text.eq_of_splitLast_eq_some cut, isIdentifier_iff] at simple
      refine ⟨fun empty => full (by simp [empty]), fun c member => ?_⟩
      exact simple.2 c (List.mem_append_right _ (List.mem_cons_of_mem _ member))
  case h_2 => exact simple

/-- The simple name of a class within another is an identifier, whatever the other is. -/
theorem ClassName.isIdentifier_partOf {name : ClassName} (around : ClassName)
    (valid : isSignatureName name.text.toList = true) :
    isIdentifier (name.partOf around).toList = true := by
  rw [partOf]
  split
  case h_1 part found =>
    rw [String.toList_ofList]
    exact (Option.filter_eq_some_iff.mp found).2
  case h_2 => exact isIdentifier_innermostName valid

end Renaming

/-!
# Cutting a text at a separator

`parts` cuts at every occurrence of the separator, `splitLast` at the last one only. Both work on
the characters of the text. `join_parts` says that cutting loses nothing.
-/

namespace Renaming.Text

/-- The pieces between the occurrences of the separator; a text without one is a single piece. -/
def parts (separator : Char) : List Char → List (List Char)
  | [] => [[]]
  | c :: rest =>
    if c = separator then [] :: parts separator rest
    else match parts separator rest with
      | [] => [[c]]
      | piece :: more => (c :: piece) :: more

/-- What stands before and after the last occurrence of the separator, if there is one. -/
def splitLast (separator : Char) : List Char → Option (List Char × List Char)
  | [] => none
  | c :: rest =>
    match splitLast separator rest with
    | some (before, after) => some (c :: before, after)
    | none => if c = separator then some ([], rest) else none

theorem parts_ne_nil (separator : Char) (text : List Char) : parts separator text ≠ [] := by
  cases text with
  | nil => simp [parts]
  | cons c rest =>
    simp only [parts]
    split
    · simp
    · split <;> simp

/-- Joining the pieces with the separator gives the text back. -/
theorem join_parts (separator : Char) (text : List Char) :
    [separator].intercalate (parts separator text) = text := by
  induction text with
  | nil => rfl
  | cons c rest ih =>
    simp only [parts]
    split
    case isTrue same =>
      cases pieces : parts separator rest with
      | nil => exact absurd pieces (parts_ne_nil separator rest)
      | cons piece more => simp_all [List.intercalate, List.intersperse]
    case isFalse other =>
      cases pieces : parts separator rest with
      | nil => exact absurd pieces (parts_ne_nil separator rest)
      | cons piece more => cases more <;> simp_all [List.intercalate, List.intersperse]

end Renaming.Text

import Renaming.Recorded
import Renaming.Scanner

/-!
# Texts that hold class names

Descriptors and signatures are texts with class names inside. Each of their grammars reads a text
into a tree, writes a tree as a text, and replaces the class names of a tree; `Grammar` gathers the
three. Renaming a text is reading, replacing and writing.

The names inside a text are asked for in the order of reading. What comes of a text that breaks off
in the middle is up to its grammar: the names of a `Reading` are those to be asked for also when
there is no tree.
-/

namespace Renaming

/-- What reading a text gives: the class names to ask for, and a tree or a fault. -/
structure Reading (τ : Type) where
  names : List ClassName
  result : Except Fault τ

/-- A grammar of texts with class names inside, read into trees of type `τ`. -/
class Grammar (τ : Type) where
  read : String → Reading τ
  rename : (ClassName → Option ClassName) → τ → τ
  write : τ → String

/-- New names for classes: none to keep a name, or a fault if the new name cannot be used. -/
abbrev Naming := ClassName → Except Fault (Option ClassName)

/-- A computation that records the class names it asks for. -/
abbrev Inquiry := Recorded ClassName

namespace Naming

/-- The naming that is never at fault. -/
def total (rename : ClassName → Option ClassName) : Naming := fun name => .ok (rename name)

/-- The naming that takes the first pair with the name on its left; its new name is checked. -/
def ofPairs (check : String → Except Fault ClassName) (pairs : List (String × String)) : Naming :=
  fun name =>
    match pairs.lookup name.text with
    | some text => (check text).map some
    | none => .ok none

/-- The new name, where the naming has one to give. -/
def answer (naming : Naming) (name : ClassName) : Option ClassName :=
  match naming name with
  | .ok renamed => renamed
  | .error _ => none

/-- Asks for the names one after the other, up to the first that is at fault. -/
def consult (naming : Naming) : List ClassName → Inquiry Unit
  | [] => pure ()
  | name :: rest => do
    Recorded.note [name]
    let _ ← (naming name : Except Fault (Option ClassName))
    consult naming rest

end Naming

namespace Grammar

variable (τ : Type) [Grammar τ]

/-- A text with new names for its classes, recording the names asked for. -/
def renameAsking (naming : Naming) (text : String) : Inquiry String := do
  let reading : Reading τ := read text
  naming.consult reading.names
  let tree ← reading.result
  return write (rename naming.answer tree)

/-- A text with new names for its classes. -/
def renameText (renamed : ClassName → Option ClassName) (text : String) : Except Fault String :=
  (renameAsking τ (Naming.total renamed) text).result

/-- Whether the text obeys the grammar, and the fault if it does not. -/
def check (text : String) : Except Fault Unit :=
  (read text : Reading τ).result.map fun _ => ()

@[simp] theorem answer_total (renamed : ClassName → Option ClassName) :
    (Naming.total renamed).answer = renamed := rfl

@[simp] theorem result_consult_total (renamed : ClassName → Option ClassName)
    (names : List ClassName) : ((Naming.total renamed).consult names).result = .ok () := by
  induction names with
  | nil => rfl
  | cons name rest ih =>
    simp only [Naming.consult, Recorded.result_bind, Recorded.result_note]
    exact ih

/-- Renaming a text is reading it, replacing the names and writing the tree. -/
theorem renameText_eq (renamed : ClassName → Option ClassName) (text : String) :
    renameText τ renamed text =
      (read text : Reading τ).result.map fun tree => write (rename renamed tree) := by
  simp only [renameText, renameAsking, Recorded.result_bind, result_consult_total, answer_total]
  change Except.bind (read text : Reading τ).result _ = _
  cases (read text : Reading τ).result <;> rfl

end Grammar

end Renaming

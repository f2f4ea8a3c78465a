import Renaming.Signature.Scan

/-!
# Checking symbols

`SymbolKind.check` decides whether a text obeys the grammar of its kind. A class name that starts
with `[` names an array class and must be a whole field descriptor; what exactly is wrong with such
a descriptor is not told.
-/

namespace Renaming

/-- A class name is that of an array, written as a field descriptor, or that of an object class. -/
def isClassName (name : String) : Bool :=
  if ClassName.isArray ⟨name⟩ then (Grammar.check FieldType name).isOk
  else isObjectName name.toList

/-- Whether the text is a name of the kind. -/
def NameKind.accepts : NameKind → String → Bool
  | .type, name => isClassName name
  | .field, name => isUnqualifiedName name.toList
  | .method, name => isMethodName name
  | .parameter, name => isUnqualifiedName name.toList
  | .localVariable, name => isUnqualifiedName name.toList

/-- Checks a text against the grammar of its kind. -/
def SymbolKind.check : SymbolKind → String → Except Fault Unit
  | .name kind, text => if kind.accepts text then .ok () else .error (.name kind)
  | .fieldDescriptor, text => Grammar.check FieldType text
  | .methodDescriptor, text => Grammar.check MethodType text
  | .classSignature, text => Grammar.check ClassSig text
  | .fieldSignature, text => Grammar.check TypeSig text
  | .methodSignature, text => Grammar.check MethodSig text

namespace Symbol

variable {kind : SymbolKind}

/-- A symbol obeys the grammar of its kind. -/
def Valid (symbol : Symbol kind) : Prop := kind.check symbol.text = .ok ()

theorem valid_name_iff {kind : NameKind} {symbol : Symbol (.name kind)} :
    symbol.Valid ↔ kind.accepts symbol.text = true := by
  show (if kind.accepts symbol.text then .ok () else .error (Fault.name kind)) = Except.ok () ↔ _
  by_cases accepted : kind.accepts symbol.text = true <;> simp [accepted]

/-- The symbol with the text, if the text passes the check. -/
def parse (text : String) : Except Fault (Symbol kind) :=
  match kind.check text with
  | .ok () => .ok ⟨text⟩
  | .error fault => .error (.onValue text fault)

/-- A parsed symbol is valid, and has the text it was parsed from. -/
theorem parse_eq_ok_iff {text : String} {symbol : Symbol kind} :
    parse text = .ok symbol ↔ symbol.text = text ∧ symbol.Valid := by
  unfold parse
  cases symbol with
  | mk written =>
    cases checked : kind.check text with
    | error fault =>
      simp only [Valid, reduceCtorEq, false_iff, not_and]
      rintro rfl
      simp [checked]
    | ok _ =>
      simp only [Valid, Except.ok.injEq, Symbol.mk.injEq]
      constructor
      · rintro rfl
        exact ⟨rfl, checked⟩
      · rintro ⟨rfl, _⟩
        rfl

end Symbol

/-- New names for classes from pairs of texts, each new name checked. -/
def Naming.ofTexts (pairs : List (String × String)) : Naming :=
  Naming.ofPairs Symbol.parse pairs

end Renaming

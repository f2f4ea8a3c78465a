import Renaming.Text.Parts

/-!
# Symbols of compiled classes

A compiled class names everything by text: classes, members, parameters and variables by names,
types by descriptors, generic types by signatures. A `Symbol` is such a text together with the kind
of thing it stands for. Holding a symbol does not mean that its text obeys the grammar of its kind:
that is asked separately, since classes and mapping tables may be built from texts nobody has
checked.

The second half of the module is about the structure of names: what may occur in them, and how a
nested class is named after the class around it.
-/

namespace Renaming

/-- The kinds of names. -/
inductive NameKind where
  | type
  | field
  | method
  | parameter
  | localVariable
deriving DecidableEq

/-- The kinds of texts that a compiled class uses to refer to things. -/
inductive SymbolKind where
  | name (kind : NameKind)
  | fieldDescriptor
  | methodDescriptor
  | classSignature
  | fieldSignature
  | methodSignature
deriving DecidableEq

/-- A text used as a symbol of the given kind. -/
structure Symbol (kind : SymbolKind) where
  text : String
deriving DecidableEq, Ord

/-- A class name, with `/` between the packages; an array class is named by its descriptor. -/
abbrev ClassName := Symbol (.name .type)

abbrev FieldName := Symbol (.name .field)

abbrev MethodName := Symbol (.name .method)

abbrev ParameterName := Symbol (.name .parameter)

abbrev VariableName := Symbol (.name .localVariable)

abbrev FieldDescriptor := Symbol .fieldDescriptor

abbrev MethodDescriptor := Symbol .methodDescriptor

abbrev ClassSignature := Symbol .classSignature

abbrev FieldSignature := Symbol .fieldSignature

abbrev MethodSignature := Symbol .methodSignature

instance {kind : SymbolKind} : ToString (Symbol kind) := ⟨Symbol.text⟩

@[ext] theorem Symbol.ext_text {kind : SymbolKind} {first second : Symbol kind}
    (same : first.text = second.text) : first = second := by
  cases first
  cases second
  exact congrArg _ same

/-! ### What names may contain -/

/-- An unqualified name is not empty and has none of `.`, `;`, `[` and `/`. -/
def isUnqualifiedName (name : List Char) : Bool :=
  !name.isEmpty && name.all fun c => c ∉ ['.', ';', '[', '/']

/-- The name of a class that is no array: unqualified names with `/` between them. -/
def isObjectName (name : List Char) : Bool :=
  (Text.parts '/' name).all isUnqualifiedName

/-- An identifier of a signature has none of the characters that structure signatures. -/
def isIdentifier (name : List Char) : Bool :=
  !name.isEmpty && name.all fun c => c ∉ ['.', ';', '[', '/', '<', '>', ':']

/-! ### Class names -/

namespace ClassName

/-- The class that every class extends. -/
def object : ClassName := ⟨"java/lang/Object"⟩

/-- Array classes are named by their descriptor, which starts with `[`. -/
def isArray (name : ClassName) : Bool := name.text.toList.head? = some '['

/-- The part after the last `/`. -/
def simpleName (name : ClassName) : String :=
  match Text.splitLast '/' name.text.toList with
  | some (_, simple) => String.ofList simple
  | none => name.text

/-- The part of the simple name after its last `$`, unless nothing stands before or after it. -/
def innermostName (name : ClassName) : String :=
  match Text.splitLast '$' name.simpleName.toList with
  | some (outer, inner) =>
    if outer.isEmpty || inner.isEmpty then name.simpleName else String.ofList inner
  | none => name.simpleName

/-- The name of the class that `outer` nests under the simple name `part`. -/
def nested (outer : ClassName) (part : String) : ClassName :=
  ⟨outer.text ++ "$" ++ part⟩

/-- What follows the name of the outer class and a `$`, if the name starts with those. -/
def partWithin? (name outer : ClassName) : Option (List Char) :=
  (outer.text.toList ++ ['$']).isPrefixOf? name.text.toList

end ClassName

/-! ### Method names -/

namespace MethodName

/-- The name of constructors. -/
def init : MethodName := ⟨"<init>"⟩

/-- The name of class initialisers. -/
def clinit : MethodName := ⟨"<clinit>"⟩

/-- Constructors and class initialisers are called by the machine and never renamed. -/
def isSpecial (name : MethodName) : Bool := name = init || name = clinit

end MethodName

/-- A method name is one of the two special names, or unqualified without `<` and `>`. -/
def isMethodName (name : String) : Bool :=
  MethodName.isSpecial ⟨name⟩ ||
    (!name.toList.isEmpty && name.toList.all fun c => c ∉ ['.', ';', '[', '/', '<', '>'])

end Renaming

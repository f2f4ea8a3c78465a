import Renaming.Grammar

/-!
# Descriptors

A field descriptor writes a type: a letter for a base type, `L`, a class name and `;` for a class,
with a `[` in front for each array dimension. A method descriptor writes the parameter types in
parentheses and the result type behind them, or `V` if there is none.

A descriptor is read as a whole before any of its class names is asked for: a text that is no
descriptor has no names.
-/

namespace Renaming

/-- The types that are no references. -/
inductive BaseType where
  | byte
  | char
  | double
  | float
  | int
  | long
  | short
  | boolean
deriving DecidableEq

namespace BaseType

/-- The letter that stands for the type in descriptors and signatures. -/
def letter : BaseType → Char
  | byte => 'B'
  | char => 'C'
  | double => 'D'
  | float => 'F'
  | int => 'I'
  | long => 'J'
  | short => 'S'
  | boolean => 'Z'

/-- The type that the letter stands for. -/
def ofLetter? : Char → Option BaseType
  | 'B' => some byte
  | 'C' => some char
  | 'D' => some double
  | 'F' => some float
  | 'I' => some int
  | 'J' => some long
  | 'S' => some short
  | 'Z' => some boolean
  | _ => none

@[simp] theorem ofLetter?_letter (type : BaseType) : ofLetter? type.letter = some type := by
  cases type <;> rfl

theorem letter_of_ofLetter? {c : Char} {type : BaseType} (found : ofLetter? c = some type) :
    c = type.letter := by
  unfold ofLetter? at found
  split at found <;> cases found <;> rfl

end BaseType

/-- A type without array dimensions. -/
inductive ElementType where
  | base (type : BaseType)
  | object (name : ClassName)
deriving DecidableEq

/-- A type: one that is no array, or an array with a number of dimensions. An array without
dimensions is written like its element type, but it is never read. -/
inductive FieldType where
  | plain (element : ElementType)
  | array (dimensions : Nat) (element : ElementType)
deriving DecidableEq

/-- The type that is written as an element type behind so many brackets. -/
def FieldType.ofBrackets (brackets : Nat) (element : ElementType) : FieldType :=
  if brackets = 0 then .plain element else .array brackets element

/-- The parameter types of a method and its result type, if it has a result. -/
structure MethodType where
  parameters : List FieldType
  result : Option FieldType
deriving DecidableEq

/-! ### Writing -/

def ElementType.chars : ElementType → List Char
  | .base type => [type.letter]
  | .object name => 'L' :: name.text.toList ++ [';']

def FieldType.chars : FieldType → List Char
  | .plain element => element.chars
  | .array dimensions element => List.replicate dimensions '[' ++ element.chars

def MethodType.chars (type : MethodType) : List Char :=
  '(' :: type.parameters.flatMap FieldType.chars ++ [')'] ++ type.result.elim ['V'] FieldType.chars

/-! ### Class names of a type -/

def ElementType.className? : ElementType → Option ClassName
  | .base _ => none
  | .object name => some name

/-- The class name of a type, looking through array dimensions. -/
def FieldType.className? : FieldType → Option ClassName
  | .plain element | .array _ element => element.className?

/-- The class names of the types in order: parameters, then result. -/
def MethodType.classNames (type : MethodType) : List ClassName :=
  (type.parameters ++ type.result.toList).filterMap FieldType.className?

def ElementType.rename (renamed : ClassName → Option ClassName) : ElementType → ElementType
  | .base type => .base type
  | .object name => .object ((renamed name).getD name)

def FieldType.rename (renamed : ClassName → Option ClassName) : FieldType → FieldType
  | .plain element => .plain (element.rename renamed)
  | .array dimensions element => .array dimensions (element.rename renamed)

def MethodType.rename (renamed : ClassName → Option ClassName) (type : MethodType) : MethodType :=
  { parameters := type.parameters.map (FieldType.rename renamed)
    result := type.result.map (FieldType.rename renamed) }

/-! ### Reading -/

namespace Descriptor

open Scanner

/-- A scanner that fails with the flaws of descriptors. -/
abbrev Scan := Scanner DescriptorFlaw

/-- Reads a class name and the `;` behind it. -/
def className : Scan ClassName := do
  let name ← takeUntil [';']
  unless ← eat ';' do
    throw .unclosedClassName
  unless isObjectName name do
    throw (.className (String.ofList name))
  let name : ClassName := ⟨String.ofList name⟩
  meet name
  return name

/-- Reads what is left of a type without array dimensions that starts with the character. -/
def elementTypeFrom (c : Char) : Scan ElementType :=
  if c = 'L' then do return .object (← className)
  else
    match BaseType.ofLetter? c with
    | some type => return .base type
    | none => throw (.unexpected c)

/-- Reads a type without array dimensions. -/
def elementType : Scan ElementType := do
  match ← next with
  | none => throw .abruptEnd
  | some c => elementTypeFrom c

/-- Reads a type. -/
def fieldType : Scan FieldType := do
  let brackets := (← takeAll '[').length
  if maxDimensions < brackets then
    throw .tooManyDimensions
  return .ofBrackets brackets (← elementType)

/-- Reads one of the types of a parameter list. -/
def parameterType : Scan FieldType := do
  if (← remaining).isEmpty then
    throw .unclosedParameterList
  fieldType

/-- Reads the type of a result, or `V`. -/
def resultType : Scan (Option FieldType) := do
  if ← eat 'V' then
    return none
  else
    return some (← fieldType)

/-- Reads the types of parameters and result. -/
def methodType : Scan MethodType := do
  unless ← eat '(' do
    throw .noParameterList
  let parameters ← many (notYet ')') parameterType
  return ⟨parameters, ← resultType⟩

/-- Reads a whole text; a text with a flaw has no names. -/
def read {τ : Type} (scan : Scan τ) (text : String) : Reading τ :=
  match whole .leftover scan (.start text.toList) with
  | .ok tree cursor => ⟨cursor.names, .ok tree⟩
  | .error flaw _ => ⟨[], .error (.descriptor text flaw)⟩

end Descriptor

instance : Grammar FieldType where
  read := Descriptor.read Descriptor.fieldType
  rename := FieldType.rename
  write type := String.ofList type.chars

instance : Grammar MethodType where
  read := Descriptor.read Descriptor.methodType
  rename := MethodType.rename
  write type := String.ofList type.chars

/-- The type that a field descriptor writes. -/
def FieldDescriptor.type (descriptor : FieldDescriptor) : Except Fault FieldType :=
  (Grammar.read descriptor.text : Reading FieldType).result

/-- The types that a method descriptor writes. -/
def MethodDescriptor.type (descriptor : MethodDescriptor) : Except Fault MethodType :=
  (Grammar.read descriptor.text : Reading MethodType).result

/-- How many parameters a method descriptor has. -/
def MethodDescriptor.parameterCount (descriptor : MethodDescriptor) : Except Fault Nat :=
  descriptor.type.map fun type => type.parameters.length

/-- A descriptor of either sort with new names for its classes, recording the names asked for; one
that starts with `(` is that of a method. -/
def Descriptor.renameAsking (naming : Naming) (text : String) : Inquiry String :=
  if text.toList.head? = some '(' then Grammar.renameAsking MethodType naming text
  else Grammar.renameAsking FieldType naming text

/-- A descriptor of either sort with new names for its classes. -/
def Descriptor.renameText (renamed : ClassName → Option ClassName) (text : String) :
    Except Fault String :=
  (Descriptor.renameAsking (Naming.total renamed) text).result

/-- A field descriptor with new names for its classes. -/
def FieldDescriptor.rename (renamed : ClassName → Option ClassName)
    (descriptor : FieldDescriptor) : Except Fault FieldDescriptor :=
  (Grammar.renameText FieldType renamed descriptor.text).map Symbol.mk

/-- A method descriptor with new names for its classes. -/
def MethodDescriptor.rename (renamed : ClassName → Option ClassName)
    (descriptor : MethodDescriptor) : Except Fault MethodDescriptor :=
  (Grammar.renameText MethodType renamed descriptor.text).map Symbol.mk

end Renaming

import Renaming.Signature.Basic

/-!
# Reading signatures

The scanners follow the grammar of signatures, one for each of its symbols. A reference type may
hold further reference types in type arguments and as array elements; the number of levels that are
left is an argument of `referenceType`, and the scanners of the parts take the scanner of the next
level.

Class names are noted as soon as they are read, so also a signature that breaks off has names.
-/

namespace Renaming.Signature

open Scanner

/-- A scanner that fails with the flaws of signatures. -/
abbrev Scan := Scanner SignatureFlaw

/-- Reads the given character. -/
def expect (c : Char) : Scan Unit := do
  unless ← eat c do
    throw (.expected c (← offset) (← peek))

/-- Reads an identifier up to one of the stops. -/
def identifier (stops : List Char) : Scan String := do
  let name ← takeUntil stops
  unless isIdentifier name do
    throw (.identifier (String.ofList name))
  return String.ofList name

/-- Reads a list between angle brackets, if there is one; an empty one is a flaw. -/
def inBrackets {α : Type} (onEmpty : SignatureFlaw) (item : Scan α) : Scan (List α) := do
  if ← eat '<' then
    if (← peek) = some '>' then
      throw onEmpty
    many (notYet '>') item
  else
    return []

/-- The name of a class in a signature is that of an object class without `:` and `>`. -/
def isClassTypeName (name : List Char) : Bool :=
  isObjectName name && name.all fun c => c ∉ [':', '>']

/-- Reads `T`, the name of a type variable and `;`. -/
def typeVariable : Scan String := do
  expect 'T'
  let name ← identifier [';']
  expect ';'
  return name

/-- Reads a base type, or else a reference type. -/
def javaType (reference : Scan TypeSig) : Scan TypeSig := do
  match (← peek).bind BaseType.ofLetter? with
  | some type =>
    let _ ← next
    return .base type
  | none => reference

/-- Reads a type argument. -/
def typeArgument (reference : Scan TypeSig) : Scan TypeArg := do
  match ← peek with
  | some '*' =>
    expect '*'
    return .any
  | some '+' =>
    expect '+'
    return .bounded .extending (← reference)
  | some '-' =>
    expect '-'
    return .bounded .superOf (← reference)
  | _ => return .bounded .exactly (← reference)

/-- Reads type arguments between angle brackets, if there are any. -/
def typeArguments (reference : Scan TypeSig) : Scan (List TypeArg) :=
  inBrackets .emptyArguments (typeArgument reference)

/-- Reads the name of a class nested in the given one, and its type arguments. -/
def nestedClass (reference : Scan TypeSig) (around : ClassType) : Scan ClassType := do
  let part ← identifier ['<', '.', ';']
  meet (around.name.nested part)
  return .nested around part (← typeArguments reference)

/-- Reads the type of a class. -/
def classType (reference : Scan TypeSig) : Scan ClassType := do
  expect 'L'
  let name ← takeUntil ['<', '.', ';']
  unless isClassTypeName name do
    throw (.className (String.ofList name))
  let name : ClassName := ⟨String.ofList name⟩
  meet name
  let outer := ClassType.outer name (← typeArguments reference)
  let type ← repeatFrom (eat '.') (nestedClass reference) outer
  expect ';'
  return type

/-- Reads a reference type that may nest the given number of levels, itself included. -/
def referenceType : Nat → Scan TypeSig
  | 0 => do throw (.tooDeep (← offset))
  | levels + 1 => do
    match ← peek with
    | some 'L' => return .object (← classType (referenceType levels))
    | some 'T' => return .var (← typeVariable)
    | some '[' =>
      expect '['
      return .array (← javaType (referenceType levels))
    | some c => throw (.unexpected c (← offset))
    | none => throw .abruptEnd

/-- Reads a reference type. -/
def reference : Scan TypeSig := referenceType maxNesting

/-- Reads the bound of a type parameter that is a class, if there is one. -/
def classBound : Scan (Option TypeSig) := do
  match ← peek with
  | some 'L' | some 'T' | some '[' => return some (← reference)
  | _ => return none

/-- Reads a type parameter. -/
def typeParameter : Scan TypeParameter := do
  let name ← identifier [':']
  expect ':'
  let classBound ← classBound
  let interfaceBounds ← many (eat ':') reference
  return { name, classBound, interfaceBounds }

/-- Reads type parameters between angle brackets, if there are any. -/
def typeParameters : Scan (List TypeParameter) :=
  inBrackets .emptyParameters typeParameter

/-- Whether something is left of the text. -/
def more : Scan Bool := do return !(← remaining).isEmpty

/-- Reads the signature of a class. -/
def classSig : Scan ClassSig := do
  let typeParameters ← typeParameters
  let superClass ← classType reference
  let interfaces ← many more (classType reference)
  return { typeParameters, superClass, interfaces }

/-- Reads one of the types of a parameter list. -/
def parameterType : Scan TypeSig := do
  if (← remaining).isEmpty then
    throw .unclosedParameterList
  javaType reference

/-- Reads the type of a result, or `V`. -/
def resultType : Scan (Option TypeSig) := do
  if ← eat 'V' then
    return none
  else
    return some (← javaType reference)

/-- Reads a thrown type behind its mark. -/
def thrownType : Scan ThrownType := do
  match ← peek with
  | some 'T' => return .var (← typeVariable)
  | _ => return .object (← classType reference)

/-- Reads the signature of a method. -/
def methodSig : Scan MethodSig := do
  let typeParameters ← typeParameters
  expect '('
  let parameters ← many (notYet ')') parameterType
  let result ← resultType
  let thrown ← many (eat '^') thrownType
  return { typeParameters, parameters, result, thrown }

/-- Reads a whole text; the names before a flaw are kept. -/
def read {τ : Type} (scan : Scan τ) (text : String) : Reading τ :=
  match whole .leftover scan (.start text.toList) with
  | .ok tree cursor => ⟨cursor.names, .ok tree⟩
  | .error flaw cursor => ⟨cursor.names, .error (.signature text flaw)⟩

end Renaming.Signature

namespace Renaming

instance : Grammar ClassSig where
  read := Signature.read Signature.classSig
  rename := ClassSig.rename
  write signature := String.ofList signature.chars

instance : Grammar MethodSig where
  read := Signature.read Signature.methodSig
  rename := MethodSig.rename
  write signature := String.ofList signature.chars

instance : Grammar TypeSig where
  read := Signature.read Signature.reference
  rename := TypeSig.rename
  write signature := String.ofList signature.chars

/-- A class signature with new names for its classes. -/
def ClassSignature.rename (renamed : ClassName → Option ClassName) (signature : ClassSignature) :
    Except Fault ClassSignature :=
  (Grammar.renameText ClassSig renamed signature.text).map Symbol.mk

/-- A method signature with new names for its classes. -/
def MethodSignature.rename (renamed : ClassName → Option ClassName) (signature : MethodSignature) :
    Except Fault MethodSignature :=
  (Grammar.renameText MethodSig renamed signature.text).map Symbol.mk

/-- A field signature with new names for its classes. -/
def FieldSignature.rename (renamed : ClassName → Option ClassName) (signature : FieldSignature) :
    Except Fault FieldSignature :=
  (Grammar.renameText TypeSig renamed signature.text).map Symbol.mk

end Renaming

import Renaming.Descriptor

/-!
# Trees of signatures

Signatures write generic types. A reference type is a type variable, an array of a type, or a class
with type arguments; a class nested in a generic class is written behind the class around it, after
a dot, and `ClassType` follows this: it is the outermost class, or a class type and the simple name
of a class nested in it.

A class nested in `x` under the simple name `i` is named `x$i`. Renaming asks for that name. If
there is a new name for it, what is written behind the dot is the part of the new name after the new
name of the class around and a `$`, if that is an identifier, and otherwise the innermost part of
the new name.
-/

namespace Renaming

/-- How a type argument bounds what it stands for. -/
inductive Bound where
  | exactly
  | extending
  | superOf
deriving DecidableEq

mutual

/-- A type. -/
inductive TypeSig where
  | base (type : BaseType)
  | var (name : String)
  | array (element : TypeSig)
  | object (type : ClassType)

/-- A class with its type arguments, behind the classes around it. -/
inductive ClassType where
  | outer (name : ClassName) (arguments : List TypeArg)
  | nested (around : ClassType) (part : String) (arguments : List TypeArg)

/-- A type argument: anything, or a type with a bound. -/
inductive TypeArg where
  | any
  | bounded (bound : Bound) (type : TypeSig)

end

/-- A type parameter with the bounds on what it stands for. -/
structure TypeParameter where
  name : String
  classBound : Option TypeSig
  interfaceBounds : List TypeSig

/-- A generic class: its type parameters, its super class and its interfaces. -/
structure ClassSig where
  typeParameters : List TypeParameter
  superClass : ClassType
  interfaces : List ClassType

/-- What a generic method may throw. -/
inductive ThrownType where
  | var (name : String)
  | object (type : ClassType)

/-- A generic method: its type parameters, parameter types, result type if any, and thrown types. -/
structure MethodSig where
  typeParameters : List TypeParameter
  parameters : List TypeSig
  result : Option TypeSig
  thrown : List ThrownType

/-! ### Writing -/

/-- The character that marks the bound. -/
def Bound.chars : Bound → List Char
  | .exactly => []
  | .extending => ['+']
  | .superOf => ['-']

/-- A list between angle brackets; an empty list is not written. -/
def bracketed (items : List Char) : List Char :=
  if items.isEmpty then [] else '<' :: items ++ ['>']

mutual

def TypeSig.chars : TypeSig → List Char
  | .base type => [type.letter]
  | .var name => 'T' :: name.toList ++ [';']
  | .array element => '[' :: element.chars
  | .object type => type.charsOpen ++ [';']

/-- A class type without the `;` that ends it. -/
def ClassType.charsOpen : ClassType → List Char
  | .outer name arguments => 'L' :: name.text.toList ++ bracketed (TypeArg.charsAll arguments)
  | .nested around part arguments =>
    around.charsOpen ++ '.' :: part.toList ++ bracketed (TypeArg.charsAll arguments)

def TypeArg.chars : TypeArg → List Char
  | .any => ['*']
  | .bounded bound type => bound.chars ++ type.chars

def TypeArg.charsAll : List TypeArg → List Char
  | [] => []
  | argument :: rest => argument.chars ++ TypeArg.charsAll rest

end

def ClassType.chars (type : ClassType) : List Char := type.charsOpen ++ [';']

def TypeParameter.chars (parameter : TypeParameter) : List Char :=
  parameter.name.toList ++ ':' :: (parameter.classBound.elim [] TypeSig.chars) ++
    parameter.interfaceBounds.flatMap fun bound => ':' :: bound.chars

def ThrownType.chars : ThrownType → List Char
  | .var name => '^' :: 'T' :: name.toList ++ [';']
  | .object type => '^' :: type.chars

def ClassSig.chars (signature : ClassSig) : List Char :=
  bracketed (signature.typeParameters.flatMap TypeParameter.chars) ++ signature.superClass.chars ++
    signature.interfaces.flatMap ClassType.chars

def MethodSig.chars (signature : MethodSig) : List Char :=
  bracketed (signature.typeParameters.flatMap TypeParameter.chars) ++
    '(' :: signature.parameters.flatMap TypeSig.chars ++ [')'] ++
    signature.result.elim ['V'] TypeSig.chars ++ signature.thrown.flatMap ThrownType.chars

/-! ### Renaming -/

/-- The name of the class that a class type is about. -/
def ClassType.name : ClassType → ClassName
  | .outer name _ => name
  | .nested around part _ => around.name.nested part

/-- The new name of that class; a nested class without one follows the class around it. -/
def ClassType.newName (renamed : ClassName → Option ClassName) : ClassType → ClassName
  | .outer name _ => (renamed name).getD name
  | .nested around part arguments =>
    match renamed (ClassType.nested around part arguments).name with
    | some name => name
    | none => (around.newName renamed).nested part

/-- The simple name of a class within the class around it, taken from its full name. -/
def ClassName.partOf (name around : ClassName) : String :=
  match (name.partWithin? around).filter isIdentifier with
  | some part => String.ofList part
  | none => name.innermostName

/-- What is written behind the dot for a nested class. -/
def ClassType.newPart (renamed : ClassName → Option ClassName) (around : ClassType)
    (part : String) : String :=
  match renamed (around.name.nested part) with
  | some name => name.partOf (around.newName renamed)
  | none => part

mutual

def TypeSig.rename (renamed : ClassName → Option ClassName) : TypeSig → TypeSig
  | .base type => .base type
  | .var name => .var name
  | .array element => .array (element.rename renamed)
  | .object type => .object (type.rename renamed)

def ClassType.rename (renamed : ClassName → Option ClassName) : ClassType → ClassType
  | .outer name arguments =>
    .outer ((renamed name).getD name) (TypeArg.renameAll renamed arguments)
  | .nested around part arguments =>
    .nested (around.rename renamed) (around.newPart renamed part)
      (TypeArg.renameAll renamed arguments)

def TypeArg.rename (renamed : ClassName → Option ClassName) : TypeArg → TypeArg
  | .any => .any
  | .bounded bound type => .bounded bound (type.rename renamed)

def TypeArg.renameAll (renamed : ClassName → Option ClassName) : List TypeArg → List TypeArg
  | [] => []
  | argument :: rest => argument.rename renamed :: TypeArg.renameAll renamed rest

end

def TypeParameter.rename (renamed : ClassName → Option ClassName) (parameter : TypeParameter) :
    TypeParameter :=
  { parameter with
    classBound := parameter.classBound.map (TypeSig.rename renamed)
    interfaceBounds := parameter.interfaceBounds.map (TypeSig.rename renamed) }

def ThrownType.rename (renamed : ClassName → Option ClassName) : ThrownType → ThrownType
  | .var name => .var name
  | .object type => .object (type.rename renamed)

def ClassSig.rename (renamed : ClassName → Option ClassName) (signature : ClassSig) : ClassSig :=
  { typeParameters := signature.typeParameters.map (TypeParameter.rename renamed)
    superClass := signature.superClass.rename renamed
    interfaces := signature.interfaces.map (ClassType.rename renamed) }

def MethodSig.rename (renamed : ClassName → Option ClassName) (signature : MethodSig) :
    MethodSig :=
  { typeParameters := signature.typeParameters.map (TypeParameter.rename renamed)
    parameters := signature.parameters.map (TypeSig.rename renamed)
    result := signature.result.map (TypeSig.rename renamed)
    thrown := signature.thrown.map (ThrownType.rename renamed) }

end Renaming

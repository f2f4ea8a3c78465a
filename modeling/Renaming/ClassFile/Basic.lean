import Renaming.ClassFile.Code
import Renaming.Hierarchy

/-!
# Compiled classes

A compiled class with its members and the attributes that hold symbols. `ClassFile.info` is what
other classes see of it, and `Hierarchy.ofClasses` the hierarchy that a list of classes makes.
-/

namespace Renaming

/-- A field of a class. -/
structure Field where
  access : Access .field
  name : FieldName
  descriptor : FieldDescriptor
  signature : Option FieldSignature

/-- What is noted of a parameter. -/
structure MethodParameter where
  name : Option ParameterName
  flags : Access .parameter
deriving DecidableEq

/-- A method of a class. -/
structure Method where
  access : MethodAccess
  name : MethodName
  descriptor : MethodDescriptor
  code : Option Code
  exceptions : Option (List ClassName)
  signature : Option MethodSignature
  parameters : Option (List MethodParameter)

/-- The key of a method within its class. -/
def Method.key (method : Method) : MethodKey := ⟨method.name, method.descriptor⟩

/-- A nested class that the class mentions; an anonymous one has no simple name. -/
structure NestedClass where
  inner : ClassName
  outer : Option ClassName
  simpleName : Option String
  flags : Access .nestedType

/-- The class around a local class, and the method around it if there is one. -/
structure EnclosingMethod where
  owner : ClassName
  method : Option MethodKey

/-- The version of the format that a class is written in. -/
structure Version where
  major : Nat
  minor : Nat
deriving DecidableEq

/-- A compiled class. -/
structure ClassFile where
  version : Version
  access : Access .type
  name : ClassName
  superClass : Option ClassName
  interfaces : List ClassName
  fields : List Field
  methods : List Method
  nestedClasses : Option (List NestedClass)
  enclosingMethod : Option EnclosingMethod
  signature : Option ClassSignature
  sourceFile : Option String
  nestHost : Option ClassName
  nestMembers : Option (List ClassName)
  permittedSubclasses : Option (List ClassName)

/-! ### What other classes see -/

/-- What other classes see of a field. -/
def Field.info (field : Field) : FieldInfo := ⟨field.name, field.descriptor, field.access⟩

/-- What other classes see of a method. -/
def Method.info (method : Method) : MethodInfo := ⟨method.key, method.access⟩

/-- What other classes see: no private members, constructors or class initialisers. -/
def ClassFile.info (file : ClassFile) : ClassInfo :=
  { superClass := file.superClass
    interfaces := file.interfaces
    fields := (file.fields.filter fun field => !field.access.isPrivate).map Field.info
    methods := (file.methods.filter fun method =>
      !method.access.isPrivate && !method.name.isSpecial).map Method.info }

/-- What is seen of each of the classes; of two with the same name the later one counts. -/
def indexTable (classes : List ClassFile) : Table ClassName ClassInfo :=
  Table.ofEntries (classes.map fun file => (file.name, file.info))

/-- The hierarchy of the classes. -/
def Hierarchy.ofClasses (classes : List ClassFile) : Hierarchy :=
  Hierarchy.ofTable (indexTable classes)

end Renaming

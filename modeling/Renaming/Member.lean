import Renaming.Symbol

/-!
# References to members

A field or method is referred to by a class, a name and a descriptor. Within one class a method is
known by its name and its descriptor together. References are ordered by class, then name, then
descriptor.
-/

namespace Renaming

/-- A reference to a field, as seen from the class `owner`. -/
structure FieldRef where
  owner : ClassName
  name : FieldName
  descriptor : FieldDescriptor
deriving DecidableEq, Ord

/-- A reference to a method, as seen from the class `owner`. -/
structure MethodRef where
  owner : ClassName
  name : MethodName
  descriptor : MethodDescriptor
deriving DecidableEq, Ord

/-- What tells a method from the others of its class. -/
structure MethodKey where
  name : MethodName
  descriptor : MethodDescriptor
deriving DecidableEq, Ord

/-- A reference to the same method without its class. -/
def MethodRef.key (ref : MethodRef) : MethodKey := ⟨ref.name, ref.descriptor⟩

/-- The reference to the method of that key on a class. -/
def MethodKey.on (key : MethodKey) (owner : ClassName) : MethodRef :=
  ⟨owner, key.name, key.descriptor⟩

instance : ToString MethodKey := ⟨fun key => key.name.text ++ key.descriptor.text⟩

end Renaming

import Renaming.Mappings.Composition
import Renaming.Resolver

/-!
# Renaming references

A renamer answers what something is called under the mappings. Class names and the texts that hold
them are a matter of the mappings alone. For members it depends on the scope: entries are searched
only under the class that the reference names, or through the hierarchy above it.
-/

namespace Renaming

namespace Mappings

variable (mappings : Mappings)

/-- The new name of a class; the class names inside the name of an array class are replaced. -/
def classNameAny (name : ClassName) : Except Fault ClassName :=
  if name.isArray then (Descriptor.renameText mappings.className? name.text).map Symbol.mk
  else .ok (mappings.className name)

/-- A field descriptor in terms of the new names. -/
def fieldDescriptor (descriptor : FieldDescriptor) : Except Fault FieldDescriptor :=
  descriptor.rename mappings.className?

/-- A class signature in terms of the new names. -/
def classSignature (signature : ClassSignature) : Except Fault ClassSignature :=
  signature.rename mappings.className?

/-- A field signature in terms of the new names. -/
def fieldSignature (signature : FieldSignature) : Except Fault FieldSignature :=
  signature.rename mappings.className?

/-- A method signature in terms of the new names. -/
def methodSignature (signature : MethodSignature) : Except Fault MethodSignature :=
  signature.rename mappings.className?

end Mappings

/-- Where entries for members are searched. -/
inductive Scope where
  /-- Only under the class that the reference names. -/
  | owner
  /-- Under that class and the classes above it. -/
  | inherited (hierarchy : Hierarchy)

/-- Mappings together with the scope in which members are searched. -/
structure Renamer where
  mappings : Mappings
  scope : Scope

namespace Renamer

/-- The renamer that searches only under the class that a reference names. -/
def direct (mappings : Mappings) : Renamer := ⟨mappings, .owner⟩

/-- The renamer that searches as the resolver does. -/
def ofResolver (resolver : Resolver) : Renamer := ⟨resolver.mappings, .inherited resolver.hierarchy⟩

variable (renamer : Renamer)

/-- The new name of the field, if there is an entry in scope. -/
def fieldName? (ref : FieldRef) (isStatic : Bool) : Journal (Option FieldName) :=
  match renamer.scope with
  | .owner => return renamer.mappings.fieldName? ref.owner ref.name
  | .inherited hierarchy => do
    let found ← Resolver.resolveField ⟨renamer.mappings, hierarchy⟩ ref isStatic
    return found.map Resolved.name

/-- The new name of the method, if there is an entry in scope. -/
def methodName? (ref : MethodRef) (isStatic : Bool) : Journal (Option MethodName) :=
  match renamer.scope with
  | .owner => return renamer.mappings.methodName? ref.owner ref.key
  | .inherited hierarchy => do
    let found ← Resolver.resolveMethod ⟨renamer.mappings, hierarchy⟩ ref isStatic
    return found.map Resolved.name

/-- A field reference in terms of the new names. -/
def fieldRef (ref : FieldRef) (isStatic : Bool) : Journal FieldRef := do
  let name ← renamer.fieldName? ref isStatic
  let owner ← renamer.mappings.classNameAny ref.owner
  let descriptor ← renamer.mappings.fieldDescriptor ref.descriptor
  return ⟨owner, name.getD ref.name, descriptor⟩

/-- A method reference in terms of the new names; methods of array classes keep their name. -/
def methodRef (ref : MethodRef) (isStatic : Bool) : Journal MethodRef := do
  let name ← if ref.owner.isArray then pure none else renamer.methodName? ref isStatic
  let owner ← renamer.mappings.classNameAny ref.owner
  let descriptor ← renamer.mappings.methodDescriptor ref.descriptor
  return ⟨owner, name.getD ref.name, descriptor⟩

section Parts

variable (resolver : Resolver)

/-- What a field reference becomes: its class and its descriptor are renamed by themselves. -/
theorem fieldRef_of_parts {ref : FieldRef} {owner : ClassName} {descriptor : FieldDescriptor}
    (isStatic : Bool) (ownerFound : resolver.mappings.classNameAny ref.owner = .ok owner)
    (read : resolver.mappings.fieldDescriptor ref.descriptor = .ok descriptor) :
    ((ofResolver resolver).fieldRef ref isStatic).result =
      .ok ⟨owner, ((resolver.field ref isStatic).map Resolved.name).getD ref.name, descriptor⟩ := by
  simp only [fieldRef, fieldName?, ofResolver, Recorded.result_bind_eq_ok_iff,
    Resolver.result_resolveField, Recorded.result_pure, Recorded.result_monadLift, Except.ok.injEq,
    exists_eq_left', ownerFound, read]

/-- What a method reference becomes; on an array class it keeps its name. -/
theorem methodRef_of_parts {ref : MethodRef} {owner : ClassName} {descriptor : MethodDescriptor}
    (isStatic : Bool) (ownerFound : resolver.mappings.classNameAny ref.owner = .ok owner)
    (read : resolver.mappings.methodDescriptor ref.descriptor = .ok descriptor) :
    ((ofResolver resolver).methodRef ref isStatic).result =
      .ok ⟨owner,
        if ref.owner.isArray then ref.name
        else ((resolver.method ref isStatic).map Resolved.name).getD ref.name, descriptor⟩ := by
  cases array : ref.owner.isArray <;>
    simp only [methodRef, array, methodName?, ofResolver, Recorded.result_bind_eq_ok_iff,
      Resolver.result_resolveMethod, Recorded.result_pure, Recorded.result_monadLift,
      Except.ok.injEq, exists_eq_left', reduceIte, Bool.false_eq_true, Option.getD_none,
      ownerFound, read]

end Parts

end Renamer

end Renaming

import Renaming.Hierarchy.Walk
import Renaming.Journal
import Renaming.Mappings.Basic

/-!
# Resolving members

A reference names a member as seen from some class, the *site*; the entry for the member may be
filed under another class. The resolver walks through the classes above the site. The entry of the
site itself always counts; that of another class counts if the class declares the member, not
privately, and for uses of an instance not statically. The first entry that counts is the answer.

A declared method without an entry of its own takes the new name of a method that it overrides, so
that overriding survives renaming. Constructors and class initialisers are never renamed.
-/

namespace Renaming

/-- The class under which an entry was found, and the new name it gives. -/
structure Resolved (ν : Type) where
  owner : ClassName
  name : ν
deriving DecidableEq

/-- Mappings, and the hierarchy through which members are looked up. -/
structure Resolver where
  mappings : Mappings
  hierarchy : Hierarchy

namespace Resolver

variable (resolver : Resolver)

/-- Whether a member with that access is visible from a subclass, in a static use or not. -/
def isVisible {kind : AccessKind} (access : Access kind) (isStatic : Bool) : Bool :=
  !access.isPrivate && (isStatic || !access.isStatic)

/-- Whether the entry of a class counts for the field reference. -/
def fieldCounts (ref : FieldRef) (isStatic : Bool) (info : Option ClassInfo) (isSite : Bool) :
    Bool :=
  isSite || (info.bind fun info => info.field? ref.name ref.descriptor).any fun field =>
    isVisible field.access isStatic

/-- Whether the entry of a class counts for the method reference. -/
def methodCounts (ref : MethodRef) (isStatic : Bool) (info : Option ClassInfo) (isSite : Bool) :
    Bool :=
  isSite || (info.bind fun info => info.method? ref.key).any fun method =>
    isVisible method.access isStatic

/-- Whether a class is an ancestor whose method the declared one overrides. -/
def isOverridden (ref : MethodRef) (info : Option ClassInfo) (isSite : Bool) : Bool :=
  !isSite && (info.bind fun info => info.method? ref.key).any MethodInfo.isInheritable

/-- The first entry that counts for a field reference. -/
def field (ref : FieldRef) (isStatic : Bool) : Option (Resolved FieldName) :=
  resolver.hierarchy.search (fun owner info isSite =>
    if fieldCounts ref isStatic info isSite then
      (resolver.mappings.fieldName? owner ref.name).map (Resolved.mk owner)
    else none) ref.owner

/-- The first entry that counts for a method reference. -/
def method (ref : MethodRef) (isStatic : Bool) : Option (Resolved MethodName) :=
  if ref.name.isSpecial then none
  else
    resolver.hierarchy.search (fun owner info isSite =>
      if methodCounts ref isStatic info isSite then
        (resolver.mappings.methodName? owner ref.key).map (Resolved.mk owner)
      else none) ref.owner

/-- The first entry for a method that the declared one overrides. -/
def overridden (ref : MethodRef) : Option (Resolved MethodName) :=
  resolver.hierarchy.search (fun owner info isSite =>
    if isOverridden ref info isSite then
      (resolver.mappings.methodName? owner ref.key).map (Resolved.mk owner)
    else none) ref.owner

/-- The entry for a declared method: its own, or that of a method it overrides. -/
def declaration (ref : MethodRef) (access : MethodAccess) : Option (Resolved MethodName) :=
  if ref.name.isSpecial then none
  else
    match resolver.mappings.methodName? ref.owner ref.key with
    | some name => some ⟨ref.owner, name⟩
    | none => if access.isPrivate || access.isStatic then none else resolver.overridden ref

/-! ### With a journal -/

/-- Resolves a field reference and records what was found. -/
def resolveField (ref : FieldRef) (isStatic : Bool) : Journal (Option (Resolved FieldName)) := do
  let found := resolver.field ref isStatic
  Recorded.note (found.toList.map fun hit => .fieldResolved ref hit.owner hit.name)
  return found

/-- Resolves a method reference and records what was found. -/
def resolveMethod (ref : MethodRef) (isStatic : Bool) :
    Journal (Option (Resolved MethodName)) := do
  let found := resolver.method ref isStatic
  Recorded.note (found.toList.map fun hit => .methodResolved ref hit.owner hit.name)
  return found

/-- Resolves a declared method and records what it overrides, if its name comes from there. -/
def resolveDeclaration (ref : MethodRef) (access : MethodAccess) :
    Journal (Option (Resolved MethodName)) := do
  let found := resolver.declaration ref access
  Recorded.note ((found.toList.filter fun hit => hit.owner ≠ ref.owner).map fun hit =>
    .overriding ref hit.owner hit.name)
  return found

@[simp] theorem result_resolveField (ref : FieldRef) (isStatic : Bool) :
    (resolver.resolveField ref isStatic).result = .ok (resolver.field ref isStatic) := rfl

@[simp] theorem result_resolveMethod (ref : MethodRef) (isStatic : Bool) :
    (resolver.resolveMethod ref isStatic).result = .ok (resolver.method ref isStatic) := rfl

@[simp] theorem result_resolveDeclaration (ref : MethodRef) (access : MethodAccess) :
    (resolver.resolveDeclaration ref access).result = .ok (resolver.declaration ref access) := rfl

end Resolver

end Renaming

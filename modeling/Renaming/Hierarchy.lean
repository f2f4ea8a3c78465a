import Renaming.Access
import Renaming.Member
import Renaming.Table

/-!
# Hierarchies of classes

A hierarchy knows, for some classes, the super class, the interfaces and the declared members. It
need not know every class that is mentioned, and it may contain cycles. Hierarchies are put over
each other: what the upper one knows of a class hides what the lower one knows.

A view of classes may be anything that can be asked for a class by its name. Here it is given by the
finite list of the classes that it knows; of a class that is not in the list it knows nothing. So a
view with an answer for infinitely many names, or with answers that change while it is asked, is no
hierarchy. That the known classes are finitely many is what walks along super classes and interfaces
end by, also in cycles.
-/

namespace Renaming

/-- A declared field. -/
structure FieldInfo where
  name : FieldName
  descriptor : FieldDescriptor
  access : Access .field
deriving DecidableEq

/-- A declared method. -/
structure MethodInfo where
  key : MethodKey
  access : MethodAccess
deriving DecidableEq

/-- A method that methods of subclasses with the same name and descriptor override. -/
def MethodInfo.isInheritable (method : MethodInfo) : Bool :=
  !method.access.isPrivate && !method.access.isStatic && !method.access.isFinal

/-- What a hierarchy knows of a class. -/
structure ClassInfo where
  superClass : Option ClassName
  interfaces : List ClassName
  fields : List FieldInfo
  methods : List MethodInfo
deriving DecidableEq

namespace ClassInfo

/-- The first declared field with the name and descriptor. -/
def field? (info : ClassInfo) (name : FieldName) (descriptor : FieldDescriptor) :
    Option FieldInfo :=
  info.fields.find? fun field => field.name = name && field.descriptor = descriptor

/-- The first declared method with the key. -/
def method? (info : ClassInfo) (key : MethodKey) : Option MethodInfo :=
  info.methods.find? fun method => method.key = key

/-- The fields that other classes can access. -/
def accessibleFields (info : ClassInfo) : List FieldInfo :=
  info.fields.filter fun field => !field.access.isPrivate

/-- The methods that subclasses can override. -/
def inheritableMethods (info : ClassInfo) : List MethodInfo :=
  info.methods.filter MethodInfo.isInheritable

end ClassInfo

/-- What is known of classes; of several entries for a class the first counts. -/
structure Hierarchy where
  known : List (ClassName × ClassInfo)

namespace Hierarchy

/-- The hierarchy that knows no class. -/
def empty : Hierarchy := ⟨[]⟩

instance : EmptyCollection Hierarchy := ⟨empty⟩

/-- The hierarchy with the classes of a table. -/
def ofTable (table : Table ClassName ClassInfo) : Hierarchy := ⟨table.entries⟩

/-- What is known of the class. -/
def lookup (hierarchy : Hierarchy) (name : ClassName) : Option ClassInfo :=
  valueAt? name hierarchy.known

/-- The upper hierarchy, and the lower one for the classes that the upper does not know. -/
def above (upper lower : Hierarchy) : Hierarchy := ⟨upper.known ++ lower.known⟩

@[simp] theorem lookup_empty (name : ClassName) : (∅ : Hierarchy).lookup name = none := rfl

/-- The upper hierarchy is asked first. -/
@[simp] theorem lookup_above (upper lower : Hierarchy) (name : ClassName) :
    (upper.above lower).lookup name = (upper.lookup name).or (lower.lookup name) := by
  obtain ⟨entries⟩ := upper
  simp only [above, lookup]
  induction entries with
  | nil => simp [valueAt?]
  | cons entry rest ih =>
    simp only [List.cons_append, valueAt?]
    split
    · rfl
    · exact ih

/-- A class that the hierarchy knows has an entry. -/
theorem mem_of_lookup {hierarchy : Hierarchy} {name : ClassName} {info : ClassInfo}
    (found : hierarchy.lookup name = some info) : (name, info) ∈ hierarchy.known := by
  obtain ⟨entries⟩ := hierarchy
  simp only [lookup] at found
  induction entries with
  | nil => simp [valueAt?] at found
  | cons entry rest ih =>
    obtain ⟨here, value⟩ := entry
    simp only [valueAt?] at found
    split at found
    · simp_all
    · exact List.mem_cons_of_mem _ (ih found)

end Hierarchy

end Renaming

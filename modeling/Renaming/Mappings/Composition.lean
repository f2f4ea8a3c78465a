import Renaming.Mappings.Basic

/-!
# Reversing and composing mappings

Mappings lead from names of one vocabulary to names of another. With `A → B` given,

* `reverse` leads back, `B → A`;
* `mediate` takes further mappings `A → C` to `B → C`;
* `convert` takes further mappings `B → C` to `A → C`.

Names that stand in keys are moved along: an owner is the class as the new vocabulary names it, and
the class names inside a descriptor are replaced. This fails if a descriptor is malformed.
-/

namespace Renaming.Mappings

/-- A method descriptor in terms of the new names. -/
def methodDescriptor (mappings : Mappings) (descriptor : MethodDescriptor) :
    Except Fault MethodDescriptor :=
  descriptor.rename mappings.className?

/-- The key of a method in terms of the new names. -/
def methodKey (mappings : Mappings) (owner : ClassName) (key : MethodKey) :
    Except Fault MethodKey := do
  return ⟨mappings.methodName owner key, ← mappings.methodDescriptor key.descriptor⟩

/-- Thrown classes in terms of the new names, without repetition. -/
def exceptionNames (mappings : Mappings) (exceptions : List ClassName) : List ClassName :=
  distinct (exceptions.map mappings.className)

/-- The extras that merging entries one after the other gives. -/
def mergedExtras (entries : List (ClassName × MethodKey × MethodExtra)) :
    Members MethodKey MethodExtra :=
  entries.foldl
    (fun extras entry =>
      extras.alter entry.1 entry.2.1 fun old => (old.getD .empty).merge entry.2.2)
    ∅

/-! ### The way back -/

/-- The mappings from the new names to the old ones; of two old names the later one wins. -/
def reverse (mappings : Mappings) : Except Fault Mappings := do
  let classes := mappings.classes.entries.map fun (old, new) => (new, old)
  let fields := mappings.fields.entries.map fun (owner, old, new) =>
    (mappings.className owner, new, old)
  let methods ← mappings.methods.entries.mapM fun (owner, key, new) => do
    let descriptor ← mappings.methodDescriptor key.descriptor
    return (mappings.className owner, MethodKey.mk new descriptor, key.name)
  let extras ← mappings.extras.entries.mapM fun (owner, key, extra) => do
    let key ← mappings.methodKey owner key
    return (mappings.className owner, key,
      { extra with exceptions := mappings.exceptionNames extra.exceptions })
  return {
    classes := .ofEntries classes
    fields := .ofEntries fields
    methods := .ofEntries methods
    extras := mergedExtras extras }

/-! ### From one vocabulary to another by a common source -/

/-- What both sides know of a method, in terms of the new names of the first side. -/
def mediatedExtra (mappings other : Mappings) (owner : ClassName) (key : MethodKey) :
    MethodExtra :=
  let ours := mappings.extra? owner key
  let theirs := other.extra? owner key
  { exceptions := mappings.exceptionNames
      ((ours.toList ++ theirs.toList).flatMap MethodExtra.exceptions)
    parameters :=
      match (theirs.filter fun extra => !extra.parameters.isEmpty).or ours with
      | some extra => extra.parameters
      | none => [] }

/-- From `A → B` and `A → C` the mappings `B → C`; names that stay the same have no entry. -/
def mediate (mappings other : Mappings) : Except Fault Mappings := do
  let classes := (distinct (mappings.classes.keys ++ other.classes.keys)).filterMap fun name =>
    let old := mappings.className name
    let new := other.className name
    if old = new then none else some (old, new)
  let fields := (mappings.fields.union other.fields).filterMap fun (owner, name) =>
    let old := (mappings.fieldName? owner name).getD name
    let new := (other.fieldName? owner name).getD name
    if old = new then none else some (mappings.className owner, old, new)
  let methods ← (mappings.methods.union other.methods).filterMapM fun (owner, key) => do
    let new := other.methodName owner key
    if mappings.methodName owner key = new then
      return none
    else
      return some (mappings.className owner, ← mappings.methodKey owner key, new)
  let extras ← (mappings.extras.union other.extras).mapM fun (owner, key) => do
    return (mappings.className owner, ← mappings.methodKey owner key,
      mappings.mediatedExtra other owner key)
  return {
    classes := .ofEntries classes
    fields := .ofEntries fields
    methods := .ofEntries methods
    extras := mergedExtras extras }

/-! ### One mapping after the other -/

/-- The old name of a class; of two old names the later one wins, a name without one is kept. -/
def oldClassName (mappings : Mappings) (name : ClassName) : ClassName :=
  ((Table.ofEntries (mappings.classes.entries.map fun (old, new) => (new, old))).get? name).getD
    name

/-- What is known of a method, and what the other mappings know of it under its new name. -/
def convertedExtra (mappings : Mappings) (extra : MethodExtra) (theirs : Option MethodExtra) :
    MethodExtra :=
  match theirs with
  | none => extra
  | some theirs =>
    extra.merge
      { theirs with exceptions := distinct (theirs.exceptions.map mappings.oldClassName) }

/-- From `A → B` and `B → C` the mappings `A → C`, for the names that the first side has. -/
def convert (mappings other : Mappings) : Except Fault Mappings := do
  let classes := mappings.classes.entries.map fun (old, new) => (old, other.className new)
  let fields := mappings.fields.entries.map fun (owner, old, new) =>
    (owner, old, (other.fieldName? (mappings.className owner) new).getD new)
  let methods ← mappings.methods.entries.mapM fun (owner, key, new) => do
    let descriptor ← mappings.methodDescriptor key.descriptor
    return (owner, key, other.methodName (mappings.className owner) ⟨new, descriptor⟩)
  let extras ← mappings.extras.entries.mapM fun (owner, key, extra) => do
    let theirs := other.extra? (mappings.className owner) (← mappings.methodKey owner key)
    return (owner, key, mappings.convertedExtra extra theirs)
  return {
    classes := .ofEntries classes
    fields := .ofEntries fields
    methods := .ofEntries methods
    extras := mergedExtras extras }

end Renaming.Mappings

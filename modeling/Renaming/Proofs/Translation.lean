import Renaming.Proofs.DescriptorRenaming

/-!
# Keys and references in other terms

Mappings lead from one vocabulary to another. The key of a method is led along by renaming the
method and the classes in its descriptor, which works for every valid descriptor
(`methodKey_of_valid`); different descriptors stay different if different classes do
(`newDescriptor_injective`).

A reference is led along by its own class, without regard to the classes above it. Leading a
reference through two vocabularies is leading it through one, if this is so for the classes it
mentions and for the name of the member (`renameField_bind`, `renameMethod_bind`).
-/

namespace Renaming

/-! ### Steps that all end well -/

section Steps

variable {α β : Type} {items : List α}

theorem mapM_of_forall_eq_ok {step : α → Except Fault β} {value : α → β}
    (each : ∀ item ∈ items, step item = .ok (value item)) :
    items.mapM step = .ok (items.map value) := by
  induction items with
  | nil => rfl
  | cons item rest ih =>
    have first := each item List.mem_cons_self
    have others := ih fun other member => each other (List.mem_cons_of_mem _ member)
    rw [List.mapM_cons, first, others]
    rfl

theorem filterMapM_of_forall_eq_ok {step : α → Except Fault (Option β)} {value : α → Option β}
    (each : ∀ item ∈ items, step item = .ok (value item)) :
    items.filterMapM step = .ok (items.filterMap value) := by
  induction items with
  | nil => rfl
  | cons item rest ih =>
    have first := each item List.mem_cons_self
    have others := ih fun other member => each other (List.mem_cons_of_mem _ member)
    rw [List.filterMapM_cons, first, others, List.filterMap_cons]
    cases value item <;> rfl

/-- A step that is known to end well is followed by the next one. -/
theorem bind_of_eq_ok {run : Except Fault α} {value : α} {next : α → Except Fault β}
    {last : Except Fault β} (done : run = .ok value) (rest : next value = last) :
    (run >>= next) = last := by
  rw [done]
  exact rest

end Steps

namespace Mappings

/-! ### Keys -/

/-- All methods that have entries have valid descriptors. -/
structure ValidDescriptors (mappings : Mappings) : Prop where
  methods : ∀ entry ∈ mappings.methods.entries, entry.2.1.descriptor.Valid
  extras : ∀ entry ∈ mappings.extras.entries, entry.2.1.descriptor.Valid

theorem ValidDescriptors.of_method {mappings : Mappings} (valid : mappings.ValidDescriptors)
    {owner : ClassName} {key : MethodKey} (found : (mappings.methods.get? owner key).isSome) :
    key.descriptor.Valid := by
  obtain ⟨new, found⟩ := Option.isSome_iff_exists.mp found
  exact valid.methods (owner, key, new) (Members.mem_entries_of_get? found)

theorem ValidDescriptors.of_extra {mappings : Mappings} (valid : mappings.ValidDescriptors)
    {owner : ClassName} {key : MethodKey} (found : (mappings.extras.get? owner key).isSome) :
    key.descriptor.Valid := by
  obtain ⟨extra, found⟩ := Option.isSome_iff_exists.mp found
  exact valid.extras (owner, key, extra) (Members.mem_entries_of_get? found)

/-- The classes that the entries for classes, fields and methods mention on their old side. -/
def mentioned (mappings : Mappings) : List ClassName :=
  mappings.classes.keys ++ mappings.fields.owners.keys ++ mappings.methods.owners.keys ++
    mappings.methods.entries.flatMap fun entry => entry.2.1.descriptor.classNames

/-- The new name of a field that the class declares; without an entry it keeps its name. -/
def fieldName (mappings : Mappings) (owner : ClassName) (name : FieldName) : FieldName :=
  (mappings.fieldName? owner name).getD name

/-- A method descriptor in terms of the new names; a malformed one is kept. -/
def newDescriptor (mappings : Mappings) (descriptor : MethodDescriptor) : MethodDescriptor :=
  (mappings.methodDescriptor descriptor).toOption.getD descriptor

/-- The key of a method in terms of the new names. -/
def newKey (mappings : Mappings) (owner : ClassName) (key : MethodKey) : MethodKey :=
  ⟨mappings.methodName owner key, mappings.newDescriptor key.descriptor⟩

variable {mappings : Mappings}

theorem className_of_eq_some {name new : ClassName} (found : mappings.className? name = some new) :
    mappings.className name = new := by
  rw [className, found, Option.getD_some]

theorem fieldName_of_eq_some {owner : ClassName} {name new : FieldName}
    (found : mappings.fieldName? owner name = some new) : mappings.fieldName owner name = new := by
  rw [fieldName, found, Option.getD_some]

theorem methodName_of_eq_some {owner : ClassName} {key : MethodKey} {new : MethodName}
    (found : mappings.methodName? owner key = some new) : mappings.methodName owner key = new := by
  rw [methodName, found, Option.getD_some]

theorem newDescriptor_of_eq_ok {descriptor renamed : MethodDescriptor}
    (done : mappings.methodDescriptor descriptor = .ok renamed) :
    mappings.newDescriptor descriptor = renamed := by
  rw [newDescriptor, done]
  rfl

/-- A valid descriptor can be renamed, so it is not kept as a malformed one is. -/
theorem methodDescriptor_of_valid {descriptor : MethodDescriptor} (fine : descriptor.Valid) :
    mappings.methodDescriptor descriptor = .ok (mappings.newDescriptor descriptor) := by
  have admits : False → ∀ old new : ClassName, isObjectName old.text.toList = true →
      mappings.className? old = some new → isObjectName new.text.toList = true := False.elim
  obtain ⟨renamed, done, _⟩ := Symbol.exists_rename MethodType rfl admits fine
  have found : mappings.methodDescriptor descriptor = .ok renamed := done
  rw [found, newDescriptor_of_eq_ok found]

theorem valid_newDescriptor (targets : mappings.ObjectTargets) {descriptor : MethodDescriptor}
    (fine : descriptor.Valid) : (mappings.newDescriptor descriptor).Valid := by
  obtain ⟨renamed, done, renamedFine⟩ := exists_valid_methodDescriptor targets fine
  rw [newDescriptor_of_eq_ok done]
  exact renamedFine

/-- Without entries a valid descriptor stays as it is. -/
theorem methodDescriptor_empty {descriptor : MethodDescriptor} (fine : descriptor.Valid) :
    (∅ : Mappings).methodDescriptor descriptor = .ok descriptor := by
  have kept : Grammar.renameText MethodType (∅ : Mappings).className? descriptor.text =
      .ok descriptor.text := Grammar.renameText_of_kept MethodType fine fun _ _ => rfl
  exact congrArg (Except.map Symbol.mk) kept

theorem exists_fieldDescriptor_of_valid {descriptor : FieldDescriptor} (fine : descriptor.Valid) :
    ∃ renamed, mappings.fieldDescriptor descriptor = .ok renamed := by
  have admits : False → ∀ old new : ClassName, isObjectName old.text.toList = true →
      mappings.className? old = some new → isObjectName new.text.toList = true := False.elim
  obtain ⟨renamed, done, _⟩ := Symbol.exists_rename FieldType rfl admits fine
  exact ⟨renamed, done⟩

theorem methodKey_of_valid {owner : ClassName} {key : MethodKey} (fine : key.descriptor.Valid) :
    mappings.methodKey owner key = .ok (mappings.newKey owner key) := by
  rw [methodKey, methodDescriptor_of_valid fine]
  rfl

/-- **Different descriptors stay different**, if the classes they mention do. -/
theorem newDescriptor_injective (targets : mappings.ObjectTargets) {names : Set ClassName}
    (injective : Set.InjOn mappings.className names) {descriptor other : MethodDescriptor}
    (fine : descriptor.Valid) (otherFine : other.Valid)
    (known : ∀ name ∈ descriptor.classNames, name ∈ names)
    (otherKnown : ∀ name ∈ other.classNames, name ∈ names)
    (same : mappings.newDescriptor descriptor = mappings.newDescriptor other) :
    descriptor = other := by
  have done : mappings.methodDescriptor descriptor = .ok (mappings.newDescriptor descriptor) :=
    methodDescriptor_of_valid fine
  have otherDone : mappings.methodDescriptor other = .ok (mappings.newDescriptor descriptor) := by
    rw [same]
    exact methodDescriptor_of_valid otherFine
  have apart : Set.InjOn (newName mappings.className?)
      {name | name ∈ descriptor.classNames ∨ name ∈ other.classNames} :=
    injective.mono fun name occurs => occurs.elim (known name) (otherKnown name)
  have texts := Grammar.renameText_injective MethodType targets.admits apart
    (Grammar.renameText_of_map MethodType done) (Grammar.renameText_of_map MethodType otherDone)
  exact congrArg Symbol.mk texts

/-- Methods of a class whose new keys are equal are the same, if the classes in their descriptors
and the names of the methods with one descriptor are kept apart. -/
theorem eq_of_newKey_eq (targets : mappings.ObjectTargets) {names : Set ClassName}
    (injective : Set.InjOn mappings.className names) {owner : ClassName} (key rival : MethodKey)
    (fine : key.descriptor.Valid) (rivalFine : rival.descriptor.Valid)
    (known : ∀ name ∈ key.descriptor.classNames, name ∈ names)
    (rivalKnown : ∀ name ∈ rival.descriptor.classNames, name ∈ names) {listed : Set MethodName}
    (apart : Set.InjOn (fun name => mappings.methodName owner ⟨name, key.descriptor⟩) listed)
    (here : key.name ∈ listed) (there : rival = ⟨rival.name, key.descriptor⟩ → rival.name ∈ listed)
    (same : mappings.newKey owner rival = mappings.newKey owner key) : rival = key := by
  obtain ⟨sameName, sameDescriptor⟩ := MethodKey.mk.inj same
  -- The names are kept apart among methods of one descriptor only, so this comes first.
  have typed : rival.descriptor = key.descriptor :=
    newDescriptor_injective targets injective rivalFine fine rivalKnown known sameDescriptor
  have shape : rival = ⟨rival.name, key.descriptor⟩ := by rw [← typed]
  have sameNew : mappings.methodName owner ⟨rival.name, key.descriptor⟩ =
      mappings.methodName owner ⟨key.name, key.descriptor⟩ := by
    rw [← shape]
    exact sameName
  have named : rival.name = key.name := apart (there shape) here sameNew
  rw [shape, named]

/-! ### What is mentioned -/

theorem mem_mentioned_of_class {name : ClassName} (listed : name ∈ mappings.classes.keys) :
    name ∈ mappings.mentioned := by
  simp only [mentioned, List.mem_append, listed, true_or]

theorem mem_mentioned_of_fieldOwner {owner : ClassName}
    (listed : owner ∈ mappings.fields.owners.keys) : owner ∈ mappings.mentioned := by
  simp only [mentioned, List.mem_append, listed, true_or, or_true]

theorem mem_mentioned_of_methodOwner {owner : ClassName}
    (listed : owner ∈ mappings.methods.owners.keys) : owner ∈ mappings.mentioned := by
  simp only [mentioned, List.mem_append, listed, true_or, or_true]

theorem mem_mentioned_of_field {owner : ClassName} {name : FieldName}
    (found : (mappings.fields.get? owner name).isSome) : owner ∈ mappings.mentioned :=
  mem_mentioned_of_fieldOwner (Members.mem_keys_of_isSome found)

theorem mem_mentioned_of_method {owner : ClassName} {key : MethodKey}
    (found : (mappings.methods.get? owner key).isSome) : owner ∈ mappings.mentioned :=
  mem_mentioned_of_methodOwner (Members.mem_keys_of_isSome found)

/-- Also the classes in the descriptor of a method with an entry are mentioned. -/
theorem mem_mentioned_of_descriptor {owner name : ClassName} {key : MethodKey}
    (found : (mappings.methods.get? owner key).isSome) (inside : name ∈ key.descriptor.classNames) :
    name ∈ mappings.mentioned := by
  obtain ⟨new, found⟩ := Option.isSome_iff_exists.mp found
  have listed : (owner, key, new) ∈ mappings.methods.entries := Members.mem_entries_of_get? found
  exact List.mem_append_right _ (List.mem_flatMap.mpr ⟨(owner, key, new), listed, inside⟩)

/-! ### References -/

/-- What a field reference becomes if only the class that it names is asked. -/
def renameField (mappings : Mappings) (isStatic : Bool) (ref : FieldRef) : Except Fault FieldRef :=
  ((Renamer.direct mappings).fieldRef ref isStatic).result

/-- What a method reference becomes if only the class that it names is asked. -/
def renameMethod (mappings : Mappings) (isStatic : Bool) (ref : MethodRef) :
    Except Fault MethodRef :=
  ((Renamer.direct mappings).methodRef ref isStatic).result

theorem renameField_eq (isStatic : Bool) (ref : FieldRef) (object : ref.owner.isArray = false) :
    mappings.renameField isStatic ref = (mappings.fieldDescriptor ref.descriptor).map
      (FieldRef.mk (mappings.className ref.owner) (mappings.fieldName ref.owner ref.name)) := by
  simp only [renameField, Renamer.fieldRef, Renamer.fieldName?, Renamer.direct,
    Recorded.result_bind, Recorded.result_pure, Recorded.result_monadLift, classNameAny, object,
    Bool.false_eq_true, reduceIte]
  cases mappings.fieldDescriptor ref.descriptor <;> rfl

/-- A method on an array keeps its name, whatever entries there are. -/
theorem renameMethod_eq (isStatic : Bool) (ref : MethodRef) {owner : ClassName}
    (read : mappings.classNameAny ref.owner = .ok owner) :
    mappings.renameMethod isStatic ref = (mappings.methodDescriptor ref.descriptor).map
      (MethodRef.mk owner
        (if ref.owner.isArray then ref.name else mappings.methodName ref.owner ref.key)) := by
  cases array : ref.owner.isArray <;>
    simp only [renameMethod, Renamer.methodRef, Renamer.methodName?, Renamer.direct, array,
      Recorded.result_bind, Recorded.result_pure, Recorded.result_monadLift, read, reduceIte,
      Bool.false_eq_true] <;>
    cases mappings.methodDescriptor ref.descriptor <;> rfl

/-- A valid class name can be renamed, that of an array as well. -/
theorem exists_classNameAny_of_valid {name : ClassName} (fine : name.Valid) :
    ∃ renamed, mappings.classNameAny name = .ok renamed := by
  rw [classNameAny]
  cases array : name.isArray with
  | false => exact ⟨_, rfl⟩
  | true =>
    have passes := (ClassName.valid_iff_of_isArray array).mp fine
    obtain ⟨type, wellFormed, written⟩ := (Grammar.check_eq_ok_iff FieldType).mp passes
    rw [if_pos rfl, Descriptor.renameText_of_isArray array, ← written,
      Grammar.renameText_write FieldType _ wellFormed]
    exact ⟨_, rfl⟩

theorem exists_renameField {isStatic : Bool} {ref : FieldRef} (object : ref.owner.isArray = false)
    (fine : ref.descriptor.Valid) : ∃ renamed, mappings.renameField isStatic ref = .ok renamed := by
  obtain ⟨descriptor, done⟩ := exists_fieldDescriptor_of_valid fine
  rw [renameField_eq isStatic ref object, done]
  exact ⟨_, rfl⟩

theorem exists_renameMethod {isStatic : Bool} {ref : MethodRef} {owner : ClassName}
    (read : mappings.classNameAny ref.owner = .ok owner) (fine : ref.descriptor.Valid) :
    ∃ renamed, mappings.renameMethod isStatic ref = .ok renamed := by
  rw [renameMethod_eq isStatic ref read, methodDescriptor_of_valid fine]
  exact ⟨_, rfl⟩

section Twice

variable {first second both : Mappings} {isStatic : Bool} (targets : first.ObjectTargets)

include targets

/-- Two mappings one after the other lead a field reference where one leads it, if they do so with
its classes and its name. -/
theorem renameField_bind {ref : FieldRef} (object : ref.owner.isArray = false)
    (classes : ∀ name ∈ ref.classNames,
      second.className (first.className name) = both.className name)
    (member : second.fieldName (first.className ref.owner) (first.fieldName ref.owner ref.name) =
      both.fieldName ref.owner ref.name) :
    (first.renameField isStatic ref >>= second.renameField isStatic) =
      both.renameField isStatic ref := by
  have owners : second.className (first.className ref.owner) = both.className ref.owner :=
    classes ref.owner (FieldRef.owner_mem_classNames object)
  have descriptors : (first.fieldDescriptor ref.descriptor >>= second.fieldDescriptor) =
      both.fieldDescriptor ref.descriptor :=
    fieldDescriptor_bind targets fun name inside => classes name (List.mem_append_right _ inside)
  rw [renameField_eq isStatic ref object, renameField_eq isStatic ref object, ← descriptors,
    ← owners, ← member]
  cases first.fieldDescriptor ref.descriptor with
  | error fault => rfl
  | ok descriptor =>
    have still : (first.className ref.owner).isArray = false := targets.isArray_className object
    exact renameField_eq isStatic
      ⟨first.className ref.owner, first.fieldName ref.owner ref.name, descriptor⟩ still

/-- The same for a method reference, on a class whose name can be read. -/
theorem renameMethod_bind {ref : MethodRef} {owner : ClassName}
    (read : both.classNameAny ref.owner = .ok owner)
    (classes : ∀ name ∈ ref.classNames,
      second.className (first.className name) = both.className name)
    (member : ref.owner.isArray = false → ∀ descriptor,
      first.methodDescriptor ref.descriptor = .ok descriptor →
        second.methodName (first.className ref.owner)
          ⟨first.methodName ref.owner ref.key, descriptor⟩ = both.methodName ref.owner ref.key) :
    (first.renameMethod isStatic ref >>= second.renameMethod isStatic) =
      both.renameMethod isStatic ref := by
  have owners : (first.classNameAny ref.owner >>= second.classNameAny) = .ok owner := by
    rw [← read]
    exact classNameAny_bind targets fun name inside => classes name (List.mem_append_left _ inside)
  have descriptors : (first.methodDescriptor ref.descriptor >>= second.methodDescriptor) =
      both.methodDescriptor ref.descriptor :=
    methodDescriptor_bind targets fun name inside => classes name (List.mem_append_right _ inside)
  cases found : first.classNameAny ref.owner with
  | error fault =>
    rw [found] at owners
    cases owners
  | ok middle =>
    have reread : second.classNameAny middle = .ok owner := by
      rw [found] at owners
      exact owners
    rw [renameMethod_eq isStatic ref found, renameMethod_eq isStatic ref read, ← descriptors]
    cases done : first.methodDescriptor ref.descriptor with
    | error fault => rfl
    | ok descriptor =>
      -- Whether the name of the method is kept is asked of the renamed class the second time.
      have kind : middle.isArray = ref.owner.isArray := isArray_of_classNameAny targets found
      refine (renameMethod_eq isStatic ⟨middle, _, descriptor⟩ reread).trans ?_
      show (second.methodDescriptor descriptor).map _ = (second.methodDescriptor descriptor).map _
      rw [kind]
      cases array : ref.owner.isArray with
      | true => rfl
      | false =>
        rw [classNameAny, if_neg (ne_true_of_eq_false array)] at found
        cases found
        rw [if_neg Bool.false_ne_true, if_neg Bool.false_ne_true, ← member array descriptor done]
        rfl

end Twice

end Mappings

end Renaming

import Renaming.Proofs.Translation

/-!
# There and back

Reversed mappings lead from the new names to the old ones. Their keys are in terms of the new names:
the owner of a member, its name and the classes in its descriptor are led along before they become a
key, and the classes that a method throws are led along too. Where the mappings keep apart what they
mention, no two keys fall together. Then the reversed tables have the entries of the old ones in the
same order, and looking up a new name in them gives the old one, also where the name was kept for
want of an entry. So reversing twice gives the same mappings again.
-/

namespace Renaming

namespace Mappings

variable {mappings : Mappings}

/-! ### What reversing gives -/

/-- The entry for the way back of a method. -/
def reversedMethod (mappings : Mappings) (entry : MethodKey × MethodName) :
    MethodKey × MethodName :=
  (⟨entry.2, mappings.newDescriptor entry.1.descriptor⟩, entry.1.name)

/-- What is known of a method, in terms of the new names. -/
def reversedExtra (mappings : Mappings) (owner : ClassName) (entry : MethodKey × MethodExtra) :
    MethodKey × MethodExtra :=
  (mappings.newKey owner entry.1,
    { entry.2 with exceptions := mappings.exceptionNames entry.2.exceptions })

/-- The reversed mappings, from methods with valid descriptors. -/
def reversed (mappings : Mappings) : Mappings where
  classes := .ofEntries <| mappings.classes.entries.map Prod.swap
  fields := .ofEntries <| mappings.fields.entries.map fun entry =>
    (mappings.className entry.1, entry.2.swap)
  methods := .ofEntries <| mappings.methods.entries.map fun entry =>
    (mappings.className entry.1, mappings.reversedMethod entry.2)
  extras := mergedExtras <| mappings.extras.entries.map fun entry =>
    (mappings.className entry.1, mappings.reversedExtra entry.1 entry.2)

/-- Reversing succeeds. -/
theorem reverse_eq (valid : mappings.ValidDescriptors) :
    mappings.reverse = .ok mappings.reversed := by
  have methods : (mappings.methods.entries.mapM fun entry => do
      let descriptor ← mappings.methodDescriptor entry.2.1.descriptor
      return (mappings.className entry.1, MethodKey.mk entry.2.2 descriptor, entry.2.1.name)) =
      .ok (mappings.methods.entries.map fun entry =>
        (mappings.className entry.1, mappings.reversedMethod entry.2)) := by
    refine mapM_of_forall_eq_ok fun entry listed => ?_
    rw [methodDescriptor_of_valid (valid.methods entry listed)]
    rfl
  have extras : (mappings.extras.entries.mapM fun entry => do
      let key ← mappings.methodKey entry.1 entry.2.1
      return (mappings.className entry.1, key,
        { entry.2.2 with exceptions := mappings.exceptionNames entry.2.2.exceptions })) =
      .ok (mappings.extras.entries.map fun entry =>
        (mappings.className entry.1, mappings.reversedExtra entry.1 entry.2)) := by
    refine mapM_of_forall_eq_ok fun entry listed => ?_
    rw [methodKey_of_valid (valid.extras entry listed)]
    rfl
  exact bind_of_eq_ok methods (bind_of_eq_ok extras rfl)

theorem unambiguous_reversed : mappings.reversed.Unambiguous where
  classes := Table.unambiguous_ofEntries _
  fields := Members.unambiguous_ofEntries _
  methods := Members.unambiguous_ofEntries _
  extras := unambiguous_mergedExtras _

/-- The descriptors in the keys of reversed mappings are renamed ones. -/
theorem validDescriptors_reversed (valid : mappings.ValidDescriptors)
    (targets : mappings.ObjectTargets) : mappings.reversed.ValidDescriptors := by
  constructor
  · intro entry member
    obtain ⟨name, listed⟩ := Members.exists_of_mem_ofEntries member
    obtain ⟨old, present, made⟩ := List.mem_map.mp listed
    obtain ⟨_, key⟩ := Prod.mk.inj made
    rw [← (Prod.mk.inj key).1]
    exact valid_newDescriptor targets (valid.methods old present)
  · intro entry member
    obtain ⟨extra, listed⟩ := exists_of_mem_mergedExtras member
    obtain ⟨old, present, made⟩ := List.mem_map.mp listed
    obtain ⟨_, key⟩ := Prod.mk.inj made
    rw [← (Prod.mk.inj key).1]
    exact valid_newDescriptor targets (valid.extras old present)

/-! ### The way back of a name -/

section LookUp

variable {names : Set ClassName}

/-- Under the new name of a class stands its old name, if it has an entry. -/
theorem className?_reversed (unambiguous : mappings.classes.Unambiguous)
    (known : ∀ name ∈ mappings.classes.keys, name ∈ names)
    (injective : Set.InjOn mappings.className names) {name : ClassName} (within : name ∈ names) :
    mappings.reversed.className? (mappings.className name) =
      (mappings.className? name).map fun _ => name := by
  apply Table.get?_ofEntries_map unambiguous Prod.swap
  · intro entry listed same
    have found : mappings.className? entry.1 = some entry.2 :=
      (Table.get?_eq_some_iff unambiguous).mpr listed
    have entryKnown : entry.1 ∈ names := known entry.1 (List.mem_map.mpr ⟨entry, listed, rfl⟩)
    exact injective entryKnown within ((className_of_eq_some found).trans same)
  · intro new found
    exact (className_of_eq_some found).symm

/-- The new name of a class leads back to it, also if it has no entry. -/
theorem className_reversed (unambiguous : mappings.classes.Unambiguous)
    (known : ∀ name ∈ mappings.classes.keys, name ∈ names)
    (injective : Set.InjOn mappings.className names) {name : ClassName} (within : name ∈ names) :
    mappings.reversed.className (mappings.className name) = name := by
  rw [className, className?_reversed unambiguous known injective within]
  cases found : mappings.className? name with
  | some new => rfl
  | none => rw [Option.map_none, Option.getD_none, className, found, Option.getD_none]

/-- The classes in a descriptor are led back. -/
theorem newDescriptor_reversed (unambiguous : mappings.classes.Unambiguous)
    (known : ∀ name ∈ mappings.classes.keys, name ∈ names)
    (injective : Set.InjOn mappings.className names) (targets : mappings.ObjectTargets)
    {descriptor : MethodDescriptor} (fine : descriptor.Valid)
    (inside : ∀ name ∈ descriptor.classNames, name ∈ names) :
    mappings.reversed.newDescriptor (mappings.newDescriptor descriptor) = descriptor := by
  have undone : ∀ name ∈ descriptor.classNames,
      mappings.reversed.className (mappings.className name) = (∅ : Mappings).className name :=
    fun name occurs => className_reversed unambiguous known injective (inside name occurs)
  have twice := methodDescriptor_bind targets undone
  rw [methodDescriptor_of_valid fine, methodDescriptor_empty fine] at twice
  exact newDescriptor_of_eq_ok twice

variable (unambiguous : mappings.Unambiguous) (known : ∀ name ∈ mappings.mentioned, name ∈ names)
  (injective : Set.InjOn mappings.className names)

include unambiguous known injective

/-- Under the new name of a field stands its old name, if no other field has that name. -/
theorem fieldName?_reversed {owner : ClassName} {name : FieldName} (within : owner ∈ names)
    (alone : ∀ rival, (mappings.fieldName? owner rival).isSome →
      mappings.fieldName owner rival = mappings.fieldName owner name → rival = name) :
    mappings.reversed.fieldName? (mappings.className owner) (mappings.fieldName owner name) =
      (mappings.fieldName? owner name).map fun _ => name := by
  apply Members.get?_ofEntries_map unambiguous.fields mappings.className fun _ => Prod.swap
  · intro ⟨site, rival, new⟩ listed sameOwner sameName
    have found : mappings.fieldName? site rival = some new :=
      (Members.get?_eq_some_iff unambiguous.fields).mpr listed
    have present : (mappings.fieldName? site rival).isSome :=
      Option.isSome_iff_exists.mpr ⟨new, found⟩
    have here : site = owner :=
      injective (known site (mem_mentioned_of_field present)) within sameOwner
    rw [here] at found present
    exact ⟨here, alone rival present ((fieldName_of_eq_some found).trans sameName)⟩
  · intro new found
    exact (fieldName_of_eq_some found).symm

/-- The new name of a field leads back to it, if no other field has that name. -/
theorem fieldName_reversed {owner : ClassName} {name : FieldName} (within : owner ∈ names)
    (alone : ∀ rival, (mappings.fieldName? owner rival).isSome →
      mappings.fieldName owner rival = mappings.fieldName owner name → rival = name) :
    mappings.reversed.fieldName (mappings.className owner)
      (mappings.fieldName owner name) = name := by
  rw [fieldName, fieldName?_reversed unambiguous known injective within alone]
  cases found : mappings.fieldName? owner name with
  | some new => rfl
  | none => rw [Option.map_none, Option.getD_none, fieldName, found, Option.getD_none]

/-- Under the new key of a method stands its old name, if no other method has that key. -/
theorem methodName?_reversed {owner : ClassName} {key : MethodKey} (within : owner ∈ names)
    (alone : ∀ rival, (mappings.methodName? owner rival).isSome →
      mappings.newKey owner rival = mappings.newKey owner key → rival = key) :
    mappings.reversed.methodName? (mappings.className owner) (mappings.newKey owner key) =
      (mappings.methodName? owner key).map fun _ => key.name := by
  apply Members.get?_ofEntries_map unambiguous.methods mappings.className
    fun _ => mappings.reversedMethod
  · intro ⟨site, rival, new⟩ listed sameOwner sameKey
    have found : mappings.methodName? site rival = some new :=
      (Members.get?_eq_some_iff unambiguous.methods).mpr listed
    have present : (mappings.methodName? site rival).isSome :=
      Option.isSome_iff_exists.mpr ⟨new, found⟩
    have here : site = owner :=
      injective (known site (mem_mentioned_of_method present)) within sameOwner
    rw [here] at found present
    refine ⟨here, alone rival present ?_⟩
    rw [← sameKey, newKey, methodName_of_eq_some found]
    rfl
  · intro new found
    rw [newKey, methodName_of_eq_some found]
    rfl

/-- The new name of a method leads back to it under its new key, if no other method has that key. -/
theorem methodName_reversed {owner : ClassName} {key : MethodKey} (within : owner ∈ names)
    (alone : ∀ rival, (mappings.methodName? owner rival).isSome →
      mappings.newKey owner rival = mappings.newKey owner key → rival = key) :
    mappings.reversed.methodName (mappings.className owner) (mappings.newKey owner key) =
      key.name := by
  rw [methodName, methodName?_reversed unambiguous known injective within alone]
  cases found : mappings.methodName? owner key with
  | some new => rfl
  | none =>
    rw [Option.map_none, Option.getD_none]
    show mappings.methodName owner key = key.name
    rw [methodName, found, Option.getD_none]

/-- The new key of a method leads back to its key, if no other method has that new key. -/
theorem newKey_reversed (targets : mappings.ObjectTargets) {owner : ClassName} {key : MethodKey}
    (within : owner ∈ names) (fine : key.descriptor.Valid)
    (inside : ∀ name ∈ key.descriptor.classNames, name ∈ names)
    (alone : ∀ rival, (mappings.methodName? owner rival).isSome →
      mappings.newKey owner rival = mappings.newKey owner key → rival = key) :
    mappings.reversed.newKey (mappings.className owner) (mappings.newKey owner key) = key := by
  have name := methodName_reversed unambiguous known injective within alone
  have descriptor := newDescriptor_reversed unambiguous.classes
    (fun site listed => known site (mem_mentioned_of_class listed)) injective targets fine inside
  show MethodKey.mk (mappings.reversed.methodName _ _)
    (mappings.reversed.newDescriptor (mappings.newDescriptor key.descriptor)) = key
  rw [name, descriptor]

end LookUp

/-- Thrown classes that are led back one by one are led back as a list. -/
theorem exceptionNames_undone {back : Mappings} {exceptions : List ClassName}
    (nodup : exceptions.Nodup)
    (undone : ∀ name ∈ exceptions, back.className (mappings.className name) = name) :
    back.exceptionNames (mappings.exceptionNames exceptions) = exceptions := by
  have apart : (exceptions.map mappings.className).Nodup := by
    refine List.Nodup.map_on (fun first here second there same => ?_) nodup
    rw [← undone first here, same, undone second there]
  rw [exceptionNames, exceptionNames, distinct_of_nodup apart, map_map_eq_self undone]
  exact distinct_of_nodup nodup

/-! ### The tables of reversed mappings -/

/-- The classes that the extras mention on their old side. -/
def mentionedByExtras (mappings : Mappings) : List ClassName :=
  mappings.extras.owners.keys ++ mappings.extras.entries.flatMap fun entry =>
    entry.2.1.descriptor.classNames ++ entry.2.2.exceptions

/-- The classes that the mappings mention on their old side. -/
def allMentioned (mappings : Mappings) : List ClassName :=
  mappings.mentioned ++ mappings.mentionedByExtras

/-- The methods that have an entry or extras, by class and key. -/
def listedMethods (mappings : Mappings) : List (ClassName × MethodKey) :=
  (mappings.methods.entries.map fun entry => (entry.1, entry.2.1)) ++
    mappings.extras.entries.map fun entry => (entry.1, entry.2.1)

/-- What the mappings mention is kept apart by the new names: all classes, the fields of one class
that have entries, and the methods of one class and one descriptor that have entries or extras. -/
structure KeepsApart (mappings : Mappings) : Prop where
  classes : ∀ name ∈ mappings.allMentioned, ∀ other ∈ mappings.allMentioned,
    mappings.className name = mappings.className other → name = other
  fields : ∀ entry ∈ mappings.fields.entries, ∀ other ∈ mappings.fields.entries,
    entry.1 = other.1 → entry.2.2 = other.2.2 → entry = other
  methods : ∀ item ∈ mappings.listedMethods, ∀ other ∈ mappings.listedMethods,
    item.1 = other.1 → item.2.descriptor = other.2.descriptor →
      mappings.methodName item.1 item.2 = mappings.methodName other.1 other.2 → item = other

theorem KeepsApart.injOn (apart : mappings.KeepsApart) :
    Set.InjOn mappings.className {name | name ∈ mappings.allMentioned} :=
  fun name here other there => apart.classes name here other there

theorem mem_listedMethods_of_isSome {owner : ClassName} {key : MethodKey}
    (listed : (mappings.methodName? owner key).isSome ∨ (mappings.extra? owner key).isSome) :
    (owner, key) ∈ mappings.listedMethods := by
  obtain found | found := listed
  · obtain ⟨new, found⟩ := Option.isSome_iff_exists.mp found
    have entry : (owner, key, new) ∈ mappings.methods.entries := Members.mem_entries_of_get? found
    exact List.mem_append_left _ (List.mem_map.mpr ⟨_, entry, rfl⟩)
  · obtain ⟨extra, found⟩ := Option.isSome_iff_exists.mp found
    have entry : (owner, key, extra) ∈ mappings.extras.entries := Members.mem_entries_of_get? found
    exact List.mem_append_right _ (List.mem_map.mpr ⟨_, entry, rfl⟩)

theorem mem_allMentioned_of_mentioned {name : ClassName} (listed : name ∈ mappings.mentioned) :
    name ∈ mappings.allMentioned :=
  List.mem_append_left _ listed

theorem mem_allMentioned_of_extra {name : ClassName} (listed : name ∈ mappings.extras.owners.keys) :
    name ∈ mappings.allMentioned :=
  List.mem_append_right _ (List.mem_append_left _ listed)

theorem mem_allMentioned_of_extra_entry {entry : ClassName × MethodKey × MethodExtra}
    (listed : entry ∈ mappings.extras.entries) {name : ClassName}
    (occurs : name ∈ entry.2.1.descriptor.classNames ++ entry.2.2.exceptions) :
    name ∈ mappings.allMentioned :=
  List.mem_append_right _ (List.mem_append_right _ (List.mem_flatMap.mpr ⟨entry, listed, occurs⟩))

theorem mem_allMentioned_of_descriptor {owner name : ClassName} {key : MethodKey}
    (listed : (mappings.methodName? owner key).isSome ∨ (mappings.extra? owner key).isSome)
    (occurs : name ∈ key.descriptor.classNames) : name ∈ mappings.allMentioned := by
  obtain found | found := listed
  · exact mem_allMentioned_of_mentioned (mem_mentioned_of_descriptor found occurs)
  · obtain ⟨extra, found⟩ := Option.isSome_iff_exists.mp found
    have present : (owner, key, extra) ∈ mappings.extras.entries :=
      Members.mem_entries_of_get? found
    exact mem_allMentioned_of_extra_entry present (List.mem_append_left _ occurs)

section Tables

variable (canonical : mappings.Canonical) (valid : mappings.ValidDescriptors)
  (targets : mappings.ObjectTargets) (apart : mappings.KeepsApart)

include canonical apart

theorem entries_classes_reversed :
    mappings.reversed.classes.entries = mappings.classes.entries.map Prod.swap := by
  have renamed : (mappings.classes.entries.map Prod.swap).map Prod.fst =
      mappings.classes.keys.map mappings.className := by
    rw [Table.keys, List.map_map, List.map_map]
    refine List.map_congr_left fun entry listed => ?_
    have found := (Table.get?_eq_some_iff canonical.classes).mpr listed
    exact (className_of_eq_some found).symm
  have distinct : ((mappings.classes.entries.map Prod.swap).map Prod.fst).Nodup := by
    rw [renamed]
    refine List.Nodup.map_on (fun first here second there => ?_) canonical.classes
    exact apart.injOn (mem_allMentioned_of_mentioned (mem_mentioned_of_class here))
      (mem_allMentioned_of_mentioned (mem_mentioned_of_class there))
  exact congrArg Table.entries (Table.ofEntries_of_nodup distinct)

theorem entries_fields_reversed : mappings.reversed.fields.entries =
    mappings.fields.entries.map fun entry => (mappings.className entry.1, entry.2.swap) := by
  have owners : Set.InjOn mappings.className {site | site ∈ mappings.fields.owners.keys} := by
    refine apart.injOn.mono fun site listed => mem_allMentioned_of_mentioned ?_
    exact mem_mentioned_of_fieldOwner listed
  have table : mappings.reversed.fields =
      mappings.fields.relabel mappings.className fun _ => Prod.swap := by
    refine Members.ofEntries_relabel mappings.className (fun _ => Prod.swap) canonical.fields
      canonical.fieldOwners owners ?_
    intro site first second here there same
    exact (Prod.mk.inj (apart.fields _ here _ there rfl same)).2
  rw [table, Members.entries_relabel]

/-- The classes that a method throws are renamed one by one. -/
theorem exceptionNames_eq {entry : ClassName × MethodKey × MethodExtra}
    (listed : entry ∈ mappings.extras.entries) :
    mappings.exceptionNames entry.2.2.exceptions = entry.2.2.exceptions.map mappings.className ∧
      (entry.2.2.exceptions.map mappings.className).Nodup := by
  have distinct : (entry.2.2.exceptions.map mappings.className).Nodup := by
    refine List.Nodup.map_on (fun first here second there => ?_) (canonical.exceptions entry listed)
    exact apart.injOn (mem_allMentioned_of_extra_entry listed (List.mem_append_right _ here))
      (mem_allMentioned_of_extra_entry listed (List.mem_append_right _ there))
  exact ⟨distinct_of_nodup distinct, distinct⟩

include valid targets

omit canonical in
/-- Different methods of a class have different new keys. -/
theorem newKey_injective {owner : ClassName} {key other : MethodKey}
    (listed : (mappings.methodName? owner key).isSome ∨ (mappings.extra? owner key).isSome)
    (otherListed : (mappings.methodName? owner other).isSome ∨ (mappings.extra? owner other).isSome)
    (same : mappings.newKey owner key = mappings.newKey owner other) : key = other := by
  obtain ⟨sameName, sameDescriptor⟩ := MethodKey.mk.inj same
  have fine : key.descriptor.Valid := listed.elim valid.of_method valid.of_extra
  have otherFine : other.descriptor.Valid := otherListed.elim valid.of_method valid.of_extra
  have typed : key.descriptor = other.descriptor :=
    newDescriptor_injective targets apart.injOn fine otherFine
      (fun name occurs => mem_allMentioned_of_descriptor listed occurs)
      (fun name occurs => mem_allMentioned_of_descriptor otherListed occurs) sameDescriptor
  have items : (owner, key) = (owner, other) :=
    apart.methods _ (mem_listedMethods_of_isSome listed) _
      (mem_listedMethods_of_isSome otherListed) rfl typed sameName
  exact (Prod.mk.inj items).2

theorem entries_methods_reversed : mappings.reversed.methods.entries =
    mappings.methods.entries.map fun entry =>
      (mappings.className entry.1, mappings.reversedMethod entry.2) := by
  have owners : Set.InjOn mappings.className {site | site ∈ mappings.methods.owners.keys} := by
    refine apart.injOn.mono fun site listed => mem_allMentioned_of_mentioned ?_
    exact mem_mentioned_of_methodOwner listed
  have table : mappings.reversed.methods =
      mappings.methods.relabel mappings.className fun _ => mappings.reversedMethod := by
    refine Members.ofEntries_relabel mappings.className (fun _ => mappings.reversedMethod)
      canonical.methods canonical.methodOwners owners ?_
    intro site first second here there same
    have found : mappings.methodName? site first.1 = some first.2 :=
      (Members.get?_eq_some_iff canonical.methods).mpr here
    have otherFound : mappings.methodName? site second.1 = some second.2 :=
      (Members.get?_eq_some_iff canonical.methods).mpr there
    have sameKey : mappings.newKey site first.1 = mappings.newKey site second.1 := by
      rw [newKey, newKey, methodName_of_eq_some found, methodName_of_eq_some otherFound]
      exact same
    have keys : first.1 = second.1 := newKey_injective valid targets apart
      (Or.inl (Option.isSome_iff_exists.mpr ⟨_, found⟩))
      (Or.inl (Option.isSome_iff_exists.mpr ⟨_, otherFound⟩)) sameKey
    exact Prod.ext keys (MethodKey.mk.inj same).1
  rw [table, Members.entries_relabel]

theorem entries_extras_reversed : mappings.reversed.extras.entries =
    mappings.extras.entries.map fun entry =>
      (mappings.className entry.1, mappings.reversedExtra entry.1 entry.2) := by
  have owners : Set.InjOn mappings.className {site | site ∈ mappings.extras.owners.keys} :=
    apart.injOn.mono fun site listed => mem_allMentioned_of_extra listed
  have keys : ∀ site first second, (site, first) ∈ mappings.extras.entries →
      (site, second) ∈ mappings.extras.entries →
        (mappings.reversedExtra site first).1 = (mappings.reversedExtra site second).1 →
          first = second := by
    intro site first second here there same
    have found : mappings.extra? site first.1 = some first.2 :=
      (Members.get?_eq_some_iff canonical.extras).mpr here
    have otherFound : mappings.extra? site second.1 = some second.2 :=
      (Members.get?_eq_some_iff canonical.extras).mpr there
    have sameKey : first.1 = second.1 := newKey_injective valid targets apart
      (Or.inr (Option.isSome_iff_exists.mpr ⟨_, found⟩))
      (Or.inr (Option.isSome_iff_exists.mpr ⟨_, otherFound⟩)) same
    rw [sameKey, otherFound] at found
    exact Prod.ext sameKey (Option.some.inj found).symm
  have table := Members.ofEntries_relabel mappings.className mappings.reversedExtra canonical.extras
    canonical.extraOwners owners keys
  have merged : mappings.reversed.extras =
      mappings.extras.relabel mappings.className mappings.reversedExtra := by
    -- Keys that are apart never meet an earlier extra, so merging is inserting.
    rw [← table]
    refine mergedExtras_of_nodup ?_ fun entry member => ?_
    · have flat := (canonical.extras.relabel owners keys).nodup_flat
      rw [Members.entries_relabel] at flat
      exact flat
    · obtain ⟨old, listed, rfl⟩ := List.mem_map.mp member
      obtain ⟨renamed, distinct⟩ := exceptionNames_eq canonical apart listed
      show (mappings.exceptionNames old.2.2.exceptions).Nodup
      rw [renamed]
      exact distinct
  rw [merged, Members.entries_relabel]

/-! ### Reversing twice -/

omit valid targets in
theorem className_reversed_of_mentioned {name : ClassName} (listed : name ∈ mappings.allMentioned) :
    mappings.reversed.className (mappings.className name) = name :=
  className_reversed canonical.classes
    (fun _ key => mem_allMentioned_of_mentioned (mem_mentioned_of_class key)) apart.injOn listed

theorem newDescriptor_reversed_of_listed {owner : ClassName} {key : MethodKey}
    (listed : (mappings.methodName? owner key).isSome ∨ (mappings.extra? owner key).isSome) :
    mappings.reversed.newDescriptor (mappings.newDescriptor key.descriptor) = key.descriptor := by
  have fine : key.descriptor.Valid := listed.elim valid.of_method valid.of_extra
  exact newDescriptor_reversed canonical.classes
    (fun _ key => mem_allMentioned_of_mentioned (mem_mentioned_of_class key))
    apart.injOn targets fine
    fun name occurs => mem_allMentioned_of_descriptor listed occurs

theorem reversedMethod_reversedMethod {owner : ClassName} {entry : MethodKey × MethodName}
    (listed : (owner, entry) ∈ mappings.methods.entries) :
    mappings.reversed.reversedMethod (mappings.reversedMethod entry) = entry := by
  have found : mappings.methodName? owner entry.1 = some entry.2 :=
    (Members.get?_eq_some_iff canonical.methods).mpr listed
  have descriptor := newDescriptor_reversed_of_listed canonical valid targets apart
    (Or.inl (Option.isSome_iff_exists.mpr ⟨_, found⟩))
  show (MethodKey.mk entry.1.name
    (mappings.reversed.newDescriptor (mappings.newDescriptor entry.1.descriptor)), entry.2) = entry
  rw [descriptor]

theorem reversedExtra_reversedExtra {owner : ClassName} {entry : MethodKey × MethodExtra}
    (listed : (owner, entry) ∈ mappings.extras.entries) :
    mappings.reversed.reversedExtra (mappings.className owner)
      (mappings.reversedExtra owner entry) = entry := by
  have found : (mappings.extra? owner entry.1).isSome :=
    Option.isSome_iff_exists.mpr ⟨_, (Members.get?_eq_some_iff canonical.extras).mpr listed⟩
  have ownerListed : owner ∈ mappings.allMentioned :=
    mem_allMentioned_of_extra (Members.mem_keys_of_isSome found)
  -- The method need not have an entry, so its old name has to be looked up.
  have key : mappings.reversed.newKey (mappings.className owner) (mappings.newKey owner entry.1) =
      entry.1 := by
    apply newKey_reversed canonical.toUnambiguous
      (fun _ => mem_allMentioned_of_mentioned) apart.injOn
      targets ownerListed (valid.of_extra found)
    · exact fun name occurs => mem_allMentioned_of_descriptor (Or.inr found) occurs
    · exact fun rival present same =>
        newKey_injective valid targets apart (Or.inl present) (Or.inr found) same
  have exceptions : mappings.reversed.exceptionNames
      (mappings.exceptionNames entry.2.exceptions) = entry.2.exceptions := by
    apply exceptionNames_undone (canonical.exceptions (owner, entry) listed)
    intro thrown occurs
    exact className_reversed_of_mentioned canonical apart
      (mem_allMentioned_of_extra_entry listed (List.mem_append_right _ occurs))
  show (mappings.reversed.newKey (mappings.className owner) (mappings.newKey owner entry.1),
    MethodExtra.mk (mappings.reversed.exceptionNames (mappings.exceptionNames entry.2.exceptions))
      entry.2.parameters) = entry
  rw [key, exceptions]

theorem reversed_reversed : mappings.reversed.reversed = mappings := by
  have classes : mappings.reversed.reversed.classes = mappings.classes := by
    show Table.ofEntries (mappings.reversed.classes.entries.map Prod.swap) = mappings.classes
    rw [entries_classes_reversed canonical apart,
      map_map_eq_self fun entry _ => Prod.swap_swap entry]
    exact Table.ofEntries_of_nodup canonical.classes
  have fields : mappings.reversed.reversed.fields = mappings.fields := by
    show Members.ofEntries (mappings.reversed.fields.entries.map fun entry =>
      (mappings.reversed.className entry.1, entry.2.swap)) = mappings.fields
    rw [entries_fields_reversed canonical apart, map_map_eq_self fun entry listed => ?_]
    · exact Members.ofEntries_entries canonical.fields canonical.fieldOwners
    · have owner := className_reversed_of_mentioned canonical apart (mem_allMentioned_of_mentioned
        (mem_mentioned_of_fieldOwner (Members.owner_mem_keys listed)))
      exact Prod.ext owner (Prod.swap_swap entry.2)
  have methods : mappings.reversed.reversed.methods = mappings.methods := by
    show Members.ofEntries (mappings.reversed.methods.entries.map fun entry =>
      (mappings.reversed.className entry.1, mappings.reversed.reversedMethod entry.2)) =
        mappings.methods
    rw [entries_methods_reversed canonical valid targets apart,
      map_map_eq_self fun entry listed => ?_]
    · exact Members.ofEntries_entries canonical.methods canonical.methodOwners
    · have owner := className_reversed_of_mentioned canonical apart (mem_allMentioned_of_mentioned
        (mem_mentioned_of_methodOwner (Members.owner_mem_keys listed)))
      exact Prod.ext owner (reversedMethod_reversedMethod canonical valid targets apart listed)
  have extras : mappings.reversed.reversed.extras = mappings.extras := by
    show mergedExtras (mappings.reversed.extras.entries.map fun entry =>
      (mappings.reversed.className entry.1, mappings.reversed.reversedExtra entry.1 entry.2)) =
        mappings.extras
    rw [entries_extras_reversed canonical valid targets apart,
      map_map_eq_self fun entry listed => ?_,
      mergedExtras_of_nodup canonical.extras.nodup_flat canonical.exceptions]
    · exact Members.ofEntries_entries canonical.extras canonical.extraOwners
    · have owner := className_reversed_of_mentioned canonical apart
        (mem_allMentioned_of_extra (Members.owner_mem_keys listed))
      exact Prod.ext owner (reversedExtra_reversedExtra canonical valid targets apart listed)
  calc mappings.reversed.reversed = ⟨mappings.reversed.reversed.classes,
        mappings.reversed.reversed.fields, mappings.reversed.reversed.methods,
        mappings.reversed.reversed.extras⟩ := rfl
    _ = mappings := by rw [classes, fields, methods, extras]

end Tables

/-- **Reversing twice gives the same mappings again**, in all tables and with all entries in
order. -/
theorem reverse_twice_restores {mappings : Mappings} (canonical : mappings.Canonical)
    (valid : mappings.ValidDescriptors) (targets : mappings.ObjectTargets)
    (apart : mappings.KeepsApart) :
    ∃ back, mappings.reverse = .ok back ∧ back.reverse = .ok mappings := by
  have again := reverse_eq (validDescriptors_reversed valid targets)
  rw [reversed_reversed canonical valid targets apart] at again
  exact ⟨mappings.reversed, reverse_eq valid, again⟩

/-- A class and a field with entries, a method with an entry and extras, and a method with extras
only, which throws a class that is renamed and another one. -/
def withExtras : Mappings :=
  (((((∅ : Mappings).addClass ⟨"a"⟩ ⟨"b"⟩).addField ⟨"a"⟩ ⟨"f"⟩ ⟨"g"⟩).addMethod
    ⟨"a"⟩ ⟨⟨"m"⟩, ⟨"(La;)V"⟩⟩ ⟨"n"⟩).addParameters ⟨"a"⟩ ⟨⟨"m"⟩, ⟨"(La;)V"⟩⟩ [⟨"p"⟩]).addExceptions
      ⟨"a"⟩ ⟨⟨"k"⟩, ⟨"(La;)V"⟩⟩ [⟨"a"⟩, ⟨"e"⟩]

/-- The way back: the new names lead to the old ones, also in descriptors and among the classes that
are thrown, and the parameters keep their names. -/
def withExtrasBack : Mappings where
  classes := ⟨[(⟨"b"⟩, ⟨"a"⟩)]⟩
  fields := ⟨⟨[(⟨"b"⟩, ⟨[(⟨"g"⟩, ⟨"f"⟩)]⟩)]⟩⟩
  methods := ⟨⟨[(⟨"b"⟩, ⟨[(⟨⟨"n"⟩, ⟨"(Lb;)V"⟩⟩, ⟨"m"⟩)]⟩)]⟩⟩
  extras := ⟨⟨[(⟨"b"⟩, ⟨[(⟨⟨"n"⟩, ⟨"(Lb;)V"⟩⟩, ⟨[], [⟨"p"⟩]⟩),
    (⟨⟨"k"⟩, ⟨"(Lb;)V"⟩⟩, ⟨[⟨"b"⟩, ⟨"e"⟩], []⟩)]⟩)]⟩⟩

theorem reverse_withExtras_twice :
    withExtras.KeepsApart ∧ withExtras.reverse = .ok withExtrasBack ∧
      withExtrasBack.reverse = .ok withExtras := by
  have fine : (⟨"(La;)V"⟩ : MethodDescriptor).Valid := by
    unfold Symbol.Valid
    cbv
  have canonical : withExtras.Canonical := by
    refine ⟨⟨?_, ⟨?_, ?_⟩, ⟨?_, ?_⟩, ⟨?_, ?_⟩⟩, ?_, ?_, ?_, ?_⟩ <;> decide
  have targets : withExtras.ObjectTargets := by decide
  have valid : withExtras.ValidDescriptors := by
    have methods : withExtras.methods.entries = [(⟨"a"⟩, ⟨⟨"m"⟩, ⟨"(La;)V"⟩⟩, ⟨"n"⟩)] := by cbv
    have extras : withExtras.extras.entries = [(⟨"a"⟩, ⟨⟨"m"⟩, ⟨"(La;)V"⟩⟩, ⟨[], [⟨"p"⟩]⟩),
        (⟨"a"⟩, ⟨⟨"k"⟩, ⟨"(La;)V"⟩⟩, ⟨[⟨"a"⟩, ⟨"e"⟩], []⟩)] := by cbv
    constructor
    · rw [methods]
      exact List.forall_mem_singleton.mpr fine
    · rw [extras]
      exact List.forall_mem_cons.mpr ⟨fine, List.forall_mem_singleton.mpr fine⟩
  have apart : withExtras.KeepsApart := by
    have mentioned : withExtras.allMentioned =
        [⟨"a"⟩, ⟨"a"⟩, ⟨"a"⟩, ⟨"a"⟩, ⟨"a"⟩, ⟨"a"⟩, ⟨"a"⟩, ⟨"a"⟩, ⟨"e"⟩] := by cbv
    refine ⟨?_, by decide, by decide⟩
    rw [mentioned]
    decide
  have reversed : withExtras.reverse = .ok withExtrasBack := by cbv
  obtain ⟨back, done, again⟩ := reverse_twice_restores canonical valid targets apart
  obtain rfl : withExtrasBack = back := Except.ok.inj (reversed.symm.trans done)
  exact ⟨apart, reversed, again⟩

end Mappings

end Renaming

import Renaming.Proofs.Translation

/-!
# From one vocabulary to another by a common source

With mappings `A → B` and `A → C`, mediating gives mappings `B → C`. Their entries are the
differences: what both sides call the same has none, and what one side leaves out counts as keeping
its name. The keys are in terms of `B`, so two of them could fall together; where `A → B` keeps
things apart they do not, and `B → C` leads on from `B` to what `A → C` gives.
-/

namespace Renaming

/-! ### Tables of differences -/

section Differences

variable {ι κ ν : Type} {items : List ι} {same : ι → Prop} [DecidablePred same]

/-- The entries for all items that are not the same on both sides. -/
def differences {ε : Type} (items : List ι) (same : ι → Prop) [DecidablePred same] (entry : ι → ε) :
    List ε :=
  items.filterMap fun item => if same item then none else some (entry item)

theorem mem_differences_iff {ε : Type} {entry : ι → ε} {made : ε} :
    made ∈ differences items same entry ↔ ∃ item ∈ items, ¬ same item ∧ entry item = made := by
  simp only [differences, List.mem_filterMap, Option.ite_none_left_eq_some, Option.some.injEq]

variable [DecidableEq κ] {key : ι → κ} {value : ι → ν} {item : ι}
  (alone : ∀ other ∈ items, key other = key item → other = item)
  (listed : ¬ same item → item ∈ items)

include alone listed

/-- An item whose key no other item has is found exactly if it differs. -/
theorem valueAt?_differences :
    valueAt? (key item) (differences items same fun item => (key item, value item)).reverse =
      if same item then none else some (value item) := by
  by_cases agrees : same item
  · rw [if_pos agrees, valueAt?_eq_none_iff]
    intro found member
    obtain ⟨other, present, differs, made⟩ := mem_differences_iff.mp (List.mem_reverse.mp member)
    rw [alone other present (Prod.mk.inj made).1] at differs
    exact differs agrees
  · rw [if_neg agrees]
    refine valueAt?_of_unique ?_ fun found member => ?_
    · exact List.mem_reverse.mpr (mem_differences_iff.mpr ⟨item, listed agrees, agrees, rfl⟩)
    · obtain ⟨other, present, _, made⟩ := mem_differences_iff.mp (List.mem_reverse.mp member)
      rw [← (Prod.mk.inj made).2, alone other present (Prod.mk.inj made).1]

omit [DecidableEq κ] alone listed in
/-- An entry that is left out where it changes nothing is not missed. -/
theorem getD_difference [DecidableEq ν] (old new : ν) :
    (if old = new then none else some new).getD old = new := by
  by_cases same : old = new
  · rw [if_pos same]
    exact same
  · rw [if_neg same]
    rfl

end Differences

namespace Members

variable {κ ν : Type} [DecidableEq κ]

theorem mem_keys_iff {members : Members κ ν} {owner : ClassName} {key : κ} :
    key ∈ (members.owners.get? owner).elim [] Table.keys ↔ (members.get? owner key).isSome := by
  rw [get?]
  cases members.owners.get? owner with
  | none => simp
  | some inner => exact Table.isSome_get?_iff.symm

theorem mem_union_iff {members other : Members κ ν} {owner : ClassName} {key : κ} :
    (owner, key) ∈ members.union other ↔
      (members.get? owner key).isSome ∨ (other.get? owner key).isSome := by
  have listed : (owner, key) ∈ members.union other ↔
      owner ∈ members.owners.keys ++ other.owners.keys ∧ key ∈ members.keyUnion other owner := by
    simp only [union, List.mem_flatMap, mem_distinct, List.mem_map, Prod.mk.injEq]
    constructor
    · rintro ⟨_, present, _, within, sameOwner, sameKey⟩
      rw [← sameOwner, ← sameKey]
      exact ⟨present, within⟩
    · rintro ⟨present, within⟩
      exact ⟨owner, present, key, within, rfl, rfl⟩
  rw [listed, keyUnion, mem_distinct, List.mem_append, List.mem_append, mem_keys_iff, mem_keys_iff]
  exact ⟨And.right, fun found => ⟨found.imp mem_keys_of_isSome mem_keys_of_isSome, found⟩⟩

/-- Where the two sides differ, one of them has an entry. -/
theorem mem_union_of_ne {members other : Members κ ν} {owner : ClassName} {key : κ} {kept : ν}
    (differs : (members.get? owner key).getD kept ≠ (other.get? owner key).getD kept) :
    (owner, key) ∈ members.union other := by
  rw [mem_union_iff]
  by_contra absent
  rw [not_or, Option.not_isSome_iff_eq_none, Option.not_isSome_iff_eq_none] at absent
  rw [absent.1, absent.2] at differs
  exact differs rfl

theorem get?_differences {ι : Type} {items : List ι} {same : ι → Prop} [DecidablePred same]
    {owner : ι → ClassName} {key : ι → κ} {value : ι → ν} (item : ι)
    (alone : ∀ other ∈ items, owner other = owner item → key other = key item → other = item)
    (listed : ¬ same item → item ∈ items) :
    (ofEntries (differences items same fun item => (owner item, key item, value item))).get?
        (owner item) (key item) =
      if same item then none else some (value item) := by
  have flattened :
      (differences items same fun item => (owner item, key item, value item)).map flat =
        differences items same fun item => ((owner item, key item), value item) := by
    rw [differences, differences, List.map_filterMap]
    refine congrArg (items.filterMap ·) (funext fun item => ?_)
    by_cases agrees : same item
    · rw [if_pos agrees, if_pos agrees]
      rfl
    · rw [if_neg agrees, if_neg agrees]
      rfl
  have aloneFlat : ∀ other ∈ items, (owner other, key other) = (owner item, key item) →
      other = item :=
    fun other present equal => alone other present (Prod.mk.inj equal).1 (Prod.mk.inj equal).2
  rw [get?_ofEntries, flattened]
  exact valueAt?_differences aloneFlat listed

end Members

namespace Mappings

variable {mappings other : Mappings}

/-! ### What mediating gives -/

/-- The mediated mappings, from methods with valid descriptors. -/
def mediated (mappings other : Mappings) : Mappings where
  classes := .ofEntries <| differences (distinct (mappings.classes.keys ++ other.classes.keys))
    (fun name => mappings.className name = other.className name)
    fun name => (mappings.className name, other.className name)
  fields := .ofEntries <| differences (mappings.fields.union other.fields)
    (fun item => mappings.fieldName item.1 item.2 = other.fieldName item.1 item.2)
    fun item =>
      (mappings.className item.1, mappings.fieldName item.1 item.2, other.fieldName item.1 item.2)
  methods := .ofEntries <| differences (mappings.methods.union other.methods)
    (fun item => mappings.methodName item.1 item.2 = other.methodName item.1 item.2)
    fun item =>
      (mappings.className item.1, mappings.newKey item.1 item.2, other.methodName item.1 item.2)
  extras := mergedExtras <| (mappings.extras.union other.extras).map fun item =>
    (mappings.className item.1, mappings.newKey item.1 item.2,
      mappings.mediatedExtra other item.1 item.2)

section Valid

variable (valid : mappings.ValidDescriptors) (otherValid : other.ValidDescriptors)

include valid otherValid

theorem valid_of_mem_union_methods {owner : ClassName} {key : MethodKey}
    (listed : (owner, key) ∈ mappings.methods.union other.methods) : key.descriptor.Valid := by
  obtain found | found := Members.mem_union_iff.mp listed
  · exact valid.of_method found
  · exact otherValid.of_method found

theorem valid_of_mem_union_extras {owner : ClassName} {key : MethodKey}
    (listed : (owner, key) ∈ mappings.extras.union other.extras) : key.descriptor.Valid := by
  obtain found | found := Members.mem_union_iff.mp listed
  · exact valid.of_extra found
  · exact otherValid.of_extra found

/-- Mediating succeeds. -/
theorem mediate_eq : mappings.mediate other = .ok (mappings.mediated other) := by
  have methods : ((mappings.methods.union other.methods).filterMapM fun item => do
      if mappings.methodName item.1 item.2 = other.methodName item.1 item.2 then
        return none
      else
        return some (mappings.className item.1, ← mappings.methodKey item.1 item.2,
          other.methodName item.1 item.2)) =
      .ok (differences (mappings.methods.union other.methods)
        (fun item => mappings.methodName item.1 item.2 = other.methodName item.1 item.2)
        fun item => (mappings.className item.1, mappings.newKey item.1 item.2,
          other.methodName item.1 item.2)) := by
    refine filterMapM_of_forall_eq_ok fun ⟨owner, key⟩ listed => ?_
    rw [methodKey_of_valid (valid_of_mem_union_methods valid otherValid listed)]
    by_cases same : mappings.methodName owner key = other.methodName owner key
    · rw [if_pos same, if_pos same]
      rfl
    · rw [if_neg same, if_neg same]
      rfl
  have extras : ((mappings.extras.union other.extras).mapM fun item => do
      return (mappings.className item.1, ← mappings.methodKey item.1 item.2,
        mappings.mediatedExtra other item.1 item.2)) =
      .ok ((mappings.extras.union other.extras).map fun item => (mappings.className item.1,
        mappings.newKey item.1 item.2, mappings.mediatedExtra other item.1 item.2)) := by
    refine mapM_of_forall_eq_ok fun ⟨owner, key⟩ listed => ?_
    rw [methodKey_of_valid (valid_of_mem_union_extras valid otherValid listed)]
    rfl
  exact bind_of_eq_ok methods (bind_of_eq_ok extras rfl)

end Valid

/-! ### Looking up in mediated mappings -/

section LookUp

variable {names : Set ClassName}
  (known : ∀ name, name ∈ mappings.mentioned ∨ name ∈ other.mentioned → name ∈ names)
  (injective : Set.InjOn mappings.className names)

include known injective

theorem className_mediated {name : ClassName} (within : name ∈ names) :
    (mappings.mediated other).className (mappings.className name) = other.className name := by
  have alone : ∀ rival ∈ distinct (mappings.classes.keys ++ other.classes.keys),
      mappings.className rival = mappings.className name → rival = name := by
    intro rival listed same
    refine injective (known rival ?_) within same
    rw [mem_distinct, List.mem_append] at listed
    exact listed.imp mem_mentioned_of_class mem_mentioned_of_class
  have listed : ¬ mappings.className name = other.className name →
      name ∈ distinct (mappings.classes.keys ++ other.classes.keys) := by
    intro differs
    rw [mem_distinct, List.mem_append]
    by_contra absent
    rw [not_or] at absent
    rw [className_of_not_mem absent.1, className_of_not_mem absent.2] at differs
    exact differs rfl
  rw [className, className?, mediated, Table.get?_ofEntries, valueAt?_differences alone listed]
  exact getD_difference _ _

theorem fieldName_mediated {owner : ClassName} {name : FieldName} (within : owner ∈ names)
    (apart : Set.InjOn (mappings.fieldName owner) {rival | rival = name ∨
      (mappings.fieldName? owner rival).isSome ∨ (other.fieldName? owner rival).isSome}) :
    (mappings.mediated other).fieldName (mappings.className owner) (mappings.fieldName owner name) =
      other.fieldName owner name := by
  have alone : ∀ item ∈ mappings.fields.union other.fields,
      mappings.className item.1 = mappings.className owner →
        mappings.fieldName item.1 item.2 = mappings.fieldName owner name →
        item = (owner, name) := by
    intro ⟨site, rival⟩ present sameOwner sameName
    have found := Members.mem_union_iff.mp present
    have siteKnown : site ∈ names :=
      known site (found.imp mem_mentioned_of_field mem_mentioned_of_field)
    have here : site = owner := injective siteKnown within sameOwner
    rw [here] at found sameName ⊢
    rw [apart (Or.inr found) (Or.inl rfl) sameName]
  have listed : ¬ mappings.fieldName owner name = other.fieldName owner name →
      (owner, name) ∈ mappings.fields.union other.fields := Members.mem_union_of_ne
  have found : (mappings.mediated other).fieldName? (mappings.className owner)
      (mappings.fieldName owner name) =
      if mappings.fieldName owner name = other.fieldName owner name then none
      else some (other.fieldName owner name) :=
    Members.get?_differences (owner, name) alone listed
  rw [fieldName, found]
  exact getD_difference _ _

theorem methodName_mediated (targets : mappings.ObjectTargets) (valid : mappings.ValidDescriptors)
    (otherValid : other.ValidDescriptors) {owner : ClassName} {key : MethodKey}
    (within : owner ∈ names) (fine : key.descriptor.Valid)
    (inside : ∀ name ∈ key.descriptor.classNames, name ∈ names)
    (apart : Set.InjOn (fun name => mappings.methodName owner ⟨name, key.descriptor⟩) {rival |
      rival = key.name ∨ (mappings.methodName? owner ⟨rival, key.descriptor⟩).isSome ∨
        (other.methodName? owner ⟨rival, key.descriptor⟩).isSome}) :
    (mappings.mediated other).methodName (mappings.className owner) (mappings.newKey owner key) =
      other.methodName owner key := by
  have alone : ∀ item ∈ mappings.methods.union other.methods,
      mappings.className item.1 = mappings.className owner →
        mappings.newKey item.1 item.2 = mappings.newKey owner key → item = (owner, key) := by
    intro ⟨site, rival⟩ present sameOwner sameKey
    have found := Members.mem_union_iff.mp present
    have siteKnown : site ∈ names :=
      known site (found.imp mem_mentioned_of_method mem_mentioned_of_method)
    have here : site = owner := injective siteKnown within sameOwner
    have classesKnown : ∀ name ∈ rival.descriptor.classNames, name ∈ names := by
      intro name occurs
      obtain ours | theirs := found
      · exact known name (Or.inl (mem_mentioned_of_descriptor ours occurs))
      · exact known name (Or.inr (mem_mentioned_of_descriptor theirs occurs))
    rw [here] at found sameKey ⊢
    have same : rival = key := by
      apply eq_of_newKey_eq targets injective key rival fine
        (valid_of_mem_union_methods valid otherValid present) inside classesKnown apart (Or.inl rfl)
      · intro shape
        rw [shape] at found
        exact Or.inr found
      · exact sameKey
    rw [same]
  have listed : ¬ mappings.methodName owner key = other.methodName owner key →
      (owner, key) ∈ mappings.methods.union other.methods := Members.mem_union_of_ne
  have found : (mappings.mediated other).methodName? (mappings.className owner)
      (mappings.newKey owner key) =
      if mappings.methodName owner key = other.methodName owner key then none
      else some (other.methodName owner key) :=
    Members.get?_differences (owner, key) alone listed
  rw [methodName, found]
  exact getD_difference _ _

end LookUp

/-! ### The triangle -/

/-- **What mediated mappings make of the new name is what the other side makes of the old one.**
This holds of references to members that the first side keeps apart from all members with entries,
of class names, and of descriptors. -/
theorem mediated_after_first_is_second {mappings other : Mappings} {names : Set ClassName}
    (targets : mappings.ObjectTargets) (valid : mappings.ValidDescriptors)
    (otherValid : other.ValidDescriptors)
    (known : ∀ name, name ∈ mappings.mentioned ∨ name ∈ other.mentioned → name ∈ names)
    (injective : Set.InjOn mappings.className names) :
    ∃ mediated, mappings.mediate other = .ok mediated ∧
      (∀ (isStatic : Bool) (ref : FieldRef), ref.owner.isArray = false → ref.descriptor.Valid →
        (∀ name ∈ ref.classNames, name ∈ names) →
        Set.InjOn (mappings.fieldName ref.owner) {name | name = ref.name ∨
          (mappings.fieldName? ref.owner name).isSome ∨ (other.fieldName? ref.owner name).isSome} →
        ∃ last, (mappings.renameField isStatic ref >>= mediated.renameField isStatic) = .ok last ∧
          other.renameField isStatic ref = .ok last) ∧
      (∀ (isStatic : Bool) (ref : MethodRef), ref.owner.Valid → ref.descriptor.Valid →
        (∀ name ∈ ref.classNames, name ∈ names) →
        Set.InjOn (fun name => mappings.methodName ref.owner ⟨name, ref.descriptor⟩) {name |
          name = ref.name ∨ (mappings.methodName? ref.owner ⟨name, ref.descriptor⟩).isSome ∨
            (other.methodName? ref.owner ⟨name, ref.descriptor⟩).isSome} →
        ∃ last, (mappings.renameMethod isStatic ref >>= mediated.renameMethod isStatic) = .ok last ∧
          other.renameMethod isStatic ref = .ok last) ∧
      (∀ name : ClassName, (∀ part ∈ name.objectNames, part ∈ names) →
        (mappings.classNameAny name >>= mediated.classNameAny) = other.classNameAny name ∧
          (name.Valid → ∃ last, other.classNameAny name = .ok last)) ∧
      (∀ descriptor : MethodDescriptor, (∀ name ∈ descriptor.classNames, name ∈ names) →
        (mappings.methodDescriptor descriptor >>= mediated.methodDescriptor) =
            other.methodDescriptor descriptor ∧
          (descriptor.Valid → ∃ last, other.methodDescriptor descriptor = .ok last)) ∧
      ∀ descriptor : FieldDescriptor, (∀ name ∈ descriptor.classNames, name ∈ names) →
        (mappings.fieldDescriptor descriptor >>= mediated.fieldDescriptor) =
            other.fieldDescriptor descriptor ∧
          (descriptor.Valid → ∃ last, other.fieldDescriptor descriptor = .ok last) := by
  have classes : ∀ {occurring : List ClassName}, (∀ name ∈ occurring, name ∈ names) →
      ∀ name ∈ occurring,
        (mappings.mediated other).className (mappings.className name) = other.className name :=
    fun inside name occurs => className_mediated known injective (inside name occurs)
  refine ⟨mappings.mediated other, mediate_eq valid otherValid, ?_, ?_, ?_, ?_, ?_⟩
  · intro isStatic ref object fine inside apart
    have ownerKnown : ref.owner ∈ names := inside ref.owner (FieldRef.owner_mem_classNames object)
    obtain ⟨last, done⟩ := exists_renameField object fine
    refine ⟨last, (renameField_bind targets object (classes inside) ?_).trans done, done⟩
    exact fieldName_mediated known injective ownerKnown apart
  · intro isStatic ref ownerFine fine inside apart
    obtain ⟨owner, read⟩ := exists_classNameAny_of_valid ownerFine
    obtain ⟨last, done⟩ := exists_renameMethod read fine
    refine ⟨last, (renameMethod_bind targets read (classes inside) ?_).trans done, done⟩
    -- On an array class all three keep the name, so only other classes are left.
    intro object descriptor renamed
    have ownerKnown : ref.owner ∈ names := inside ref.owner (MethodRef.owner_mem_classNames object)
    rw [← newDescriptor_of_eq_ok renamed]
    exact methodName_mediated known injective targets valid otherValid ownerKnown fine
      (fun name occurs => inside name (List.mem_append_right _ occurs)) apart
  · exact fun name inside =>
      ⟨classNameAny_bind targets (classes inside), exists_classNameAny_of_valid⟩
  · exact fun descriptor inside => ⟨methodDescriptor_bind targets (classes inside),
      fun fine => ⟨_, methodDescriptor_of_valid fine⟩⟩
  · exact fun descriptor inside =>
      ⟨fieldDescriptor_bind targets (classes inside), exists_fieldDescriptor_of_valid⟩

namespace Crossing

def descriptor : MethodDescriptor := ⟨"(La;)V"⟩

/-- The method `m` is called `n`, and `q` keeps its name. -/
def first : Mappings :=
  ((∅ : Mappings).addClass ⟨"a"⟩ ⟨"b"⟩).addMethod ⟨"a"⟩ ⟨⟨"m"⟩, descriptor⟩ ⟨"n"⟩

/-- The method `m` is called `p`, and `q` is called `n`. -/
def second : Mappings :=
  (((∅ : Mappings).addClass ⟨"a"⟩ ⟨"c"⟩).addMethod ⟨"a"⟩ ⟨⟨"m"⟩, descriptor⟩ ⟨"p"⟩).addMethod
    ⟨"a"⟩ ⟨⟨"q"⟩, descriptor⟩ ⟨"n"⟩

def ref : MethodRef := ⟨⟨"a"⟩, ⟨"m"⟩, descriptor⟩

theorem valid_descriptor : descriptor.Valid := by
  unfold Symbol.Valid
  cbv

end Crossing

/-- The middle name `n` of one method is the last name of another. -/
theorem crossing_names_lead_on :
    ∃ mediated, Crossing.first.mediate Crossing.second = .ok mediated ∧
      ∃ last, (Crossing.first.renameMethod false Crossing.ref >>=
            mediated.renameMethod false) = .ok last ∧
        Crossing.second.renameMethod false Crossing.ref = .ok last ∧
        last = ⟨⟨"c"⟩, ⟨"p"⟩, ⟨"(Lc;)V"⟩⟩ := by
  have targets : Crossing.first.ObjectTargets := by decide
  have methods : Crossing.first.methods.entries =
      [(⟨"a"⟩, ⟨⟨"m"⟩, Crossing.descriptor⟩, ⟨"n"⟩)] := by cbv
  have otherMethods : Crossing.second.methods.entries =
      [(⟨"a"⟩, ⟨⟨"m"⟩, Crossing.descriptor⟩, ⟨"p"⟩),
      (⟨"a"⟩, ⟨⟨"q"⟩, Crossing.descriptor⟩, ⟨"n"⟩)] := by cbv
  have valid : Crossing.first.ValidDescriptors := by
    refine ⟨?_, List.forall_mem_nil _⟩
    rw [methods]
    exact List.forall_mem_singleton.mpr Crossing.valid_descriptor
  have otherValid : Crossing.second.ValidDescriptors := by
    refine ⟨?_, List.forall_mem_nil _⟩
    rw [otherMethods]
    exact List.forall_mem_cons.mpr
      ⟨Crossing.valid_descriptor, List.forall_mem_singleton.mpr Crossing.valid_descriptor⟩
  have known : ∀ name, name ∈ Crossing.first.mentioned ∨ name ∈ Crossing.second.mentioned →
      name ∈ ({⟨"a"⟩} : Set ClassName) := by
    have ours : Crossing.first.mentioned = [⟨"a"⟩, ⟨"a"⟩, ⟨"a"⟩] := by cbv
    have theirs : Crossing.second.mentioned = [⟨"a"⟩, ⟨"a"⟩, ⟨"a"⟩, ⟨"a"⟩] := by cbv
    rw [ours, theirs]
    simp
  have injective : Set.InjOn Crossing.first.className {⟨"a"⟩} := Set.injOn_singleton _ _
  have inside : ∀ name ∈ Crossing.ref.classNames, name ∈ ({⟨"a"⟩} : Set ClassName) := by
    have names : Crossing.ref.classNames = [⟨"a"⟩, ⟨"a"⟩] := by cbv
    rw [names]
    simp
  have ownerFine : Crossing.ref.owner.Valid := by
    unfold Symbol.Valid
    cbv
  have apart : Set.InjOn (fun name => Crossing.first.methodName Crossing.ref.owner
      ⟨name, Crossing.ref.descriptor⟩) {name | name = Crossing.ref.name ∨
        (Crossing.first.methodName? Crossing.ref.owner ⟨name, Crossing.ref.descriptor⟩).isSome ∨
        (Crossing.second.methodName? Crossing.ref.owner
          ⟨name, Crossing.ref.descriptor⟩).isSome} := by
    have listed : ∀ name : MethodName, name = Crossing.ref.name ∨
        (Crossing.first.methodName? Crossing.ref.owner ⟨name, Crossing.ref.descriptor⟩).isSome ∨
        (Crossing.second.methodName? Crossing.ref.owner ⟨name, Crossing.ref.descriptor⟩).isSome →
          name ∈ [⟨"m"⟩, ⟨"q"⟩] := by
      rintro name (rfl | found | found)
      · decide
      · obtain ⟨new, found⟩ := Option.isSome_iff_exists.mp found
        have entry := Members.mem_entries_of_get? found
        rw [methods] at entry
        grind
      · obtain ⟨new, found⟩ := Option.isSome_iff_exists.mp found
        have entry := Members.mem_entries_of_get? found
        rw [otherMethods] at entry
        grind
    have injective : ∀ name ∈ [(⟨"m"⟩ : MethodName), ⟨"q"⟩],
        ∀ other ∈ [(⟨"m"⟩ : MethodName), ⟨"q"⟩],
        Crossing.first.methodName ⟨"a"⟩ ⟨name, Crossing.descriptor⟩ =
          Crossing.first.methodName ⟨"a"⟩ ⟨other, Crossing.descriptor⟩ → name = other := by
      decide
    exact fun name here other there => injective name (listed name here) other (listed other there)
  obtain ⟨mediated, done, _, leadsOn, _⟩ :=
    mediated_after_first_is_second targets valid otherValid known injective
  obtain ⟨last, through, direct⟩ :=
    leadsOn false Crossing.ref ownerFine Crossing.valid_descriptor inside apart
  refine ⟨mediated, done, last, through, direct, ?_⟩
  have computed : Crossing.second.renameMethod false Crossing.ref =
      .ok ⟨⟨"c"⟩, ⟨"p"⟩, ⟨"(Lc;)V"⟩⟩ := by
    cbv
  exact Except.ok.inj (direct.symm.trans computed)

end Mappings

end Renaming

import Renaming.Proofs.Translation

/-!
# One mapping after the other

With mappings `A → B` and `B → C`, converting gives mappings `A → C`. They have exactly the keys
that `A → B` has, and for a member with an entry they lead where the two lead one after the other.
That member is looked up in `B → C` under its class, its name and its descriptor in terms of `B`, so
the names of `B` need not be different for this.

A class without an entry in `A → B` keeps its name in `A → C` even if `B → C` has an entry for that
name; references to such classes are the only exception.
-/

namespace Renaming

namespace Mappings

variable {mappings other : Mappings}

/-! ### What converting gives -/

/-- The converted mappings, from methods with valid descriptors. -/
def converted (mappings other : Mappings) : Mappings where
  classes := .ofEntries <| mappings.classes.entries.map fun entry =>
    (entry.1, other.className entry.2)
  fields := .ofEntries <| mappings.fields.entries.map fun entry =>
    (entry.1, entry.2.1, other.fieldName (mappings.className entry.1) entry.2.2)
  methods := .ofEntries <| mappings.methods.entries.map fun entry =>
    (entry.1, entry.2.1, other.methodName (mappings.className entry.1)
      ⟨entry.2.2, mappings.newDescriptor entry.2.1.descriptor⟩)
  extras := mergedExtras <| mappings.extras.entries.map fun entry =>
    (entry.1, entry.2.1, mappings.convertedExtra entry.2.2
      (other.extra? (mappings.className entry.1) (mappings.newKey entry.1 entry.2.1)))

/-- Converting succeeds. -/
theorem convert_eq (valid : mappings.ValidDescriptors) :
    mappings.convert other = .ok (mappings.converted other) := by
  have methods : (mappings.methods.entries.mapM fun entry => do
      let descriptor ← mappings.methodDescriptor entry.2.1.descriptor
      return (entry.1, entry.2.1,
        other.methodName (mappings.className entry.1) ⟨entry.2.2, descriptor⟩)) =
      .ok (mappings.methods.entries.map fun entry => (entry.1, entry.2.1,
        other.methodName (mappings.className entry.1)
          ⟨entry.2.2, mappings.newDescriptor entry.2.1.descriptor⟩)) := by
    refine mapM_of_forall_eq_ok fun entry listed => ?_
    rw [methodDescriptor_of_valid (valid.methods entry listed)]
    rfl
  have extras : (mappings.extras.entries.mapM fun entry => do
      let key ← mappings.methodKey entry.1 entry.2.1
      return (entry.1, entry.2.1, mappings.convertedExtra entry.2.2
        (other.extra? (mappings.className entry.1) key))) =
      .ok (mappings.extras.entries.map fun entry => (entry.1, entry.2.1,
        mappings.convertedExtra entry.2.2
          (other.extra? (mappings.className entry.1) (mappings.newKey entry.1 entry.2.1)))) := by
    refine mapM_of_forall_eq_ok fun entry listed => ?_
    rw [methodKey_of_valid (valid.extras entry listed)]
    rfl
  exact bind_of_eq_ok methods (bind_of_eq_ok extras rfl)

/-! ### Looking up in converted mappings -/

section LookUp

variable (unambiguous : mappings.Unambiguous)

include unambiguous

theorem className?_converted (name : ClassName) :
    (mappings.converted other).className? name = (mappings.className? name).map other.className :=
  Table.get?_ofEntries_map unambiguous.classes (fun entry => (entry.1, other.className entry.2))
    (fun _ _ same => same) fun _ _ => rfl

theorem fieldName?_converted (owner : ClassName) (name : FieldName) :
    (mappings.converted other).fieldName? owner name =
      (mappings.fieldName? owner name).map (other.fieldName (mappings.className owner)) :=
  Members.get?_ofEntries_map unambiguous.fields id
    (fun owner entry => (entry.1, other.fieldName (mappings.className owner) entry.2))
    (fun _ _ here same => ⟨here, same⟩) fun _ _ => rfl

theorem methodName?_converted (owner : ClassName) (key : MethodKey) :
    (mappings.converted other).methodName? owner key =
      (mappings.methodName? owner key).map fun new => other.methodName (mappings.className owner)
        ⟨new, mappings.newDescriptor key.descriptor⟩ :=
  Members.get?_ofEntries_map unambiguous.methods id
    (fun owner entry => (entry.1, other.methodName (mappings.className owner)
      ⟨entry.2, mappings.newDescriptor entry.1.descriptor⟩))
    (fun _ _ here same => ⟨here, same⟩) fun _ _ => rfl

/-- A class is led through both vocabularies, unless only the second one has an entry for it. -/
theorem className_converted {name : ClassName}
    (settled : name ∈ mappings.classes.keys ∨ name ∉ other.classes.keys) :
    other.className (mappings.className name) = (mappings.converted other).className name := by
  have lookUp : (mappings.converted other).className? name =
      (mappings.className? name).map other.className := className?_converted unambiguous name
  cases found : mappings.className? name with
  | some new =>
    rw [found, Option.map_some] at lookUp
    rw [className_of_eq_some found, className_of_eq_some lookUp]
  | none =>
    have absent : name ∉ mappings.classes.keys := by
      rw [← Table.isSome_get?_iff, Option.not_isSome_iff_eq_none]
      exact found
    have absentThere : name ∉ other.classes.keys := settled.resolve_left absent
    rw [found, Option.map_none] at lookUp
    rw [className_of_not_mem absent, className_of_not_mem absentThere, className, lookUp,
      Option.getD_none]

theorem fieldName_converted {owner : ClassName} {name : FieldName}
    (listed : (mappings.fieldName? owner name).isSome) :
    other.fieldName (mappings.className owner) (mappings.fieldName owner name) =
      (mappings.converted other).fieldName owner name := by
  obtain ⟨new, found⟩ := Option.isSome_iff_exists.mp listed
  have lookUp : (mappings.converted other).fieldName? owner name =
      (mappings.fieldName? owner name).map (other.fieldName (mappings.className owner)) :=
    fieldName?_converted unambiguous owner name
  rw [found, Option.map_some] at lookUp
  rw [fieldName_of_eq_some found, fieldName_of_eq_some lookUp]

theorem methodName_converted {owner : ClassName} {key : MethodKey}
    (listed : (mappings.methodName? owner key).isSome) :
    other.methodName (mappings.className owner) (mappings.newKey owner key) =
      (mappings.converted other).methodName owner key := by
  obtain ⟨new, found⟩ := Option.isSome_iff_exists.mp listed
  have lookUp : (mappings.converted other).methodName? owner key =
      (mappings.methodName? owner key).map fun new => other.methodName (mappings.className owner)
        ⟨new, mappings.newDescriptor key.descriptor⟩ :=
    methodName?_converted unambiguous owner key
  rw [found, Option.map_some] at lookUp
  rw [newKey, methodName_of_eq_some found, methodName_of_eq_some lookUp]

end LookUp

/-! ### Composition -/

/-- **Converted mappings are one mapping after the other.** What they make of a reference to a
member with an entry is what the second mappings make of what the first ones make of it, and they
have entries for exactly what the first ones have entries for. -/
theorem converted_is_composition {mappings other : Mappings} (unambiguous : mappings.Unambiguous)
    (targets : mappings.ObjectTargets) (valid : mappings.ValidDescriptors) :
    ∃ converted, mappings.convert other = .ok converted ∧
      (∀ (isStatic : Bool) (ref : FieldRef), ref.owner.isArray = false →
        (mappings.fieldName? ref.owner ref.name).isSome →
        (∀ name ∈ ref.classNames, name ∈ mappings.classes.keys ∨ name ∉ other.classes.keys) →
        (mappings.renameField isStatic ref >>= other.renameField isStatic) =
            converted.renameField isStatic ref ∧
          (ref.descriptor.Valid → ∃ last, converted.renameField isStatic ref = .ok last)) ∧
      (∀ (isStatic : Bool) (ref : MethodRef), ref.owner.isArray = false →
        (mappings.methodName? ref.owner ref.key).isSome →
        (∀ name ∈ ref.classNames, name ∈ mappings.classes.keys ∨ name ∉ other.classes.keys) →
        ∃ last, (mappings.renameMethod isStatic ref >>= other.renameMethod isStatic) = .ok last ∧
          converted.renameMethod isStatic ref = .ok last) ∧
      (∀ name, (converted.className? name).isSome = (mappings.className? name).isSome) ∧
      (∀ owner name, (converted.fieldName? owner name).isSome =
        (mappings.fieldName? owner name).isSome) ∧
      ∀ owner key, (converted.methodName? owner key).isSome =
        (mappings.methodName? owner key).isSome := by
  refine ⟨mappings.converted other, convert_eq valid, ?_, ?_, ?_, ?_, ?_⟩
  · intro isStatic ref object listed settled
    refine ⟨renameField_bind targets object (fun name occurs => ?_) ?_, exists_renameField object⟩
    · exact className_converted unambiguous (settled name occurs)
    · exact fieldName_converted unambiguous listed
  · intro isStatic ref object listed settled
    have read : (mappings.converted other).classNameAny ref.owner =
        .ok ((mappings.converted other).className ref.owner) := by
      rw [classNameAny, if_neg (ne_true_of_eq_false object)]
    have fine := valid.of_method listed
    obtain ⟨last, done⟩ := exists_renameMethod read fine
    refine ⟨last, (renameMethod_bind targets read (fun name occurs => ?_) ?_).trans done, done⟩
    · exact className_converted unambiguous (settled name occurs)
    · intro _ descriptor renamed
      rw [← newDescriptor_of_eq_ok renamed]
      exact methodName_converted unambiguous listed
  · intro name
    rw [className?_converted unambiguous, Option.isSome_map]
  · intro owner name
    rw [fieldName?_converted unambiguous, Option.isSome_map]
  · intro owner key
    rw [methodName?_converted unambiguous, Option.isSome_map]

namespace Merging

def descriptor : MethodDescriptor := ⟨"(La;)V"⟩

/-- Two classes are called `b`, and a method of either is called `n`. -/
def first : Mappings :=
  ((((∅ : Mappings).addClass ⟨"a"⟩ ⟨"b"⟩).addClass ⟨"x"⟩ ⟨"b"⟩).addMethod
    ⟨"a"⟩ ⟨⟨"m"⟩, descriptor⟩ ⟨"n"⟩).addMethod ⟨"x"⟩ ⟨⟨"k"⟩, descriptor⟩ ⟨"n"⟩

def second : Mappings :=
  ((∅ : Mappings).addClass ⟨"b"⟩ ⟨"c"⟩).addMethod ⟨"b"⟩ ⟨⟨"n"⟩, ⟨"(Lb;)V"⟩⟩ ⟨"p"⟩

def ref : MethodRef := ⟨⟨"a"⟩, ⟨"m"⟩, descriptor⟩

end Merging

/-- The entry for the method is found under the names that the first mappings give to its class, to
itself and to the class in its descriptor. -/
theorem merged_names_are_led_on :
    ∃ converted, Merging.first.convert Merging.second = .ok converted ∧
      ∃ last, (Merging.first.renameMethod false Merging.ref >>=
            Merging.second.renameMethod false) = .ok last ∧
        converted.renameMethod false Merging.ref = .ok last ∧
        last = ⟨⟨"c"⟩, ⟨"p"⟩, ⟨"(Lc;)V"⟩⟩ := by
  have unambiguous : Merging.first.Unambiguous := by
    refine ⟨?_, ⟨?_, ?_⟩, ⟨?_, ?_⟩, ⟨?_, ?_⟩⟩ <;> decide
  have targets : Merging.first.ObjectTargets := by decide
  have fine : Merging.descriptor.Valid := by
    unfold Symbol.Valid
    cbv
  have methods : Merging.first.methods.entries = [(⟨"a"⟩, ⟨⟨"m"⟩, Merging.descriptor⟩, ⟨"n"⟩),
      (⟨"x"⟩, ⟨⟨"k"⟩, Merging.descriptor⟩, ⟨"n"⟩)] := by cbv
  have valid : Merging.first.ValidDescriptors := by
    refine ⟨?_, List.forall_mem_nil _⟩
    rw [methods]
    exact List.forall_mem_cons.mpr ⟨fine, List.forall_mem_singleton.mpr fine⟩
  have settled : ∀ name ∈ Merging.ref.classNames,
      name ∈ Merging.first.classes.keys ∨ name ∉ Merging.second.classes.keys := by
    have names : Merging.ref.classNames = [⟨"a"⟩, ⟨"a"⟩] := by cbv
    rw [names]
    decide
  obtain ⟨converted, done, _, composed, _⟩ :=
    converted_is_composition unambiguous targets valid
  obtain ⟨last, through, direct⟩ :=
    composed false Merging.ref (by decide) (by decide) settled
  refine ⟨converted, done, last, through, direct, ?_⟩
  have computed : (Merging.first.renameMethod false Merging.ref >>=
      Merging.second.renameMethod false) = .ok ⟨⟨"c"⟩, ⟨"p"⟩, ⟨"(Lc;)V"⟩⟩ := by
    cbv
  exact Except.ok.inj (through.symm.trans computed)

end Mappings

end Renaming

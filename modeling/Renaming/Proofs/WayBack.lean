import Renaming.Proofs.Reversal

/-!
# References on the way back

Reversed mappings lead a renamed reference back to what it was. This asks for less than reversing
twice does: the classes that the mappings or the reference mention are kept apart, and the member
that the reference names is kept apart from the members of its class that have entries, for a method
from those with the same descriptor. Entries for other members may fall together, and the later one
of them wins.

Leading a reference there and back is leading it through two mappings, so it is enough to see that
both together do what mappings without entries do. These leave everything as it is that can be read.
-/

namespace Renaming.Mappings

variable {mappings : Mappings}

/-! ### Mappings without entries -/

theorem fieldDescriptor_empty {descriptor : FieldDescriptor} (fine : descriptor.Valid) :
    (∅ : Mappings).fieldDescriptor descriptor = .ok descriptor := by
  have kept : Grammar.renameText FieldType (∅ : Mappings).className? descriptor.text =
      .ok descriptor.text := Grammar.renameText_of_kept FieldType fine fun _ _ => rfl
  exact congrArg (Except.map Symbol.mk) kept

/-- The name of an array is written as it was read. -/
theorem classNameAny_empty {name : ClassName} (fine : name.isArray = true → name.Valid) :
    (∅ : Mappings).classNameAny name = .ok name := by
  rw [classNameAny]
  cases array : name.isArray with
  | false => rfl
  | true =>
    have passes := (ClassName.valid_iff_of_isArray array).mp (fine array)
    have kept : Grammar.renameText FieldType (∅ : Mappings).className? name.text = .ok name.text :=
      Grammar.renameText_of_kept FieldType passes fun _ _ => rfl
    rw [if_pos rfl, Descriptor.renameText_of_isArray array, kept]
    rfl

theorem renameField_empty (isStatic : Bool) {ref : FieldRef} (object : ref.owner.isArray = false)
    (fine : ref.descriptor.Valid) : (∅ : Mappings).renameField isStatic ref = .ok ref := by
  rw [renameField_eq isStatic ref object, fieldDescriptor_empty fine]
  rfl

theorem renameMethod_empty (isStatic : Bool) {ref : MethodRef} (ownerFine : ref.owner.Valid)
    (fine : ref.descriptor.Valid) : (∅ : Mappings).renameMethod isStatic ref = .ok ref := by
  have kept : (if ref.owner.isArray = true then ref.name
      else (∅ : Mappings).methodName ref.owner ref.key) = ref.name := by
    split
    · rfl
    · rfl
  rw [renameMethod_eq isStatic ref (classNameAny_empty fun _ => ownerFine),
    methodDescriptor_empty fine, kept]
  rfl

/-! ### There and back -/

section Back

variable {names : Set ClassName} (unambiguous : mappings.Unambiguous)
  (known : ∀ name ∈ mappings.mentioned, name ∈ names)
  (injective : Set.InjOn mappings.className names)

include unambiguous known injective

/-- Together the two mappings make of a class what mappings without entries make of it. -/
theorem className_there_and_back {occurring : List ClassName}
    (inside : ∀ name ∈ occurring, name ∈ names) :
    ∀ name ∈ occurring,
      mappings.reversed.className (mappings.className name) = (∅ : Mappings).className name := by
  intro name occurs
  apply className_reversed unambiguous.classes ?_ injective (inside name occurs)
  exact fun key listed => known key (mem_mentioned_of_class listed)

theorem renameField_there_and_back (targets : mappings.ObjectTargets) (isStatic : Bool)
    {ref : FieldRef} (object : ref.owner.isArray = false) (fine : ref.descriptor.Valid)
    (inside : ∀ name ∈ ref.classNames, name ∈ names)
    (apart : Set.InjOn (mappings.fieldName ref.owner)
      {name | name = ref.name ∨ (mappings.fieldName? ref.owner name).isSome}) :
    (mappings.renameField isStatic ref >>= mappings.reversed.renameField isStatic) = .ok ref := by
  have ownerKnown : ref.owner ∈ names := inside ref.owner (FieldRef.owner_mem_classNames object)
  have classes := className_there_and_back unambiguous known injective inside
  have member : mappings.reversed.fieldName (mappings.className ref.owner)
      (mappings.fieldName ref.owner ref.name) = (∅ : Mappings).fieldName ref.owner ref.name := by
    apply fieldName_reversed unambiguous known injective ownerKnown
    exact fun rival present same => apart (Or.inr present) (Or.inl rfl) same
  exact (renameField_bind targets object classes member).trans
    (renameField_empty isStatic object fine)

theorem renameMethod_there_and_back (targets : mappings.ObjectTargets)
    (valid : mappings.ValidDescriptors) (isStatic : Bool) {ref : MethodRef}
    (ownerFine : ref.owner.Valid) (fine : ref.descriptor.Valid)
    (inside : ∀ name ∈ ref.classNames, name ∈ names)
    (apart : Set.InjOn (fun name => mappings.methodName ref.owner ⟨name, ref.descriptor⟩)
      {name | name = ref.name ∨ (mappings.methodName? ref.owner ⟨name, ref.descriptor⟩).isSome}) :
    (mappings.renameMethod isStatic ref >>= mappings.reversed.renameMethod isStatic) = .ok ref := by
  have classes := className_there_and_back unambiguous known injective inside
  have alone : ∀ rival, (mappings.methodName? ref.owner rival).isSome →
      mappings.newKey ref.owner rival = mappings.newKey ref.owner ref.key → rival = ref.key := by
    intro rival present same
    have rivalKnown : ∀ name ∈ rival.descriptor.classNames, name ∈ names :=
      fun name occurs => known name (mem_mentioned_of_descriptor present occurs)
    have typeKnown : ∀ name ∈ ref.key.descriptor.classNames, name ∈ names :=
      fun name occurs => inside name (List.mem_append_right _ occurs)
    apply eq_of_newKey_eq targets injective ref.key rival fine (valid.of_method present) typeKnown
      rivalKnown apart (Or.inl rfl) ?_ same
    intro shape
    rw [shape] at present
    exact Or.inr present
  have member : ref.owner.isArray = false → ∀ descriptor,
      mappings.methodDescriptor ref.descriptor = .ok descriptor →
        mappings.reversed.methodName (mappings.className ref.owner)
          ⟨mappings.methodName ref.owner ref.key, descriptor⟩ =
            (∅ : Mappings).methodName ref.owner ref.key := by
    intro object descriptor renamed
    have ownerKnown : ref.owner ∈ names := inside ref.owner (MethodRef.owner_mem_classNames object)
    rw [← newDescriptor_of_eq_ok renamed]
    exact methodName_reversed unambiguous known injective ownerKnown alone
  exact (renameMethod_bind targets (classNameAny_empty fun _ => ownerFine) classes member).trans
    (renameMethod_empty isStatic ownerFine fine)

end Back

/-- **Reversed mappings undo the renaming of references.** This holds of references to members that
are kept apart from the members with entries, of class names, those of arrays included, and of
descriptors. -/
theorem reversed_leads_back {mappings : Mappings} {names : Set ClassName}
    (unambiguous : mappings.Unambiguous) (targets : mappings.ObjectTargets)
    (valid : mappings.ValidDescriptors) (known : ∀ name ∈ mappings.mentioned, name ∈ names)
    (injective : Set.InjOn mappings.className names) :
    ∃ back, mappings.reverse = .ok back ∧
      (∀ (isStatic : Bool) (ref : FieldRef), ref.owner.isArray = false → ref.descriptor.Valid →
        (∀ name ∈ ref.classNames, name ∈ names) →
        Set.InjOn (mappings.fieldName ref.owner)
          {name | name = ref.name ∨ (mappings.fieldName? ref.owner name).isSome} →
        (mappings.renameField isStatic ref >>= back.renameField isStatic) = .ok ref) ∧
      (∀ (isStatic : Bool) (ref : MethodRef), ref.owner.Valid → ref.descriptor.Valid →
        (∀ name ∈ ref.classNames, name ∈ names) →
        Set.InjOn (fun name => mappings.methodName ref.owner ⟨name, ref.descriptor⟩)
          {name | name = ref.name ∨
            (mappings.methodName? ref.owner ⟨name, ref.descriptor⟩).isSome} →
        (mappings.renameMethod isStatic ref >>= back.renameMethod isStatic) = .ok ref) ∧
      (∀ name : ClassName, name.Valid → (∀ part ∈ name.objectNames, part ∈ names) →
        (mappings.classNameAny name >>= back.classNameAny) = .ok name) ∧
      (∀ descriptor : FieldDescriptor, descriptor.Valid →
        (∀ name ∈ descriptor.classNames, name ∈ names) →
        (mappings.fieldDescriptor descriptor >>= back.fieldDescriptor) = .ok descriptor) ∧
      ∀ descriptor : MethodDescriptor, descriptor.Valid →
        (∀ name ∈ descriptor.classNames, name ∈ names) →
        (mappings.methodDescriptor descriptor >>= back.methodDescriptor) = .ok descriptor := by
  refine ⟨mappings.reversed, reverse_eq valid, ?_, ?_, ?_, ?_, ?_⟩
  · intro isStatic ref object fine inside apart
    exact renameField_there_and_back unambiguous known injective targets isStatic object fine inside
      apart
  · intro isStatic ref ownerFine fine inside apart
    exact renameMethod_there_and_back unambiguous known injective targets valid isStatic
      ownerFine fine inside apart
  · intro name fine inside
    have classes := className_there_and_back unambiguous known injective inside
    exact (classNameAny_bind targets classes).trans (classNameAny_empty fun _ => fine)
  · intro descriptor fine inside
    have classes := className_there_and_back unambiguous known injective inside
    exact (fieldDescriptor_bind targets classes).trans (fieldDescriptor_empty fine)
  · intro descriptor fine inside
    have classes := className_there_and_back unambiguous known injective inside
    exact (methodDescriptor_bind targets classes).trans (methodDescriptor_empty fine)

namespace Exchange

def descriptor : MethodDescriptor := ⟨"(La;Lb;)V"⟩

/-- Two classes exchange their names, and so do two methods of one of them. -/
def swap : Mappings :=
  ((((∅ : Mappings).addClass ⟨"a"⟩ ⟨"b"⟩).addClass ⟨"b"⟩ ⟨"a"⟩).addMethod
    ⟨"a"⟩ ⟨⟨"m"⟩, descriptor⟩ ⟨"n"⟩).addMethod ⟨"a"⟩ ⟨⟨"n"⟩, descriptor⟩ ⟨"m"⟩

def ref : MethodRef := ⟨⟨"a"⟩, ⟨"m"⟩, descriptor⟩

theorem methods_swap : swap.methods.entries =
    [(⟨"a"⟩, ⟨⟨"m"⟩, descriptor⟩, ⟨"n"⟩), (⟨"a"⟩, ⟨⟨"n"⟩, descriptor⟩, ⟨"m"⟩)] := by
  cbv

theorem valid_exchanged : descriptor.Valid := by
  unfold Symbol.Valid
  cbv

theorem injOn_className : Set.InjOn swap.className {⟨"a"⟩, ⟨"b"⟩} := by
  have apart : ∀ name ∈ [(⟨"a"⟩ : ClassName), ⟨"b"⟩], ∀ other ∈ [(⟨"a"⟩ : ClassName), ⟨"b"⟩],
      swap.className name = swap.className other → name = other := by
    decide
  intro name here other there
  exact apart name (by simpa using here) other (by simpa using there)

end Exchange

/-- Every name in the reference is that of something else after renaming, and all are led back. -/
theorem exchanged_names_lead_back :
    Exchange.swap.renameMethod false Exchange.ref = .ok ⟨⟨"b"⟩, ⟨"n"⟩, ⟨"(Lb;La;)V"⟩⟩ ∧
      ∃ back, Exchange.swap.reverse = .ok back ∧
        (Exchange.swap.renameMethod false Exchange.ref >>= back.renameMethod false) =
          .ok Exchange.ref ∧
        (Exchange.swap.classNameAny ⟨"[[Lb;"⟩ >>= back.classNameAny) = .ok ⟨"[[Lb;"⟩ := by
  have unambiguous : Exchange.swap.Unambiguous := by
    refine ⟨?_, ⟨?_, ?_⟩, ⟨?_, ?_⟩, ⟨?_, ?_⟩⟩ <;> decide
  have targets : Exchange.swap.ObjectTargets := by decide
  have valid : Exchange.swap.ValidDescriptors := by
    refine ⟨?_, nofun⟩
    rw [Exchange.methods_swap]
    exact List.forall_mem_cons.mpr
      ⟨Exchange.valid_exchanged, List.forall_mem_singleton.mpr Exchange.valid_exchanged⟩
  have known : ∀ name ∈ Exchange.swap.mentioned, name ∈ ({⟨"a"⟩, ⟨"b"⟩} : Set ClassName) := by
    have mentioned : Exchange.swap.mentioned =
        [⟨"a"⟩, ⟨"b"⟩, ⟨"a"⟩, ⟨"a"⟩, ⟨"b"⟩, ⟨"a"⟩, ⟨"b"⟩] := by cbv
    rw [mentioned]
    simp
  have inside : ∀ name ∈ Exchange.ref.classNames, name ∈ ({⟨"a"⟩, ⟨"b"⟩} : Set ClassName) := by
    have names : Exchange.ref.classNames = [⟨"a"⟩, ⟨"a"⟩, ⟨"b"⟩] := by cbv
    rw [names]
    simp
  have insideArray : ∀ name ∈ ClassName.objectNames ⟨"[[Lb;"⟩,
      name ∈ ({⟨"a"⟩, ⟨"b"⟩} : Set ClassName) := by
    have names : ClassName.objectNames ⟨"[[Lb;"⟩ = [⟨"b"⟩] := by cbv
    rw [names]
    simp
  have apart : Set.InjOn (fun name => Exchange.swap.methodName Exchange.ref.owner
      ⟨name, Exchange.ref.descriptor⟩) {name | name = Exchange.ref.name ∨
        (Exchange.swap.methodName? Exchange.ref.owner ⟨name, Exchange.ref.descriptor⟩).isSome} := by
    have listed : ∀ name : MethodName, name = Exchange.ref.name ∨
        (Exchange.swap.methodName? Exchange.ref.owner ⟨name, Exchange.ref.descriptor⟩).isSome →
          name ∈ [⟨"m"⟩, ⟨"n"⟩] := by
      intro name present
      obtain rfl | found := present
      · decide
      · obtain ⟨new, found⟩ := Option.isSome_iff_exists.mp found
        have entry := Members.mem_entries_of_get? found
        rw [Exchange.methods_swap] at entry
        grind
    have injective : ∀ name ∈ [(⟨"m"⟩ : MethodName), ⟨"n"⟩],
        ∀ other ∈ [(⟨"m"⟩ : MethodName), ⟨"n"⟩],
        Exchange.swap.methodName ⟨"a"⟩ ⟨name, Exchange.descriptor⟩ =
          Exchange.swap.methodName ⟨"a"⟩ ⟨other, Exchange.descriptor⟩ → name = other := by
      decide
    exact fun name here other there => injective name (listed name here) other (listed other there)
  have ownerFine : Exchange.ref.owner.Valid := by
    unfold Symbol.Valid
    cbv
  have arrayFine : (⟨"[[Lb;"⟩ : ClassName).Valid := by
    unfold Symbol.Valid
    cbv
  obtain ⟨back, done, _, methods, arrays, _⟩ :=
    reversed_leads_back unambiguous targets valid known Exchange.injOn_className
  exact ⟨by cbv, back, done,
    methods false Exchange.ref ownerFine Exchange.valid_exchanged inside apart,
    arrays ⟨"[[Lb;"⟩ arrayFine insideArray⟩

end Renaming.Mappings

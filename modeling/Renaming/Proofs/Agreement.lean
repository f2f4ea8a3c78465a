import Renaming.Pass
import Renaming.Proofs.LookupOrder

/-!
# Declarations and references

A member that takes no part in overriding is named twice in a pass: where its class declares it, by
the entry of that class alone, and where it is referred to, by the first entry that counts on the
way up from that class. This module says when the two names are the same.

They are the same if the class has an entry of its own for the member. Without one the declaration
keeps its name, and the reference takes the name of the first entry above: a hidden field, a hidden
static method or a method behind a private one gives its new name to references that mean the member
that hides it. Methods of array classes are another case where the two differ: a reference to them
keeps the name, whatever entry there is.
-/

namespace Renaming

/-! ### The name that a search along the order gives -/

/-- The lookup order starts with the site. -/
theorem Hierarchy.lookupOrder_eq_cons (hierarchy : Hierarchy) (site : ClassName) :
    ∃ rest, hierarchy.lookupOrder site = site :: rest := by
  rw [lookupOrder]
  cases known : hierarchy.lookup site with
  | none => exact ⟨_, levels_of_unknown hierarchy List.not_mem_nil known⟩
  | some info => exact ⟨_, levels_of_known hierarchy List.not_mem_nil known⟩

/-- The first entry past the site, if a class that counts has one, gives the name. -/
def Resolved.InheritsName {ν : Type} (order : List ClassName) (site : ClassName)
    (counts : ClassName → Prop) (entry : ClassName → Option ν) (name : ν) : Prop :=
  ∀ hit : Resolved ν, hit.IsFirst order (fun owner => owner ≠ site ∧ counts owner) entry →
    hit.name = name

namespace Resolved

variable {ν : Type} {rest : List ClassName} {site : ClassName} {counts : ClassName → Prop}
  {entry : ClassName → Option ν}

/-- An entry of the site comes before all others. -/
theorem isFirst_of_own {name : ν} (own : entry site = some name) :
    IsFirst (site :: rest) (fun owner => owner = site ∨ counts owner) entry ⟨site, name⟩ :=
  ⟨Or.inl rfl, own, [], rest, rfl, fun _ member => absurd member List.not_mem_nil⟩

/-- Without an entry of the site, only those of other classes are in question. -/
theorem isFirst_iff_of_no_own {order : List ClassName} (none : entry site = none)
    (hit : Resolved ν) :
    hit.IsFirst order (fun owner => owner = site ∨ counts owner) entry ↔
      hit.IsFirst order (fun owner => owner ≠ site ∧ counts owner) entry := by
  have elsewhere : entry hit.owner = some hit.name → hit.owner ≠ site := by
    intro found same
    rw [same, none] at found
    cases found
  constructor
  · rintro ⟨stands, found, before, after, split, earlier⟩
    exact ⟨⟨elsewhere found, stands.resolve_left (elsewhere found)⟩, found, before, after, split,
      fun other member others => earlier other member (Or.inr others.2)⟩
  · rintro ⟨stands, found, before, after, split, earlier⟩
    refine ⟨Or.inr stands.2, found, before, after, split, fun other member others => ?_⟩
    by_cases same : other = site
    · rw [same]
      exact none
    · exact earlier other member ⟨same, others.resolve_left same⟩

/-- The name that a search gives is that of the site's own entry, or else the old name, exactly if
there is such an entry or the first entry past the site gives the old name. -/
theorem getD_name_eq_iff (entry : ClassName → Option ν) {found : Option (Resolved ν)} {name : ν}
    (meaning : ∀ hit, found = some hit ↔
      hit.IsFirst (site :: rest) (fun owner => owner = site ∨ counts owner) entry) :
    (found.map Resolved.name).getD name = (entry site).getD name ↔
      (entry site).isSome ∨ InheritsName (site :: rest) site counts entry name := by
  cases own : entry site with
  | some new =>
    rw [(meaning ⟨site, new⟩).mpr (isFirst_of_own own)]
    simp
  | none =>
    have inherited : ∀ hit, found = some hit ↔
        hit.IsFirst (site :: rest) (fun owner => owner ≠ site ∧ counts owner) entry :=
      fun hit => (meaning hit).trans (isFirst_iff_of_no_own own hit)
    simp only [Option.getD_none, Option.isSome_none, Bool.false_eq_true, false_or, InheritsName,
      ← inherited]
    cases found with
    | none => simp
    | some hit => simp

end Resolved

/-! ### What references and declarations become -/

namespace Pass

variable (pass : Pass)

/-- The name of a class is renamed as it is in references. -/
theorem classNameAny_of_className {name renamed : ClassName}
    (done : (pass.className name).result = .ok renamed) :
    pass.mappings.classNameAny name = .ok renamed := by
  simpa only [className, Recorded.result_bind_eq_ok_iff, Recorded.result_pure,
    Recorded.result_monadLift, Except.ok.injEq, exists_eq_right] using done

/-- A declared field takes the name of its own entry, and its descriptor is renamed. -/
theorem name_and_descriptor_of_field {owner : ClassName} {field renamed : Field}
    (done : (pass.field owner field).result = .ok renamed) :
    pass.mappings.fieldDescriptor field.descriptor = .ok renamed.descriptor ∧
      renamed.name = (pass.mappings.fieldName? owner field.name).getD field.name := by
  simp only [Pass.field, Recorded.result_bind_eq_ok_iff, Recorded.result_pure,
    Recorded.result_monadLift, Except.ok.injEq] at done
  obtain ⟨descriptor, read, signature, _, rfl⟩ := done
  exact ⟨read, rfl⟩

/-- A declared method takes the name that the resolver finds for it, and its descriptor is
renamed. -/
theorem name_and_descriptor_of_method {owner : ClassName} {method renamed : Method}
    (done : (pass.method owner method).result = .ok renamed) :
    pass.mappings.methodDescriptor method.descriptor = .ok renamed.descriptor ∧
      renamed.name = ((pass.resolver.declaration (method.key.on owner) method.access).map
        Resolved.name).getD method.name := by
  simp only [Pass.method, Recorded.result_bind_eq_ok_iff, Recorded.result_pure,
    Recorded.result_monadLift, Except.ok.injEq, Resolver.result_resolveDeclaration,
    exists_eq_left'] at done
  obtain ⟨parameters, _, descriptor, read, code, _, signature, _, rfl⟩ := done
  exact ⟨read, rfl⟩

/-- A private or static method overrides nothing, so only its own entry names it. -/
theorem declaration_of_not_overriding {owner : ClassName} {method : Method}
    (ordinary : method.name.isSpecial = false)
    (apart : method.access.isPrivate = true ∨ method.access.isStatic = true) :
    ((pass.resolver.declaration (method.key.on owner) method.access).map Resolved.name).getD
        method.name =
      pass.mappings.methodName owner method.key := by
  have notOverriding : (method.access.isPrivate || method.access.isStatic) = true := by
    simpa using apart
  have notSpecial : (method.key.on owner).name.isSpecial = false := ordinary
  have sameKey : (method.key.on owner).key = method.key := rfl
  have sameOwner : (method.key.on owner).owner = owner := rfl
  rw [Resolver.declaration, notSpecial, if_neg Bool.false_ne_true, notOverriding, if_pos rfl,
    sameKey, sameOwner, Mappings.methodName, mappings]
  cases pass.resolver.mappings.methodName? owner method.key <;> rfl

/-- When a reference to a field has the name of its declaration. -/
theorem field_reference_agrees_iff {owner newOwner : ClassName} {field renamed : Field}
    (ownerDone : (pass.className owner).result = .ok newOwner)
    (done : (pass.field owner field).result = .ok renamed) :
    ∃ ref, (pass.renamer.fieldRef ⟨owner, field.name, field.descriptor⟩
          field.access.isStatic).result = .ok ref ∧
      ref.owner = newOwner ∧ ref.descriptor = renamed.descriptor ∧
      (ref.name = renamed.name ↔
        (pass.mappings.fieldName? owner field.name).isSome ∨
          Resolved.InheritsName (pass.resolver.hierarchy.lookupOrder owner) owner
            (pass.resolver.hierarchy.OffersField ⟨owner, field.name, field.descriptor⟩
              field.access.isStatic)
            (fun other => pass.mappings.fieldName? other field.name) field.name) := by
  obtain ⟨read, name⟩ := pass.name_and_descriptor_of_field done
  refine ⟨_, Renamer.fieldRef_of_parts _ _ (pass.classNameAny_of_className ownerDone) read,
    rfl, rfl, ?_⟩
  obtain ⟨rest, order⟩ := pass.resolver.hierarchy.lookupOrder_eq_cons owner
  rw [name, order]
  refine Resolved.getD_name_eq_iff (fun other => pass.mappings.fieldName? other field.name)
    fun hit => ?_
  rw [← order]
  exact pass.resolver.field_eq_some_iff _ _ hit

/-- When a reference to a private or static method has the name of its declaration. -/
theorem method_reference_agrees_iff {owner newOwner : ClassName} {method renamed : Method}
    (ordinary : method.name.isSpecial = false)
    (apart : method.access.isPrivate = true ∨ method.access.isStatic = true)
    (ownerDone : (pass.className owner).result = .ok newOwner)
    (done : (pass.method owner method).result = .ok renamed) :
    ∃ ref, (pass.renamer.methodRef (method.key.on owner) method.access.isStatic).result = .ok ref ∧
      ref.owner = newOwner ∧ ref.descriptor = renamed.descriptor ∧
      (ref.name = renamed.name ↔
        if owner.isArray then pass.mappings.methodName owner method.key = method.name
        else (pass.mappings.methodName? owner method.key).isSome ∨
          Resolved.InheritsName (pass.resolver.hierarchy.lookupOrder owner) owner
            (pass.resolver.hierarchy.OffersMethod (method.key.on owner) method.access.isStatic)
            (fun other => pass.mappings.methodName? other method.key) method.name) := by
  obtain ⟨read, name⟩ := pass.name_and_descriptor_of_method done
  rw [pass.declaration_of_not_overriding ordinary apart] at name
  refine ⟨_, Renamer.methodRef_of_parts _ _ (pass.classNameAny_of_className ownerDone) read,
    rfl, rfl, ?_⟩
  rw [name]
  cases array : owner.isArray with
  | true =>
    have keeps : (method.key.on owner).owner.isArray = true := array
    rw [keeps, if_pos rfl, if_pos rfl]
    exact eq_comm
  | false =>
    have searches : (method.key.on owner).owner.isArray = false := array
    rw [searches, if_neg Bool.false_ne_true, if_neg Bool.false_ne_true]
    obtain ⟨rest, order⟩ := pass.resolver.hierarchy.lookupOrder_eq_cons owner
    rw [order]
    refine Resolved.getD_name_eq_iff (fun other => pass.mappings.methodName? other method.key)
      fun hit => ?_
    rw [← order]
    refine (pass.resolver.method_eq_some_iff _ _ hit).trans ?_
    exact and_iff_right ordinary

end Pass

/-! ### A hidden field -/

namespace Hiding

/-- A field that two classes declare, one above the other. -/
def field : Field := ⟨.none, ⟨"f"⟩, ⟨"I"⟩, none⟩

/-- A static method that both classes declare. -/
def method : Method := ⟨.ofNat 8, ⟨"m"⟩, ⟨"()V"⟩, none, none, none, none⟩

def upper : ClassFile :=
  { version := ⟨61, 0⟩
    access := .none
    name := ⟨"S"⟩
    superClass := some .object
    interfaces := []
    fields := [field]
    methods := [method]
    nestedClasses := none
    enclosingMethod := none
    signature := none
    sourceFile := none
    nestHost := none
    nestMembers := none
    permittedSubclasses := none }

def lower : ClassFile := { upper with name := ⟨"D"⟩, superClass := some upper.name }

def classes : List ClassFile := [upper, lower]

/-- An entry for the hidden field only. -/
def mappings : Mappings := Mappings.empty.addField upper.name field.name ⟨"g"⟩

/-- Entries for the members of both classes. -/
def settled : Mappings :=
  ((mappings.addField lower.name field.name ⟨"h"⟩).addMethod upper.name method.key ⟨"n"⟩).addMethod
    lower.name method.key ⟨"k"⟩

/-- The pass over the two classes. -/
def pass (mappings : Mappings) : Pass := Pass.ofIndex (indexTable classes) mappings ∅ ∅ {}

end Hiding

/-- **A reference to a field that hides another one may get the name of the hidden one.** Both
classes declare `f`, and there is an entry for the upper class only. The lower class keeps `f`, but
a reference to it becomes one to `g`. -/
theorem hidden_field_reference_differs :
    (Hiding.classes.map ClassFile.name).Nodup ∧ Hiding.lower ∈ Hiding.classes ∧
      Hiding.field ∈ Hiding.lower.fields ∧
      ((Hiding.pass Hiding.mappings).field Hiding.lower.name Hiding.field).result.map Field.name =
        .ok ⟨"f"⟩ ∧
      ((Hiding.pass Hiding.mappings).renamer.fieldRef
          ⟨Hiding.lower.name, Hiding.field.name, Hiding.field.descriptor⟩
          Hiding.field.access.isStatic).result.map FieldRef.name = .ok ⟨"g"⟩ := by
  refine ⟨by decide, by simp [Hiding.classes], List.mem_singleton_self _, by cbv, by cbv⟩

/-! ### The statement -/

/-- **When references agree with declarations.** In the pass over any classes, a reference to a
declared field, or to a declared method that is private or static and no constructor or class
initialiser, gets the new class and descriptor of the declaration. It gets the name of the
declaration exactly if the class has an entry of its own for the member, or the first other class on
the way up that offers the member and has an entry for it, if there is any, gives it its old name.
References to methods of array classes keep the name, so there the entry must keep it too. -/
theorem declared_and_referenced_names_agree_iff (classes : List ClassFile) (mappings : Mappings)
    (hierarchy : Hierarchy) (supplement : Supplement) (options : PassOptions)
    (owner newOwner : ClassName)
    (ownerDone : ((Pass.ofIndex (indexTable classes) mappings hierarchy supplement
      options).className owner).result = .ok newOwner) :
    let pass := Pass.ofIndex (indexTable classes) mappings hierarchy supplement options
    let known := (Hierarchy.ofClasses classes).above hierarchy
    (∀ field renamed : Field, (pass.field owner field).result = .ok renamed →
      ∃ ref, (pass.renamer.fieldRef ⟨owner, field.name, field.descriptor⟩
            field.access.isStatic).result = .ok ref ∧
        ref.owner = newOwner ∧ ref.descriptor = renamed.descriptor ∧
        (ref.name = renamed.name ↔
          (mappings.fieldName? owner field.name).isSome ∨
            Resolved.InheritsName (known.lookupOrder owner) owner
              (known.OffersField ⟨owner, field.name, field.descriptor⟩ field.access.isStatic)
              (fun other => mappings.fieldName? other field.name) field.name)) ∧
    (∀ method renamed : Method, method.name.isSpecial = false →
      (method.access.isPrivate = true ∨ method.access.isStatic = true) →
      (pass.method owner method).result = .ok renamed →
      ∃ ref, (pass.renamer.methodRef (method.key.on owner) method.access.isStatic).result =
            .ok ref ∧
        ref.owner = newOwner ∧ ref.descriptor = renamed.descriptor ∧
        (ref.name = renamed.name ↔
          if owner.isArray then mappings.methodName owner method.key = method.name
          else (mappings.methodName? owner method.key).isSome ∨
            Resolved.InheritsName (known.lookupOrder owner) owner
              (known.OffersMethod (method.key.on owner) method.access.isStatic)
              (fun other => mappings.methodName? other method.key) method.name)) := by
  intro pass known
  refine ⟨fun field renamed done => ?_, fun method renamed ordinary apart done => ?_⟩
  · exact pass.field_reference_agrees_iff ownerDone done
  · exact pass.method_reference_agrees_iff ordinary apart ownerDone done

/-- With entries of its own for both members, the lower class is referred to by what it declares. -/
theorem own_entries_settle_references :
    (∃ ref, ((Hiding.pass Hiding.settled).renamer.fieldRef
        ⟨Hiding.lower.name, Hiding.field.name, Hiding.field.descriptor⟩
        Hiding.field.access.isStatic).result = .ok ref ∧ ref.name = ⟨"h"⟩) ∧
    (∃ ref, ((Hiding.pass Hiding.settled).renamer.methodRef
        (Hiding.method.key.on Hiding.lower.name) Hiding.method.access.isStatic).result = .ok ref ∧
      ref.name = ⟨"k"⟩) := by
  have ownerDone : ((Hiding.pass Hiding.settled).className Hiding.lower.name).result =
      .ok Hiding.lower.name := by cbv
  have fieldDone : ((Hiding.pass Hiding.settled).field Hiding.lower.name Hiding.field).result =
      .ok { Hiding.field with name := ⟨"h"⟩ } := by cbv
  have methodDone : ((Hiding.pass Hiding.settled).method Hiding.lower.name Hiding.method).result =
      .ok { Hiding.method with name := ⟨"k"⟩ } := by cbv
  obtain ⟨fields, methods⟩ := declared_and_referenced_names_agree_iff Hiding.classes Hiding.settled
    ∅ ∅ {} Hiding.lower.name Hiding.lower.name ownerDone
  obtain ⟨fieldRef, fieldFound, _, _, fieldName⟩ := fields _ _ fieldDone
  obtain ⟨methodRef, methodFound, _, _, methodName⟩ :=
    methods _ _ (by decide) (Or.inr (by decide)) methodDone
  refine ⟨⟨fieldRef, fieldFound, fieldName.mpr (Or.inl (by decide))⟩,
    ⟨methodRef, methodFound, methodName.mpr ?_⟩⟩
  rw [if_neg (by decide)]
  exact Or.inl (by decide)

end Renaming

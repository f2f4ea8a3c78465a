import Renaming.Proofs.Conversion
import Renaming.Proofs.Mediation
import Renaming.Proofs.Reversal

/-!
# Two routes from one vocabulary to another

With mappings `A → B` and `A → C` there are two routes from `B` to `C`. Mediating goes there at
once, and its mappings have entries only for what `B` and `C` call differently. The other route goes
back to `A` first and converts `B → A` with `A → C`; its mappings have entries for everything that
`A → B` has entries for, and the descriptors in them are led to `B` and back again.

If `A → B` keeps apart what it mentions and has an entry wherever `A → C` has one, both routes give
every name of `B` the same name. A name of `B` is the new name of something with an entry, and then
both routes go by its old name, or neither of them has an entry for it.
-/

namespace Renaming.Mappings

variable {mappings other : Mappings}

/-- The mappings have an entry wherever the other ones have one. -/
structure Covers (mappings other : Mappings) : Prop where
  classes : ∀ name, (other.className? name).isSome → (mappings.className? name).isSome
  fields : ∀ owner name, (other.fieldName? owner name).isSome →
    (mappings.fieldName? owner name).isSome
  methods : ∀ owner key,
    (other.methodName? owner key).isSome → (mappings.methodName? owner key).isSome

/-! ### New names -/

/-- The new name of a class with an entry. -/
def IsNewClass (mappings : Mappings) (new : ClassName) : Prop :=
  ∃ old, (mappings.className? old).isSome ∧ mappings.className old = new

/-- The new class and name of a field with an entry. -/
def IsNewField (mappings : Mappings) (site : ClassName) (new : FieldName) : Prop :=
  ∃ owner name, (mappings.fieldName? owner name).isSome ∧
    mappings.className owner = site ∧ mappings.fieldName owner name = new

/-- The new class and key of a method with an entry. -/
def IsNewMethod (mappings : Mappings) (site : ClassName) (new : MethodKey) : Prop :=
  ∃ owner key, (mappings.methodName? owner key).isSome ∧
    mappings.className owner = site ∧ mappings.newKey owner key = new

section Origin

/-! Both routes have entries for new names only. -/

/-- Mediating goes through the classes that the one or the other mappings list. As the first ones
cover the second ones, all of these classes have an entry there. -/
theorem IsNewClass.of_mediated (covers : mappings.Covers other) {name : ClassName}
    (found : ((mappings.mediated other).className? name).isSome) : mappings.IsNewClass name := by
  obtain ⟨new, made⟩ := Table.exists_of_isSome_ofEntries found
  obtain ⟨old, listed, _, made⟩ := mem_differences_iff.mp made
  rw [mem_distinct, List.mem_append] at listed
  have present : (mappings.className? old).isSome := by
    obtain ours | theirs := listed
    · exact Table.isSome_get?_iff.mpr ours
    · exact covers.classes old (Table.isSome_get?_iff.mpr theirs)
  exact ⟨old, present, (Prod.mk.inj made).1⟩

theorem IsNewField.of_mediated (covers : mappings.Covers other) {site : ClassName} {new : FieldName}
    (found : ((mappings.mediated other).fieldName? site new).isSome) :
    mappings.IsNewField site new := by
  obtain ⟨last, made⟩ := Members.exists_of_isSome_ofEntries found
  obtain ⟨⟨owner, name⟩, listed, _, made⟩ := mem_differences_iff.mp made
  have present : (mappings.fieldName? owner name).isSome :=
    (Members.mem_union_iff.mp listed).elim id (covers.fields owner name)
  obtain ⟨sameOwner, rest⟩ := Prod.mk.inj made
  exact ⟨owner, name, present, sameOwner, (Prod.mk.inj rest).1⟩

theorem IsNewMethod.of_mediated (covers : mappings.Covers other) {site : ClassName}
    {new : MethodKey} (found : ((mappings.mediated other).methodName? site new).isSome) :
    mappings.IsNewMethod site new := by
  obtain ⟨last, made⟩ := Members.exists_of_isSome_ofEntries found
  obtain ⟨⟨owner, key⟩, listed, _, made⟩ := mem_differences_iff.mp made
  have present : (mappings.methodName? owner key).isSome :=
    (Members.mem_union_iff.mp listed).elim id (covers.methods owner key)
  obtain ⟨sameOwner, rest⟩ := Prod.mk.inj made
  exact ⟨owner, key, present, sameOwner, (Prod.mk.inj rest).1⟩

variable (unambiguous : mappings.Unambiguous)

include unambiguous

/-- Converting goes through the entries of the reversed mappings, whose keys are the new names. -/
theorem IsNewClass.of_converted {name : ClassName}
    (found : ((mappings.reversed.converted other).className? name).isSome) :
    mappings.IsNewClass name := by
  rw [className?_converted unambiguous_reversed, Option.isSome_map] at found
  obtain ⟨last, made⟩ := Table.exists_of_isSome_ofEntries found
  obtain ⟨⟨old, new⟩, listed, made⟩ := List.mem_map.mp made
  have present : mappings.className? old = some new :=
    (Table.get?_eq_some_iff unambiguous.classes).mpr listed
  refine ⟨old, Option.isSome_iff_exists.mpr ⟨new, present⟩, ?_⟩
  exact (className_of_eq_some present).trans (Prod.mk.inj made).1

theorem IsNewField.of_converted {site : ClassName} {new : FieldName}
    (found : ((mappings.reversed.converted other).fieldName? site new).isSome) :
    mappings.IsNewField site new := by
  rw [fieldName?_converted unambiguous_reversed, Option.isSome_map] at found
  obtain ⟨last, made⟩ := Members.exists_of_isSome_ofEntries found
  obtain ⟨⟨owner, old, renamed⟩, listed, made⟩ := List.mem_map.mp made
  have present : mappings.fieldName? owner old = some renamed :=
    (Members.get?_eq_some_iff unambiguous.fields).mpr listed
  obtain ⟨sameOwner, rest⟩ := Prod.mk.inj made
  refine ⟨owner, old, Option.isSome_iff_exists.mpr ⟨renamed, present⟩, sameOwner, ?_⟩
  exact (fieldName_of_eq_some present).trans (Prod.mk.inj rest).1

theorem IsNewMethod.of_converted {site : ClassName} {new : MethodKey}
    (found : ((mappings.reversed.converted other).methodName? site new).isSome) :
    mappings.IsNewMethod site new := by
  rw [methodName?_converted unambiguous_reversed, Option.isSome_map] at found
  obtain ⟨last, made⟩ := Members.exists_of_isSome_ofEntries found
  obtain ⟨⟨owner, key, renamed⟩, listed, made⟩ := List.mem_map.mp made
  have present : mappings.methodName? owner key = some renamed :=
    (Members.get?_eq_some_iff unambiguous.methods).mpr listed
  obtain ⟨sameOwner, rest⟩ := Prod.mk.inj made
  refine ⟨owner, key, Option.isSome_iff_exists.mpr ⟨renamed, present⟩, sameOwner, ?_⟩
  rw [newKey, methodName_of_eq_some present]
  exact (Prod.mk.inj rest).1

end Origin

/-! ### Both routes by the old name -/

section Old

variable {names : Set ClassName} (unambiguous : mappings.Unambiguous)
  (known : ∀ name, name ∈ mappings.mentioned ∨ name ∈ other.mentioned → name ∈ names)
  (injective : Set.InjOn mappings.className names)

include unambiguous known injective

/-- The detour by the old names gives a class what the other mappings give it under its old name. -/
theorem className_converted_reversed {name : ClassName}
    (listed : (mappings.className? name).isSome) :
    (mappings.reversed.converted other).className (mappings.className name) =
      other.className name := by
  have keys : ∀ key ∈ mappings.classes.keys, key ∈ names :=
    fun key present => known key (Or.inl (mem_mentioned_of_class present))
  have within : name ∈ names := keys name (Table.isSome_get?_iff.mp listed)
  have found := className?_reversed unambiguous.classes keys injective within
  have settled : mappings.className name ∈ mappings.reversed.classes.keys := by
    apply Table.isSome_get?_iff.mp
    show (mappings.reversed.className? (mappings.className name)).isSome
    rw [found, Option.isSome_map]
    exact listed
  rw [← className_converted unambiguous_reversed (Or.inl settled),
    className_reversed unambiguous.classes keys injective within]

/-- Of fields it has to be known that those of a class are kept apart. Reversing would lose one of
two entries with the same new name. -/
theorem fieldName_converted_reversed
    (apart : ∀ owner, Set.InjOn (mappings.fieldName owner)
      {name | (mappings.fieldName? owner name).isSome})
    {owner : ClassName} {name : FieldName} (listed : (mappings.fieldName? owner name).isSome) :
    (mappings.reversed.converted other).fieldName (mappings.className owner)
      (mappings.fieldName owner name) = other.fieldName owner name := by
  have within : owner ∈ names := known owner (Or.inl (mem_mentioned_of_field listed))
  have ours : ∀ site ∈ mappings.mentioned, site ∈ names :=
    fun site present => known site (Or.inl present)
  have alone : ∀ rival, (mappings.fieldName? owner rival).isSome →
      mappings.fieldName owner rival = mappings.fieldName owner name → rival = name :=
    fun rival present same => apart owner present listed same
  have present : (mappings.reversed.fieldName? (mappings.className owner)
      (mappings.fieldName owner name)).isSome := by
    rw [fieldName?_reversed unambiguous ours injective within alone, Option.isSome_map]
    exact listed
  rw [← fieldName_converted unambiguous_reversed present,
    className_reversed unambiguous.classes
      (fun key there => ours key (mem_mentioned_of_class there)) injective within,
    fieldName_reversed unambiguous ours injective within alone]

/-- A method is looked up by its new name and its new descriptor, and both lead back: methods with
one descriptor are kept apart, and so are all classes that a descriptor mentions. -/
theorem methodName_converted_reversed (targets : mappings.ObjectTargets)
    (valid : mappings.ValidDescriptors)
    (apart : ∀ owner descriptor,
      Set.InjOn (fun name => mappings.methodName owner ⟨name, descriptor⟩)
      {name | (mappings.methodName? owner ⟨name, descriptor⟩).isSome})
    {owner : ClassName} {key : MethodKey} (listed : (mappings.methodName? owner key).isSome) :
    (mappings.reversed.converted other).methodName (mappings.className owner)
      (mappings.newKey owner key) = other.methodName owner key := by
  have within : owner ∈ names := known owner (Or.inl (mem_mentioned_of_method listed))
  have ours : ∀ site ∈ mappings.mentioned, site ∈ names :=
    fun site present => known site (Or.inl present)
  have inside : ∀ rival, (mappings.methodName? owner rival).isSome →
      ∀ name ∈ rival.descriptor.classNames, name ∈ names :=
    fun rival present name occurs => ours name (mem_mentioned_of_descriptor present occurs)
  have alone : ∀ rival, (mappings.methodName? owner rival).isSome →
      mappings.newKey owner rival = mappings.newKey owner key → rival = key := by
    intro rival present same
    apply eq_of_newKey_eq targets injective key rival (valid.of_method listed)
      (valid.of_method present) (inside key listed) (inside rival present)
      (apart owner key.descriptor) listed ?_ same
    intro shape
    rw [shape] at present
    exact present
  have present : (mappings.reversed.methodName? (mappings.className owner)
      (mappings.newKey owner key)).isSome := by
    rw [methodName?_reversed unambiguous ours injective within alone, Option.isSome_map]
    exact listed
  rw [← methodName_converted unambiguous_reversed present,
    className_reversed unambiguous.classes
      (fun key there => ours key (mem_mentioned_of_class there)) injective within,
    newKey_reversed unambiguous ours injective targets within (valid.of_method listed)
      (inside key listed) alone]

end Old

/-! ### The routes are the same -/

/-- Two look-ups give the same name if they do so for new names and find nothing otherwise. -/
theorem getD_eq_of_new {ν : Type} {first second : Option ν} {kept : ν} {new : Prop}
    (firstNew : first.isSome → new) (secondNew : second.isSome → new)
    (same : new → first.getD kept = second.getD kept) : first.getD kept = second.getD kept := by
  by_cases isNew : new
  · exact same isNew
  · have firstNone : first = none := Option.not_isSome_iff_eq_none.mp (mt firstNew isNew)
    have secondNone : second = none := Option.not_isSome_iff_eq_none.mp (mt secondNew isNew)
    rw [firstNone, secondNone]

/-- **Mediating is reversing and then converting.** Both routes succeed and give every class, field
and method the same name, with or without an entry. -/
theorem mediating_is_reversing_then_converting {mappings other : Mappings}
    (unambiguous : mappings.Unambiguous) (targets : mappings.ObjectTargets)
    (valid : mappings.ValidDescriptors) (otherValid : other.ValidDescriptors)
    (injective : Set.InjOn mappings.className
      {name | name ∈ mappings.mentioned ∨ name ∈ other.mentioned})
    (fieldsApart : ∀ owner, Set.InjOn (mappings.fieldName owner)
      {name | (mappings.fieldName? owner name).isSome})
    (methodsApart : ∀ owner descriptor,
      Set.InjOn (fun name => mappings.methodName owner ⟨name, descriptor⟩)
        {name | (mappings.methodName? owner ⟨name, descriptor⟩).isSome})
    (covers : mappings.Covers other) :
    ∃ mediated back converted, mappings.mediate other = .ok mediated ∧ mappings.reverse = .ok back ∧
      back.convert other = .ok converted ∧
      (∀ name, mediated.className name = converted.className name) ∧
      (∀ owner name, mediated.fieldName owner name = converted.fieldName owner name) ∧
      ∀ owner key, mediated.methodName owner key = converted.methodName owner key := by
  have known : ∀ name, name ∈ mappings.mentioned ∨ name ∈ other.mentioned →
      name ∈ {name | name ∈ mappings.mentioned ∨ name ∈ other.mentioned} := fun _ => id
  refine ⟨mappings.mediated other, mappings.reversed, mappings.reversed.converted other,
    mediate_eq valid otherValid, reverse_eq valid,
    convert_eq (validDescriptors_reversed valid targets), ?_, ?_, ?_⟩
  · intro name
    apply getD_eq_of_new (IsNewClass.of_mediated covers) (IsNewClass.of_converted unambiguous)
    intro ⟨old, listed, made⟩
    rw [← made]
    have within := known old (Or.inl (mem_mentioned_of_class (Table.isSome_get?_iff.mp listed)))
    exact (className_mediated known injective within).trans
      (className_converted_reversed unambiguous known injective listed).symm
  · intro site name
    apply getD_eq_of_new (IsNewField.of_mediated covers) (IsNewField.of_converted unambiguous)
    intro ⟨owner, old, listed, sameOwner, sameName⟩
    rw [← sameOwner, ← sameName]
    have within := known owner (Or.inl (mem_mentioned_of_field listed))
    have apart : Set.InjOn (mappings.fieldName owner) {rival | rival = old ∨
        (mappings.fieldName? owner rival).isSome ∨ (other.fieldName? owner rival).isSome} := by
      apply (fieldsApart owner).mono
      intro rival present
      obtain rfl | ours | theirs := present
      · exact listed
      · exact ours
      · exact covers.fields owner rival theirs
    exact (fieldName_mediated known injective within apart).trans
      (fieldName_converted_reversed unambiguous known injective fieldsApart listed).symm
  · intro site key
    apply getD_eq_of_new (IsNewMethod.of_mediated covers) (IsNewMethod.of_converted unambiguous)
    intro ⟨owner, old, listed, sameOwner, sameKey⟩
    rw [← sameOwner, ← sameKey]
    have within := known owner (Or.inl (mem_mentioned_of_method listed))
    have inside : ∀ name ∈ old.descriptor.classNames, _ :=
      fun name occurs => known name (Or.inl (mem_mentioned_of_descriptor listed occurs))
    have apart : Set.InjOn (fun name => mappings.methodName owner ⟨name, old.descriptor⟩) {rival |
        rival = old.name ∨ (mappings.methodName? owner ⟨rival, old.descriptor⟩).isSome ∨
          (other.methodName? owner ⟨rival, old.descriptor⟩).isSome} := by
      apply (methodsApart owner old.descriptor).mono
      intro rival present
      obtain rfl | ours | theirs := present
      · exact listed
      · exact ours
      · exact covers.methods owner ⟨rival, old.descriptor⟩ theirs
    exact (methodName_mediated known injective targets valid otherValid within
      (valid.of_method listed)
      inside apart).trans (methodName_converted_reversed unambiguous known injective targets valid
        methodsApart listed).symm

namespace Routes

def descriptor : MethodDescriptor := ⟨"(La;Lb;)V"⟩

/-- Two classes exchange their names, and so do two methods of one of them. -/
def first : Mappings :=
  (((((∅ : Mappings).addClass ⟨"a"⟩ ⟨"b"⟩).addClass ⟨"b"⟩ ⟨"a"⟩).addField ⟨"a"⟩ ⟨"f"⟩
    ⟨"g"⟩).addMethod ⟨"a"⟩ ⟨⟨"m"⟩, descriptor⟩ ⟨"n"⟩).addMethod ⟨"a"⟩ ⟨⟨"n"⟩, descriptor⟩ ⟨"m"⟩

/-- The field has the same name on both sides, and one of the methods keeps its name. -/
def second : Mappings :=
  (((∅ : Mappings).addClass ⟨"a"⟩ ⟨"c"⟩).addField ⟨"a"⟩ ⟨"f"⟩ ⟨"g"⟩).addMethod
    ⟨"a"⟩ ⟨⟨"m"⟩, descriptor⟩ ⟨"p"⟩

theorem valid_routed : descriptor.Valid := by
  unfold Symbol.Valid
  cbv

theorem methods_first : first.methods.entries =
    [(⟨"a"⟩, ⟨⟨"m"⟩, descriptor⟩, ⟨"n"⟩), (⟨"a"⟩, ⟨⟨"n"⟩, descriptor⟩, ⟨"m"⟩)] := by
  cbv

theorem methods_second : second.methods.entries = [(⟨"a"⟩, ⟨⟨"m"⟩, descriptor⟩, ⟨"p"⟩)] := by
  cbv

theorem fields_first : first.fields.entries = [(⟨"a"⟩, ⟨"f"⟩, ⟨"g"⟩)] := by
  cbv

theorem fields_second : second.fields.entries = [(⟨"a"⟩, ⟨"f"⟩, ⟨"g"⟩)] := by
  cbv

/-- The second mappings list nothing that the first ones do not list. -/
theorem covers_second : first.Covers second where
  classes name found := by
    have listed : name ∈ second.classes.keys := Table.isSome_get?_iff.mp found
    have keys : ∀ key ∈ second.classes.keys, (first.className? key).isSome := by decide
    exact keys name listed
  fields owner name found := by
    obtain ⟨new, found⟩ := Option.isSome_iff_exists.mp found
    have entry := Members.mem_entries_of_get? found
    rw [fields_second, List.mem_singleton] at entry
    cases entry
    decide
  methods owner key found := by
    obtain ⟨new, found⟩ := Option.isSome_iff_exists.mp found
    have entry := Members.mem_entries_of_get? found
    rw [methods_second, List.mem_singleton] at entry
    cases entry
    decide

theorem classes_apart : Set.InjOn first.className
    {name | name ∈ first.mentioned ∨ name ∈ second.mentioned} := by
  have mentioned : first.mentioned =
      [⟨"a"⟩, ⟨"b"⟩, ⟨"a"⟩, ⟨"a"⟩, ⟨"a"⟩, ⟨"b"⟩, ⟨"a"⟩, ⟨"b"⟩] := by cbv
  have otherMentioned : second.mentioned = [⟨"a"⟩, ⟨"a"⟩, ⟨"a"⟩, ⟨"a"⟩, ⟨"b"⟩] := by cbv
  have apart : ∀ name ∈ [(⟨"a"⟩ : ClassName), ⟨"b"⟩], ∀ other ∈ [(⟨"a"⟩ : ClassName), ⟨"b"⟩],
      first.className name = first.className other → name = other := by
    decide
  have listed : ∀ name, name ∈ first.mentioned ∨ name ∈ second.mentioned →
      name ∈ [⟨"a"⟩, ⟨"b"⟩] := by
    rw [mentioned, otherMentioned]
    grind
  exact fun name here other there => apart name (listed name here) other (listed other there)

theorem fields_apart (owner : ClassName) :
    Set.InjOn (first.fieldName owner) {name | (first.fieldName? owner name).isSome} := by
  have only : ∀ name, (first.fieldName? owner name).isSome → name = ⟨"f"⟩ := by
    intro name found
    obtain ⟨new, found⟩ := Option.isSome_iff_exists.mp found
    have entry := Members.mem_entries_of_get? found
    rw [fields_first] at entry
    grind
  exact fun name here other there _ => (only name here).trans (only other there).symm

/-- The two methods exchange their names, so no new name is given twice. -/
theorem methods_apart (owner : ClassName) (descriptor : MethodDescriptor) :
    Set.InjOn (fun name => first.methodName owner ⟨name, descriptor⟩)
      {name | (first.methodName? owner ⟨name, descriptor⟩).isSome} := by
  -- The new name of an entry is told by its old name alone.
  have listed : ∀ name, (first.methodName? owner ⟨name, descriptor⟩).isSome →
      (name = ⟨"m"⟩ ∧ first.methodName owner ⟨name, descriptor⟩ = ⟨"n"⟩) ∨
        (name = ⟨"n"⟩ ∧ first.methodName owner ⟨name, descriptor⟩ = ⟨"m"⟩) := by
    intro name found
    obtain ⟨new, found⟩ := Option.isSome_iff_exists.mp found
    have entry := Members.mem_entries_of_get? found
    rw [methods_first] at entry
    rw [methodName_of_eq_some found]
    grind
  intro name here other there same
  have different : (⟨"n"⟩ : MethodName) ≠ ⟨"m"⟩ := by decide
  grind

end Routes

/-- The classes change places on the way, and only one route has an entry for the field. -/
theorem routes_through_exchanged_names :
    ∃ mediated back converted, Routes.first.mediate Routes.second = .ok mediated ∧
      Routes.first.reverse = .ok back ∧ back.convert Routes.second = .ok converted ∧
      (∀ name, mediated.className name = converted.className name) ∧
      (∀ owner name, mediated.fieldName owner name = converted.fieldName owner name) ∧
      ∀ owner key, mediated.methodName owner key = converted.methodName owner key := by
  have unambiguous : Routes.first.Unambiguous := by
    refine ⟨?_, ⟨?_, ?_⟩, ⟨?_, ?_⟩, ⟨?_, ?_⟩⟩ <;> decide
  have targets : Routes.first.ObjectTargets := by decide
  have valid : Routes.first.ValidDescriptors := by
    refine ⟨?_, nofun⟩
    rw [Routes.methods_first]
    exact List.forall_mem_cons.mpr
      ⟨Routes.valid_routed, List.forall_mem_singleton.mpr Routes.valid_routed⟩
  have otherValid : Routes.second.ValidDescriptors := by
    refine ⟨?_, nofun⟩
    rw [Routes.methods_second]
    exact List.forall_mem_singleton.mpr Routes.valid_routed
  exact mediating_is_reversing_then_converting unambiguous targets valid otherValid
    Routes.classes_apart Routes.fields_apart Routes.methods_apart Routes.covers_second

end Renaming.Mappings

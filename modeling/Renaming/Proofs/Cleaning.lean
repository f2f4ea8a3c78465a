import Renaming.Proofs.CanonicalMappings
import Renaming.Proofs.Translation

/-!
# Cleaning mappings

Cleaning drops entries that say nothing: names that are mapped to themselves and extras without
content. An entry that maps a method to itself is kept if the method throws something, which the
extras tell, and these are cleaned in the same step. Nothing is lost by that, since extras that tell
what a method throws have content and are kept. So the second time nothing is found to be dropped.

Whether a name is mapped to itself or not mapped at all is not seen by renaming: a class without an
entry keeps its name, in a reference and inside a descriptor, and so does a member without an entry.
What is seen are the names that `Mappings.NamesAlike` compares, and cleaning keeps them all.

* `Members.entries_filter`, `Members.get?_filter`: the entries that are kept, as a list and as
  look-ups.
* `Mappings.throwsSomething_cleanRetaining`: what methods throw is known after cleaning as before.
* `Mappings.NamesAlike.fieldRef`, `Mappings.NamesAlike.methodRef`: mappings that give the same names
  make the same of every reference, or fail with the same fault.
-/

namespace Renaming

/-! ### Keeping entries -/

namespace Table

variable {κ ν : Type} {table : Table κ ν}

theorem filter_eq_self {keep : κ → ν → Bool}
    (all : ∀ entry ∈ table.entries, keep entry.1 entry.2 = true) : table.filter keep = table :=
  congrArg Table.mk (List.filter_eq_self.mpr all)

theorem filter_filter {keep still : κ → ν → Bool}
    (implied : ∀ entry ∈ table.entries, keep entry.1 entry.2 = true →
      still entry.1 entry.2 = true) :
    (table.filter keep).filter still = table.filter keep := by
  refine filter_eq_self fun entry listed => ?_
  obtain ⟨present, kept⟩ := List.mem_filter.mp listed
  exact implied entry present kept

/-- What is found is what was found before, if it is kept. -/
theorem get?_filter [DecidableEq κ] (unambiguous : table.Unambiguous)
    (keep : κ → ν → Bool) (key : κ) :
    (table.filter keep).get? key = (table.get? key).filter (keep key) := by
  have holds : table.Holds fun _ => True := ⟨unambiguous, fun _ _ => trivial⟩
  have still : (table.filter keep).Unambiguous := (holds.filter keep).unambiguous
  refine Option.ext fun value => ?_
  rw [get?_eq_some_iff still, Option.filter_eq_some_iff, get?_eq_some_iff unambiguous]
  exact List.mem_filter

end Table

namespace Members

variable {κ ν : Type} {members : Members κ ν} {keep : ClassName → κ → ν → Bool}

/-- An owner without entries adds nothing to the entries of all. -/
theorem entries_of_nonempty_owners (owned : List (ClassName × Table κ ν)) :
    entries ⟨⟨owned.filter fun here => !here.2.isEmpty⟩⟩ = entries ⟨⟨owned⟩⟩ := by
  induction owned with
  | nil => rfl
  | cons here rest ih =>
    obtain ⟨owner, ⟨inner⟩⟩ := here
    have split : entries ⟨⟨(owner, ⟨inner⟩) :: rest⟩⟩ =
        (inner.map fun entry => (owner, entry)) ++ entries ⟨⟨rest⟩⟩ := rfl
    cases inner with
    | nil =>
      rw [split, ← ih]
      rfl
    | cons entry more =>
      rw [split, ← ih]
      rfl

/-- The entries that are left are those to be kept, in their order. -/
theorem entries_filter : (members.filter keep).entries =
    members.entries.filter fun entry => keep entry.1 entry.2.1 entry.2.2 := by
  have cleaned : (members.filter keep).entries =
      entries ⟨members.owners.mapValues fun owner inner => inner.filter (keep owner)⟩ :=
    entries_of_nonempty_owners _
  rw [cleaned, entries, entries, List.filter_flatMap]
  simp only [Table.mapValues, Table.filter, List.flatMap_map, List.filter_map]
  rfl

theorem mem_filter_iff {entry : ClassName × κ × ν} : entry ∈ (members.filter keep).entries ↔
    entry ∈ members.entries ∧ keep entry.1 entry.2.1 entry.2.2 = true := by
  rw [entries_filter, List.mem_filter]

theorem hasNoEmptyOwner_filter : (members.filter keep).HasNoEmptyOwner := by
  intro owned listed empty
  have kept : (!owned.2.isEmpty) = true := (List.mem_filter.mp listed).2
  have isEmpty : owned.2.isEmpty = true := List.isEmpty_iff.mpr empty
  rw [isEmpty] at kept
  cases kept

theorem Unambiguous.filter (unambiguous : members.Unambiguous) :
    (members.filter keep).Unambiguous := by
  rw [unambiguous_iff_holds] at unambiguous ⊢
  exact unambiguous.filter_mapValues (fun owner inner => inner.filter (keep owner))
    (fun _ inner => !inner.isEmpty) fun owner inner fine _ => fine.filter (keep owner)

/-- Where every owner has an entry and every entry is to be kept, nothing is dropped. -/
theorem filter_eq_self (full : members.HasNoEmptyOwner)
    (all : ∀ entry ∈ members.entries, keep entry.1 entry.2.1 entry.2.2 = true) :
    members.filter keep = members := by
  have inner : ∀ owned ∈ members.owners.entries, owned.2.filter (keep owned.1) = owned.2 := by
    intro owned listed
    refine Table.filter_eq_self fun entry within => ?_
    exact all (owned.1, entry) (mem_entries_iff.mpr ⟨owned.2, listed, within⟩)
  have values : members.owners.mapValues (fun owner inner => inner.filter (keep owner)) =
      members.owners := by
    refine congrArg Table.mk ((List.map_congr_left fun owned listed => ?_).trans (List.map_id _))
    exact Prod.ext rfl (inner owned listed)
  have owners : members.owners.filter (fun _ inner => !inner.isEmpty) = members.owners := by
    refine Table.filter_eq_self fun owned listed => ?_
    rw [Bool.not_eq_true', Table.isEmpty, List.isEmpty_eq_false_iff]
    exact full owned listed
  rw [filter, values, owners]

theorem filter_filter {still : ClassName → κ → ν → Bool}
    (implied : ∀ entry ∈ members.entries, keep entry.1 entry.2.1 entry.2.2 = true →
      still entry.1 entry.2.1 entry.2.2 = true) :
    (members.filter keep).filter still = members.filter keep := by
  refine filter_eq_self hasNoEmptyOwner_filter fun entry listed => ?_
  obtain ⟨present, kept⟩ := mem_filter_iff.mp listed
  exact implied entry present kept

/-- What is found is what was found before, if it is kept. -/
theorem get?_filter [DecidableEq κ] (unambiguous : members.Unambiguous)
    (keep : ClassName → κ → ν → Bool) (owner : ClassName) (key : κ) :
    (members.filter keep).get? owner key = (members.get? owner key).filter (keep owner key) := by
  refine Option.ext fun value => ?_
  rw [get?_eq_some_iff unambiguous.filter, Option.filter_eq_some_iff, get?_eq_some_iff unambiguous]
  exact mem_filter_iff

end Members

/-! ### Nothing more to drop -/

namespace Mappings

section Clean

variable {mappings : Mappings} (unambiguous : mappings.Unambiguous) (supplement : Supplement)

include unambiguous

/-- What methods throw is known after cleaning as before: extras that tell it have content. -/
theorem throwsSomething_cleanRetaining (owner : ClassName) (key : MethodKey) :
    (mappings.cleanRetaining supplement).throwsSomething supplement owner key =
      mappings.throwsSomething supplement owner key := by
  have extras : (mappings.cleanRetaining supplement).extra? owner key =
      (mappings.extra? owner key).filter fun extra => !extra.isEmpty :=
    Members.get?_filter unambiguous.extras (fun _ _ extra => !extra.isEmpty) owner key
  rw [throwsSomething, throwsSomething, extras]
  congr 1
  cases mappings.extra? owner key with
  | none => rfl
  | some extra =>
    cases throwing : extra.exceptions.isEmpty <;> cases named : extra.parameters.isEmpty <;>
      simp [Option.filter, MethodExtra.isEmpty, throwing, named]

theorem cleanRetaining_cleanRetaining :
    (mappings.cleanRetaining supplement).cleanRetaining supplement =
      mappings.cleanRetaining supplement := by
  have classes : ((mappings.cleanRetaining supplement).cleanRetaining supplement).classes =
      (mappings.cleanRetaining supplement).classes := by
    show (mappings.classes.filter fun old new => old ≠ new).filter (fun old new => old ≠ new) =
      mappings.classes.filter fun old new => old ≠ new
    exact Table.filter_filter fun _ _ => id
  have fields : ((mappings.cleanRetaining supplement).cleanRetaining supplement).fields =
      (mappings.cleanRetaining supplement).fields :=
    Members.filter_filter fun _ _ => id
  have methods : ((mappings.cleanRetaining supplement).cleanRetaining supplement).methods =
      (mappings.cleanRetaining supplement).methods := by
    refine Members.filter_filter fun entry _ kept => ?_
    rw [throwsSomething_cleanRetaining unambiguous]
    exact kept
  have extras : ((mappings.cleanRetaining supplement).cleanRetaining supplement).extras =
      (mappings.cleanRetaining supplement).extras :=
    Members.filter_filter fun _ _ => id
  exact ext_tables classes fields methods extras

end Clean

end Mappings

/-! ### Names that are given alike -/

/-- What a grammar makes of a text depends on the names that classes have in the end, if renaming
follows the names. -/
theorem Grammar.renameText_congr (τ : Type) [Grammar τ] [LawfulGrammar τ] [FunctorialGrammar τ]
    {first second : ClassName → Option ClassName}
    (same : ∀ name, newName first name = newName second name)
    (text : String) : renameText τ first text = renameText τ second text := by
  have trees : ∀ tree : τ, rename first tree = rename second tree := by
    intro tree
    have twice : rename first (rename (fun _ => none) tree) =
        rename second tree :=
      FunctorialGrammar.rename_rename fun name _ => same name
    rw [FunctorialGrammar.rename_none] at twice
    exact twice
  rw [renameText_eq, renameText_eq]
  simp only [trees]

namespace Mappings

/-- Both mappings give the same names to classes, and to the members that classes declare. It does
not matter whether a name is kept by an entry or for want of one. -/
structure NamesAlike (first second : Mappings) : Prop where
  classes : ∀ name, first.className name = second.className name
  fields : ∀ owner name, first.fieldName owner name = second.fieldName owner name
  methods : ∀ owner key, first.methodName owner key = second.methodName owner key

namespace NamesAlike

variable {first second : Mappings} (alike : first.NamesAlike second)

include alike

theorem fieldDescriptor (descriptor : FieldDescriptor) :
    first.fieldDescriptor descriptor = second.fieldDescriptor descriptor :=
  congrArg (Except.map Symbol.mk) (Grammar.renameText_congr FieldType alike.classes descriptor.text)

theorem methodDescriptor (descriptor : MethodDescriptor) :
    first.methodDescriptor descriptor = second.methodDescriptor descriptor :=
  congrArg (Except.map Symbol.mk)
    (Grammar.renameText_congr MethodType alike.classes descriptor.text)

theorem classNameAny (name : ClassName) : first.classNameAny name = second.classNameAny name := by
  unfold Mappings.classNameAny
  by_cases array : name.isArray = true
  · rw [if_pos array, if_pos array, Descriptor.renameText_of_isArray array,
      Descriptor.renameText_of_isArray array,
      Grammar.renameText_congr FieldType alike.classes]
  · rw [if_neg array, if_neg array, alike.classes]

/-- A reference has no other name for a field than the one in its class. -/
theorem fieldRef (ref : FieldRef) (isStatic : Bool) :
    (Renamer.direct first).fieldRef ref isStatic =
      (Renamer.direct second).fieldRef ref isStatic := by
  have parts : ∀ mappings : Mappings, (Renamer.direct mappings).fieldRef ref isStatic = do
      let owner ← mappings.classNameAny ref.owner
      let descriptor ← mappings.fieldDescriptor ref.descriptor
      return ⟨owner, mappings.fieldName ref.owner ref.name, descriptor⟩ := fun _ => rfl
  rw [parts, parts, alike.classNameAny, alike.fieldDescriptor, alike.fields]

theorem methodRef (ref : MethodRef) (isStatic : Bool) :
    (Renamer.direct first).methodRef ref isStatic =
      (Renamer.direct second).methodRef ref isStatic := by
  have parts : ∀ mappings : Mappings, (Renamer.direct mappings).methodRef ref isStatic = do
      let owner ← mappings.classNameAny ref.owner
      let descriptor ← mappings.methodDescriptor ref.descriptor
      return ⟨owner, if ref.owner.isArray then ref.name else mappings.methodName ref.owner ref.key,
        descriptor⟩ := by
    intro mappings
    cases array : ref.owner.isArray <;> simp only [Renamer.methodRef, array] <;> rfl
  rw [parts, parts, alike.classNameAny, alike.methodDescriptor, alike.methods]

end NamesAlike

/-! ### What is seen of cleaning -/

/-- Dropping what would be put in its place anyway makes no difference. -/
theorem getD_filter {α : Type} {found : Option α} {keep : α → Bool} {name : α}
    (dropped : ∀ new, keep new = false → new = name) :
    (found.filter keep).getD name = found.getD name := by
  cases found with
  | none => rfl
  | some new =>
    rw [Option.filter_some]
    cases kept : keep new with
    | true => rfl
    | false =>
      rw [dropped new kept]
      rfl

theorem namesAlike_cleanRetaining {mappings : Mappings} (unambiguous : mappings.Unambiguous)
    (supplement : Supplement) : (mappings.cleanRetaining supplement).NamesAlike mappings := by
  constructor
  · intro name
    have found : (mappings.cleanRetaining supplement).className? name =
        (mappings.className? name).filter fun new => name ≠ new :=
      Table.get?_filter unambiguous.classes (fun old new => decide (old ≠ new)) name
    rw [className, className, found]
    exact getD_filter fun new same => (not_not.mp (of_decide_eq_false same)).symm
  · intro owner name
    have found : (mappings.cleanRetaining supplement).fieldName? owner name =
        (mappings.fieldName? owner name).filter fun new => name ≠ new :=
      Members.get?_filter unambiguous.fields (fun _ old new => decide (old ≠ new)) owner name
    rw [fieldName, fieldName, found]
    exact getD_filter fun new same => (not_not.mp (of_decide_eq_false same)).symm
  · intro owner key
    have found : (mappings.cleanRetaining supplement).methodName? owner key =
        (mappings.methodName? owner key).filter fun new =>
          key.name ≠ new || mappings.throwsSomething supplement owner key :=
      Members.get?_filter unambiguous.methods
        (fun owner key new => key.name ≠ new || mappings.throwsSomething supplement owner key)
        owner key
    rw [methodName, methodName, found]
    refine getD_filter fun new same => ?_
    rw [Bool.or_eq_false_iff] at same
    exact (not_not.mp (of_decide_eq_false same.1)).symm

theorem throwsSomething_iff {mappings : Mappings} {supplement : Supplement} {owner : ClassName}
    {key : MethodKey} : mappings.throwsSomething supplement owner key = true ↔
      (∃ extra, mappings.extra? owner key = some extra ∧ extra.exceptions ≠ []) ∨
        ∃ thrown, supplement.get? owner key = some thrown ∧ thrown ≠ [] := by
  simp [throwsSomething, Option.any_eq_true]

/-- **Cleaning once is enough, and renaming does not see it.** Cleaning what is clean changes
nothing. As far as only the class is asked that a reference names, everything is renamed after
cleaning as before, and what cannot be read fails with the same fault. Of the entries for methods
those are kept, in their order, that rename the method, or whose method is known to throw something,
by the extras or by the supplement. -/
theorem cleaning_is_idempotent_and_unseen {mappings : Mappings} (unambiguous : mappings.Unambiguous)
    (supplement : Supplement) :
    let cleaned := mappings.cleanRetaining supplement
    cleaned.cleanRetaining supplement = cleaned ∧
    ((∀ name, cleaned.classNameAny name = mappings.classNameAny name) ∧
      (∀ descriptor, cleaned.fieldDescriptor descriptor = mappings.fieldDescriptor descriptor) ∧
      (∀ descriptor, cleaned.methodDescriptor descriptor = mappings.methodDescriptor descriptor) ∧
      (∀ ref isStatic, (Renamer.direct cleaned).fieldRef ref isStatic =
        (Renamer.direct mappings).fieldRef ref isStatic) ∧
      ∀ ref isStatic, (Renamer.direct cleaned).methodRef ref isStatic =
        (Renamer.direct mappings).methodRef ref isStatic) ∧
    (cleaned.methods.entries.Sublist mappings.methods.entries ∧
      ∀ owner key new, (owner, key, new) ∈ cleaned.methods.entries ↔
        (owner, key, new) ∈ mappings.methods.entries ∧
          (key.name ≠ new ∨
            (∃ extra, mappings.extra? owner key = some extra ∧ extra.exceptions ≠ []) ∨
            ∃ thrown, supplement.get? owner key = some thrown ∧ thrown ≠ [])) ∧
    mappings.clean = mappings.cleanRetaining ∅ := by
  intro cleaned
  have alike : cleaned.NamesAlike mappings := namesAlike_cleanRetaining unambiguous supplement
  refine ⟨cleanRetaining_cleanRetaining unambiguous supplement,
    ⟨alike.classNameAny, alike.fieldDescriptor, alike.methodDescriptor, alike.fieldRef,
      alike.methodRef⟩, ⟨?_, fun owner key new => ?_⟩, rfl⟩
  · have kept : cleaned.methods.entries = mappings.methods.entries.filter fun entry =>
        entry.2.1.name ≠ entry.2.2 || mappings.throwsSomething supplement entry.1 entry.2.1 :=
      Members.entries_filter
    rw [kept]
    exact List.filter_sublist
  · rw [← throwsSomething_iff]
    exact Members.mem_filter_iff.trans (by simp)

namespace SelfMapped

/-- A method of that name. -/
def key (name : String) : MethodKey := ⟨⟨name⟩, ⟨"(La;)V"⟩⟩

/-- A class, a field and three methods that are mapped to themselves; of one method it is known that
it throws something. Another class is renamed. -/
def mappings : Mappings :=
  ((((((((∅ : Mappings).addClass ⟨"a"⟩ ⟨"a"⟩).addClass ⟨"b"⟩ ⟨"c"⟩).addField
    ⟨"a"⟩ ⟨"f"⟩ ⟨"f"⟩).addMethod ⟨"a"⟩ (key "run") ⟨"run"⟩).addMethod
    ⟨"a"⟩ (key "stop") ⟨"stop"⟩).addMethod ⟨"a"⟩ (key "go") ⟨"go"⟩).addExceptions
    ⟨"a"⟩ (key "run") [⟨"e"⟩]).addExceptions ⟨"a"⟩ (key "stop") []

/-- Of another one it is known from elsewhere. -/
def supplement : Supplement := (∅ : Supplement).insert ⟨"a"⟩ (key "go") [⟨"e"⟩]

end SelfMapped

/-- Of the three methods one is dropped: extras that tell of nothing thrown do not keep it. -/
theorem selfMapped_cleaned_once :
    let cleaned := SelfMapped.mappings.cleanRetaining SelfMapped.supplement
    cleaned.cleanRetaining SelfMapped.supplement = cleaned ∧
      (⟨"a"⟩, SelfMapped.key "run", ⟨"run"⟩) ∈ cleaned.methods.entries ∧
      (⟨"a"⟩, SelfMapped.key "go", ⟨"go"⟩) ∈ cleaned.methods.entries ∧
      (⟨"a"⟩, SelfMapped.key "stop", ⟨"stop"⟩) ∉ cleaned.methods.entries ∧
      cleaned.methodDescriptor ⟨"(La"⟩ = SelfMapped.mappings.methodDescriptor ⟨"(La"⟩ := by
  have unambiguous : SelfMapped.mappings.Unambiguous :=
    ((((((((canonical_empty.addClass _ _).addClass _ _).addField _ _ _).addMethod _ _ _).addMethod
      _ _ _).addMethod _ _ _).addExceptions _ _ _).addExceptions _ _ _).toUnambiguous
  obtain ⟨again, ⟨_, _, descriptors, _, _⟩, ⟨_, kept⟩, _⟩ :=
    cleaning_is_idempotent_and_unseen unambiguous SelfMapped.supplement
  refine ⟨again, (kept _ _ _).mpr ⟨by decide, ?_⟩, (kept _ _ _).mpr ⟨by decide, ?_⟩, ?_,
    descriptors _⟩
  · exact Or.inr (Or.inl ⟨⟨[⟨"e"⟩], []⟩, by decide, by decide⟩)
  · exact Or.inr (Or.inr ⟨[⟨"e"⟩], by decide, by decide⟩)
  · rw [kept]
    decide

end Mappings

end Renaming

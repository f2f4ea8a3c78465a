import Renaming.Proofs.CanonicalMappings

/-!
# Joining mappings

Joining goes through the entries of the second mappings one after the other. An entry under a new
key goes last; one under a key that is there changes nothing, or, if it is the table of an owner, is
joined with the table that is there. The outcome does not tell how it came about: it does not matter
how three mappings are grouped, and joining once more with what is there already changes nothing,
not even the order.

A table without ambiguity is known by its keys in order and by what is looked up in it
(`Table.eq_of_get?_eq`), and both sides are simple for a joined table. Its keys are those of the
first table, and behind them the new ones (`keys_mergedWith`); what is looked up is made of the two
values alone (`get?_mergedWith`). So all laws come down to laws of single values.

* `IsUnion`: the laws of an operation that combines values.
* `IsUnion.mergedWith`: **if values are united, so are tables of such values.** This is used twice:
  a value is kept, so tables are united, so tables of tables are.
-/

namespace Renaming

/-! ### Adding new items -/

section Distinct

variable {α : Type} [DecidableEq α]

theorem addAllNew_of_subset {items more : List α} (present : more ⊆ items) :
    addAllNew items more = items := by
  induction more with
  | nil => rfl
  | cons item rest ih =>
    have here : item ∈ items := present List.mem_cons_self
    show addAllNew (addNew items item) rest = items
    rw [addNew, if_pos here]
    exact ih fun other later => present (List.mem_cons_of_mem _ later)

theorem addAllNew_addNew (items more : List α) (item : α) :
    addAllNew items (addNew more item) = addNew (addAllNew items more) item := by
  by_cases here : item ∈ more
  · have added : item ∈ addAllNew items more := mem_addAllNew.mpr (Or.inr here)
    rw [addNew, if_pos here, addNew, if_pos added]
  · rw [addNew, if_neg here, addAllNew, List.foldl_append]
    rfl

/-- Adding what is new of a list with additions is adding what is new of the list, then of the
additions. -/
theorem addAllNew_addAllNew (items more others : List α) :
    addAllNew items (addAllNew more others) = addAllNew (addAllNew items more) others := by
  induction others generalizing more with
  | nil => rfl
  | cons item rest ih =>
    show addAllNew items (addAllNew (addNew more item) rest) =
      addAllNew (addNew (addAllNew items more) item) rest
    rw [ih, addAllNew_addNew]

end Distinct

/-! ### Values and tables that are united -/

/-- Combining a value with what is there, if anything, is a union of good values: the first of
several is as it is, they may be grouped at will, and one that is already in there adds nothing. -/
structure IsUnion {ν : Type} (good : ν → Prop) (combine : Option ν → ν → ν) : Prop where
  fresh : ∀ {value}, good value → combine none value = value
  closed : ∀ {first second}, good first → good second → good (combine (some first) second)
  assoc : ∀ {first second third}, good first → good second → good third →
    combine (some (combine (some first) second)) third =
      combine (some first) (combine (some second) third)
  again : ∀ {first second}, good first → good second →
    combine (some (combine (some first) second)) first = combine (some first) second
  self : ∀ {value}, good value → combine (some value) value = value

/-- Keeping the value that is there is a union. -/
theorem isUnion_getD {ν : Type} : IsUnion (fun _ : ν => True) Option.getD where
  fresh _ := rfl
  closed _ _ := trivial
  assoc _ _ _ := rfl
  again _ _ := rfl
  self _ := rfl

namespace Table

variable {κ ν : Type} [DecidableEq κ]

/-- The table with the values of another one combined into it, one after the other. -/
def mergedWith (combine : Option ν → ν → ν) (table other : Table κ ν) : Table κ ν :=
  other.entries.foldl (fun table entry => table.alter entry.1 fun old => combine old entry.2) table

section Merged

variable {combine : Option ν → ν → ν} {good : ν → Prop}

/-- The keys that are there stay in their places, and the new ones follow in their order. -/
theorem keys_mergedWith (table other : Table κ ν) :
    (table.mergedWith combine other).keys = addAllNew table.keys other.keys :=
  keys_foldl_alter table other.entries Prod.fst fun entry old => combine old entry.2

theorem holds_mergedWith (union : IsUnion good combine) {table other : Table κ ν}
    (holds : table.Holds good) (others : other.Holds good) :
    (table.mergedWith combine other).Holds good := by
  refine holds.foldl_alter fun entry listed old known => ?_
  have fine : good entry.2 := others.values entry listed
  cases old with
  | none =>
    rw [union.fresh fine]
    exact fine
  | some value => exact union.closed (known value rfl) fine

/-- What is under a key is combined from what both tables have there, and from nothing else. -/
theorem get?_mergedWith (table : Table κ ν) {other : Table κ ν} (unambiguous : other.Unambiguous)
    (key : κ) :
    (table.mergedWith combine other).get? key =
      ((other.get? key).map (combine (table.get? key))).or (table.get? key) := by
  obtain ⟨entries⟩ := other
  induction entries generalizing table with
  | nil => rfl
  | cons entry rest ih =>
    obtain ⟨here, value⟩ := entry
    obtain ⟨apart, others⟩ := List.nodup_cons.mp unambiguous
    show ((table.alter here fun old => combine old value).mergedWith combine ⟨rest⟩).get? key =
      ((if here = key then some value else get? ⟨rest⟩ key).map (combine (table.get? key))).or
        (table.get? key)
    rw [ih _ others, get?_alter]
    by_cases same : here = key
    · -- the key does not come again, so this is the only change under it
      subst same
      have gone : get? (⟨rest⟩ : Table κ ν) here = none := by
        rw [← Option.not_isSome_iff_eq_none, isSome_get?_iff]
        exact apart
      simp [gone]
    · simp [same, Ne.symm same]

/-- What is looked up in a table of good values is a good value. -/
theorem Holds.good_of_get? {table : Table κ ν} (holds : table.Holds good) {key : κ} {value : ν}
    (found : table.get? key = some value) : good value :=
  holds.values (key, value) (mem_entries_of_get? found)

end Merged

end Table

section Laws

open Table

variable {κ ν : Type} [DecidableEq κ] {good : ν → Prop} {combine : Option ν → ν → ν}
  (union : IsUnion good combine) {first second third : Table κ ν}

include union

theorem IsUnion.empty_mergedWith (holds : first.Holds good) :
    mergedWith combine ∅ first = first := by
  have distinct : (mergedWith combine ∅ first).Unambiguous :=
    (holds_mergedWith union holds_empty holds).unambiguous
  apply eq_of_get?_eq distinct
  · rw [keys_mergedWith]
    exact distinct_of_nodup holds.unambiguous
  · intro key
    rw [get?_mergedWith _ holds.unambiguous, get?_empty, Option.or_none]
    cases found : first.get? key with
    | none => rfl
    | some value =>
      rw [Option.map_some, union.fresh (holds.good_of_get? found)]

theorem IsUnion.mergedWith_assoc (holds : first.Holds good) (also : second.Holds good)
    (too : third.Holds good) :
    (first.mergedWith combine second).mergedWith combine third =
      first.mergedWith combine (second.mergedWith combine third) := by
  have firstTwo := holds_mergedWith union holds also
  have lastTwo := holds_mergedWith union also too
  apply eq_of_get?_eq (holds_mergedWith union firstTwo too).unambiguous
  · rw [keys_mergedWith, keys_mergedWith, keys_mergedWith, keys_mergedWith, addAllNew_addAllNew]
  · intro key
    rw [get?_mergedWith _ too.unambiguous, get?_mergedWith _ also.unambiguous,
      get?_mergedWith _ lastTwo.unambiguous, get?_mergedWith _ too.unambiguous]
    cases atThird : third.get? key with
    | none => cases second.get? key <;> rfl
    | some value =>
      have fine : good value := too.good_of_get? atThird
      cases atSecond : second.get? key with
      | none => simp [union.fresh fine]
      | some middle =>
        have fineToo : good middle := also.good_of_get? atSecond
        cases atFirst : first.get? key with
        | none => simp [union.fresh fineToo, union.fresh (union.closed fineToo fine)]
        | some own =>
          have regrouped := union.assoc (holds.good_of_get? atFirst) fineToo fine
          simp [regrouped]

theorem IsUnion.mergedWith_again (holds : first.Holds good) (also : second.Holds good) :
    (first.mergedWith combine second).mergedWith combine first =
      first.mergedWith combine second := by
  have both := holds_mergedWith union holds also
  apply eq_of_get?_eq (holds_mergedWith union both holds).unambiguous
  · rw [keys_mergedWith, keys_mergedWith]
    exact addAllNew_of_subset fun key listed => mem_addAllNew.mpr (Or.inl listed)
  · intro key
    rw [get?_mergedWith _ holds.unambiguous, get?_mergedWith _ also.unambiguous]
    cases atFirst : first.get? key with
    | none => rfl
    | some own =>
      have fine : good own := holds.good_of_get? atFirst
      cases atSecond : second.get? key with
      | none => simp [union.self fine]
      | some value => simp [union.again fine (also.good_of_get? atSecond)]

theorem IsUnion.mergedWith_self (holds : first.Holds good) :
    first.mergedWith combine first = first := by
  apply eq_of_get?_eq (holds_mergedWith union holds holds).unambiguous
  · rw [keys_mergedWith]
    exact addAllNew_of_subset (List.Subset.refl _)
  · intro key
    rw [get?_mergedWith _ holds.unambiguous]
    cases found : first.get? key with
    | none => rfl
    | some own => simp [union.self (holds.good_of_get? found)]

/-- **Tables of values that are united are united themselves**, if what is not there counts as an
empty table. -/
theorem IsUnion.mergedWith :
    IsUnion (fun table : Table κ ν => table.Holds good)
      fun old other => (old.getD ∅).mergedWith combine other where
  fresh := union.empty_mergedWith
  closed := holds_mergedWith union
  assoc := union.mergedWith_assoc
  again := union.mergedWith_again
  self := union.mergedWith_self

end Laws

/-! ### Joining tables and tables of tables -/

section Join

variable {κ ν : Type} [DecidableEq κ]

/-- Tables are united by joining them, since values are by keeping the first. -/
theorem Table.isUnion_join : IsUnion (fun table : Table κ ν => table.Holds fun _ => True)
    fun old other => (old.getD ∅).join other :=
  isUnion_getD.mergedWith

/-- A value of the first table is kept, and the second table gives the others. -/
theorem Table.get?_join (table : Table κ ν) {other : Table κ ν} (unambiguous : other.Unambiguous)
    (key : κ) : (table.join other).get? key = (table.get? key).or (other.get? key) := by
  have merged : (table.join other).get? key =
      ((other.get? key).map fun value => (table.get? key).getD value).or (table.get? key) :=
    table.get?_mergedWith unambiguous key
  rw [merged]
  cases table.get? key <;> cases other.get? key <;> rfl

namespace Members

/-- Tables of tables are united like tables, with joining in the place of keeping. -/
theorem isUnion_join : IsUnion (fun members : Members κ ν => members.Unambiguous)
    fun old other => (old.getD ∅).join other := by
  have owners : IsUnion
      (fun owners : Table ClassName (Table κ ν) =>
        owners.Holds fun inner => inner.Holds fun _ => True)
      fun old other => (old.getD ∅).mergedWith (fun old other => (old.getD ∅).join other) other :=
    Table.isUnion_join.mergedWith
  have same : (fun members : Members κ ν => members.Unambiguous) =
      fun members => members.owners.Holds fun inner => inner.Holds fun _ => True :=
    funext fun members => propext unambiguous_iff_holds
  rw [same]
  exact {
    fresh := fun fine => congrArg mk (owners.fresh fine)
    closed := owners.closed
    assoc := fun fine also too => congrArg mk (owners.assoc fine also too)
    again := fun fine also => congrArg mk (owners.again fine also)
    self := fun fine => congrArg mk (owners.self fine) }

/-- What an owner has in the joined members is joined from what it has on both sides. -/
theorem get?_owners_join (members : Members κ ν) {other : Members κ ν}
    (unambiguous : other.Unambiguous) (owner : ClassName) :
    (members.join other).owners.get? owner =
      ((other.owners.get? owner).map fun inner =>
        ((members.owners.get? owner).getD ∅).join inner).or (members.owners.get? owner) :=
  members.owners.get?_mergedWith unambiguous.owners owner

/-- A value of the first side is kept, and the second side gives the others. -/
theorem get?_join (members : Members κ ν) {other : Members κ ν} (unambiguous : other.Unambiguous)
    (owner : ClassName) (key : κ) :
    (members.join other).get? owner key = (members.get? owner key).or (other.get? owner key) := by
  unfold get?
  rw [members.get?_owners_join unambiguous]
  cases theirs : other.owners.get? owner with
  | none => cases members.owners.get? owner <;> simp
  | some inner =>
    have distinct : inner.Unambiguous :=
      unambiguous.inner (owner, inner) (Table.mem_entries_of_get? theirs)
    cases members.owners.get? owner <;> simp [Table.get?_join _ distinct]

end Members

end Join

/-! ### Joining mappings -/

namespace Mappings

section Laws

variable {first second third : Mappings}

theorem Unambiguous.holds_classes (unambiguous : first.Unambiguous) :
    first.classes.Holds fun _ => True :=
  ⟨unambiguous.classes, fun _ _ => trivial⟩

variable (unambiguous : first.Unambiguous)

include unambiguous

theorem empty_join : (∅ : Mappings).join first = first :=
  ext_tables (Table.isUnion_join.fresh unambiguous.holds_classes)
    (Members.isUnion_join.fresh unambiguous.fields)
    (Members.isUnion_join.fresh unambiguous.methods)
    (Members.isUnion_join.fresh unambiguous.extras)

theorem join_self : first.join first = first :=
  ext_tables (Table.isUnion_join.self unambiguous.holds_classes)
    (Members.isUnion_join.self unambiguous.fields)
    (Members.isUnion_join.self unambiguous.methods)
    (Members.isUnion_join.self unambiguous.extras)

variable (also : second.Unambiguous)

include also

theorem join_again : (first.join second).join first = first.join second :=
  ext_tables (Table.isUnion_join.again unambiguous.holds_classes also.holds_classes)
    (Members.isUnion_join.again unambiguous.fields also.fields)
    (Members.isUnion_join.again unambiguous.methods also.methods)
    (Members.isUnion_join.again unambiguous.extras also.extras)

theorem join_assoc (too : third.Unambiguous) :
    (first.join second).join third = first.join (second.join third) :=
  ext_tables
    (Table.isUnion_join.assoc unambiguous.holds_classes also.holds_classes too.holds_classes)
    (Members.isUnion_join.assoc unambiguous.fields also.fields too.fields)
    (Members.isUnion_join.assoc unambiguous.methods also.methods too.methods)
    (Members.isUnion_join.assoc unambiguous.extras also.extras too.extras)

end Laws

/-- **Joining is a union in which the first side wins.** Of a class, a field, a method or the extras
of a method, the joined mappings have what the first ones have, and else what the second ones have.
Mappings with this operation are an idempotent monoid: grouping does not matter, empty mappings add
nothing on either side, and neither do mappings that are in there already. All this is about the
tables as they are, with their entries in order. -/
theorem joining_is_left_biased_union {first second third : Mappings}
    (unambiguous : first.Unambiguous) (also : second.Unambiguous) (too : third.Unambiguous) :
    ((∀ name, (first.join second).className? name =
        (first.className? name).or (second.className? name)) ∧
      (∀ owner name, (first.join second).fieldName? owner name =
        (first.fieldName? owner name).or (second.fieldName? owner name)) ∧
      (∀ owner key, (first.join second).methodName? owner key =
        (first.methodName? owner key).or (second.methodName? owner key)) ∧
      ∀ owner key, (first.join second).extra? owner key =
        (first.extra? owner key).or (second.extra? owner key)) ∧
    (first.join second).join third = first.join (second.join third) ∧
    (∅ : Mappings).join first = first ∧ first.join ∅ = first ∧
    first.join first = first ∧ (first.join second).join first = first.join second := by
  refine ⟨⟨?_, ?_, ?_, ?_⟩, join_assoc unambiguous also too, empty_join unambiguous, rfl,
    join_self unambiguous, join_again unambiguous also⟩
  · exact first.classes.get?_join also.classes
  · exact first.fields.get?_join also.fields
  · exact first.methods.get?_join also.methods
  · exact first.extras.get?_join also.extras

namespace Shared

/-- The method of two classes that is renamed here and there. -/
def key : MethodKey := ⟨⟨"m"⟩, ⟨"()V"⟩⟩

/-- A class, and a method of which it is known what it throws. -/
def first : Mappings :=
  (((∅ : Mappings).addClass ⟨"a"⟩ ⟨"p"⟩).addMethod ⟨"a"⟩ key ⟨"n"⟩).addExceptions ⟨"a"⟩ key [⟨"e"⟩]

/-- Other names for the same, and a method of another class; the extras say what its parameter is
called. -/
def second : Mappings :=
  ((((∅ : Mappings).addMethod ⟨"b"⟩ key ⟨"k"⟩).addMethod ⟨"a"⟩ key ⟨"l"⟩).addClass ⟨"a"⟩
    ⟨"q"⟩).addParameters ⟨"a"⟩ key [⟨"x"⟩]

/-- A field of a third class, and another name for the method of the second one. -/
def third : Mappings :=
  ((∅ : Mappings).addField ⟨"c"⟩ ⟨"f"⟩ ⟨"g"⟩).addMethod ⟨"b"⟩ key ⟨"o"⟩

end Shared

/-- The extras of the method are those of the first side as a whole, without the parameter that the
second side knows. -/
theorem shared_names_joined_left_first :
    (Shared.first.join Shared.second).extra? ⟨"a"⟩ Shared.key = some ⟨[⟨"e"⟩], []⟩ ∧
      (Shared.first.join Shared.second).methodName? ⟨"b"⟩ Shared.key = some ⟨"k"⟩ ∧
      (Shared.first.join Shared.second).join Shared.third =
        Shared.first.join (Shared.second.join Shared.third) ∧
      (Shared.first.join Shared.second).join Shared.first = Shared.first.join Shared.second := by
  have unambiguous : Shared.first.Unambiguous :=
    (((canonical_empty.addClass _ _).addMethod _ _ _).addExceptions _ _ _).toUnambiguous
  have also : Shared.second.Unambiguous :=
    ((((canonical_empty.addMethod _ _ _).addMethod _ _ _).addClass _ _).addParameters
      _ _ _).toUnambiguous
  have too : Shared.third.Unambiguous :=
    ((canonical_empty.addField _ _ _).addMethod _ _ _).toUnambiguous
  obtain ⟨⟨_, _, methods, extras⟩, grouped, _, _, _, again⟩ :=
    joining_is_left_biased_union unambiguous also too
  refine ⟨?_, ?_, grouped, again⟩
  · rw [extras]
    decide
  · rw [methods]
    decide

end Mappings

end Renaming

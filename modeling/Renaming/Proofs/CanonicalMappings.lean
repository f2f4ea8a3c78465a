import Renaming.Mappings.Union
import Renaming.Proofs.Entries

/-!
# Mappings keep their form

Mappings are tables, and all but the table of classes are tables of tables. Adding entries,
reversing, composing, joining and cleaning each go about their tables in a way of their own: they
replace values, make owners as they need them, merge what falls under one key, or drop entries.
Whatever is done, in whatever order, no table has a key twice, no class is thrown twice by one
method, and no owner is left without an entry. Since no owner is empty, the mappings are empty only
if nothing at all can be looked up in them.

`Table.Holds` says of a table that it has no key twice and that its values are as they should be. A
table of tables is a table too, so what is shown of tables is used twice, for the owners and for
what they own (`Members.Orderly`).

* `Mappings.canonical_of_entries`: whatever entries mappings are made from, they are in canonical
  form.
* `Mappings.Canonical.join`, `Mappings.Canonical.cleanRetaining`: uniting and cleaning keep the
  form.
* `Mappings.Canonical.isEmpty_iff`: mappings in canonical form are empty if they have no entries.
-/

namespace Renaming

/-! ### Tables and their values -/

namespace Table

variable {κ ν : Type}

/-- No key has two entries, and the condition holds of all values. -/
structure Holds (good : ν → Prop) (table : Table κ ν) : Prop where
  unambiguous : table.keys.Nodup
  values : ∀ entry ∈ table.entries, good entry.2

variable {good : ν → Prop} {table : Table κ ν}

theorem holds_empty : (∅ : Table κ ν).Holds good := ⟨List.nodup_nil, nofun⟩

theorem Holds.filter (holds : table.Holds good) (keep : κ → ν → Bool) :
    (table.filter keep).Holds good := by
  refine ⟨List.Nodup.sublist (List.filter_sublist.map Prod.fst) holds.unambiguous, ?_⟩
  intro entry member
  exact holds.values entry (List.mem_of_mem_filter member)

/-- What is kept of a table, after its values were changed to something of which another condition
holds if they are kept. -/
theorem Holds.filter_mapValues {μ : Type} {fine : μ → Prop} (holds : table.Holds good)
    (change : κ → ν → μ) (keep : κ → μ → Bool)
    (changed : ∀ key value, good value → keep key (change key value) = true →
      fine (change key value)) :
    ((table.mapValues change).filter keep).Holds fine := by
  have keys : (table.mapValues change).keys = table.keys := by
    simp only [Table.keys, mapValues, List.map_map]
    rfl
  have unambiguous : (table.mapValues change).keys.Nodup := keys ▸ holds.unambiguous
  refine ⟨List.Nodup.sublist (List.filter_sublist.map Prod.fst) unambiguous, ?_⟩
  intro entry member
  obtain ⟨listed, kept⟩ := List.mem_filter.mp member
  obtain ⟨⟨key, value⟩, present, rfl⟩ := List.mem_map.mp listed
  exact changed key value (holds.values _ present) kept

variable [DecidableEq κ]

theorem entries_alter_ne_nil (table : Table κ ν) (key : κ) (change : Option ν → ν) :
    (table.alter key change).entries ≠ [] := by
  obtain ⟨entries⟩ := table
  cases entries with
  | nil => exact List.cons_ne_nil _ _
  | cons entry rest =>
    show alterEntries key change (entry :: rest) ≠ []
    rw [alterEntries]
    split <;> exact List.cons_ne_nil _ _

/-- A change of one value keeps the condition if it makes a good value of a good one or of none. -/
theorem Holds.alter (holds : table.Holds good) (key : κ) {change : Option ν → ν}
    (kept : ∀ old, (∀ value ∈ old, good value) → good (change old)) :
    (table.alter key change).Holds good := by
  have unambiguous : (table.alter key change).Unambiguous :=
    Unambiguous.alter holds.unambiguous key change
  refine ⟨unambiguous, fun entry member => ?_⟩
  have found : (table.alter key change).get? entry.1 = some entry.2 :=
    (get?_eq_some_iff unambiguous).mpr member
  rw [get?_alter] at found
  split at found
  · rw [← Option.some.inj found]
    exact kept _ fun value present => holds.values _ (mem_entries_of_get? present)
  · exact holds.values _ (mem_entries_of_get? found)

/-- The same for changes one after the other. -/
theorem Holds.foldl_alter {ι : Type} (holds : table.Holds good) {items : List ι} {key : ι → κ}
    {change : ι → Option ν → ν}
    (kept : ∀ item ∈ items, ∀ old, (∀ value ∈ old, good value) → good (change item old)) :
    (items.foldl (fun table item => table.alter (key item) (change item)) table).Holds good := by
  induction items generalizing table with
  | nil => exact holds
  | cons item rest ih =>
    refine ih (holds.alter (key item) (kept item List.mem_cons_self)) fun other member => ?_
    exact kept other (List.mem_cons_of_mem _ member)

/-- Where both tables have a value under a key, one of these values is kept. -/
theorem Holds.join {other : Table κ ν} (holds : table.Holds good) (others : other.Holds good) :
    (table.join other).Holds good := by
  refine holds.foldl_alter fun entry member old known => ?_
  cases old with
  | none => exact others.values entry member
  | some value => exact known value rfl

theorem entries_join_ne_nil (table : Table κ ν) {other : Table κ ν} (some : other.entries ≠ []) :
    (table.join other).entries ≠ [] := by
  obtain ⟨entries⟩ := other
  obtain ⟨before, last, rfl⟩ := (List.eq_nil_or_concat' entries).resolve_left some
  -- the last step of joining puts a value under a key
  unfold Table.join
  rw [List.foldl_concat]
  exact entries_alter_ne_nil _ _ _

/-- A table is empty if nothing can be looked up in it. -/
theorem isEmpty_iff : table.isEmpty = true ↔ ∀ key, table.get? key = none := by
  obtain ⟨entries⟩ := table
  cases entries with
  | nil => exact ⟨fun _ _ => rfl, fun _ => rfl⟩
  | cons entry rest =>
    obtain ⟨key, value⟩ := entry
    have found : get? ⟨(key, value) :: rest⟩ key = some value := if_pos rfl
    refine ⟨nofun, fun absent => ?_⟩
    rw [absent key] at found
    cases found

end Table

/-! ### Tables of tables -/

namespace Members

variable {κ ν : Type}

/-- No owner and, within an owner, no key has two entries, no owner is empty, and the condition
holds of all values. -/
def Orderly (good : ν → Prop) (members : Members κ ν) : Prop :=
  members.owners.Holds fun inner => inner.entries ≠ [] ∧ inner.Holds good

variable {good : ν → Prop} {members other : Members κ ν}

theorem orderly_iff :
    members.Orderly good ↔ members.Unambiguous ∧ members.HasNoEmptyOwner ∧
      ∀ entry ∈ members.entries, good entry.2.2 := by
  constructor
  · intro orderly
    refine ⟨⟨orderly.unambiguous, fun owned listed => ?_⟩, fun owned listed => ?_, ?_⟩
    · exact (orderly.values owned listed).2.unambiguous
    · exact (orderly.values owned listed).1
    · rintro ⟨owner, entry⟩ member
      obtain ⟨inner, listed, within⟩ := mem_entries_iff.mp member
      exact (orderly.values _ listed).2.values entry within
  · rintro ⟨unambiguous, full, fine⟩
    refine ⟨unambiguous.owners, fun owned listed => ⟨full owned listed, ?_⟩⟩
    refine ⟨unambiguous.inner owned listed, fun entry within => ?_⟩
    exact fine (owned.1, entry) (mem_entries_iff.mpr ⟨owned.2, listed, within⟩)

/-- Being without ambiguity is a condition on the owners and on what each of them has. -/
theorem unambiguous_iff_holds :
    members.Unambiguous ↔ members.owners.Holds fun inner => inner.Holds fun _ => True := by
  constructor
  · rintro ⟨owners, inner⟩
    exact ⟨owners, fun owned listed => ⟨inner owned listed, fun _ _ => trivial⟩⟩
  · rintro ⟨owners, inner⟩
    exact ⟨owners, fun owned listed => (inner owned listed).unambiguous⟩

theorem orderly_empty : (∅ : Members κ ν).Orderly good := Table.holds_empty

theorem Orderly.filter (orderly : members.Orderly good) (keep : ClassName → κ → ν → Bool) :
    (members.filter keep).Orderly good := by
  refine Table.Holds.filter_mapValues orderly (fun owner inner => inner.filter (keep owner))
    (fun _ inner => !inner.isEmpty) fun owner inner fine kept => ?_
  refine ⟨fun empty => ?_, fine.2.filter (keep owner)⟩
  -- an owner that is left without an entry is not kept
  have isEmpty : (inner.filter (keep owner)).isEmpty = true := List.isEmpty_iff.mpr empty
  rw [isEmpty] at kept
  cases kept

/-- What an owner had before a change, or nothing, is as it should be. -/
theorem holds_getD {inner : Option (Table κ ν)}
    (known : ∀ table ∈ inner, table.entries ≠ [] ∧ table.Holds good) :
    (inner.getD ∅).Holds good := by
  cases inner with
  | none => exact Table.holds_empty
  | some table => exact (known table rfl).2

variable [DecidableEq κ]

theorem Orderly.alter (orderly : members.Orderly good) (owner : ClassName) (key : κ)
    {change : Option ν → ν} (kept : ∀ old, (∀ value ∈ old, good value) → good (change old)) :
    (members.alter owner key change).Orderly good := by
  refine Table.Holds.alter orderly owner fun inner known => ?_
  exact ⟨Table.entries_alter_ne_nil _ _ _, (holds_getD known).alter key kept⟩

theorem Orderly.alterAll {ι : Type} (orderly : members.Orderly good) (change : ι → Option ν → ν)
    (items : List (ClassName × κ × ι))
    (kept : ∀ item ∈ items, ∀ old, (∀ value ∈ old, good value) → good (change item.2.2 old)) :
    (members.alterAll change items).Orderly good := by
  induction items generalizing members with
  | nil => exact orderly
  | cons item rest ih =>
    refine ih (orderly.alter item.1 item.2.1 (kept item List.mem_cons_self)) fun other member => ?_
    exact kept other (List.mem_cons_of_mem _ member)

/-- An owner of either side has an entry, so one of both sides has one, too. -/
theorem Orderly.join (orderly : members.Orderly good) (others : other.Orderly good) :
    (members.join other).Orderly good := by
  refine Table.Holds.foldl_alter orderly fun owned listed inner known => ?_
  have fine := others.values owned listed
  exact ⟨Table.entries_join_ne_nil _ fine.1, (holds_getD known).join fine.2⟩

theorem orderly_ofEntries (entries : List (ClassName × κ × ν)) :
    (ofEntries entries).Orderly fun _ => True :=
  orderly_empty.alterAll (fun value _ => value) entries fun _ _ _ _ => trivial

/-- If no owner is empty, there are no owners if nothing can be looked up. -/
theorem HasNoEmptyOwner.isEmpty_iff (full : members.HasNoEmptyOwner) :
    members.isEmpty = true ↔ ∀ owner key, members.get? owner key = none := by
  have outer : members.isEmpty = true ↔ ∀ owner, members.owners.get? owner = none :=
    Table.isEmpty_iff
  refine outer.trans ⟨fun absent owner key => ?_, fun absent owner => ?_⟩
  · rw [get?, absent owner]
    rfl
  · cases found : members.owners.get? owner with
    | none => rfl
    | some inner =>
      have nothing : inner.isEmpty = true := by
        refine Table.isEmpty_iff.mpr fun key => ?_
        have missing := absent owner key
        rw [get?, found] at missing
        exact missing
      exact absurd (List.isEmpty_iff.mp nothing) (full _ (Table.mem_entries_of_get? found))

end Members

/-! ### Thrown classes -/

section Distinct

variable {α : Type} [DecidableEq α]

theorem nodup_addNew {items : List α} (distinct : items.Nodup) (item : α) :
    (addNew items item).Nodup := by
  unfold addNew
  split
  case isTrue => exact distinct
  case isFalse absent =>
    rw [← List.concat_eq_append]
    exact List.Nodup.concat absent distinct

theorem nodup_addAllNew {items : List α} (distinct : items.Nodup) (more : List α) :
    (addAllNew items more).Nodup := by
  unfold addAllNew
  induction more generalizing items with
  | nil => exact distinct
  | cons item rest ih => exact ih (nodup_addNew distinct item)

end Distinct

/-- No class is thrown twice. -/
def MethodExtra.Distinct (extra : MethodExtra) : Prop := extra.exceptions.Nodup

theorem MethodExtra.distinct_getD {old : Option MethodExtra}
    (known : ∀ extra ∈ old, extra.Distinct) : (old.getD .empty).Distinct := by
  cases old with
  | none => exact List.nodup_nil
  | some extra => exact known extra rfl

/-- Merging gathers thrown classes one by one, so it does not matter how the others are listed. -/
theorem MethodExtra.Distinct.merge {extra : MethodExtra} (distinct : extra.Distinct)
    (other : MethodExtra) : (extra.merge other).Distinct :=
  nodup_addAllNew distinct other.exceptions

/-! ### One operation -/

namespace Mappings

theorem orderly_mergedExtras (entries : List (ClassName × MethodKey × MethodExtra)) :
    (mergedExtras entries).Orderly MethodExtra.Distinct :=
  Members.orderly_empty.alterAll (fun extra old => (old.getD MethodExtra.empty).merge extra) entries
    fun entry _ _ known => (MethodExtra.distinct_getD known).merge entry.2.2

theorem canonical_iff {mappings : Mappings} :
    mappings.Canonical ↔ mappings.classes.Unambiguous ∧ (mappings.fields.Orderly fun _ => True) ∧
      (mappings.methods.Orderly fun _ => True) ∧ mappings.extras.Orderly MethodExtra.Distinct := by
  simp only [Members.orderly_iff]
  constructor
  · intro canonical
    exact ⟨canonical.classes, ⟨canonical.fields, canonical.fieldOwners, fun _ _ => trivial⟩,
      ⟨canonical.methods, canonical.methodOwners, fun _ _ => trivial⟩,
      canonical.extras, canonical.extraOwners, canonical.exceptions⟩
  · rintro ⟨classes, ⟨fields, fieldOwners, _⟩, ⟨methods, methodOwners, _⟩, extras, extraOwners,
      exceptions⟩
    exact ⟨⟨classes, fields, methods, extras⟩, exceptions, fieldOwners, methodOwners, extraOwners⟩

theorem canonical_empty : (∅ : Mappings).Canonical :=
  canonical_iff.mpr ⟨List.nodup_nil, Members.orderly_empty, Members.orderly_empty,
    Members.orderly_empty⟩

/-- **Mappings that are made from entries have canonical form**, whatever the entries are and
whichever of them fall under one key. -/
theorem canonical_of_entries (classes : List (ClassName × ClassName))
    (fields : List (ClassName × FieldName × FieldName))
    (methods : List (ClassName × MethodKey × MethodName))
    (extras : List (ClassName × MethodKey × MethodExtra)) :
    Canonical ⟨.ofEntries classes, .ofEntries fields, .ofEntries methods, mergedExtras extras⟩ :=
  canonical_iff.mpr ⟨Table.unambiguous_ofEntries classes, Members.orderly_ofEntries fields,
    Members.orderly_ofEntries methods, orderly_mergedExtras extras⟩

open Recorded (except_bind_eq_ok_iff)

theorem canonical_of_reverse {mappings reversed : Mappings}
    (done : mappings.reverse = .ok reversed) : reversed.Canonical := by
  obtain ⟨methods, _, rest⟩ := except_bind_eq_ok_iff.mp done
  obtain ⟨extras, _, ⟨⟩⟩ := except_bind_eq_ok_iff.mp rest
  exact canonical_of_entries _ _ methods extras

theorem canonical_of_mediate {mappings other mediated : Mappings}
    (done : mappings.mediate other = .ok mediated) : mediated.Canonical := by
  obtain ⟨methods, _, rest⟩ := except_bind_eq_ok_iff.mp done
  obtain ⟨extras, _, ⟨⟩⟩ := except_bind_eq_ok_iff.mp rest
  exact canonical_of_entries _ _ methods extras

theorem canonical_of_convert {mappings other converted : Mappings}
    (done : mappings.convert other = .ok converted) : converted.Canonical := by
  obtain ⟨methods, _, rest⟩ := except_bind_eq_ok_iff.mp done
  obtain ⟨extras, _, ⟨⟩⟩ := except_bind_eq_ok_iff.mp rest
  exact canonical_of_entries _ _ methods extras

namespace Canonical

variable {mappings other after : Mappings} (canonical : mappings.Canonical)

include canonical

theorem addClass (old new : ClassName) : (mappings.addClass old new).Canonical := by
  obtain ⟨classes, rest⟩ := canonical_iff.mp canonical
  exact canonical_iff.mpr ⟨classes.alter old fun _ => new, rest⟩

theorem addField (owner : ClassName) (old new : FieldName) :
    (mappings.addField owner old new).Canonical := by
  obtain ⟨classes, fields, rest⟩ := canonical_iff.mp canonical
  exact canonical_iff.mpr ⟨classes, fields.alter owner old fun _ _ => trivial, rest⟩

theorem addMethod (owner : ClassName) (key : MethodKey) (new : MethodName) :
    (mappings.addMethod owner key new).Canonical := by
  obtain ⟨classes, fields, methods, extras⟩ := canonical_iff.mp canonical
  exact canonical_iff.mpr
    ⟨classes, fields, methods.alter owner key fun _ _ => trivial, extras⟩

theorem addExceptions (owner : ClassName) (key : MethodKey) (exceptions : List ClassName) :
    (mappings.addExceptions owner key exceptions).Canonical := by
  obtain ⟨classes, fields, methods, extras⟩ := canonical_iff.mp canonical
  refine canonical_iff.mpr ⟨classes, fields, methods, extras.alter owner key fun old known => ?_⟩
  exact nodup_addAllNew (MethodExtra.distinct_getD known) exceptions

theorem addParameters (owner : ClassName) (key : MethodKey) (parameters : List ParameterName) :
    (mappings.addParameters owner key parameters).Canonical := by
  obtain ⟨classes, fields, methods, extras⟩ := canonical_iff.mp canonical
  refine canonical_iff.mpr ⟨classes, fields, methods, extras.alter owner key fun old known => ?_⟩
  exact MethodExtra.distinct_getD known

theorem addClassText {old new : String} (added : mappings.addClassText old new = .ok after) :
    after.Canonical := by
  obtain ⟨before, _, rest⟩ := except_bind_eq_ok_iff.mp added
  obtain ⟨name, _, ⟨⟩⟩ := except_bind_eq_ok_iff.mp rest
  exact canonical.addClass before name

theorem addFieldText {owner old new : String}
    (added : mappings.addFieldText owner old new = .ok after) : after.Canonical := by
  obtain ⟨site, _, rest⟩ := except_bind_eq_ok_iff.mp added
  obtain ⟨before, _, rest⟩ := except_bind_eq_ok_iff.mp rest
  obtain ⟨name, _, ⟨⟩⟩ := except_bind_eq_ok_iff.mp rest
  exact canonical.addField site before name

theorem addMethodText {owner old descriptor new : String}
    (added : mappings.addMethodText owner old descriptor new = .ok after) : after.Canonical := by
  obtain ⟨site, _, rest⟩ := except_bind_eq_ok_iff.mp added
  obtain ⟨before, _, rest⟩ := except_bind_eq_ok_iff.mp rest
  obtain ⟨types, _, rest⟩ := except_bind_eq_ok_iff.mp rest
  obtain ⟨name, _, ⟨⟩⟩ := except_bind_eq_ok_iff.mp rest
  exact canonical.addMethod site ⟨before, types⟩ name

theorem join (also : other.Canonical) : (mappings.join other).Canonical := by
  obtain ⟨classes, fields, methods, extras⟩ := canonical_iff.mp canonical
  obtain ⟨otherClasses, otherFields, otherMethods, otherExtras⟩ := canonical_iff.mp also
  have joined : (mappings.classes.join other.classes).Holds fun _ => True :=
    Table.Holds.join ⟨classes, fun _ _ => trivial⟩ ⟨otherClasses, fun _ _ => trivial⟩
  exact canonical_iff.mpr ⟨joined.unambiguous, fields.join otherFields, methods.join otherMethods,
    extras.join otherExtras⟩

theorem cleanRetaining (supplement : Supplement) :
    (mappings.cleanRetaining supplement).Canonical := by
  obtain ⟨classes, fields, methods, extras⟩ := canonical_iff.mp canonical
  have holds : mappings.classes.Holds fun _ => True := ⟨classes, fun _ _ => trivial⟩
  have kept := holds.filter fun old new => old ≠ new
  exact canonical_iff.mpr ⟨kept.unambiguous, fields.filter _, methods.filter _, extras.filter _⟩

end Canonical

/-- Nothing can be looked up: no class, no field, no method, and nothing else about a method. -/
structure HasNoEntry (mappings : Mappings) : Prop where
  classes : ∀ name, mappings.className? name = none
  fields : ∀ owner name, mappings.fieldName? owner name = none
  methods : ∀ owner key, mappings.methodName? owner key = none
  extras : ∀ owner key, mappings.extra? owner key = none

/-- Mappings are empty if nothing can be looked up in them; this needs that no owner is empty. -/
theorem Canonical.isEmpty_iff {mappings : Mappings} (canonical : mappings.Canonical) :
    mappings.isEmpty = true ↔ mappings.HasNoEntry := by
  simp only [isEmpty, Bool.and_eq_true, Table.isEmpty_iff, canonical.fieldOwners.isEmpty_iff,
    canonical.methodOwners.isEmpty_iff, canonical.extraOwners.isEmpty_iff]
  constructor
  · rintro ⟨⟨⟨classes, fields⟩, methods⟩, extras⟩
    exact ⟨classes, fields, methods, extras⟩
  · rintro ⟨classes, fields, methods, extras⟩
    exact ⟨⟨⟨classes, fields⟩, methods⟩, extras⟩

/-! ### All operations -/

/-- The mappings that come from none by any number of operations: adding entries, checked or not,
reversing, composing, joining and cleaning. An operation that fails gives nothing. -/
inductive Reachable : Mappings → Prop
  | empty : Reachable ∅
  | addClass {mappings : Mappings} (old new : ClassName) :
      Reachable mappings → Reachable (mappings.addClass old new)
  | addField {mappings : Mappings} (owner : ClassName) (old new : FieldName) :
      Reachable mappings → Reachable (mappings.addField owner old new)
  | addMethod {mappings : Mappings} (owner : ClassName) (key : MethodKey) (new : MethodName) :
      Reachable mappings → Reachable (mappings.addMethod owner key new)
  | addExceptions {mappings : Mappings} (owner : ClassName) (key : MethodKey)
      (exceptions : List ClassName) :
      Reachable mappings → Reachable (mappings.addExceptions owner key exceptions)
  | addParameters {mappings : Mappings} (owner : ClassName) (key : MethodKey)
      (parameters : List ParameterName) :
      Reachable mappings → Reachable (mappings.addParameters owner key parameters)
  | addClassText {mappings after : Mappings} {old new : String} :
      Reachable mappings → mappings.addClassText old new = .ok after → Reachable after
  | addFieldText {mappings after : Mappings} {owner old new : String} :
      Reachable mappings → mappings.addFieldText owner old new = .ok after → Reachable after
  | addMethodText {mappings after : Mappings} {owner old descriptor new : String} :
      Reachable mappings → mappings.addMethodText owner old descriptor new = .ok after →
        Reachable after
  | reverse {mappings reversed : Mappings} :
      Reachable mappings → mappings.reverse = .ok reversed → Reachable reversed
  | mediate {mappings other mediated : Mappings} :
      Reachable mappings → Reachable other → mappings.mediate other = .ok mediated →
        Reachable mediated
  | convert {mappings other converted : Mappings} :
      Reachable mappings → Reachable other → mappings.convert other = .ok converted →
        Reachable converted
  | join {mappings other : Mappings} :
      Reachable mappings → Reachable other → Reachable (mappings.join other)
  | cleanRetaining {mappings : Mappings} (supplement : Supplement) :
      Reachable mappings → Reachable (mappings.cleanRetaining supplement)
  | clean {mappings : Mappings} : Reachable mappings → Reachable mappings.clean

theorem Reachable.canonical {mappings : Mappings} (reachable : mappings.Reachable) :
    mappings.Canonical := by
  induction reachable with
  | empty => exact canonical_empty
  | addClass old new _ canonical => exact canonical.addClass old new
  | addField owner old new _ canonical => exact canonical.addField owner old new
  | addMethod owner key new _ canonical => exact canonical.addMethod owner key new
  | addExceptions owner key exceptions _ canonical =>
    exact canonical.addExceptions owner key exceptions
  | addParameters owner key parameters _ canonical =>
    exact canonical.addParameters owner key parameters
  | addClassText _ added canonical => exact canonical.addClassText added
  | addFieldText _ added canonical => exact canonical.addFieldText added
  | addMethodText _ added canonical => exact canonical.addMethodText added
  | reverse _ done _ => exact canonical_of_reverse done
  | mediate _ _ done _ _ => exact canonical_of_mediate done
  | convert _ _ done _ _ => exact canonical_of_convert done
  | join _ _ canonical also => exact canonical.join also
  | cleanRetaining supplement _ canonical => exact canonical.cleanRetaining supplement
  | clean _ canonical => exact canonical.cleanRetaining ∅

/-- **Whatever is done to mappings, they keep their form.** However mappings came about by adding
entries, reversing, composing, joining and cleaning: no table has a key twice, neither one of
classes and owners nor one within an owner; no method throws a class twice; and no owner is without
an entry. So the mappings are empty if and only if nothing can be looked up in them. -/
theorem reachable_mappings_keep_form {mappings : Mappings} (reachable : mappings.Reachable) :
    mappings.Canonical ∧ (mappings.isEmpty = true ↔ mappings.HasNoEntry) :=
  ⟨reachable.canonical, reachable.canonical.isEmpty_iff⟩

namespace SelfNames

/-- A class and a field of another class keep their names; of a method it is said that it throws
nothing. -/
def first : Mappings :=
  (((∅ : Mappings).addClass ⟨"a"⟩ ⟨"a"⟩).addField ⟨"b"⟩ ⟨"f"⟩ ⟨"f"⟩).addExceptions ⟨"b"⟩
    ⟨⟨"m"⟩, ⟨"(La;)V"⟩⟩ []

/-- The method keeps its name. -/
def second : Mappings := (∅ : Mappings).addMethod ⟨"b"⟩ ⟨⟨"m"⟩, ⟨"(La;)V"⟩⟩ ⟨"m"⟩

/-- Both together, without what says nothing. -/
def cleaned : Mappings := (first.join second).clean

end SelfNames

/-- The first mappings are those that reversing them gives. Cleaning takes the last entries from all
owners, and leaves no owner behind. -/
theorem cleaned_selfNames_keep_form :
    SelfNames.cleaned.Reachable ∧ SelfNames.cleaned.Canonical ∧ SelfNames.cleaned.isEmpty = true ∧
      SelfNames.cleaned.HasNoEntry := by
  have reversed : SelfNames.first.reverse = .ok SelfNames.first := by
    cbv
  have first : SelfNames.first.Reachable :=
    (((Reachable.empty.addClass _ _).addField _ _ _).addExceptions _ _ _).reverse reversed
  have reachable : SelfNames.cleaned.Reachable :=
    (first.join (Reachable.empty.addMethod _ _ _)).clean
  have form := reachable_mappings_keep_form reachable
  have empty : SelfNames.cleaned.isEmpty = true := by decide
  exact ⟨reachable, form.1, empty, form.2.mp empty⟩

end Mappings

end Renaming

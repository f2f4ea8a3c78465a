import Mathlib
import Renaming.Mappings.Composition

/-!
# Tables and their entries

A table is a list of entries, and it is read by looking up keys. This module goes from one view to
the other. What is looked up in a table is one of its entries, and in a table without two entries
for one key every entry can be looked up. A table that is made by inserting entries one after the
other gives, for a key, the value that all entries with the key agree on, and nothing if there is no
such entry. If no key occurs twice, the table is the list itself. In any case a key stands where it
was first inserted, and a table without two entries for one key is known by its keys in order and by
what is looked up in it.

The same is said of `Members`, which are tables of tables. `Members.relabel` changes all owners and
all entries of such tables in place.
-/

namespace Renaming

/-- A list that is changed item by item is changed back item by item. -/
theorem map_map_eq_self {α β : Type} {items : List α} {change : α → β} {back : β → α}
    (undone : ∀ item ∈ items, back (change item) = item) : (items.map change).map back = items := by
  rw [List.map_map]
  exact (List.map_congr_left undone).trans (List.map_id items)

section Lists

variable {κ ν : Type} [DecidableEq κ]

theorem mem_of_valueAt? {entries : List (κ × ν)} {key : κ} {value : ν}
    (found : valueAt? key entries = some value) : (key, value) ∈ entries := by
  induction entries with
  | nil => cases found
  | cons entry rest ih =>
    obtain ⟨other, here⟩ := entry
    rw [valueAt?] at found
    by_cases same : other = key
    · rw [if_pos same] at found
      cases found
      rw [same]
      exact List.mem_cons_self
    · rw [if_neg same] at found
      exact List.mem_cons_of_mem _ (ih found)

theorem valueAt?_eq_none_iff {entries : List (κ × ν)} {key : κ} :
    valueAt? key entries = none ↔ ∀ value, (key, value) ∉ entries := by
  induction entries with
  | nil => exact ⟨fun _ _ => List.not_mem_nil, fun _ => rfl⟩
  | cons entry rest ih =>
    obtain ⟨other, here⟩ := entry
    rw [valueAt?]
    by_cases same : other = key
    · rw [if_pos same, same]
      exact iff_of_false (Option.some_ne_none here) fun absent => absent here List.mem_cons_self
    · rw [if_neg same, ih]
      have apart : ∀ value, (key, value) ≠ (other, here) :=
        fun value equal => same (Prod.mk.inj equal).1.symm
      simp only [List.mem_cons, apart, false_or]

/-- If all entries with the key have the value, it is the value that is found. -/
theorem valueAt?_of_unique {entries : List (κ × ν)} {key : κ} {value : ν}
    (member : (key, value) ∈ entries) (unique : ∀ other, (key, other) ∈ entries → other = value) :
    valueAt? key entries = some value := by
  cases found : valueAt? key entries with
  | none => exact absurd member (valueAt?_eq_none_iff.mp found value)
  | some other => rw [unique other (mem_of_valueAt? found)]

/-- Among entries with distinct keys every entry is found. -/
theorem valueAt?_eq_some_iff {entries : List (κ × ν)} (distinct : (entries.map Prod.fst).Nodup)
    {key : κ} {value : ν} : valueAt? key entries = some value ↔ (key, value) ∈ entries := by
  refine ⟨mem_of_valueAt?, fun member => valueAt?_of_unique member fun other also => ?_⟩
  have same := List.inj_on_of_nodup_map distinct also member rfl
  exact (Prod.mk.inj same).2

theorem valueAt?_append (key : κ) (first second : List (κ × ν)) :
    valueAt? key (first ++ second) = (valueAt? key first).or (valueAt? key second) := by
  induction first with
  | nil => rfl
  | cons entry rest ih =>
    obtain ⟨other, here⟩ := entry
    rw [List.cons_append, valueAt?, valueAt?]
    by_cases same : other = key
    · rw [if_pos same, if_pos same]
      rfl
    · rw [if_neg same, if_neg same, ih]

/-- **Looking up in changed entries.** What is found under a new key is the changed value of the one
entry that has this key. -/
theorem valueAt?_map {κ' ν' : Type} [DecidableEq κ'] {entries : List (κ × ν)}
    (distinct : (entries.map Prod.fst).Nodup) (change : κ × ν → κ' × ν') {key : κ} {goal : κ'}
    (alone : ∀ entry ∈ entries, (change entry).1 = goal → entry.1 = key)
    (own : ∀ value, valueAt? key entries = some value → (change (key, value)).1 = goal) :
    valueAt? goal (entries.map change).reverse =
      (valueAt? key entries).map fun value => (change (key, value)).2 := by
  have origin : ∀ value, (goal, value) ∈ (entries.map change).reverse →
      ∃ old, (key, old) ∈ entries ∧ (change (key, old)).2 = value := by
    intro value member
    obtain ⟨⟨other, old⟩, present, made⟩ := List.mem_map.mp (List.mem_reverse.mp member)
    have same : other = key := alone _ present (by rw [made])
    rw [same] at present made
    exact ⟨old, present, by rw [made]⟩
  cases found : valueAt? key entries with
  | none =>
    refine valueAt?_eq_none_iff.mpr fun value member => ?_
    obtain ⟨old, present, _⟩ := origin value member
    exact valueAt?_eq_none_iff.mp found old present
  | some value =>
    have present : (key, value) ∈ entries := mem_of_valueAt? found
    have written : change (key, value) = (goal, (change (key, value)).2) :=
      Prod.ext (own value found) rfl
    refine valueAt?_of_unique ?_ fun other member => ?_
    · apply List.mem_reverse.mpr
      exact List.mem_map.mpr ⟨(key, value), present, written⟩
    · obtain ⟨old, also, made⟩ := origin other member
      have same : some old = some value :=
        ((valueAt?_eq_some_iff distinct).mpr also).symm.trans found
      rw [← made, Option.some.inj same]

end Lists

namespace Table

variable {κ ν : Type} [DecidableEq κ]

/-- No key has two entries. -/
def Unambiguous (table : Table κ ν) : Prop := table.keys.Nodup

instance (table : Table κ ν) : Decidable table.Unambiguous :=
  inferInstanceAs (Decidable table.keys.Nodup)

theorem mem_entries_of_get? {table : Table κ ν} {key : κ} {value : ν}
    (found : table.get? key = some value) : (key, value) ∈ table.entries :=
  mem_of_valueAt? found

theorem get?_eq_some_iff {table : Table κ ν} (unambiguous : table.Unambiguous) {key : κ}
    {value : ν} : table.get? key = some value ↔ (key, value) ∈ table.entries :=
  valueAt?_eq_some_iff unambiguous

theorem isSome_get?_iff {table : Table κ ν} {key : κ} :
    (table.get? key).isSome ↔ key ∈ table.keys := by
  have absent : table.get? key = none ↔ key ∉ table.keys := by
    refine valueAt?_eq_none_iff.trans ⟨fun missing member => ?_, fun missing value member => ?_⟩
    · obtain ⟨⟨_, value⟩, present, rfl⟩ := List.mem_map.mp member
      exact missing value present
    · exact missing (List.mem_map.mpr ⟨_, member, rfl⟩)
  rw [Option.isSome_iff_ne_none, ne_eq, absent, not_not]

/-! ### Inserting entries -/

theorem alterEntries_of_not_mem {entries : List (κ × ν)} {key : κ}
    (absent : key ∉ entries.map Prod.fst) (change : Option ν → ν) :
    alterEntries key change entries = entries ++ [(key, change none)] := by
  induction entries with
  | nil => rfl
  | cons entry rest ih =>
    obtain ⟨other, here⟩ := entry
    rw [List.map_cons, List.mem_cons, not_or] at absent
    rw [alterEntries, if_neg (Ne.symm absent.1), ih absent.2]
    rfl

theorem alterEntries_append {first : List (κ × ν)} {key : κ} (absent : key ∉ first.map Prod.fst)
    (change : Option ν → ν) (second : List (κ × ν)) :
    alterEntries key change (first ++ second) = first ++ alterEntries key change second := by
  induction first with
  | nil => rfl
  | cons entry rest ih =>
    obtain ⟨other, here⟩ := entry
    rw [List.map_cons, List.mem_cons, not_or] at absent
    rw [List.cons_append, alterEntries, if_neg (Ne.symm absent.1), ih absent.2]
    rfl

/-- After inserting entries one after the other, the last one with the key is found. -/
theorem get?_insertAll (table : Table κ ν) (entries : List (κ × ν)) (key : κ) :
    (table.insertAll entries).get? key = (valueAt? key entries.reverse).or (table.get? key) := by
  induction entries generalizing table with
  | nil => rfl
  | cons entry rest ih =>
    obtain ⟨other, here⟩ := entry
    show ((table.insert other here).insertAll rest).get? key = _
    rw [ih, get?_insert, List.reverse_cons, valueAt?_append, Option.or_assoc, valueAt?, valueAt?]
    by_cases same : other = key
    · rw [if_pos same.symm, if_pos same]
      rfl
    · rw [if_neg (Ne.symm same), if_neg same]
      rfl

theorem get?_ofEntries (entries : List (κ × ν)) (key : κ) :
    (ofEntries entries).get? key = valueAt? key entries.reverse := by
  rw [ofEntries, get?_insertAll, get?_empty, Option.or_none]

theorem exists_of_isSome_ofEntries {entries : List (κ × ν)} {key : κ}
    (found : ((ofEntries entries).get? key).isSome) : ∃ value, (key, value) ∈ entries := by
  obtain ⟨value, found⟩ := Option.isSome_iff_exists.mp found
  rw [get?_ofEntries] at found
  exact ⟨value, List.mem_reverse.mp (mem_of_valueAt? found)⟩

theorem get?_ofEntries_map {κ' ν' : Type} [DecidableEq κ'] {table : Table κ ν}
    (unambiguous : table.Unambiguous) (change : κ × ν → κ' × ν') {key : κ} {goal : κ'}
    (alone : ∀ entry ∈ table.entries, (change entry).1 = goal → entry.1 = key)
    (own : ∀ value, table.get? key = some value → (change (key, value)).1 = goal) :
    (ofEntries (table.entries.map change)).get? goal =
      (table.get? key).map fun value => (change (key, value)).2 := by
  rw [get?_ofEntries]
  exact valueAt?_map unambiguous change alone own

theorem insertAll_of_nodup {table : Table κ ν} {entries : List (κ × ν)}
    (distinct : ((table.entries ++ entries).map Prod.fst).Nodup) :
    table.insertAll entries = ⟨table.entries ++ entries⟩ := by
  induction entries generalizing table with
  | nil => rw [List.append_nil]; rfl
  | cons entry rest ih =>
    obtain ⟨key, value⟩ := entry
    have absent : key ∉ table.entries.map Prod.fst := by
      rw [List.map_append, List.map_cons] at distinct
      exact fun member => (List.nodup_append.mp distinct).2.2 key member key List.mem_cons_self rfl
    have placed : (table.insert key value).entries = table.entries ++ [(key, value)] :=
      alterEntries_of_not_mem absent _
    show (table.insert key value).insertAll rest = _
    rw [ih (by rw [placed, List.append_assoc]; exact distinct), placed, List.append_assoc]
    rfl

/-- **Entries with distinct keys are the table that inserting them makes.** -/
theorem ofEntries_of_nodup {entries : List (κ × ν)} (distinct : (entries.map Prod.fst).Nodup) :
    ofEntries entries = ⟨entries⟩ :=
  insertAll_of_nodup distinct

theorem Unambiguous.alter {table : Table κ ν} (unambiguous : table.Unambiguous) (key : κ)
    (change : Option ν → ν) : (table.alter key change).Unambiguous := by
  unfold Unambiguous
  rw [keys_alter]
  by_cases present : key ∈ table.keys
  · rw [if_pos present]
    exact unambiguous
  · rw [if_neg present, ← List.concat_eq_append]
    exact List.Nodup.concat present unambiguous

theorem Unambiguous.insertAll {table : Table κ ν} (unambiguous : table.Unambiguous)
    (entries : List (κ × ν)) : (table.insertAll entries).Unambiguous := by
  induction entries generalizing table with
  | nil => exact unambiguous
  | cons entry rest ih => exact ih (unambiguous.alter entry.1 fun _ => entry.2)

/-- **A table that is made by inserting has no key twice**, whatever is inserted. -/
theorem unambiguous_ofEntries (entries : List (κ × ν)) : (ofEntries entries).Unambiguous := by
  have empty : (∅ : Table κ ν).Unambiguous := List.nodup_nil
  exact empty.insertAll entries

/-- Changing one key after the other leaves the keys in their places and puts new ones last. -/
theorem keys_foldl_alter {ι : Type} (table : Table κ ν) (items : List ι) (key : ι → κ)
    (change : ι → Option ν → ν) :
    (items.foldl (fun table item => table.alter (key item) (change item)) table).keys =
      addAllNew table.keys (items.map key) := by
  induction items generalizing table with
  | nil => rfl
  | cons item rest ih =>
    rw [List.foldl_cons, ih, keys_alter]
    rfl

/-- **A key stands where it was first inserted**, whatever is inserted under it later. -/
theorem keys_ofEntries (entries : List (κ × ν)) :
    (ofEntries entries).keys = distinct (entries.map Prod.fst) :=
  keys_foldl_alter ∅ entries Prod.fst fun entry _ => entry.2

theorem map_some_entries {table : Table κ ν} (unambiguous : table.Unambiguous) :
    (table.entries.map fun entry => (entry.1, some entry.2)) =
      table.keys.map fun key => (key, table.get? key) := by
  rw [keys, List.map_map]
  refine List.map_congr_left fun entry listed => ?_
  have found : table.get? entry.1 = some entry.2 := (get?_eq_some_iff unambiguous).mpr listed
  exact Prod.ext rfl found.symm

/-- **Tables without ambiguity are the same** if they have the same keys in the same order and the
same value under each of them. -/
theorem eq_of_get?_eq {table other : Table κ ν} (unambiguous : table.Unambiguous)
    (keys : table.keys = other.keys) (values : ∀ key, table.get? key = other.get? key) :
    table = other := by
  have otherUnambiguous : other.Unambiguous := by
    show other.keys.Nodup
    rw [← keys]
    exact unambiguous
  have marked : (table.entries.map fun entry => (entry.1, some entry.2)) =
      other.entries.map fun entry => (entry.1, some entry.2) := by
    rw [map_some_entries unambiguous, map_some_entries otherUnambiguous, keys]
    exact List.map_congr_left fun key _ => Prod.ext rfl (values key)
  have injective : Function.Injective fun entry : κ × ν => (entry.1, some entry.2) := by
    intro first second same
    obtain ⟨sameKey, sameValue⟩ := Prod.mk.inj same
    exact Prod.ext sameKey (Option.some.inj sameValue)
  exact congrArg Table.mk (List.map_injective_iff.mpr injective marked)

theorem alterEntries_congr {entries : List (κ × ν)} {key : κ} {change other : Option ν → ν}
    (agree : change (valueAt? key entries) = other (valueAt? key entries)) :
    alterEntries key change entries = alterEntries key other entries := by
  induction entries with
  | nil =>
    have same : change none = other none := agree
    rw [alterEntries, alterEntries, same]
  | cons entry rest ih =>
    obtain ⟨here, value⟩ := entry
    rw [valueAt?] at agree
    rw [alterEntries, alterEntries]
    by_cases found : here = key
    · rw [if_pos found] at agree
      rw [if_pos found, if_pos found, agree]
    · rw [if_neg found] at agree
      rw [if_neg found, if_neg found, ih agree]

/-- Two changes that make the same of the value under the key are the same change. -/
theorem alter_congr {table : Table κ ν} {key : κ} {change other : Option ν → ν}
    (agree : change (table.get? key) = other (table.get? key)) :
    table.alter key change = table.alter key other :=
  congrArg Table.mk (alterEntries_congr agree)

end Table

/-! ### Tables of tables -/

namespace Members

variable {κ ν : Type}

/-- No owner and, within an owner, no key has two entries. -/
structure Unambiguous (members : Members κ ν) : Prop where
  owners : members.owners.keys.Nodup
  inner : ∀ owned ∈ members.owners.entries, owned.2.keys.Nodup

/-- Every owner has an entry. -/
def HasNoEmptyOwner (members : Members κ ν) : Prop :=
  ∀ owned ∈ members.owners.entries, owned.2.entries ≠ []

instance (members : Members κ ν) : Decidable members.HasNoEmptyOwner :=
  inferInstanceAs (Decidable (∀ owned ∈ members.owners.entries, owned.2.entries ≠ []))

/-- An entry, with its owner and its key as one key. -/
def flat (entry : ClassName × κ × ν) : (ClassName × κ) × ν := ((entry.1, entry.2.1), entry.2.2)

theorem mem_entries_iff {members : Members κ ν} {owner : ClassName} {entry : κ × ν} :
    (owner, entry) ∈ members.entries ↔
      ∃ inner, (owner, inner) ∈ members.owners.entries ∧ entry ∈ inner.entries := by
  constructor
  · intro member
    obtain ⟨⟨_, inner⟩, present, listed⟩ := List.mem_flatMap.mp member
    obtain ⟨_, within, same⟩ := List.mem_map.mp listed
    cases same
    exact ⟨inner, present, within⟩
  · rintro ⟨inner, present, within⟩
    exact List.mem_flatMap.mpr ⟨(owner, inner), present, List.mem_map.mpr ⟨entry, within, rfl⟩⟩

theorem owner_mem_keys {members : Members κ ν} {owner : ClassName} {entry : κ × ν}
    (listed : (owner, entry) ∈ members.entries) : owner ∈ members.owners.keys := by
  obtain ⟨inner, present, _⟩ := mem_entries_iff.mp listed
  exact List.mem_map.mpr ⟨_, present, rfl⟩

theorem ext_entries {members other : Members κ ν}
    (same : members.owners.entries = other.owners.entries) : members = other :=
  congrArg (fun entries => mk ⟨entries⟩) same

theorem mem_flat_iff {entries : List (ClassName × κ × ν)} {owner : ClassName} {key : κ}
    {value : ν} :
    ((owner, key), value) ∈ (entries.map flat).reverse ↔ (owner, key, value) ∈ entries := by
  rw [List.mem_reverse]
  constructor
  · intro member
    obtain ⟨_, present, same⟩ := List.mem_map.mp member
    cases same
    exact present
  · intro member
    exact List.mem_map.mpr ⟨_, member, rfl⟩

variable [DecidableEq κ]

theorem mem_entries_of_get? {members : Members κ ν} {owner : ClassName} {key : κ} {value : ν}
    (found : members.get? owner key = some value) : (owner, key, value) ∈ members.entries := by
  obtain ⟨inner, present, within⟩ := Option.bind_eq_some_iff.mp found
  exact mem_entries_iff.mpr
    ⟨inner, Table.mem_entries_of_get? present, Table.mem_entries_of_get? within⟩

theorem mem_keys_of_isSome {members : Members κ ν} {owner : ClassName} {key : κ}
    (found : (members.get? owner key).isSome) : owner ∈ members.owners.keys := by
  obtain ⟨value, found⟩ := Option.isSome_iff_exists.mp found
  exact owner_mem_keys (mem_entries_of_get? found)

theorem get?_eq_some_iff {members : Members κ ν} (unambiguous : members.Unambiguous)
    {owner : ClassName} {key : κ} {value : ν} :
    members.get? owner key = some value ↔ (owner, key, value) ∈ members.entries := by
  refine ⟨mem_entries_of_get?, fun member => ?_⟩
  obtain ⟨inner, present, within⟩ := mem_entries_iff.mp member
  have outer : members.owners.get? owner = some inner :=
    (Table.get?_eq_some_iff unambiguous.owners).mpr present
  have found : inner.get? key = some value :=
    (Table.get?_eq_some_iff (unambiguous.inner _ present)).mpr within
  rw [get?, outer]
  exact found

/-! ### Inserting entries -/

/-- Inserts entries one after the other. -/
def insertAll (members : Members κ ν) (entries : List (ClassName × κ × ν)) : Members κ ν :=
  entries.foldl (fun members entry => members.insert entry.1 entry.2.1 entry.2.2) members

theorem get?_insertAll (members : Members κ ν) (entries : List (ClassName × κ × ν))
    (owner : ClassName) (key : κ) :
    (members.insertAll entries).get? owner key =
      (valueAt? (owner, key) (entries.map flat).reverse).or (members.get? owner key) := by
  induction entries generalizing members with
  | nil => rfl
  | cons entry rest ih =>
    obtain ⟨other, here, value⟩ := entry
    show ((members.insert other here value).insertAll rest).get? owner key = _
    rw [ih, get?_insert, List.map_cons, List.reverse_cons, valueAt?_append, Option.or_assoc, flat,
      valueAt?, valueAt?]
    by_cases same : owner = other ∧ key = here
    · rw [if_pos same, if_pos (Prod.ext same.1.symm same.2.symm)]
      rfl
    · have apart : (other, here) ≠ (owner, key) :=
        fun equal => same ⟨(Prod.mk.inj equal).1.symm, (Prod.mk.inj equal).2.symm⟩
      rw [if_neg same, if_neg apart]
      rfl

theorem get?_ofEntries (entries : List (ClassName × κ × ν)) (owner : ClassName) (key : κ) :
    (ofEntries entries).get? owner key = valueAt? (owner, key) (entries.map flat).reverse := by
  show (insertAll ∅ entries).get? owner key = _
  rw [get?_insertAll, get?_empty, Option.or_none]

section Blocks

variable {first : List (ClassName × Table κ ν)} {owner : ClassName}
  (absent : owner ∉ first.map Prod.fst)

include absent

/-- An owner without entries so far goes last. -/
theorem insert_of_new_owner (key : κ) (value : ν) :
    insert ⟨⟨first⟩⟩ owner key value = ⟨⟨first ++ [(owner, Table.insert ∅ key value)]⟩⟩ :=
  ext_entries (Table.alterEntries_of_not_mem absent _)

/-- An entry for the last owner goes to its table. -/
theorem insert_of_last_owner (inner : Table κ ν) (key : κ) (value : ν) :
    insert ⟨⟨first ++ [(owner, inner)]⟩⟩ owner key value =
      ⟨⟨first ++ [(owner, inner.insert key value)]⟩⟩ := by
  have last : Table.alterEntries owner
      (fun old : Option (Table κ ν) => (old.getD ∅).insert key value) [(owner, inner)] =
        [(owner, inner.insert key value)] := by
    rw [Table.alterEntries, if_pos rfl]
    rfl
  exact ext_entries <| (Table.alterEntries_append absent _ _).trans (congrArg (first ++ ·) last)

theorem insertAll_of_last_owner (inner : Table κ ν) (entries : List (κ × ν)) :
    insertAll ⟨⟨first ++ [(owner, inner)]⟩⟩ (entries.map fun entry => (owner, entry)) =
      ⟨⟨first ++ [(owner, inner.insertAll entries)]⟩⟩ := by
  induction entries generalizing inner with
  | nil => rfl
  | cons entry rest ih =>
    show insertAll (insert ⟨⟨first ++ [(owner, inner)]⟩⟩ owner entry.1 entry.2)
      (rest.map fun entry => (owner, entry)) = _
    rw [insert_of_last_owner absent, ih]
    rfl

/-- The entries of one owner make one table, which goes last. -/
theorem insertAll_of_new_owner {entries : List (κ × ν)} (some : entries ≠ [])
    (distinct : (entries.map Prod.fst).Nodup) :
    insertAll ⟨⟨first⟩⟩ (entries.map fun entry => (owner, entry)) =
      ⟨⟨first ++ [(owner, ⟨entries⟩)]⟩⟩ := by
  cases entries with
  | nil => exact absurd rfl some
  | cons entry rest =>
    show insertAll (insert ⟨⟨first⟩⟩ owner entry.1 entry.2)
      (rest.map fun entry => (owner, entry)) = _
    rw [insert_of_new_owner absent, insertAll_of_last_owner absent]
    have table : (Table.insert ∅ entry.1 entry.2).insertAll rest = ⟨entry :: rest⟩ :=
      Table.ofEntries_of_nodup distinct
    rw [table]

end Blocks

theorem insertAll_append (members : Members κ ν) (first second : List (ClassName × κ × ν)) :
    members.insertAll (first ++ second) = (members.insertAll first).insertAll second :=
  List.foldl_append

theorem insertAll_entries {first : List (ClassName × Table κ ν)} {members : Members κ ν}
    (distinct : ((first ++ members.owners.entries).map Prod.fst).Nodup)
    (inner : ∀ owned ∈ members.owners.entries, owned.2.keys.Nodup)
    (full : members.HasNoEmptyOwner) :
    insertAll ⟨⟨first⟩⟩ members.entries = ⟨⟨first ++ members.owners.entries⟩⟩ := by
  obtain ⟨⟨owned⟩⟩ := members
  induction owned generalizing first with
  | nil =>
    rw [List.append_nil]
    rfl
  | cons here rest ih =>
    obtain ⟨owner, table⟩ := here
    have absent : owner ∉ first.map Prod.fst := by
      rw [List.map_append, List.map_cons] at distinct
      exact fun member => (List.nodup_append.mp distinct).2.2 owner member owner
        List.mem_cons_self rfl
    have split : entries ⟨⟨(owner, table) :: rest⟩⟩ =
        (table.entries.map fun entry => (owner, entry)) ++ entries ⟨⟨rest⟩⟩ := rfl
    have block := insertAll_of_new_owner absent (full _ List.mem_cons_self)
      (inner _ List.mem_cons_self)
    have regroup : first ++ (owner, table) :: rest = (first ++ [(owner, table)]) ++ rest := by
      rw [List.append_assoc]
      rfl
    rw [split, insertAll_append, block]
    show insertAll ⟨⟨first ++ [(owner, table)]⟩⟩ (entries ⟨⟨rest⟩⟩) =
      ⟨⟨first ++ (owner, table) :: rest⟩⟩
    rw [regroup]
    refine ih (by rw [← regroup]; exact distinct) (fun owned member => ?_) fun owned member => ?_
    · exact inner owned (List.mem_cons_of_mem _ member)
    · exact full owned (List.mem_cons_of_mem _ member)

/-- **Inserting the entries of a table of tables one after the other makes it again.** -/
theorem ofEntries_entries {members : Members κ ν} (unambiguous : members.Unambiguous)
    (full : members.HasNoEmptyOwner) : ofEntries members.entries = members := by
  have all : insertAll ⟨⟨[]⟩⟩ members.entries = ⟨⟨[] ++ members.owners.entries⟩⟩ :=
    insertAll_entries unambiguous.owners unambiguous.inner full
  exact all

/-- A change that finds nothing under the key is an insertion. -/
theorem alter_of_get?_eq_none {members : Members κ ν} {owner : ClassName} {key : κ}
    (absent : members.get? owner key = none) (change : Option ν → ν) :
    members.alter owner key change = members.insert owner key (change none) := by
  refine congrArg Members.mk (Table.alter_congr ?_)
  refine Table.alter_congr ?_
  have missing : ((members.owners.get? owner).getD ∅).get? key = none := by
    rw [get?] at absent
    cases found : members.owners.get? owner with
    | none => rfl
    | some inner =>
      rw [found] at absent
      exact absent
  rw [missing]

end Members

/-! ### Changing entries one after the other -/

namespace Members

variable {ι κ ν : Type} [DecidableEq κ]

theorem Unambiguous.alter {members : Members κ ν} (unambiguous : members.Unambiguous)
    (owner : ClassName) (key : κ) (change : Option ν → ν) :
    (members.alter owner key change).Unambiguous := by
  let inserted (inner : Option (Table κ ν)) : Table κ ν := (inner.getD ∅).alter key change
  have owners : (members.owners.alter owner inserted).Unambiguous :=
    Table.Unambiguous.alter unambiguous.owners owner inserted
  refine ⟨owners, fun ⟨site, inner⟩ listed => ?_⟩
  have found : (members.owners.alter owner inserted).get? site = some inner :=
    (Table.get?_eq_some_iff owners).mpr listed
  rw [Table.get?_alter] at found
  by_cases here : site = owner
  · rw [if_pos here] at found
    cases found
    apply Table.Unambiguous.alter
    cases old : members.owners.get? owner with
    | none => exact List.nodup_nil
    | some table => exact unambiguous.inner (owner, table) (Table.mem_entries_of_get? old)
  · rw [if_neg here] at found
    exact unambiguous.inner (site, inner) (Table.mem_entries_of_get? found)

/-- The members after one change for each item, under its class and key. -/
def alterAll (change : ι → Option ν → ν) (members : Members κ ν)
    (items : List (ClassName × κ × ι)) : Members κ ν :=
  items.foldl (fun members item => members.alter item.1 item.2.1 (change item.2.2)) members

variable (change : ι → Option ν → ν)

theorem Unambiguous.alterAll {members : Members κ ν} (unambiguous : members.Unambiguous)
    (items : List (ClassName × κ × ι)) : (members.alterAll change items).Unambiguous := by
  induction items generalizing members with
  | nil => exact unambiguous
  | cons item rest ih => exact ih (unambiguous.alter item.1 item.2.1 (change item.2.2))

/-- Members that are made from none have no key twice, whatever the changes. -/
theorem unambiguous_alterAll (items : List (ClassName × κ × ι)) :
    ((∅ : Members κ ν).alterAll change items).Unambiguous := by
  have empty : (∅ : Members κ ν).Unambiguous := ⟨List.nodup_nil, fun _ => nofun⟩
  exact empty.alterAll change items

/-- What is found after the changes was there before or is changed by an item. -/
theorem exists_of_isSome_alterAll {members : Members κ ν} {items : List (ClassName × κ × ι)}
    {owner : ClassName} {key : κ}
    (found : ((members.alterAll change items).get? owner key).isSome) :
    (members.get? owner key).isSome ∨ ∃ value, (owner, key, value) ∈ items := by
  induction items generalizing members with
  | nil => exact Or.inl found
  | cons item rest ih =>
    obtain before | ⟨value, listed⟩ := ih found
    · rw [get?_alter] at before
      by_cases here : owner = item.1 ∧ key = item.2.1
      · rw [here.1, here.2]
        exact Or.inr ⟨item.2.2, List.mem_cons_self⟩
      · rw [if_neg here] at before
        exact Or.inl before
    · exact Or.inr ⟨value, List.mem_cons_of_mem _ listed⟩

/-- The keys of members that are made from none are those of the items. -/
theorem exists_of_mem_alterAll {items : List (ClassName × κ × ι)} {entry : ClassName × κ × ν}
    (listed : entry ∈ ((∅ : Members κ ν).alterAll change items).entries) :
    ∃ value, (entry.1, entry.2.1, value) ∈ items := by
  have found := (get?_eq_some_iff (unambiguous_alterAll change items)).mpr listed
  have present := exists_of_isSome_alterAll change (Option.isSome_iff_exists.mpr ⟨_, found⟩)
  exact present.resolve_left Bool.false_ne_true

/-- **Members that are made by inserting have no key twice**, whatever is inserted. -/
theorem unambiguous_ofEntries (entries : List (ClassName × κ × ν)) :
    (ofEntries entries).Unambiguous :=
  unambiguous_alterAll (fun value _ => value) entries

theorem exists_of_isSome_ofEntries {entries : List (ClassName × κ × ν)}
    {owner : ClassName} {key : κ}
    (found : ((ofEntries entries).get? owner key).isSome) :
    ∃ value, (owner, key, value) ∈ entries :=
  (exists_of_isSome_alterAll (fun value _ => value) found).resolve_left Bool.false_ne_true

theorem exists_of_mem_ofEntries {entries : List (ClassName × κ × ν)} {entry : ClassName × κ × ν}
    (listed : entry ∈ (ofEntries entries).entries) :
    ∃ value, (entry.1, entry.2.1, value) ∈ entries :=
  exists_of_mem_alterAll (fun value _ => value) listed

end Members

namespace Mappings

theorem unambiguous_mergedExtras (entries : List (ClassName × MethodKey × MethodExtra)) :
    (mergedExtras entries).Unambiguous :=
  Members.unambiguous_alterAll (fun extra old => (old.getD MethodExtra.empty).merge extra) entries

theorem exists_of_mem_mergedExtras {entries : List (ClassName × MethodKey × MethodExtra)}
    {entry : ClassName × MethodKey × MethodExtra}
    (listed : entry ∈ (mergedExtras entries).entries) :
    ∃ extra, (entry.1, entry.2.1, extra) ∈ entries :=
  Members.exists_of_mem_alterAll (fun extra old => (old.getD MethodExtra.empty).merge extra) listed

end Mappings

/-! ### Changing all entries in place -/

namespace Members

variable {κ ν κ' ν' : Type}

/-- The same table of tables with other owners and other entries. -/
def relabel (owner : ClassName → ClassName) (entry : ClassName → κ × ν → κ' × ν')
    (members : Members κ ν) : Members κ' ν' :=
  ⟨⟨members.owners.entries.map fun owned =>
    (owner owned.1, ⟨owned.2.entries.map (entry owned.1)⟩)⟩⟩

variable {owner : ClassName → ClassName} {entry : ClassName → κ × ν → κ' × ν'}
  {members : Members κ ν}

theorem entries_relabel :
    (members.relabel owner entry).entries =
      members.entries.map fun listed => (owner listed.1, entry listed.1 listed.2) := by
  simp only [entries, relabel, List.flatMap_map, List.map_flatMap, List.map_map]
  rfl

theorem HasNoEmptyOwner.relabel (full : members.HasNoEmptyOwner) :
    (members.relabel owner entry).HasNoEmptyOwner := by
  intro owned member
  obtain ⟨old, present, rfl⟩ := List.mem_map.mp member
  exact fun empty => full old present (List.map_eq_nil_iff.mp empty)

/-- Distinct owners and keys stay apart if the change keeps them apart. -/
theorem Unambiguous.relabel (unambiguous : members.Unambiguous)
    (owners : Set.InjOn owner {site | site ∈ members.owners.keys})
    (keys : ∀ site first second, (site, first) ∈ members.entries →
      (site, second) ∈ members.entries →
      (entry site first).1 = (entry site second).1 → first = second) :
    (members.relabel owner entry).Unambiguous := by
  constructor
  · have renamed : (members.relabel owner entry).owners.keys = members.owners.keys.map owner := by
      simp only [Table.keys, Members.relabel, List.map_map]
      rfl
    rw [renamed]
    exact List.Nodup.map_on (fun first here second there => owners here there) unambiguous.owners
  · intro owned member
    obtain ⟨⟨site, table⟩, present, rfl⟩ := List.mem_map.mp member
    have distinct : table.entries.Nodup := (unambiguous.inner _ present).of_map
    show ((table.entries.map (entry site)).map Prod.fst).Nodup
    rw [List.map_map]
    refine List.Nodup.map_on (fun first here second there same => ?_) distinct
    exact keys site first second (mem_entries_iff.mpr ⟨table, present, here⟩)
      (mem_entries_iff.mpr ⟨table, present, there⟩) same

/-- Entries that are kept apart by the change make the changed table of tables. -/
theorem ofEntries_relabel [DecidableEq κ'] (owner : ClassName → ClassName)
    (entry : ClassName → κ × ν → κ' × ν') (unambiguous : members.Unambiguous)
    (full : members.HasNoEmptyOwner) (owners : Set.InjOn owner {site | site ∈ members.owners.keys})
    (keys : ∀ site first second, (site, first) ∈ members.entries →
      (site, second) ∈ members.entries →
      (entry site first).1 = (entry site second).1 → first = second) :
    ofEntries (members.entries.map fun listed => (owner listed.1, entry listed.1 listed.2)) =
      members.relabel owner entry := by
  rw [← entries_relabel]
  exact ofEntries_entries (unambiguous.relabel owners keys) full.relabel

/-- The owner and key of an entry tell it from all others. -/
theorem Unambiguous.nodup_flat (unambiguous : members.Unambiguous) :
    ((members.entries.map flat).map Prod.fst).Nodup := by
  rw [List.map_map]
  obtain ⟨⟨owned⟩⟩ := members
  induction owned with
  | nil => exact List.nodup_nil
  | cons here rest ih =>
    obtain ⟨site, table⟩ := here
    obtain ⟨fresh, others⟩ := List.nodup_cons.mp unambiguous.owners
    have split : entries ⟨⟨(site, table) :: rest⟩⟩ =
        (table.entries.map fun listed => (site, listed)) ++ entries ⟨⟨rest⟩⟩ := rfl
    rw [split, List.map_append, List.nodup_append]
    refine ⟨?_, ih ⟨others, fun owned member =>
      unambiguous.inner owned (List.mem_cons_of_mem _ member)⟩, ?_⟩
    · rw [List.map_map]
      have keys : (fun listed : κ × ν => (site, listed.1)) = Prod.mk site ∘ Prod.fst := rfl
      show (table.entries.map fun listed => (site, listed.1)).Nodup
      rw [keys, ← List.map_map]
      exact (unambiguous.inner _ List.mem_cons_self).map (Prod.mk_right_injective site)
    · rintro _ here _ there rfl
      obtain ⟨_, own, same⟩ := List.mem_map.mp here
      obtain ⟨listed, _, rfl⟩ := List.mem_map.mp own
      obtain ⟨⟨other, entry⟩, elsewhere, equal⟩ := List.mem_map.mp there
      obtain ⟨inner, present, _⟩ := mem_entries_iff.mp elsewhere
      have sameOwner : other = site := (Prod.mk.inj (equal.trans same.symm)).1
      rw [← sameOwner] at fresh
      exact fresh (List.mem_map.mpr ⟨_, present, rfl⟩)

/-- In a table of tables without ambiguity an entry is found by its owner and its key together. -/
theorem valueAt?_flat [DecidableEq κ] (unambiguous : members.Unambiguous)
    {site : ClassName} {key : κ} :
    valueAt? (site, key) (members.entries.map flat) = members.get? site key := by
  refine Option.ext fun value => ?_
  rw [valueAt?_eq_some_iff unambiguous.nodup_flat, get?_eq_some_iff unambiguous, ← List.mem_reverse]
  exact mem_flat_iff

theorem get?_ofEntries_map [DecidableEq κ] [DecidableEq κ'] (unambiguous : members.Unambiguous)
    (owner : ClassName → ClassName) (entry : ClassName → κ × ν → κ' × ν')
    {site : ClassName} {key : κ} {goal : κ'}
    (alone : ∀ listed ∈ members.entries, owner listed.1 = owner site →
      (entry listed.1 listed.2).1 = goal → listed.1 = site ∧ listed.2.1 = key)
    (own : ∀ value, members.get? site key = some value → (entry site (key, value)).1 = goal) :
    (ofEntries (members.entries.map fun listed => (owner listed.1, entry listed.1 listed.2))).get?
        (owner site) goal =
      (members.get? site key).map fun value => (entry site (key, value)).2 := by
  -- An entry with its owner as part of its key is an entry of one table.
  let change (listed : (ClassName × κ) × ν) : (ClassName × κ') × ν' :=
    flat (owner listed.1.1, entry listed.1.1 (listed.1.2, listed.2))
  have flattened :
      (members.entries.map fun listed => (owner listed.1, entry listed.1 listed.2)).map flat =
        (members.entries.map flat).map change := by
    rw [List.map_map, List.map_map]
    rfl
  rw [get?_ofEntries, flattened, ← valueAt?_flat unambiguous]
  apply valueAt?_map unambiguous.nodup_flat change
  · intro listed member same
    obtain ⟨old, present, rfl⟩ := List.mem_map.mp member
    obtain ⟨sameOwner, sameKey⟩ := Prod.mk.inj same
    obtain ⟨here, there⟩ := alone old present sameOwner sameKey
    exact Prod.ext here there
  · intro value found
    rw [valueAt?_flat unambiguous] at found
    exact Prod.ext rfl (own value found)

end Members

/-! ### Sets and extras -/

section Distinct

variable {α : Type} [DecidableEq α]

/-- Of the items to be added, the first occurrences of those that are new go last. -/
theorem addAllNew_eq_append (items more : List α) :
    addAllNew items more = items ++ (more.filter fun item => item ∉ items).eraseDups := by
  induction more generalizing items with
  | nil => simp [addAllNew]
  | cons item rest ih =>
    have step : addAllNew items (item :: rest) = addAllNew (addNew items item) rest := rfl
    rw [step, ih]
    by_cases present : item ∈ items
    · simp [addNew, present]
    · -- what is left out later is what was there and the item itself
      have others : (rest.filter fun other => other ∉ items).filter (fun other => !other == item) =
          rest.filter fun other => other ∉ items ++ [item] := by
        rw [List.filter_filter]
        refine List.filter_congr fun other _ => ?_
        by_cases same : other = item <;> simp [same]
      rw [addNew, if_neg present, List.filter_cons_of_pos (by simpa using present),
        List.eraseDups_cons, others, List.append_assoc, List.singleton_append]

theorem isPrefix_addAllNew (items more : List α) : items <+: addAllNew items more := by
  rw [addAllNew_eq_append]
  exact List.prefix_append items _

theorem addAllNew_of_nodup {items more : List α} (distinct : (items ++ more).Nodup) :
    addAllNew items more = items ++ more := by
  induction more generalizing items with
  | nil => exact (List.append_nil _).symm
  | cons item rest ih =>
    have absent : item ∉ items := fun member =>
      (List.nodup_append.mp distinct).2.2 item member item List.mem_cons_self rfl
    have regroup : items ++ item :: rest = (items ++ [item]) ++ rest := by
      rw [List.append_assoc]
      rfl
    show addAllNew (addNew items item) rest = _
    rw [addNew, if_neg absent, ih (by rw [← regroup]; exact distinct), regroup]

theorem distinct_of_nodup {items : List α} (distinct : items.Nodup) :
    Renaming.distinct items = items :=
  addAllNew_of_nodup distinct

end Distinct

theorem MethodExtra.empty_merge {extra : MethodExtra} (distinct : extra.exceptions.Nodup) :
    empty.merge extra = extra := by
  obtain ⟨exceptions, parameters⟩ := extra
  have gathered : addAllNew [] exceptions = exceptions := addAllNew_of_nodup distinct
  cases parameters with
  | nil => exact congrArg (MethodExtra.mk · []) gathered
  | cons first rest => exact congrArg (MethodExtra.mk · (first :: rest)) gathered

/-- Extras for distinct methods are gathered without being merged. -/
theorem Mappings.mergedExtras_of_nodup {entries : List (ClassName × MethodKey × MethodExtra)}
    (distinct : ((entries.map Members.flat).map Prod.fst).Nodup)
    (sets : ∀ entry ∈ entries, entry.2.2.exceptions.Nodup) :
    mergedExtras entries = .ofEntries entries := by
  have fromThere : ∀ extras : Members MethodKey MethodExtra,
      (∀ entry ∈ entries, extras.get? entry.1 entry.2.1 = none) →
        entries.foldl (fun extras entry =>
          extras.alter entry.1 entry.2.1 fun old => (old.getD .empty).merge entry.2.2) extras =
          extras.insertAll entries := by
    induction entries with
    | nil => exact fun _ _ => rfl
    | cons entry rest ih =>
      intro extras absent
      obtain ⟨owner, key, extra⟩ := entry
      obtain ⟨fresh, others⟩ := List.nodup_cons.mp distinct
      have merged : MethodExtra.empty.merge extra = extra :=
        MethodExtra.empty_merge (sets _ List.mem_cons_self)
      have inserted := Members.alter_of_get?_eq_none (absent _ List.mem_cons_self)
        fun old => (old.getD .empty).merge extra
      rw [Option.getD_none, merged] at inserted
      rw [List.foldl_cons, inserted]
      refine ih others (fun other member => sets other (List.mem_cons_of_mem _ member)) _
        fun other member => ?_
      rw [Members.get?_insert, if_neg]
      · exact absent other (List.mem_cons_of_mem _ member)
      · rintro ⟨sameOwner, sameKey⟩
        refine fresh (List.mem_map.mpr ⟨_, List.mem_map.mpr ⟨other, member, rfl⟩, ?_⟩)
        exact Prod.ext sameOwner sameKey
  exact fromThere ∅ fun _ _ => rfl

/-! ### Mappings -/

/-- Mappings are the same if all their tables are. -/
theorem Mappings.ext_tables {first second : Mappings} (classes : first.classes = second.classes)
    (fields : first.fields = second.fields) (methods : first.methods = second.methods)
    (extras : first.extras = second.extras) : first = second := by
  cases first
  cases second
  simp_all

/-- No key of the mappings has two entries. -/
structure Mappings.Unambiguous (mappings : Mappings) : Prop where
  classes : mappings.classes.Unambiguous
  fields : mappings.fields.Unambiguous
  methods : mappings.methods.Unambiguous
  extras : mappings.extras.Unambiguous

/-- No key has two entries, no class is thrown twice by one method, and only classes with members
are owners. -/
structure Mappings.Canonical (mappings : Mappings) : Prop extends mappings.Unambiguous where
  exceptions : ∀ entry ∈ mappings.extras.entries, entry.2.2.exceptions.Nodup
  fieldOwners : mappings.fields.HasNoEmptyOwner
  methodOwners : mappings.methods.HasNoEmptyOwner
  extraOwners : mappings.extras.HasNoEmptyOwner

end Renaming

import Renaming.Proofs.RestoredClasses

/-!
# Targets that collide

Mappings may lead several classes to one name. The reversed table can lead that name back to one of
them only: entries are inserted one after the other, so the last class wins, but the name stays
where the first one put it. This module says what becomes of a table in which names collide, without
asking that they are kept apart.

* `Table.keys_swapped`, `Table.get?_swapped_eq_some_iff`: which names the swapped table has, in
  which order, and to which class it leads each of them.
* `Table.nodup_values_swapped`: no class is led to twice. So whatever collides does so in the first
  swap, and **swapping three times is swapping once** (`Table.swapped_swapped_swapped`).
-/

namespace Renaming

/-! ### The last entry -/

section Lists

variable {κ ν : Type} [DecidableEq κ]

/-- What is found is the value of the first entry with the key. -/
theorem valueAt?_eq_some_iff_first {entries : List (κ × ν)} {key : κ} {value : ν} :
    valueAt? key entries = some value ↔
      ∃ before after, entries = before ++ (key, value) :: after ∧
        ∀ entry ∈ before, entry.1 ≠ key := by
  constructor
  · intro found
    induction entries with
    | nil => cases found
    | cons entry rest ih =>
      obtain ⟨other, here⟩ := entry
      rw [valueAt?] at found
      by_cases same : other = key
      · rw [if_pos same] at found
        cases found
        subst same
        exact ⟨[], rest, rfl, fun _ none => (List.not_mem_nil none).elim⟩
      · rw [if_neg same] at found
        obtain ⟨before, after, rfl, passed⟩ := ih found
        exact ⟨(other, here) :: before, after, rfl, List.forall_mem_cons.mpr ⟨same, passed⟩⟩
  · rintro ⟨before, after, rfl, passed⟩
    have nothing : valueAt? key before = none :=
      valueAt?_eq_none_iff.mpr fun value listed => passed _ listed rfl
    rw [valueAt?_append, nothing, Option.none_or, valueAt?, if_pos rfl]

/-- What is found after inserting is the value of the last entry with the key. -/
theorem Table.get?_ofEntries_eq_some_iff_last {entries : List (κ × ν)} {key : κ} {value : ν} :
    (ofEntries entries).get? key = some value ↔
      ∃ before after, entries = before ++ (key, value) :: after ∧
        ∀ entry ∈ after, entry.1 ≠ key := by
  rw [get?_ofEntries, valueAt?_eq_some_iff_first]
  constructor
  · rintro ⟨before, after, split, passed⟩
    refine ⟨after.reverse, before.reverse, ?_, fun entry listed => ?_⟩
    · rw [← List.reverse_reverse entries, split]
      simp
    · exact passed entry (List.mem_reverse.mp listed)
  · rintro ⟨before, after, rfl, passed⟩
    refine ⟨after.reverse, before.reverse, by simp, fun entry listed => ?_⟩
    exact passed entry (List.mem_reverse.mp listed)

end Lists

/-! ### Swapping keys and values -/

namespace Table

variable {κ ν : Type} [DecidableEq ν]

/-- The table with the values as keys; of two keys with one value the later one is kept. -/
def swapped (table : Table κ ν) : Table ν κ := ofEntries (table.entries.map Prod.swap)

variable {table : Table κ ν}

/-- The keys are the values of the table, each where it first occurs. -/
theorem keys_swapped : table.swapped.keys = distinct (table.entries.map Prod.snd) := by
  rw [swapped, keys_ofEntries, List.map_map]
  rfl

/-- A value is led back to the last key that has it. -/
theorem get?_swapped_eq_some_iff {key : κ} {value : ν} :
    table.swapped.get? value = some key ↔
      ∃ before after, table.entries = before ++ (key, value) :: after ∧
        ∀ entry ∈ after, entry.2 ≠ value := by
  rw [swapped, get?_ofEntries_eq_some_iff_last]
  have twice : (table.entries.map Prod.swap).map Prod.swap = table.entries :=
    map_map_eq_self fun entry _ => Prod.swap_swap entry
  constructor
  · rintro ⟨before, after, split, passed⟩
    refine ⟨before.map Prod.swap, after.map Prod.swap, ?_, fun entry listed => ?_⟩
    · rw [← twice, split]
      simp
    · obtain ⟨old, member, rfl⟩ := List.mem_map.mp listed
      exact passed old member
  · rintro ⟨before, after, split, passed⟩
    refine ⟨before.map Prod.swap, after.map Prod.swap, by simp [split], fun entry listed => ?_⟩
    obtain ⟨old, member, rfl⟩ := List.mem_map.mp listed
    exact passed old member

variable [DecidableEq κ]

/-- To where a value is led back, there it came from. -/
theorem get?_of_get?_swapped (unambiguous : table.Unambiguous) {key : κ} {value : ν}
    (found : table.swapped.get? value = some key) : table.get? key = some value := by
  obtain ⟨before, after, split, _⟩ := get?_swapped_eq_some_iff.mp found
  have listed : (key, value) ∈ table.entries := by
    rw [split]
    exact List.mem_append_right _ List.mem_cons_self
  exact (get?_eq_some_iff unambiguous).mpr listed

/-- No two values are led back to one key, since a key has one value only. -/
theorem nodup_values_swapped (unambiguous : table.Unambiguous) :
    (table.swapped.entries.map Prod.snd).Nodup := by
  have keys : table.swapped.Unambiguous := unambiguous_ofEntries _
  have entries : table.swapped.entries.Nodup := List.Nodup.of_map Prod.fst keys
  refine List.Nodup.map_on (fun first here second there same => ?_) entries
  have back : table.get? first.2 = some first.1 :=
    get?_of_get?_swapped unambiguous ((get?_eq_some_iff keys).mpr here)
  have otherBack : table.get? second.2 = some second.1 :=
    get?_of_get?_swapped unambiguous ((get?_eq_some_iff keys).mpr there)
  rw [same, otherBack] at back
  exact Prod.ext (Option.some.inj back).symm same

/-- Values that do not collide are swapped one by one, and swapped back one by one. -/
theorem swapped_swapped (unambiguous : table.Unambiguous)
    (apart : (table.entries.map Prod.snd).Nodup) : table.swapped.swapped = table := by
  have keys : ((table.entries.map Prod.swap).map Prod.fst).Nodup := by
    rw [List.map_map]
    exact apart
  rw [swapped, swapped, ofEntries_of_nodup keys,
    map_map_eq_self fun entry _ => Prod.swap_swap entry]
  exact ofEntries_of_nodup unambiguous

/-- **Swapping three times is swapping once**: after the first time nothing collides. -/
theorem swapped_swapped_swapped (unambiguous : table.Unambiguous) :
    table.swapped.swapped.swapped = table.swapped :=
  swapped_swapped (unambiguous_ofEntries _) (nodup_values_swapped unambiguous)

end Table

/-! ### Reversing mappings -/

namespace Mappings

variable {mappings back : Mappings}

open Recorded (except_bind_eq_ok_iff)

/-- Whatever the members are, reversing swaps the classes. -/
theorem classes_of_reverse (done : mappings.reverse = .ok back) :
    back.classes = mappings.classes.swapped := by
  obtain ⟨methods, _, rest⟩ := except_bind_eq_ok_iff.mp done
  obtain ⟨extras, _, ⟨⟩⟩ := except_bind_eq_ok_iff.mp rest
  rfl

/-- The mappings with the classes of a table and no members. -/
def ofClassTable (classes : Table ClassName ClassName) : Mappings := ⟨classes, ∅, ∅, ∅⟩

theorem reverse_of_onlyClasses (only : mappings.OnlyClasses) :
    mappings.reverse = .ok (ofClassTable mappings.classes.swapped) := by
  rw [reverse_eq only.validDescriptors, reversed, only.fields, only.methods, only.extras]
  rfl

theorem reverse_ofClassTable (classes : Table ClassName ClassName) :
    (ofClassTable classes).reverse = .ok (ofClassTable classes.swapped) :=
  reverse_of_onlyClasses ⟨rfl, rfl, rfl⟩

/-- **What reversing makes of classes whose new names collide.** Reversing succeeds if the
descriptors of methods are valid. Then the reversed table has the new names as keys, each where it
first occurs, and leads each of them back to the last class that has it; so the mappings lead from
there to the name again, and no class is led back to twice. If there are classes only, the third
reversal gives what the first one gave. -/
theorem last_of_colliding_classes_is_led_back_to {mappings : Mappings}
    (unambiguous : mappings.classes.Unambiguous) :
    (mappings.ValidDescriptors → ∃ back, mappings.reverse = .ok back) ∧
    (∀ back, mappings.reverse = .ok back →
      back.classes.keys = distinct (mappings.classes.entries.map Prod.snd) ∧
      (∀ target, target ∈ back.classes.keys ↔ ∃ name, mappings.className? name = some target) ∧
      (∀ target name, back.className? target = some name ↔
        ∃ before after, mappings.classes.entries = before ++ (name, target) :: after ∧
          ∀ entry ∈ after, entry.2 ≠ target) ∧
      (∀ target name, back.className? target = some name → mappings.className? name = some target) ∧
      (back.classes.entries.map Prod.snd).Nodup) ∧
    (mappings.OnlyClasses → ∃ once twice, mappings.reverse = .ok once ∧ once.reverse = .ok twice ∧
      twice.reverse = .ok once) := by
  refine ⟨fun valid => ⟨_, reverse_eq valid⟩, fun back done => ?_, fun only => ?_⟩
  · have targets : ∀ target, target ∈ mappings.classes.swapped.keys ↔
        ∃ name, mappings.classes.get? name = some target := by
      intro target
      rw [Table.keys_swapped, mem_distinct, List.mem_map]
      constructor
      · rintro ⟨⟨name, _⟩, listed, rfl⟩
        exact ⟨name, (Table.get?_eq_some_iff unambiguous).mpr listed⟩
      · rintro ⟨name, found⟩
        exact ⟨(name, target), Table.mem_entries_of_get? found, rfl⟩
    unfold className?
    rw [classes_of_reverse done]
    exact ⟨Table.keys_swapped, targets, fun _ _ => Table.get?_swapped_eq_some_iff,
      fun _ _ => Table.get?_of_get?_swapped unambiguous, Table.nodup_values_swapped unambiguous⟩
  · refine ⟨_, _, reverse_of_onlyClasses only, reverse_ofClassTable _, ?_⟩
    rw [reverse_ofClassTable, Table.swapped_swapped_swapped unambiguous]

namespace Colliding

/-- Three of four classes have the same new name. -/
def classes : Mappings :=
  ((((∅ : Mappings).addClass ⟨"a"⟩ ⟨"x"⟩).addClass ⟨"b"⟩ ⟨"y"⟩).addClass ⟨"c"⟩ ⟨"x"⟩).addClass ⟨"x"⟩
    ⟨"x"⟩

/-- The same with a method. -/
def withMethod : Mappings := classes.addMethod ⟨"a"⟩ ⟨⟨"m"⟩, ⟨"(La;)V"⟩⟩ ⟨"n"⟩

/-- The way back: two of the three classes are left out. -/
def ledBack : Table ClassName ClassName := ⟨[(⟨"x"⟩, ⟨"x"⟩), (⟨"y"⟩, ⟨"b"⟩)]⟩

end Colliding

/-- The name `x` stands first, as the class `a` put it, and leads to the last of its three
classes. -/
theorem colliding_classes_led_back :
    (∃ reversed, Colliding.withMethod.reverse = .ok reversed ∧
      reversed.classes = Colliding.ledBack ∧
      reversed.className? ⟨"x"⟩ = some ⟨"x"⟩ ∧ (reversed.classes.entries.map Prod.snd).Nodup) ∧
    ∃ once twice, Colliding.classes.reverse = .ok once ∧ once.reverse = .ok twice ∧
      twice.reverse = .ok once := by
  have unambiguous : Colliding.withMethod.classes.Unambiguous := by decide
  have fine : (⟨"(La;)V"⟩ : MethodDescriptor).Valid := by
    unfold Symbol.Valid
    cbv
  have valid : Colliding.withMethod.ValidDescriptors :=
    ⟨List.forall_mem_singleton.mpr fine, List.forall_mem_nil _⟩
  obtain ⟨succeeds, charted, _⟩ := last_of_colliding_classes_is_led_back_to unambiguous
  obtain ⟨reversed, done⟩ := succeeds valid
  obtain ⟨_, _, last, _, apart⟩ := charted reversed done
  have classes : reversed.classes = Colliding.ledBack := classes_of_reverse done
  have splits : Colliding.withMethod.classes.entries =
      [(⟨"a"⟩, ⟨"x"⟩), (⟨"b"⟩, ⟨"y"⟩), (⟨"c"⟩, ⟨"x"⟩)] ++ (⟨"x"⟩, ⟨"x"⟩) :: [] := rfl
  have without : Colliding.classes.classes.Unambiguous := unambiguous
  obtain ⟨_, _, thrice⟩ := last_of_colliding_classes_is_led_back_to without
  exact ⟨⟨reversed, done, classes, (last _ _).mpr ⟨_, _, splits, List.forall_mem_nil _⟩, apart⟩,
    thrice ⟨rfl, rfl, rfl⟩⟩

end Mappings

end Renaming

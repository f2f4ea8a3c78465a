/-!
# Tables that remember the order of insertion

A `Table` holds at most one value per key and lists its entries in the order in which their keys
were first inserted; a value that is replaced keeps its place. `get?_alter` and `get?_insert` say
what changing one key does to all look-ups.

The last section is about lists used as sets in the order of first insertion: `addNew` puts an item
at the end unless the list has it.
-/

namespace Renaming

/-- The value of the first entry with the key. -/
def valueAt? {κ ν : Type} [DecidableEq κ] (key : κ) : List (κ × ν) → Option ν
  | [] => none
  | (other, value) :: rest => if other = key then some value else valueAt? key rest

/-- Entries in the order in which their keys were first inserted. -/
structure Table (κ ν : Type) where
  entries : List (κ × ν)

namespace Table

variable {κ ν : Type}

/-- The table without entries. -/
def empty : Table κ ν := ⟨[]⟩

instance : EmptyCollection (Table κ ν) := ⟨empty⟩

def isEmpty (table : Table κ ν) : Bool := table.entries.isEmpty

def size (table : Table κ ν) : Nat := table.entries.length

/-- The keys in order. -/
def keys (table : Table κ ν) : List κ := table.entries.map Prod.fst

/-- The entries that are to be kept. -/
def filter (keep : κ → ν → Bool) (table : Table κ ν) : Table κ ν :=
  ⟨table.entries.filter fun entry => keep entry.1 entry.2⟩

/-- The same keys with other values. -/
def mapValues {μ : Type} (change : κ → ν → μ) (table : Table κ ν) : Table κ μ :=
  ⟨table.entries.map fun entry => (entry.1, change entry.1 entry.2)⟩

variable [DecidableEq κ]

/-- The value under the key. -/
def get? (table : Table κ ν) (key : κ) : Option ν := valueAt? key table.entries

/-- Entries with the value under the key changed, or put last if there was none. -/
def alterEntries (key : κ) (change : Option ν → ν) : List (κ × ν) → List (κ × ν)
  | [] => [(key, change none)]
  | (other, value) :: rest =>
    if other = key then (key, change (some value)) :: rest
    else (other, value) :: alterEntries key change rest

/-- The table with a new value under the key, made from the old one if there was one. -/
def alter (table : Table κ ν) (key : κ) (change : Option ν → ν) : Table κ ν :=
  ⟨alterEntries key change table.entries⟩

/-- The table with the value under the key. -/
def insert (table : Table κ ν) (key : κ) (value : ν) : Table κ ν :=
  table.alter key fun _ => value

/-- The table with the value under the key, unless it has one. -/
def insertNew (table : Table κ ν) (key : κ) (value : ν) : Table κ ν :=
  table.alter key fun old => old.getD value

/-- Inserts entries one after the other. -/
def insertAll (table : Table κ ν) (entries : List (κ × ν)) : Table κ ν :=
  entries.foldl (fun table entry => table.insert entry.1 entry.2) table

/-- The table that inserting the entries one after the other gives. -/
def ofEntries (entries : List (κ × ν)) : Table κ ν := insertAll ∅ entries

/-- The table with the entries of another one for keys it does not have. -/
def join (table other : Table κ ν) : Table κ ν :=
  other.entries.foldl (fun table entry => table.insertNew entry.1 entry.2) table

/-- Whether the tables have the same entries, in whatever order. -/
def sameAs (same : ν → ν → Bool) (table other : Table κ ν) : Bool :=
  table.size == other.size && table.entries.all fun entry =>
    match other.get? entry.1 with
    | some value => same entry.2 value
    | none => false

@[simp] theorem get?_empty (key : κ) : (∅ : Table κ ν).get? key = none := rfl

private theorem valueAt?_alterEntries (key other : κ) (change : Option ν → ν)
    (entries : List (κ × ν)) :
    valueAt? other (alterEntries key change entries) =
      if other = key then some (change (valueAt? key entries))
      else valueAt? other entries := by
  induction entries with
  | nil =>
    by_cases same : other = key
    · simp [alterEntries, valueAt?, same]
    · simp [alterEntries, valueAt?, same, Ne.symm same]
  | cons entry rest ih =>
    obtain ⟨here, value⟩ := entry
    by_cases found : here = key
    · subst found
      by_cases same : other = here
      · simp [alterEntries, valueAt?, same]
      · simp [alterEntries, valueAt?, same, Ne.symm same]
    · by_cases same : other = key
      · subst same
        simp [alterEntries, valueAt?, found, ih]
      · simp [alterEntries, valueAt?, found, same, ih]

/-- Altering changes the value under that key only. -/
theorem get?_alter (table : Table κ ν) (key other : κ) (change : Option ν → ν) :
    (table.alter key change).get? other =
      if other = key then some (change (table.get? key)) else table.get? other :=
  valueAt?_alterEntries key other change table.entries

/-- The last insertion under a key is what is found. -/
theorem get?_insert (table : Table κ ν) (key other : κ) (value : ν) :
    (table.insert key value).get? other =
      if other = key then some value else table.get? other :=
  table.get?_alter key other fun _ => value

/-- A key that is there stays in its place, a new one goes last. -/
theorem keys_alter (table : Table κ ν) (key : κ) (change : Option ν → ν) :
    (table.alter key change).keys =
      if key ∈ table.keys then table.keys else table.keys ++ [key] := by
  obtain ⟨entries⟩ := table
  simp only [keys, alter]
  induction entries with
  | nil => simp [alterEntries]
  | cons entry rest ih =>
    obtain ⟨here, value⟩ := entry
    by_cases found : here = key
    · subst found
      simp [alterEntries]
    · have apart : ¬ key = here := Ne.symm found
      simp only [alterEntries, found, ↓reduceIte, List.map_cons, ih, List.mem_cons, apart, false_or]
      by_cases present : key ∈ rest.map Prod.fst <;>
        simp only [present, ↓reduceIte, List.cons_append]

end Table

/-! ### Lists without repetition -/

section Distinct

variable {α : Type} [DecidableEq α]

/-- The list with the item at its end, unless it has the item. -/
def addNew (items : List α) (item : α) : List α :=
  if item ∈ items then items else items ++ [item]

/-- The list with all the items that it does not have, in order. -/
def addAllNew (items more : List α) : List α := more.foldl addNew items

/-- The items without repetition, each where it first occurs. -/
def distinct (items : List α) : List α := addAllNew [] items

/-- Whether the lists have the same items, in whatever order; both are without repetition. -/
def sameItems (items others : List α) : Bool :=
  items.length == others.length && items.all (· ∈ others)

@[simp] theorem mem_addNew {items : List α} {item other : α} :
    other ∈ addNew items item ↔ other ∈ items ∨ other = item := by
  unfold addNew
  split
  · constructor
    · exact Or.inl
    · rintro (present | rfl)
      · exact present
      · assumption
  · simp

@[simp] theorem mem_addAllNew {items more : List α} {item : α} :
    item ∈ addAllNew items more ↔ item ∈ items ∨ item ∈ more := by
  unfold addAllNew
  induction more generalizing items with
  | nil => simp
  | cons first rest ih =>
    simp only [List.foldl_cons, ih, mem_addNew, List.mem_cons, or_assoc]

@[simp] theorem mem_distinct {items : List α} {item : α} :
    item ∈ distinct items ↔ item ∈ items := by
  simp [distinct]

end Distinct

end Renaming

import Renaming.Symbol.Check
import Renaming.Table

/-!
# Mappings

Mappings give new names to classes, to fields and to methods, and tell more about methods: which
classes they throw and what their parameters are called. Fields and methods are filed under the
class that declares them. A class without an entry keeps its name; for a member, an entry that maps
the name to itself is not the same as no entry.

Mappings grow by adding entries. An entry for a key that is there already replaces the old one;
thrown classes are gathered. Entries from texts are checked first, part by part.
-/

namespace Renaming

/-- Values filed under a class and a key within that class. -/
structure Members (κ ν : Type) where
  owners : Table ClassName (Table κ ν)

namespace Members

variable {κ ν : Type}

def empty : Members κ ν := ⟨∅⟩

instance : EmptyCollection (Members κ ν) := ⟨empty⟩

def isEmpty (members : Members κ ν) : Bool := members.owners.isEmpty

/-- All entries: class by class, and key by key within a class. -/
def entries (members : Members κ ν) : List (ClassName × κ × ν) :=
  members.owners.entries.flatMap fun owned => owned.2.entries.map fun entry => (owned.1, entry)

/-- The entries to be kept; classes without entries are dropped. -/
def filter (keep : ClassName → κ → ν → Bool) (members : Members κ ν) : Members κ ν :=
  ⟨(members.owners.mapValues fun owner inner => inner.filter (keep owner)).filter
    fun _ inner => !inner.isEmpty⟩

variable [DecidableEq κ]

/-- The value under the class and the key. -/
def get? (members : Members κ ν) (owner : ClassName) (key : κ) : Option ν :=
  (members.owners.get? owner).bind fun inner => inner.get? key

/-- The entries with a new value under the class and the key, made from the old one if any. -/
def alter (members : Members κ ν) (owner : ClassName) (key : κ) (change : Option ν → ν) :
    Members κ ν :=
  ⟨members.owners.alter owner fun inner => (inner.getD ∅).alter key change⟩

def insert (members : Members κ ν) (owner : ClassName) (key : κ) (value : ν) : Members κ ν :=
  members.alter owner key fun _ => value

/-- The entries that inserting one after the other gives. -/
def ofEntries (entries : List (ClassName × κ × ν)) : Members κ ν :=
  entries.foldl (fun members entry => members.insert entry.1 entry.2.1 entry.2.2) ∅

/-- The entries, and those of another one for keys without an entry. -/
def join (members other : Members κ ν) : Members κ ν :=
  ⟨other.owners.entries.foldl
    (fun owners owned => owners.alter owned.1 fun inner => (inner.getD ∅).join owned.2)
    members.owners⟩

/-- Whether the entries are the same, in whatever order. -/
def sameAs (same : ν → ν → Bool) (members other : Members κ ν) : Bool :=
  members.owners.sameAs (Table.sameAs same) other.owners

/-- The keys of the class on either side, those of the first side first. -/
def keyUnion (members other : Members κ ν) (owner : ClassName) : List κ :=
  distinct ((members.owners.get? owner).elim [] Table.keys ++
    (other.owners.get? owner).elim [] Table.keys)

/-- The classes and keys on either side, class by class, those of the first side first. -/
def union (members other : Members κ ν) : List (ClassName × κ) :=
  (distinct (members.owners.keys ++ other.owners.keys)).flatMap fun owner =>
    (members.keyUnion other owner).map fun key => (owner, key)

@[simp] theorem get?_empty (owner : ClassName) (key : κ) :
    (∅ : Members κ ν).get? owner key = none := rfl

/-- Altering changes the value under that class and key only. -/
theorem get?_alter (members : Members κ ν) (owner other : ClassName) (key key' : κ)
    (change : Option ν → ν) :
    (members.alter owner key change).get? other key' =
      if other = owner ∧ key' = key then some (change (members.get? owner key))
      else members.get? other key' := by
  unfold get? alter
  simp only [Table.get?_alter]
  by_cases sameOwner : other = owner
  · subst sameOwner
    cases members.owners.get? other with
    | none => by_cases sameKey : key' = key <;> simp [Table.get?_alter, sameKey]
    | some inner => by_cases sameKey : key' = key <;> simp [Table.get?_alter, sameKey]
  · simp [sameOwner]

/-- The last insertion under a class and key is what is found. -/
theorem get?_insert (members : Members κ ν) (owner other : ClassName) (key key' : κ) (value : ν) :
    (members.insert owner key value).get? other key' =
      if other = owner ∧ key' = key then some value else members.get? other key' :=
  members.get?_alter owner other key key' fun _ => value

end Members

/-- What is known of a method besides its name. -/
structure MethodExtra where
  /-- The classes it throws, without repetition. -/
  exceptions : List ClassName
  /-- The names of its parameters. -/
  parameters : List ParameterName
deriving DecidableEq

namespace MethodExtra

def empty : MethodExtra := ⟨[], []⟩

def isEmpty (extra : MethodExtra) : Bool := extra.exceptions.isEmpty && extra.parameters.isEmpty

/-- Gathers the thrown classes; parameter names replace the old ones, if there are any. -/
def merge (extra other : MethodExtra) : MethodExtra :=
  { exceptions := addAllNew extra.exceptions other.exceptions
    parameters := if other.parameters.isEmpty then extra.parameters else other.parameters }

/-- Whether the thrown classes are the same in whatever order, and the parameters in order. -/
def sameAs (extra other : MethodExtra) : Bool :=
  sameItems extra.exceptions other.exceptions && extra.parameters == other.parameters

end MethodExtra

/-- New names for classes and members, and more about methods. -/
structure Mappings where
  classes : Table ClassName ClassName
  fields : Members FieldName FieldName
  methods : Members MethodKey MethodName
  extras : Members MethodKey MethodExtra

namespace Mappings

/-- The mappings without entries. -/
def empty : Mappings := ⟨∅, ∅, ∅, ∅⟩

instance : EmptyCollection Mappings := ⟨empty⟩

def isEmpty (mappings : Mappings) : Bool :=
  mappings.classes.isEmpty && mappings.fields.isEmpty && mappings.methods.isEmpty &&
    mappings.extras.isEmpty

/-! ### Looking up -/

/-- The new name of a class, if there is an entry for it. -/
def className? (mappings : Mappings) (name : ClassName) : Option ClassName :=
  mappings.classes.get? name

/-- The new name of a class; without an entry it keeps its name. -/
def className (mappings : Mappings) (name : ClassName) : ClassName :=
  (mappings.className? name).getD name

/-- The new name of a field that the class declares, if there is an entry for it. -/
def fieldName? (mappings : Mappings) (owner : ClassName) (name : FieldName) : Option FieldName :=
  mappings.fields.get? owner name

/-- The new name of a method that the class declares, if there is an entry for it. -/
def methodName? (mappings : Mappings) (owner : ClassName) (key : MethodKey) : Option MethodName :=
  mappings.methods.get? owner key

/-- The new name of a method that the class declares; without an entry it keeps its name. -/
def methodName (mappings : Mappings) (owner : ClassName) (key : MethodKey) : MethodName :=
  (mappings.methodName? owner key).getD key.name

/-- What else is known of a method that the class declares. -/
def extra? (mappings : Mappings) (owner : ClassName) (key : MethodKey) : Option MethodExtra :=
  mappings.extras.get? owner key

/-! ### Adding entries -/

def addClass (mappings : Mappings) (old new : ClassName) : Mappings :=
  { mappings with classes := mappings.classes.insert old new }

def addField (mappings : Mappings) (owner : ClassName) (old new : FieldName) : Mappings :=
  { mappings with fields := mappings.fields.insert owner old new }

def addMethod (mappings : Mappings) (owner : ClassName) (key : MethodKey) (new : MethodName) :
    Mappings :=
  { mappings with methods := mappings.methods.insert owner key new }

/-- Adds thrown classes to those that the method has. -/
def addExceptions (mappings : Mappings) (owner : ClassName) (key : MethodKey)
    (exceptions : List ClassName) : Mappings :=
  { mappings with
    extras := mappings.extras.alter owner key fun old =>
      let extra := old.getD .empty
      { extra with exceptions := addAllNew extra.exceptions exceptions } }

/-- Sets the parameter names of the method. -/
def addParameters (mappings : Mappings) (owner : ClassName) (key : MethodKey)
    (parameters : List ParameterName) : Mappings :=
  { mappings with
    extras := mappings.extras.alter owner key fun old => { old.getD .empty with parameters } }

/-- A part of an entry from its text, which must pass the check of its kind. -/
def part {kind : SymbolKind} (text : String) : Except Fault (Symbol kind) :=
  (Symbol.parse text).mapError (.mappingInput text)

/-- Adds an entry for a class from texts. -/
def addClassText (mappings : Mappings) (old new : String) : Except Fault Mappings := do
  let old ← part old
  let new ← part new
  return mappings.addClass old new

/-- Adds an entry for a field from texts. -/
def addFieldText (mappings : Mappings) (owner old new : String) : Except Fault Mappings := do
  let owner ← part owner
  let old ← part old
  let new ← part new
  return mappings.addField owner old new

/-- Adds an entry for a method from texts. -/
def addMethodText (mappings : Mappings) (owner old descriptor new : String) :
    Except Fault Mappings := do
  let owner ← part owner
  let name ← part old
  let descriptor ← part descriptor
  let new ← part new
  return mappings.addMethod owner ⟨name, descriptor⟩ new

/-- Whether the mappings have the same entries, in whatever order. -/
def sameAs (mappings other : Mappings) : Bool :=
  mappings.classes.sameAs (· == ·) other.classes &&
    mappings.fields.sameAs (· == ·) other.fields &&
    mappings.methods.sameAs (· == ·) other.methods &&
    mappings.extras.sameAs MethodExtra.sameAs other.extras

end Mappings

end Renaming

import Renaming.Mappings.Basic

/-!
# Thrown classes from elsewhere

A supplement lists classes that methods throw, from a source other than the mappings. Its names are
those from before renaming. The classes of a method are kept in the order of insertion, repetitions
included.
-/

namespace Renaming

/-- Classes that methods throw, by owner and method. -/
structure Supplement where
  thrown : Members MethodKey (List ClassName)

namespace Supplement

def empty : Supplement := ⟨∅⟩

instance : EmptyCollection Supplement := ⟨empty⟩

def isEmpty (supplement : Supplement) : Bool := supplement.thrown.isEmpty

/-- Adds classes behind those that the method has. -/
def insert (supplement : Supplement) (owner : ClassName) (key : MethodKey)
    (exceptions : List ClassName) : Supplement :=
  ⟨supplement.thrown.alter owner key fun old => old.getD [] ++ exceptions⟩

/-- The classes of a method, if it has an entry. -/
def get? (supplement : Supplement) (owner : ClassName) (key : MethodKey) :
    Option (List ClassName) :=
  supplement.thrown.get? owner key

/-- All entries in order. -/
def entries (supplement : Supplement) : List (ClassName × MethodKey × List ClassName) :=
  supplement.thrown.entries

end Supplement

end Renaming

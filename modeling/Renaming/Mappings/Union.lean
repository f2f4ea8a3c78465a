import Renaming.Supplement

/-!
# Joining and cleaning mappings

`join` unites two mappings; where both have an entry, that of the first is kept. `cleanRetaining`
drops entries that say nothing: names mapped to themselves and extras without content. An entry that
maps a method to itself is kept if the method is known to throw something.
-/

namespace Renaming.Mappings

/-- The entries of both mappings; where both have one, that of the first. -/
def join (mappings other : Mappings) : Mappings :=
  { classes := mappings.classes.join other.classes
    fields := mappings.fields.join other.fields
    methods := mappings.methods.join other.methods
    extras := mappings.extras.join other.extras }

/-- Whether the mappings or the supplement know a class that the method throws. -/
def throwsSomething (mappings : Mappings) (supplement : Supplement) (owner : ClassName)
    (key : MethodKey) : Bool :=
  ((mappings.extra? owner key).any fun extra => !extra.exceptions.isEmpty) ||
    ((supplement.get? owner key).any fun exceptions => !exceptions.isEmpty)

/-- The entries that rename something or tell something. -/
def cleanRetaining (mappings : Mappings) (supplement : Supplement) : Mappings :=
  { classes := mappings.classes.filter fun old new => old ≠ new
    fields := mappings.fields.filter fun _ old new => old ≠ new
    methods := mappings.methods.filter fun owner key new =>
      key.name ≠ new || mappings.throwsSomething supplement owner key
    extras := mappings.extras.filter fun _ _ extra => !extra.isEmpty }

/-- The entries that rename something or tell something, without a supplement. -/
def clean (mappings : Mappings) : Mappings := mappings.cleanRetaining ∅

end Renaming.Mappings

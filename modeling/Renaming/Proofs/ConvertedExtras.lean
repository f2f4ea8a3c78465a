import Renaming.Proofs.CanonicalMappings
import Renaming.Proofs.CollidingTargets
import Renaming.Proofs.Conversion

/-!
# Thrown classes in converted mappings

With mappings `A → B` and `B → C`, what the second ones know of a method is said in terms of `B`,
and the converted mappings `A → C` have to say it in terms of `A`. Several classes of `A` may have
one name in `B`, so there is no way back in general: of the classes with that name the last one is
taken (`Mappings.oldClassName`).

* `Mappings.className_oldClassName_iff`: that class leads to the name again, exactly if the name is
  one of `B` at all, that is, if some class has it or no class had to give it up.
* `Mappings.extra?_converted`: there is one converted extra for each extra of the first mappings.
* `Mappings.image_exceptions_convertedExtra`: seen from `B`, the classes that a converted extra
  lists are those of both sides. None is lost and none is added, whatever collides.
-/

namespace Renaming

namespace Mappings

variable {mappings : Mappings}

/-! ### Back to the first vocabulary -/

/-- What a class is called in terms of `A` is read off the swapped table. -/
theorem oldClassName_eq (name : ClassName) :
    mappings.oldClassName name = (mappings.classes.swapped.get? name).getD name := rfl

/-- The name is one that the mappings lead to: a class has it as its new name, or it is kept. -/
def LeadsTo (mappings : Mappings) (name : ClassName) : Prop :=
  (∃ old, mappings.className? old = some name) ∨ mappings.className? name = none

/-- **A name comes back to itself** exactly if the mappings lead to it. -/
theorem className_oldClassName_iff (unambiguous : mappings.classes.Unambiguous) {name : ClassName} :
    mappings.className (mappings.oldClassName name) = name ↔ mappings.LeadsTo name := by
  rw [oldClassName_eq]
  cases back : mappings.classes.swapped.get? name with
  | some old =>
    have found : mappings.className? old = some name :=
      Table.get?_of_get?_swapped unambiguous back
    exact iff_of_true (className_of_eq_some found) (Or.inl ⟨old, found⟩)
  | none =>
    have unreached : ∀ old, mappings.className? old ≠ some name := by
      intro old found
      have target : name ∈ mappings.classes.swapped.keys := by
        rw [Table.keys_swapped, mem_distinct]
        exact List.mem_map.mpr ⟨(old, name), Table.mem_entries_of_get? found, rfl⟩
      rw [← Table.isSome_get?_iff, back] at target
      cases target
    have kept : mappings.className name = name ↔ mappings.className? name = none := by
      unfold className
      cases found : mappings.className? name with
      | none => simp
      | some new =>
        -- nothing leads to the name, so an entry for it leads elsewhere
        have elsewhere : new ≠ name := by
          rintro rfl
          exact unreached new found
        simp [elsewhere]
    rw [Option.getD_none, LeadsTo, or_iff_right fun ⟨old, found⟩ => unreached old found]
    exact kept

/-! ### One extra -/

section Extra

variable (mappings) {ours : MethodExtra} (theirs : Option MethodExtra)

theorem isPrefix_exceptions_convertedExtra :
    ours.exceptions <+: (mappings.convertedExtra ours theirs).exceptions := by
  cases theirs with
  | none => exact List.prefix_rfl
  | some theirs => exact isPrefix_addAllNew ours.exceptions _

theorem distinct_convertedExtra (distinct : ours.Distinct) :
    (mappings.convertedExtra ours theirs).Distinct := by
  cases theirs with
  | none => exact distinct
  | some theirs => exact distinct.merge _

theorem parameters_convertedExtra :
    (∀ extra ∈ theirs, extra.parameters ≠ [] →
        (mappings.convertedExtra ours theirs).parameters = extra.parameters) ∧
      ((∀ extra ∈ theirs, extra.parameters = []) →
        (mappings.convertedExtra ours theirs).parameters = ours.parameters) := by
  cases theirs with
  | none => simp [convertedExtra]
  | some theirs =>
    by_cases unnamed : theirs.parameters = [] <;>
      simp [convertedExtra, MethodExtra.merge, unnamed]

theorem mem_exceptions_convertedExtra {old : ClassName} :
    old ∈ (mappings.convertedExtra ours theirs).exceptions ↔
      old ∈ ours.exceptions ∨
        ∃ extra ∈ theirs, ∃ name ∈ extra.exceptions, mappings.oldClassName name = old := by
  cases theirs with
  | none => simp [convertedExtra]
  | some theirs => simp [convertedExtra, MethodExtra.merge]

variable {mappings theirs}

/-- **Seen in terms of `B`, the classes of a converted extra are those of both sides.** -/
theorem image_exceptions_convertedExtra (unambiguous : mappings.classes.Unambiguous)
    (led : ∀ extra ∈ theirs, ∀ name ∈ extra.exceptions, mappings.LeadsTo name) :
    mappings.className '' {old | old ∈ (mappings.convertedExtra ours theirs).exceptions} =
      mappings.className '' {old | old ∈ ours.exceptions} ∪
        {name | ∃ extra ∈ theirs, name ∈ extra.exceptions} := by
  have restored : ∀ extra ∈ theirs, ∀ name ∈ extra.exceptions,
      mappings.className (mappings.oldClassName name) = name := fun extra known name thrown =>
    (className_oldClassName_iff unambiguous).mpr (led extra known name thrown)
  ext new
  simp only [Set.mem_image, Set.mem_union, Set.mem_ofPred_eq, mem_exceptions_convertedExtra]
  constructor
  · rintro ⟨old, own | ⟨extra, known, name, thrown, rfl⟩, rfl⟩
    · exact Or.inl ⟨old, own, rfl⟩
    · rw [restored extra known name thrown]
      exact Or.inr ⟨extra, known, thrown⟩
  · rintro (⟨old, own, rfl⟩ | ⟨extra, known, thrown⟩)
    · exact ⟨old, Or.inl own, rfl⟩
    · exact ⟨mappings.oldClassName new, Or.inr ⟨extra, known, new, thrown, rfl⟩,
        restored extra known new thrown⟩

end Extra

/-! ### All extras -/

/-- Extras are looked up one by one: none is merged with another. -/
theorem extra?_converted (other : Mappings) (unambiguous : mappings.extras.Unambiguous)
    (sets : ∀ entry ∈ mappings.extras.entries, entry.2.2.Distinct) (owner : ClassName)
    (key : MethodKey) :
    (mappings.converted other).extra? owner key =
      (mappings.extra? owner key).map fun ours => mappings.convertedExtra ours
        (other.extra? (mappings.className owner) (mappings.newKey owner key)) := by
  let change (owner : ClassName) (entry : MethodKey × MethodExtra) : MethodKey × MethodExtra :=
    (entry.1, mappings.convertedExtra entry.2
      (other.extra? (mappings.className owner) (mappings.newKey owner entry.1)))
  let entries := mappings.extras.entries.map fun listed => (listed.1, change listed.1 listed.2)
  have keys : (entries.map Members.flat).map Prod.fst =
      (mappings.extras.entries.map Members.flat).map Prod.fst := by
    simp only [entries, List.map_map]
    rfl
  have inserted : (mappings.converted other).extras = .ofEntries entries := by
    refine mergedExtras_of_nodup ?_ fun entry listed => ?_
    · show ((entries.map Members.flat).map Prod.fst).Nodup
      rw [keys]
      exact unambiguous.nodup_flat
    · obtain ⟨old, present, rfl⟩ := List.mem_map.mp listed
      exact mappings.distinct_convertedExtra _ (sets old present)
  unfold extra?
  rw [inserted]
  exact Members.get?_ofEntries_map unambiguous id change (fun _ _ here same => ⟨here, same⟩)
    fun _ _ => rfl

/-- **Conversion keeps what is known of methods.** Converting succeeds if descriptors are valid, and
the converted mappings know something of exactly the methods that the first mappings know something
of. What the second mappings know of such a method is looked up under its class, name and descriptor
in terms of the first ones. The classes that the first mappings list come first and in order, and no
class is listed twice; the parameters are those of the second mappings, if these list any. If every
class that the second mappings list is one that the first ones lead to, then seen through the first
mappings the listed classes are those of both sides, also where new names collide. -/
theorem conversion_keeps_extras {mappings : Mappings} (other : Mappings)
    (unambiguous : mappings.Unambiguous)
    (sets : ∀ entry ∈ mappings.extras.entries, entry.2.2.exceptions.Nodup)
    (valid : mappings.ValidDescriptors) :
    ∃ converted, mappings.convert other = .ok converted ∧
      (∀ owner key, (converted.extra? owner key).isSome ↔ (mappings.extra? owner key).isSome) ∧
      ∀ owner key ours, mappings.extra? owner key = some ours →
        ∃ newKey theirs extra, mappings.methodKey owner key = .ok newKey ∧
          other.extra? (mappings.className owner) newKey = theirs ∧
          converted.extra? owner key = some extra ∧
          ours.exceptions <+: extra.exceptions ∧ extra.exceptions.Nodup ∧
          (∀ known ∈ theirs, known.parameters ≠ [] → extra.parameters = known.parameters) ∧
          ((∀ known ∈ theirs, known.parameters = []) → extra.parameters = ours.parameters) ∧
          ((∀ known ∈ theirs, ∀ name ∈ known.exceptions,
              (∃ old, mappings.className? old = some name) ∨ mappings.className? name = none) →
            mappings.className '' {old | old ∈ extra.exceptions} =
              mappings.className '' {old | old ∈ ours.exceptions} ∪
                {name | ∃ known ∈ theirs, name ∈ known.exceptions}) := by
  have lookUp := extra?_converted other unambiguous.extras sets
  refine ⟨mappings.converted other, convert_eq valid, fun owner key => ?_, ?_⟩
  · rw [lookUp, Option.isSome_map]
  intro owner key ours found
  have fine : key.descriptor.Valid := valid.of_extra (Option.isSome_iff_exists.mpr ⟨ours, found⟩)
  have distinct : ours.Distinct := sets (owner, key, ours) (Members.mem_entries_of_get? found)
  let theirs := other.extra? (mappings.className owner) (mappings.newKey owner key)
  obtain ⟨named, unnamed⟩ := mappings.parameters_convertedExtra theirs
  refine ⟨mappings.newKey owner key, theirs, mappings.convertedExtra ours theirs,
    methodKey_of_valid fine, rfl, ?_, mappings.isPrefix_exceptions_convertedExtra theirs,
    mappings.distinct_convertedExtra theirs distinct, named, unnamed,
    image_exceptions_convertedExtra unambiguous.classes⟩
  rw [lookUp, found, Option.map_some]

namespace Throwing

def key : MethodKey := ⟨⟨"m"⟩, ⟨"(La;)V"⟩⟩

/-- The classes `a` and `b` are both called `x`; a method throws `a` and a class that keeps its
name. -/
def first : Mappings :=
  ((((((∅ : Mappings).addClass ⟨"a"⟩ ⟨"x"⟩).addClass ⟨"b"⟩ ⟨"x"⟩).addClass ⟨"c"⟩ ⟨"y"⟩).addMethod
    ⟨"c"⟩ key ⟨"n"⟩).addExceptions ⟨"c"⟩ key [⟨"a"⟩, ⟨"e"⟩]).addParameters ⟨"c"⟩ key [⟨"p"⟩]

/-- The same method under its new names. -/
def second : Mappings :=
  (∅ : Mappings).addExceptions ⟨"y"⟩ ⟨⟨"n"⟩, ⟨"(Lx;)V"⟩⟩ [⟨"f"⟩, ⟨"x"⟩, ⟨"e"⟩]

/-- Of the classes that are called `x` the last one is listed, though `a` is there already. -/
def thrown : List ClassName := [⟨"a"⟩, ⟨"e"⟩, ⟨"f"⟩, ⟨"b"⟩]

end Throwing

open Throwing in
/-- Seen through the first mappings the four classes are the three that both sides list. -/
theorem colliding_exceptions_kept :
    ∃ converted, first.convert second = .ok converted ∧
      ∃ extra, converted.extra? ⟨"c"⟩ key = some extra ∧ extra = ⟨thrown, [⟨"p"⟩]⟩ ∧
        first.className '' {old | old ∈ thrown} =
          first.className '' {old | old ∈ ([⟨"a"⟩, ⟨"e"⟩] : List ClassName)} ∪
            {name | name ∈ ([⟨"f"⟩, ⟨"x"⟩, ⟨"e"⟩] : List ClassName)} := by
  have unambiguous : first.Unambiguous := by
    refine ⟨?_, ⟨?_, ?_⟩, ⟨?_, ?_⟩, ⟨?_, ?_⟩⟩ <;> decide
  have sets : ∀ entry ∈ first.extras.entries, entry.2.2.exceptions.Nodup := by decide
  have fine : key.descriptor.Valid := by
    unfold Symbol.Valid
    cbv
  have valid : first.ValidDescriptors :=
    ⟨List.forall_mem_singleton.mpr fine, List.forall_mem_singleton.mpr fine⟩
  obtain ⟨converted, done, _, kept⟩ := conversion_keeps_extras second unambiguous sets valid
  obtain ⟨newKey, theirs, extra, named, known, found, _, _, _, _, image⟩ :=
    kept ⟨"c"⟩ key ⟨[⟨"a"⟩, ⟨"e"⟩], [⟨"p"⟩]⟩ (by decide)
  have renamed : first.methodKey ⟨"c"⟩ key = .ok ⟨⟨"n"⟩, ⟨"(Lx;)V"⟩⟩ := by cbv
  have sameKey : newKey = ⟨⟨"n"⟩, ⟨"(Lx;)V"⟩⟩ := Except.ok.inj (named.symm.trans renamed)
  have theirExtra : theirs = some ⟨[⟨"f"⟩, ⟨"x"⟩, ⟨"e"⟩], []⟩ := by
    rw [← known, sameKey]
    decide
  have ourExtra : extra = ⟨thrown, [⟨"p"⟩]⟩ := by
    have computed : (first.convert second).map (fun all => all.extra? ⟨"c"⟩ key) =
        .ok (some ⟨thrown, [⟨"p"⟩]⟩) := by cbv
    rw [done] at computed
    exact Option.some.inj (found.symm.trans (Except.ok.inj computed))
  refine ⟨converted, done, extra, found, ourExtra, ?_⟩
  rw [theirExtra, ourExtra] at image
  have led : ∀ name ∈ ([⟨"f"⟩, ⟨"x"⟩, ⟨"e"⟩] : List ClassName),
      (∃ old, first.className? old = some name) ∨ first.className? name = none := by
    simp only [List.forall_mem_cons]
    exact ⟨Or.inr (by decide), Or.inl ⟨⟨"a"⟩, by decide⟩, Or.inr (by decide),
      List.forall_mem_nil _⟩
  simpa using image (by simpa using led)

end Mappings

end Renaming

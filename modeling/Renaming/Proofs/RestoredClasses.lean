import Renaming.Proofs.UndonePass
import Renaming.Proofs.UndottedSignatures
import Renaming.Proofs.WayBack

/-!
# Classes on the way back

A pass with entries for classes only is undone by a pass with the reversed mappings: every class
becomes again what it was. This asks that the classes that the mappings or the program mention are
kept apart, and that all texts in which class names stand can be read, before the first pass and,
since the new names have to fit into descriptors and signatures, also after it.

Three things are lost on the way and must not be there. What stands behind the dot of a nested class
in a signature is cut out of its new name, the simple name of a nested class is made anew, and of
two equal thrown classes one is dropped.
-/

namespace Renaming

/-- A text of the grammar in which all classes have their full names, which are among the given
ones. -/
def Grammar.NamesFully (τ : Type) [Grammar τ] (names : Set ClassName) (text : String) : Prop :=
  check τ text = .ok () ∧ '.' ∉ text.toList ∧ ∀ name ∈ namesIn τ text, name ∈ names

/-- The classes that symbols mention are among the given ones. Descriptors, signatures and the names
of array classes are to be valid, so that they mention classes at all, and signatures are to mention
them with their full names. -/
def Requirement.mentioning (names : Set ClassName) : Requirement
  | .name .type, name =>
    (ClassName.isArray name = true → name.Valid) ∧ ∀ part ∈ ClassName.objectNames name, part ∈ names
  | .name _, _ => True
  | .fieldDescriptor, descriptor =>
    descriptor.Valid ∧ ∀ name ∈ FieldDescriptor.classNames descriptor, name ∈ names
  | .methodDescriptor, descriptor =>
    descriptor.Valid ∧ ∀ name ∈ MethodDescriptor.classNames descriptor, name ∈ names
  | .classSignature, signature => Grammar.NamesFully ClassSig names signature.text
  | .fieldSignature, signature => Grammar.NamesFully TypeSig names signature.text
  | .methodSignature, signature => Grammar.NamesFully MethodSig names signature.text

theorem ledBack_of_bind {α : Type} {there back : α → Except Fault α} {value : α}
    (twice : (there value >>= back) = .ok value) : LedBack there back value :=
  Recorded.except_bind_eq_ok_iff.mp twice

/-- A text with full names is led back by leading back the names. -/
theorem Grammar.NamesFully.ledBack {τ : Type} [Grammar τ] [LawfulGrammar τ] [UndottedGrammar τ]
    {kind : SymbolKind} {names : Set ClassName} {symbol : Symbol kind}
    (fine : NamesFully τ names symbol.text) {first second : ClassName → Option ClassName}
    (admits : ∀ old new, LawfulGrammar.Admits τ old → first old = some new →
      LawfulGrammar.Admits τ new)
    (undone : ∀ name ∈ names, newName second (newName first name) = name) :
    LedBack (fun symbol : Symbol kind => (renameText τ first symbol.text).map Symbol.mk)
      (fun symbol => (renameText τ second symbol.text).map Symbol.mk) symbol := by
  obtain ⟨passes, undotted, inside⟩ := fine
  have twice := renameText_undone τ admits passes undotted fun name occurs =>
    undone name (inside name occurs)
  apply ledBack_of_bind
  exact (map_renameText_bind τ _ _ _).trans (congrArg (Except.map Symbol.mk) twice)

namespace Mappings

variable {mappings : Mappings}

/-- The new names of classes may stand in signatures. -/
def SignatureTargets (mappings : Mappings) : Prop :=
  ∀ entry ∈ mappings.classes.entries, isSignatureName entry.2.text.toList = true

instance (mappings : Mappings) : Decidable mappings.SignatureTargets :=
  inferInstanceAs
    (Decidable (∀ entry ∈ mappings.classes.entries, isSignatureName entry.2.text.toList = true))

theorem SignatureTargets.objectTargets (targets : mappings.SignatureTargets) :
    mappings.ObjectTargets :=
  fun entry listed => isObjectName_of_isSignatureName (targets entry listed)

theorem SignatureTargets.admits (targets : mappings.SignatureTargets) (old new : ClassName) :
    isSignatureName old.text.toList = true → mappings.className? old = some new →
      isSignatureName new.text.toList = true :=
  fun _ found => targets (old, new) (Table.mem_entries_of_get? found)

/-! ### Reversed mappings -/

theorem OnlyClasses.validDescriptors (only : mappings.OnlyClasses) : mappings.ValidDescriptors := by
  constructor
  · rw [only.methods]
    exact nofun
  · rw [only.extras]
    exact nofun

theorem OnlyClasses.reversed (only : mappings.OnlyClasses) : mappings.reversed.OnlyClasses := by
  refine ⟨?_, ?_, ?_⟩
  · rw [Mappings.reversed, only.fields]
    rfl
  · rw [Mappings.reversed, only.methods]
    rfl
  · rw [Mappings.reversed, only.extras]
    rfl

/-- The keys of reversed mappings are the new names. -/
theorem ObjectTargets.objectKeys_reversed (targets : mappings.ObjectTargets) :
    mappings.reversed.ObjectKeys := by
  intro name listed
  have found : (mappings.reversed.className? name).isSome := Table.isSome_get?_iff.mpr listed
  obtain ⟨old, member⟩ := Table.exists_of_isSome_ofEntries found
  obtain ⟨entry, present, same⟩ := List.mem_map.mp member
  obtain rfl : entry.2 = name := congrArg Prod.fst same
  exact targets entry present

section Back

variable {names : Set ClassName} (unambiguous : mappings.classes.Unambiguous)
  (known : ∀ name ∈ mappings.classes.keys, name ∈ names)
  (injective : Set.InjOn mappings.className names)

include unambiguous known injective

/-- A thrown class is led back. Those of arrays have no entries in either direction. -/
theorem className_reversed_of_thrown (keys : mappings.ObjectKeys) (targets : mappings.ObjectTargets)
    {name : ClassName} (inside : ∀ part ∈ name.objectNames, part ∈ names) :
    mappings.reversed.className (mappings.className name) = name := by
  cases array : name.isArray with
  | true =>
    rw [keys.className_of_isArray array, targets.objectKeys_reversed.className_of_isArray array]
  | false =>
    rw [ClassName.objectNames_of_not_isArray array] at inside
    exact className_reversed unambiguous known injective (inside name List.mem_cons_self)

/-- Reversed mappings lead back symbols that mention only classes that are kept apart. -/
theorem undoneBy_reversed (only : mappings.OnlyClasses) (keys : mappings.ObjectKeys)
    (targets : mappings.SignatureTargets) :
    mappings.UndoneBy mappings.reversed (.mentioning names) := by
  have undone : ∀ name ∈ names, mappings.reversed.className (mappings.className name) = name :=
    fun name within => className_reversed unambiguous known injective within
  -- Together the two mappings make of a name what mappings without entries make of it.
  have both : ∀ name ∈ names,
      mappings.reversed.className (mappings.className name) =
        (∅ : Mappings).className name := undone
  constructor
  case onlyClasses => exact only
  case onlyClassesBack => exact only.reversed
  case className =>
    rintro name ⟨fine, inside⟩
    have twice := classNameAny_bind targets.objectTargets fun part occurs =>
      both part (inside part occurs)
    exact ledBack_of_bind (twice.trans (classNameAny_empty fine))
  case fieldDescriptor =>
    rintro descriptor ⟨fine, inside⟩
    have twice := fieldDescriptor_bind targets.objectTargets fun name occurs =>
      both name (inside name occurs)
    exact ledBack_of_bind (twice.trans (fieldDescriptor_empty fine))
  case methodDescriptor =>
    rintro descriptor ⟨fine, inside⟩
    have twice := methodDescriptor_bind targets.objectTargets fun name occurs =>
      both name (inside name occurs)
    exact ledBack_of_bind (twice.trans (methodDescriptor_empty fine))
  case classSignature =>
    intro signature fine
    exact Grammar.NamesFully.ledBack fine targets.admits undone
  case fieldSignature =>
    intro signature fine
    exact Grammar.NamesFully.ledBack fine targets.admits undone
  case methodSignature =>
    intro signature fine
    exact Grammar.NamesFully.ledBack fine targets.admits undone
  case thrown =>
    intro exceptions nodup fine
    apply exceptionNames_undone nodup
    intro name thrown
    exact className_reversed_of_thrown unambiguous known injective keys targets.objectTargets
      (fine name thrown).2

end Back

/-- **Renaming the classes of a program is undone by the reversed mappings.** Let the mappings have
entries for classes only, let these be no arrays, and let their new names fit into signatures. Let
the classes that have entries or that the program mentions be kept apart by their new names, and let
there be nothing in the program that is lost on the way. Then a pass over the program that leaves
bridges alone and adds no thrown classes ends well, and such a pass over what it gives, with the
reversed mappings and with whatever hierarchy, gives the program. -/
theorem reversed_restores_classes {mappings : Mappings} (only : mappings.OnlyClasses)
    (unambiguous : mappings.classes.Unambiguous) (keys : mappings.ObjectKeys)
    (targets : mappings.SignatureTargets) {names : Set ClassName}
    (known : ∀ name ∈ mappings.classes.keys, name ∈ names)
    (injective : Set.InjOn mappings.className names) {classes : List ClassFile}
    (mentioned : ∀ file ∈ classes, file.Meets (.mentioning names))
    (restorable : ∀ file ∈ classes, file.IsRestorable) (hierarchy otherHierarchy : Hierarchy)
    (options otherOptions : PassOptions) (keeps : options.degradeBridges = false)
    (keepsToo : otherOptions.degradeBridges = false) :
    ∃ back renamed report reportBack, mappings.reverse = .ok back ∧
      (renameClasses classes mappings hierarchy ∅ options).result = .ok (renamed, report) ∧
        (renameClasses renamed back otherHierarchy ∅ otherOptions).result =
          .ok (classes, reportBack) := by
  have undone := undoneBy_reversed unambiguous known injective only keys targets
  obtain ⟨renamed, report, reportBack, done, restored⟩ :=
    undone.renameClasses mentioned restorable hierarchy otherHierarchy keeps keepsToo
  exact ⟨mappings.reversed, renamed, report, reportBack, reverse_eq only.validDescriptors,
    done, restored⟩

end Mappings

namespace ExchangedClasses

/-- Two classes exchange their names. -/
def mappings : Mappings := ((∅ : Mappings).addClass ⟨"a"⟩ ⟨"b"⟩).addClass ⟨"b"⟩ ⟨"a"⟩

def names : List ClassName := [⟨"a"⟩, ⟨"b"⟩, ⟨"l"⟩]

/-- A class below the other one, with a field that has a signature and with a method that throws
both of them and casts to an array. -/
def file (name other array : ClassName) (field : FieldDescriptor) (generic : FieldSignature)
    (run : MethodDescriptor) : ClassFile where
  version := ⟨61, 0⟩
  access := .none
  name := name
  superClass := some other
  interfaces := []
  fields := [⟨.none, ⟨"f"⟩, field, some generic⟩]
  methods := [⟨.none, ⟨"m"⟩, run, some ⟨none, none, [⟨none, .withClass .cast array⟩],
    [], none, none, none⟩, some [other, name], none, none⟩]
  nestedClasses := none
  enclosingMethod := none
  signature := none
  sourceFile := none
  nestHost := none
  nestMembers := none
  permittedSubclasses := none

def program : ClassFile := file ⟨"a"⟩ ⟨"b"⟩ ⟨"[La;"⟩ ⟨"Ll;"⟩ ⟨"Ll<[La;Lb;>;"⟩ ⟨"(La;)Lb;"⟩

def renamed : ClassFile := file ⟨"b"⟩ ⟨"a"⟩ ⟨"[Lb;"⟩ ⟨"Ll;"⟩ ⟨"Ll<[Lb;La;>;"⟩ ⟨"(Lb;)La;"⟩

theorem renameClasses_program :
    (renameClasses [program] mappings ∅ ∅ ⟨false, true, true⟩).result =
      .ok ([renamed], ⟨1, []⟩) := by
  cbv

theorem mentioning_of_mem {name : ClassName} (object : name.isArray = false)
    (listed : name ∈ names) : Requirement.mentioning {name | name ∈ names} (.name .type) name := by
  refine ⟨fun array => absurd array (ne_true_of_eq_false object), fun part occurs => ?_⟩
  rw [ClassName.objectNames_of_not_isArray object, List.mem_singleton] at occurs
  rw [occurs]
  exact listed

theorem program_meets : program.Meets (.mentioning {name | name ∈ names}) := by
  have first : Requirement.mentioning {name | name ∈ names} (.name .type) ⟨"a"⟩ :=
    mentioning_of_mem (by decide) (by decide)
  have second : Requirement.mentioning {name | name ∈ names} (.name .type) ⟨"b"⟩ :=
    mentioning_of_mem (by decide) (by decide)
  have array : Requirement.mentioning {name | name ∈ names} (.name .type) ⟨"[La;"⟩ := by
    have inside : ClassName.objectNames ⟨"[La;"⟩ = [⟨"a"⟩] := by cbv
    refine ⟨fun _ => by unfold Symbol.Valid; cbv, ?_⟩
    rw [inside]
    decide
  have typed : Requirement.mentioning {name | name ∈ names} .fieldDescriptor ⟨"Ll;"⟩ := by
    have inside : FieldDescriptor.classNames ⟨"Ll;"⟩ = [⟨"l"⟩] := by cbv
    refine ⟨by unfold Symbol.Valid; cbv, ?_⟩
    rw [inside]
    decide
  have generic : Requirement.mentioning {name | name ∈ names} .fieldSignature ⟨"Ll<[La;Lb;>;"⟩ := by
    have inside : Grammar.namesIn TypeSig "Ll<[La;Lb;>;" = [⟨"l"⟩, ⟨"a"⟩, ⟨"b"⟩] := by cbv
    refine ⟨by cbv, by decide, ?_⟩
    rw [inside]
    decide
  have called : Requirement.mentioning {name | name ∈ names} .methodDescriptor ⟨"(La;)Lb;"⟩ := by
    have inside : MethodDescriptor.classNames ⟨"(La;)Lb;"⟩ = [⟨"a"⟩, ⟨"b"⟩] := by cbv
    refine ⟨by unfold Symbol.Valid; cbv, ?_⟩
    rw [inside]
    decide
  have absent {α : Type} {good : α → Prop} : ∀ value ∈ (none : Option α), good value :=
    fun value impossible => absurd impossible (Option.not_mem_none value)
  have present {α : Type} {good : α → Prop} {value : α} (fine : good value) :
      ∀ other ∈ some value, good other :=
    fun _ same => Option.mem_some_iff.mp same ▸ fine
  have field : Field.Meets (.mentioning {name | name ∈ names})
      ⟨.none, ⟨"f"⟩, ⟨"Ll;"⟩, some ⟨"Ll<[La;Lb;>;"⟩⟩ :=
    ⟨trivial, typed, present generic⟩
  have code : Code.Meets (.mentioning {name | name ∈ names})
      ⟨none, none, [⟨none, .withClass .cast ⟨"[La;"⟩⟩], [], none, none, none⟩ :=
    ⟨List.forall_mem_singleton.mpr array, List.forall_mem_nil _, absent⟩
  have thrown : ∀ exceptions ∈ some [(⟨"b"⟩ : ClassName), ⟨"a"⟩], ∀ name ∈ exceptions,
      Requirement.mentioning {name | name ∈ names} (.name .type) name :=
    present (List.forall_mem_cons.mpr ⟨second, List.forall_mem_singleton.mpr first⟩)
  exact {
    name := first
    superClass := present second
    interfaces := List.forall_mem_nil _
    fields := List.forall_mem_singleton.mpr field
    methods := List.forall_mem_singleton.mpr ⟨trivial, called, present code, thrown, absent⟩
    nestedClasses := absent
    enclosingMethod := absent
    signature := absent
    nestHost := absent
    nestMembers := absent
    permittedSubclasses := absent }

end ExchangedClasses

/-- Each of two classes takes the name of the other one, by itself, in an array, in a descriptor, in
a signature and among thrown classes, and the way back restores all of these. -/
theorem exchanged_classes_restored :
    (renameClasses [ExchangedClasses.program] ExchangedClasses.mappings ∅ ∅
          ⟨false, true, true⟩).result =
        .ok ([ExchangedClasses.renamed], ⟨1, []⟩) ∧
      ∃ back report, ExchangedClasses.mappings.reverse = .ok back ∧
        (renameClasses [ExchangedClasses.renamed] back ∅ ∅ ⟨false, true, true⟩).result =
          .ok ([ExchangedClasses.program], report) := by
  have only : ExchangedClasses.mappings.OnlyClasses := ⟨by decide, by decide, by decide⟩
  have unambiguous : ExchangedClasses.mappings.classes.Unambiguous := by decide
  have keys : ExchangedClasses.mappings.ObjectKeys := by decide
  have targets : ExchangedClasses.mappings.SignatureTargets := by decide
  have known : ∀ name ∈ ExchangedClasses.mappings.classes.keys,
      name ∈ {name | name ∈ ExchangedClasses.names} := by
    decide
  have apart : ∀ name ∈ ExchangedClasses.names, ∀ other ∈ ExchangedClasses.names,
      ExchangedClasses.mappings.className name = ExchangedClasses.mappings.className other →
        name = other := by
    decide
  have injective : Set.InjOn ExchangedClasses.mappings.className
      {name | name ∈ ExchangedClasses.names} :=
    fun name here other there => apart name here other there
  have restorable : ExchangedClasses.program.IsRestorable := by
    refine ⟨rfl, List.forall_mem_singleton.mpr fun | _, rfl => ?_⟩
    decide
  obtain ⟨back, renamed, report, reportBack, reversed, done, restored⟩ :=
    Mappings.reversed_restores_classes only unambiguous keys targets known injective
      (List.forall_mem_singleton.mpr ExchangedClasses.program_meets)
      (List.forall_mem_singleton.mpr restorable) ∅ ∅ ⟨false, true, true⟩ ⟨false, true, true⟩ rfl rfl
  cases ExchangedClasses.renameClasses_program.symm.trans done
  exact ⟨done, back, reportBack, reversed, restored⟩

end Renaming

import Renaming.Proofs.DescriptorGrammar
import Renaming.Proofs.Requirements
import Renaming.Proofs.SignatureGrammar
import Renaming.Renamer

/-!
# Mappings from checked names

Mappings that are built from checked parts have valid names throughout. This alone does not make
their renaming keep texts valid: array names and names with `<`, `>` or `:` are valid names of
classes, but an array name cannot stand in a descriptor, and the other ones cannot stand in a
signature. `Mappings.KeepsShapes` says that no class gets a name of a shape that its old name did
not have.

* `Mappings.Built.valid`: mappings built from checked parts have valid names.
* `Mappings.exists_classNameAny` and its companions: such mappings rename every valid text, and what
  comes out is valid if the mappings keep the shapes of names.
-/

namespace Renaming

namespace Mappings

open Recorded (except_bind_eq_ok_iff)

/-! ### Building mappings -/

/-- The mappings that come from checked parts. -/
inductive Built : Mappings → Prop
  | empty : Built ∅
  | addClass {mappings after : Mappings} {old new : String} :
      Built mappings → mappings.addClassText old new = .ok after → Built after
  | addField {mappings after : Mappings} {owner old new : String} :
      Built mappings → mappings.addFieldText owner old new = .ok after → Built after
  | addMethod {mappings after : Mappings} {owner old descriptor new : String} :
      Built mappings → mappings.addMethodText owner old descriptor new = .ok after → Built after
  | addExceptions {mappings : Mappings} (owner : ClassName) (key : MethodKey)
      {exceptions : List ClassName} :
      Built mappings → (∀ name ∈ exceptions, name.Valid) →
        Built (mappings.addExceptions owner key exceptions)
  | addParameters {mappings : Mappings} (owner : ClassName) (key : MethodKey)
      {parameters : List ParameterName} :
      Built mappings → (∀ name ∈ parameters, name.Valid) →
        Built (mappings.addParameters owner key parameters)

/-- All names that the mappings can answer with are valid, and so are the classes they rename. -/
structure Valid (mappings : Mappings) : Prop where
  classes : ∀ old new, mappings.className? old = some new → old.Valid ∧ new.Valid
  fields : ∀ owner old new, mappings.fieldName? owner old = some new → new.Valid
  methods : ∀ owner key new, mappings.methodName? owner key = some new → new.Valid
  exceptions : ∀ owner key extra, mappings.extra? owner key = some extra →
    ∀ name ∈ extra.exceptions, name.Valid

/-- A part is accepted as it stands or not at all. -/
theorem part_eq_ok_iff {kind : SymbolKind} {text : String} {symbol : Symbol kind} :
    part text = .ok symbol ↔ symbol.text = text ∧ symbol.Valid := by
  rw [← Symbol.parse_eq_ok_iff, part]
  cases Symbol.parse text with
  | error fault => exact ⟨fun failed => (nomatch failed), fun failed => (nomatch failed)⟩
  | ok found =>
    constructor
    · rintro ⟨⟩
      rfl
    · rintro ⟨⟩
      rfl

theorem Valid.addClassText {mappings after : Mappings} {old new : String} (valid : mappings.Valid)
    (added : mappings.addClassText old new = .ok after) : after.Valid := by
  obtain ⟨before, readOld, rest⟩ := except_bind_eq_ok_iff.mp added
  obtain ⟨name, readNew, ⟨⟩⟩ := except_bind_eq_ok_iff.mp rest
  have validOld := (part_eq_ok_iff.mp readOld).2
  have validNew := (part_eq_ok_iff.mp readNew).2
  refine ⟨fun other found hit => ?_, valid.fields, valid.methods, valid.exceptions⟩
  change (mappings.classes.insert before name).get? other = some found at hit
  rw [Table.get?_insert] at hit
  split at hit
  case isTrue same =>
    cases hit
    exact ⟨same ▸ validOld, validNew⟩
  case isFalse => exact valid.classes other found hit

theorem Valid.addFieldText {mappings after : Mappings} {owner old new : String}
    (valid : mappings.Valid) (added : mappings.addFieldText owner old new = .ok after) :
    after.Valid := by
  obtain ⟨site, _, rest⟩ := except_bind_eq_ok_iff.mp added
  obtain ⟨before, _, rest⟩ := except_bind_eq_ok_iff.mp rest
  obtain ⟨name, readNew, ⟨⟩⟩ := except_bind_eq_ok_iff.mp rest
  refine ⟨valid.classes, fun other field found hit => ?_, valid.methods, valid.exceptions⟩
  change (mappings.fields.insert site before name).get? other field = some found at hit
  rw [Members.get?_insert] at hit
  split at hit
  case isTrue =>
    cases hit
    exact (part_eq_ok_iff.mp readNew).2
  case isFalse => exact valid.fields other field found hit

theorem Valid.addMethodText {mappings after : Mappings} {owner old descriptor new : String}
    (valid : mappings.Valid) (added : mappings.addMethodText owner old descriptor new = .ok after) :
    after.Valid := by
  obtain ⟨site, _, rest⟩ := except_bind_eq_ok_iff.mp added
  obtain ⟨before, _, rest⟩ := except_bind_eq_ok_iff.mp rest
  obtain ⟨types, _, rest⟩ := except_bind_eq_ok_iff.mp rest
  obtain ⟨name, readNew, ⟨⟩⟩ := except_bind_eq_ok_iff.mp rest
  refine ⟨valid.classes, valid.fields, fun other key found hit => ?_, valid.exceptions⟩
  change (mappings.methods.insert site ⟨before, types⟩ name).get? other key = some found at hit
  rw [Members.get?_insert] at hit
  split at hit
  case isTrue =>
    cases hit
    exact (part_eq_ok_iff.mp readNew).2
  case isFalse => exact valid.methods other key found hit

/-- The extras of a method after a change that adds no thrown classes but valid ones. -/
theorem Valid.alterExtras {mappings : Mappings} (valid : mappings.Valid) (owner : ClassName)
    (key : MethodKey) {change : Option MethodExtra → MethodExtra}
    (kept : ∀ old : Option MethodExtra, (∀ extra ∈ old, ∀ name ∈ extra.exceptions, name.Valid) →
      ∀ name ∈ (change old).exceptions, name.Valid) :
    Valid { mappings with extras := mappings.extras.alter owner key change } := by
  refine ⟨valid.classes, valid.fields, valid.methods, fun other method extra hit => ?_⟩
  change (mappings.extras.alter owner key change).get? other method = some extra at hit
  rw [Members.get?_alter] at hit
  split at hit
  case isTrue =>
    cases hit
    exact kept _ fun extra found => valid.exceptions owner key extra found
  case isFalse => exact valid.exceptions other method extra hit

theorem Valid.addExceptions {mappings : Mappings} (valid : mappings.Valid) (owner : ClassName)
    (key : MethodKey) {exceptions : List ClassName} (fine : ∀ name ∈ exceptions, name.Valid) :
    (mappings.addExceptions owner key exceptions).Valid := by
  refine valid.alterExtras owner key fun old known name member => ?_
  rcases mem_addAllNew.mp member with present | added
  · cases old with
    | none => cases present
    | some extra => exact known extra rfl name present
  · exact fine name added

theorem Valid.addParameters {mappings : Mappings} (valid : mappings.Valid) (owner : ClassName)
    (key : MethodKey) (parameters : List ParameterName) :
    (mappings.addParameters owner key parameters).Valid := by
  refine valid.alterExtras owner key fun old known name member => ?_
  cases old with
  | none => cases member
  | some extra => exact known extra rfl name member

/-- **Mappings built from checked parts have valid names.** -/
theorem Built.valid {mappings : Mappings} (built : mappings.Built) : mappings.Valid := by
  induction built with
  | empty => exact ⟨nofun, nofun, nofun, nofun⟩
  | addClass _ added valid => exact valid.addClassText added
  | addField _ added valid => exact valid.addFieldText added
  | addMethod _ added valid => exact valid.addMethodText added
  | addExceptions owner key _ fine valid => exact valid.addExceptions owner key fine
  | addParameters owner key _ _ valid => exact valid.addParameters owner key _

end Mappings

/-! ### Shapes of names -/

theorem ClassName.valid_iff_of_isArray {name : ClassName} (array : name.isArray = true) :
    name.Valid ↔ Grammar.check FieldType name.text = .ok () := by
  have accepts : NameKind.accepts .type name.text = (Grammar.check FieldType name.text).isOk :=
    if_pos array
  rw [Symbol.valid_name_iff, accepts]
  cases Grammar.check FieldType name.text with
  | error fault => exact ⟨fun failed => (nomatch failed), fun failed => (nomatch failed)⟩
  | ok _ => exact ⟨fun _ => rfl, fun _ => rfl⟩

theorem ClassName.valid_iff_of_not_isArray {name : ClassName} (object : name.isArray = false) :
    name.Valid ↔ isObjectName name.text.toList = true := by
  have accepts : NameKind.accepts .type name.text = isObjectName name.text.toList :=
    if_neg (ne_true_of_eq_false object)
  rw [Symbol.valid_name_iff, accepts]

theorem ClassName.not_isArray_of_isObjectName {name : ClassName}
    (object : isObjectName name.text.toList = true) : name.isArray = false := by
  obtain ⟨_, free⟩ := isObjectName_iff.mp object
  rw [isArray, decide_eq_false_iff_not]
  intro bracket
  exact free '[' (List.mem_of_mem_head? bracket) (by decide)

/-- The name has none of the characters that only signatures give a meaning to. -/
def ClassName.IsPlain (name : ClassName) : Prop := ∀ c ∈ name.text.toList, c ∉ ['<', '>', ':']

/-- **No class gets a name of a shape that its old name did not have**: the new name of a class that
is no array is that of no array, and plain if the old one is. -/
def Mappings.KeepsShapes (mappings : Mappings) : Prop :=
  ∀ old new, mappings.className? old = some new → old.isArray = false →
    new.isArray = false ∧ (old.IsPlain → new.IsPlain)

section Shapes

variable {mappings : Mappings} (valid : mappings.Valid) (keeps : mappings.KeepsShapes)

include valid keeps

theorem Mappings.isObjectName_of_keepsShapes (old new : ClassName)
    (object : isObjectName old.text.toList = true) (found : mappings.className? old = some new) :
    isObjectName new.text.toList = true := by
  have noArray := (keeps old new found (ClassName.not_isArray_of_isObjectName object)).1
  exact (ClassName.valid_iff_of_not_isArray noArray).mp (valid.classes old new found).2

theorem Mappings.isSignatureName_of_keepsShapes (old new : ClassName)
    (plain : isSignatureName old.text.toList = true) (found : mappings.className? old = some new) :
    isSignatureName new.text.toList = true := by
  obtain ⟨object, free⟩ := isSignatureName_iff.mp plain
  have kept := keeps old new found (ClassName.not_isArray_of_isObjectName object)
  exact isSignatureName_iff.mpr
    ⟨isObjectName_of_keepsShapes valid keeps old new object found, kept.2 free⟩

end Shapes

/-! ### Renaming valid symbols -/

/-- A valid text of a grammar is renamed, to a valid one if the grammar admits the new names. -/
theorem Symbol.exists_rename (τ : Type) [Grammar τ] [LawfulGrammar τ] {kind : SymbolKind}
    (checks : kind.check = Grammar.check τ) {renamed : ClassName → Option ClassName}
    {condition : Prop}
    (admits : condition → ∀ old new, LawfulGrammar.Admits τ old → renamed old = some new →
      LawfulGrammar.Admits τ new)
    {symbol : Symbol kind} (valid : symbol.Valid) :
    ∃ result : Symbol kind, (Grammar.renameText τ renamed symbol.text).map Symbol.mk = .ok result ∧
      Requirement.validIf condition kind result := by
  have passes : Grammar.check τ symbol.text = .ok () := by
    rw [← checks]
    exact valid
  obtain ⟨text, done, kept⟩ := Grammar.renameText_of_check τ renamed passes
  refine ⟨⟨text⟩, ?_, fun holds => ?_⟩
  · rw [done]
    rfl
  · show kind.check text = .ok ()
    rw [checks]
    exact kept (admits holds)

theorem ElementType.head?_chars_ne_bracket (type : ElementType) : type.chars.head? ≠ some '[' := by
  obtain ⟨c, rest, written, letter⟩ := Descriptor.exists_chars_elementType type
  rw [written]
  rintro ⟨⟩
  exact absurd letter (by decide)

/-- What is written with a bracket in front is an array. -/
theorem FieldType.exists_eq_array {type : FieldType} (bracket : type.chars.head? = some '[') :
    ∃ dimensions element, type = .array (dimensions + 1) element := by
  cases type with
  | plain element => exact absurd bracket element.head?_chars_ne_bracket
  | array dimensions element =>
    cases dimensions with
    | zero => exact absurd bracket element.head?_chars_ne_bracket
    | succ dimensions => exact ⟨dimensions, element, rfl⟩

/-- The type that the name of an array class writes is that of an array. -/
theorem ClassName.exists_eq_array {name : ClassName} (array : name.isArray = true)
    {type : FieldType} (written : Grammar.write type = name.text) :
    ∃ dimensions element, type = .array (dimensions + 1) element := by
  have bracket : name.text.toList.head? = some '[' := of_decide_eq_true array
  rw [← written, show Grammar.write type = String.ofList type.chars from rfl,
    String.toList_ofList] at bracket
  exact FieldType.exists_eq_array bracket

theorem ClassName.isArray_write_array (dimensions : Nat) (element : ElementType) :
    ClassName.isArray ⟨Grammar.write (FieldType.array (dimensions + 1) element)⟩ = true := by
  show decide ((String.ofList _).toList.head? = some '[') = true
  rw [String.toList_ofList]
  rfl

theorem Descriptor.renameText_of_isArray {name : ClassName} (array : name.isArray = true)
    (renamed : ClassName → Option ClassName) :
    Descriptor.renameText renamed name.text = Grammar.renameText FieldType renamed name.text := by
  have bracket : name.text.toList.head? = some '[' := of_decide_eq_true array
  rw [renameText, renameAsking, if_neg]
  · rfl
  · rw [bracket]
    decide

namespace Mappings

variable {mappings : Mappings} (valid : mappings.Valid)

include valid

/-- A class that is no array has a valid name after renaming. -/
theorem valid_className {name : ClassName} (fine : name.Valid) :
    (mappings.className name).Valid := by
  rw [className]
  cases found : mappings.className? name with
  | none => exact fine
  | some new => exact (valid.classes name new found).2

/-- An array is renamed by its descriptor, and keeps being an array; any other class by its
entry. -/
theorem exists_classNameAny {name : ClassName} (fine : name.Valid) :
    ∃ new, mappings.classNameAny name = .ok new ∧
      Requirement.validIf mappings.KeepsShapes _ new := by
  rw [classNameAny]
  by_cases array : name.isArray = true
  · rw [if_pos array, Descriptor.renameText_of_isArray array]
    have passes := (ClassName.valid_iff_of_isArray array).mp fine
    obtain ⟨type, wellFormed, written⟩ := (Grammar.check_eq_ok_iff FieldType).mp passes
    obtain ⟨dimensions, element, rfl⟩ := ClassName.exists_eq_array array written
    rw [← written, Grammar.renameText_write FieldType mappings.className? wellFormed]
    refine ⟨_, rfl, fun keeps => ?_⟩
    have stillArray := ClassName.isArray_write_array dimensions (element.rename mappings.className?)
    have renamed := FieldType.WellFormed.rename (isObjectName_of_keepsShapes valid keeps) wellFormed
    exact (ClassName.valid_iff_of_isArray stillArray).mpr
      ((Grammar.check_eq_ok_iff FieldType).mpr ⟨_, renamed, rfl⟩)
  · rw [if_neg array]
    exact ⟨_, rfl, fun _ => valid_className valid fine⟩

theorem exists_fieldDescriptor {descriptor : FieldDescriptor} (fine : descriptor.Valid) :
    ∃ new, mappings.fieldDescriptor descriptor = .ok new ∧
      Requirement.validIf mappings.KeepsShapes _ new :=
  Symbol.exists_rename FieldType rfl (isObjectName_of_keepsShapes valid) fine

theorem exists_methodDescriptor {descriptor : MethodDescriptor} (fine : descriptor.Valid) :
    ∃ new, mappings.methodDescriptor descriptor = .ok new ∧
      Requirement.validIf mappings.KeepsShapes _ new :=
  Symbol.exists_rename MethodType rfl (isObjectName_of_keepsShapes valid) fine

theorem exists_fieldSignature {signature : FieldSignature} (fine : signature.Valid) :
    ∃ new, mappings.fieldSignature signature = .ok new ∧
      Requirement.validIf mappings.KeepsShapes _ new :=
  Symbol.exists_rename TypeSig rfl (isSignatureName_of_keepsShapes valid) fine

theorem exists_methodSignature {signature : MethodSignature} (fine : signature.Valid) :
    ∃ new, mappings.methodSignature signature = .ok new ∧
      Requirement.validIf mappings.KeepsShapes _ new :=
  Symbol.exists_rename MethodSig rfl (isSignatureName_of_keepsShapes valid) fine

theorem exists_classSignature {signature : ClassSignature} (fine : signature.Valid) :
    ∃ new, mappings.classSignature signature = .ok new ∧
      Requirement.validIf mappings.KeepsShapes _ new :=
  Symbol.exists_rename ClassSig rfl (isSignatureName_of_keepsShapes valid) fine

end Mappings

end Renaming

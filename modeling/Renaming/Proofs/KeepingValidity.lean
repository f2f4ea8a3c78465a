import Renaming.Proofs.ValidClasses

/-!
# Which mappings keep classes valid

Mappings from checked parts never make a pass over valid classes fail, and they keep all valid
classes valid if and only if they keep the shapes of names. Checking the parts alone is not enough:
a class whose new name is that of an array leaves no valid descriptor of its type behind.

That nothing less is enough is shown with a class that has a single field. A field of type `old`
tells whether the new name may stand in a descriptor, and one with the signature of `old` with an
argument whether it may stand in a signature. The argument is needed: a new name such as `b<*>`
could be read as a class with an argument, but no class has two lists of arguments.
-/

namespace Renaming

open Recorded

/-- All valid classes are renamed to valid ones. -/
def Mappings.KeepsValidity (mappings : Mappings) : Prop :=
  ∀ (classes : List ClassFile) (hierarchy : Hierarchy) (supplement : Supplement)
    (options : PassOptions) (renamed : List ClassFile) (report : PassReport),
    (∀ file ∈ classes, file.Meets .valid) → supplement.Meets .valid →
      (renameClasses classes mappings hierarchy supplement options).result = .ok (renamed, report) →
        ∀ file ∈ renamed, file.Meets .valid

/-! ### What becomes of a field in a pass -/

namespace Pass

variable {pass : Pass} {file : ClassFile}

/-- The fields of a class are renamed one by one. -/
theorem fields_of_classFile {renamed : ClassFile}
    (done : (pass.classFile file).result = .ok renamed) :
    (file.fields.mapM (pass.field file.name)).result = .ok renamed.fields := by
  unfold classFile at done
  simp only [result_bind_eq_ok_iff, result_pure] at done
  obtain ⟨fields, fieldsDone, _, _, _, _, _, _, _, _, _, _, _, _, _, _, _, _, _, _, _, _, ⟨⟩⟩ :=
    done
  exact fieldsDone

/-- Descriptor and signature of a field are renamed by themselves. -/
theorem parts_of_field {owner : ClassName} {field renamed : Field}
    (done : (pass.field owner field).result = .ok renamed) :
    pass.mappings.fieldDescriptor field.descriptor = .ok renamed.descriptor ∧
      (field.signature.mapM fun signature =>
        (liftM (pass.mappings.fieldSignature signature) : Journal FieldSignature)).result =
          .ok renamed.signature := by
  unfold Pass.field at done
  obtain ⟨descriptor, typed, rest⟩ := result_bind_eq_ok_iff.mp done
  obtain ⟨signature, signed, ⟨⟩⟩ := result_bind_eq_ok_iff.mp rest
  exact ⟨typed, signed⟩

theorem classFile_of_process {out : ClassFile × List DegradedBridge}
    (keeps : pass.options.degradeBridges = false) (done : (pass.process file).result = .ok out) :
    (pass.classFile file).result = .ok out.1 := by
  unfold process at done
  rw [keeps, if_neg Bool.false_ne_true] at done
  obtain ⟨_, ⟨⟩, rest⟩ := result_bind_eq_ok_iff.mp done
  obtain ⟨renamed, renamedDone, rest⟩ := result_bind_eq_ok_iff.mp rest
  obtain ⟨_, _, ⟨⟩⟩ := result_bind_eq_ok_iff.mp rest
  exact renamedDone

end Pass

/-- A pass over a single class gives what it makes of that class. -/
theorem process_of_renameClasses {file : ClassFile} {mappings : Mappings} {hierarchy : Hierarchy}
    {supplement : Supplement} {options : PassOptions} {renamed : List ClassFile}
    {report : PassReport}
    (done : (renameClasses [file] mappings hierarchy supplement options).result =
      .ok (renamed, report)) :
    ∃ out, ((Pass.ofIndex (indexTable [file]) mappings hierarchy supplement options).process
        file).result = .ok out ∧ renamed = [out.1] := by
  unfold renameClasses at done
  obtain ⟨_, _, rest⟩ := result_bind_eq_ok_iff.mp done
  obtain ⟨index, ⟨⟩, rest⟩ := result_bind_eq_ok_iff.mp rest
  obtain ⟨processed, each, rest⟩ := result_bind_eq_ok_iff.mp rest
  obtain ⟨_, _, ⟨⟩⟩ := result_bind_eq_ok_iff.mp rest
  rw [List.mapM_cons] at each
  obtain ⟨out, outDone, others⟩ := result_bind_eq_ok_iff.mp each
  obtain ⟨_, ⟨⟩, ⟨⟩⟩ := result_bind_eq_ok_iff.mp others
  exact ⟨out, result_within_eq_ok_iff.mp outDone, rfl⟩

/-- A class that has nothing but a field. -/
def ClassFile.holding (field : Field) : ClassFile where
  version := ⟨61, 0⟩
  access := .none
  name := ⟨"C"⟩
  superClass := none
  interfaces := []
  fields := [field]
  methods := []
  nestedClasses := none
  enclosingMethod := none
  signature := none
  sourceFile := none
  nestHost := none
  nestMembers := none
  permittedSubclasses := none

theorem ClassFile.holding_meets_valid {field : Field} (fine : field.Meets .valid) :
    (ClassFile.holding field).Meets .valid where
  name := (Symbol.valid_name_iff.mpr (by decide) : Symbol.Valid (⟨"C"⟩ : ClassName))
  superClass := nofun
  interfaces := nofun
  fields := List.forall_mem_singleton.mpr fine
  methods := nofun
  nestedClasses := nofun
  enclosingMethod := nofun
  signature := nofun
  nestHost := nofun
  nestMembers := nofun
  permittedSubclasses := nofun

theorem Mappings.fieldDescriptor_write (mappings : Mappings) {type : FieldType}
    (fine : type.WellFormed) :
    mappings.fieldDescriptor ⟨Grammar.write type⟩ =
      .ok ⟨Grammar.write (Grammar.rename mappings.className? type)⟩ := by
  rw [fieldDescriptor, FieldDescriptor.rename, Grammar.renameText_write FieldType _ fine]
  rfl

theorem Mappings.fieldSignature_write (mappings : Mappings) {type : TypeSig}
    (fine : type.IsReference maxNesting) :
    mappings.fieldSignature ⟨Grammar.write type⟩ =
      .ok ⟨Grammar.write (Grammar.rename mappings.className? type)⟩ := by
  rw [fieldSignature, FieldSignature.rename, Grammar.renameText_write TypeSig _ fine]
  rfl

section Necessity

variable {mappings : Mappings} (valid : mappings.Valid) (keeps : mappings.KeepsValidity)

include valid keeps

/-- Mappings that keep classes valid keep each field of them valid. -/
theorem Mappings.KeepsValidity.exists_field {field : Field} (fine : field.Meets .valid) :
    ∃ renamed : Field, renamed.Meets .valid ∧
      mappings.fieldDescriptor field.descriptor = .ok renamed.descriptor ∧
      (field.signature.mapM fun signature =>
        (liftM (mappings.fieldSignature signature) : Journal FieldSignature)).result =
          .ok renamed.signature := by
  have classFine : ∀ file ∈ [ClassFile.holding field], file.Meets .valid :=
    List.forall_mem_singleton.mpr (ClassFile.holding_meets_valid fine)
  have noSupplement : (∅ : Supplement).Meets .valid := nofun
  let options : PassOptions := ⟨false, false, false⟩
  obtain ⟨⟨renamed, report⟩, done, _⟩ :=
    gives_renameClasses valid classFine ∅ noSupplement options
  have allValid := keeps _ _ _ _ renamed report classFine noSupplement done
  obtain ⟨out, processed, rfl⟩ := process_of_renameClasses done
  have fields := Pass.fields_of_classFile (Pass.classFile_of_process rfl processed)
  rw [show (ClassFile.holding field).fields = [field] from rfl, List.mapM_cons] at fields
  obtain ⟨new, newDone, rest⟩ := result_bind_eq_ok_iff.mp fields
  obtain ⟨_, ⟨⟩, same⟩ := result_bind_eq_ok_iff.mp rest
  have member : new ∈ out.1.fields := by
    rw [← Except.ok.inj same]
    exact List.mem_cons_self
  have parts := Pass.parts_of_field newDone
  rw [Pass.mappings_ofIndex] at parts
  exact ⟨new, (allValid out.1 List.mem_cons_self).fields new member, parts⟩

/-- A type that some field has stays a type. -/
theorem Mappings.KeepsValidity.fieldType (type : FieldType) (fine : type.WellFormed) :
    Grammar.check FieldType (Grammar.write (Grammar.rename mappings.className? type)) = .ok () := by
  have named : Symbol.Valid (⟨"x"⟩ : FieldName) := Symbol.valid_name_iff.mpr (by decide)
  have typed : Symbol.Valid (⟨Grammar.write type⟩ : FieldDescriptor) :=
    (Grammar.check_eq_ok_iff FieldType).mpr ⟨type, fine, rfl⟩
  have fineField : Field.Meets .valid ⟨.none, ⟨"x"⟩, ⟨Grammar.write type⟩, none⟩ :=
    ⟨named, typed, nofun⟩
  obtain ⟨renamed, meets, done, _⟩ := keeps.exists_field valid fineField
  have same := Except.ok.inj (done.symm.trans (mappings.fieldDescriptor_write fine))
  have kept : Grammar.check FieldType renamed.descriptor.text = .ok () := meets.descriptor
  rw [same] at kept
  exact kept

/-- A generic type that some field has stays a generic type. -/
theorem Mappings.KeepsValidity.typeSig (type : TypeSig) (fine : type.IsReference maxNesting) :
    Grammar.check TypeSig (Grammar.write (Grammar.rename mappings.className? type)) = .ok () := by
  have named : Symbol.Valid (⟨"x"⟩ : FieldName) := Symbol.valid_name_iff.mpr (by decide)
  have typed : Symbol.Valid (⟨"I"⟩ : FieldDescriptor) :=
    (Grammar.check_eq_ok_iff FieldType).mpr ⟨.plain (.base .int), trivial, rfl⟩
  have signed : Symbol.Valid (⟨Grammar.write type⟩ : FieldSignature) :=
    (Grammar.check_eq_ok_iff TypeSig).mpr ⟨type, fine, rfl⟩
  have fineField : Field.Meets .valid ⟨.none, ⟨"x"⟩, ⟨"I"⟩, some ⟨Grammar.write type⟩⟩ := by
    refine ⟨named, typed, ?_⟩
    rintro _ ⟨⟩
    exact signed
  obtain ⟨renamed, meets, _, done⟩ := keeps.exists_field valid fineField
  obtain ⟨signature, signatureDone, same⟩ := result_bind_eq_ok_iff.mp done
  have written := Except.ok.inj (signatureDone.symm.trans (mappings.fieldSignature_write fine))
  have kept : Grammar.check TypeSig signature.text = .ok () :=
    meets.signature signature (Except.ok.inj same).symm
  rw [written] at kept
  exact kept

/-- The new name of a class that is no array can stand in the descriptor of a field. -/
theorem Mappings.KeepsValidity.isObjectName {old new : ClassName}
    (found : mappings.className? old = some new) (object : isObjectName old.text.toList = true) :
    isObjectName new.text.toList = true := by
  have renamed : FieldType.rename mappings.className? (.plain (.object old)) =
      .plain (.object new) := by
    rw [FieldType.rename, ElementType.rename, found]
    rfl
  have kept := keeps.fieldType valid (.plain (.object old)) object
  obtain ⟨type, fine, written⟩ := (Grammar.check_eq_ok_iff FieldType).mp kept
  have same : type.chars = (FieldType.rename mappings.className? (.plain (.object old))).chars :=
    String.ofList_injective written
  rw [renamed] at same
  exact FieldType.isObjectName_of_chars fine same

/-- The new name of a class in front of arguments can stand there. -/
theorem Mappings.KeepsValidity.isSignatureName {old new : ClassName}
    (found : mappings.className? old = some new)
    (plain : isSignatureName old.text.toList = true) :
    isSignatureName new.text.toList = true := by
  have object := keeps.isObjectName valid found (isObjectName_of_isSignatureName plain)
  -- Without an argument behind it, a name that ends with a list of arguments could be read as a
  -- class.
  let unbounded (name : ClassName) : TypeSig := .object (.outer name [.any])
  have reference : (unbounded old).IsReference maxNesting := by
    refine ⟨plain, fun argument member => ?_⟩
    cases List.mem_singleton.mp member
    trivial
  have renamed : (unbounded old).rename mappings.className? = unbounded new := by
    simp only [unbounded, TypeSig.rename, ClassType.rename, TypeArg.renameAll,
      TypeArg.rename, found, Option.getD_some]
  have kept := keeps.typeSig valid (unbounded old) reference
  obtain ⟨type, fine, written⟩ := (Grammar.check_eq_ok_iff TypeSig).mp kept
  have same : type.chars = ((unbounded old).rename mappings.className?).chars :=
    String.ofList_injective written
  rw [renamed] at same
  refine TypeSig.isSignatureName_of_chars fine (isObjectName_iff.mp object).2 (same.trans ?_)
  simp [unbounded, TypeSig.chars, ClassType.charsOpen, TypeArg.charsAll, TypeArg.chars, bracketed]

theorem Mappings.KeepsValidity.keepsShapes : mappings.KeepsShapes := by
  intro old new found array
  have object : Renaming.isObjectName old.text.toList = true :=
    (ClassName.valid_iff_of_not_isArray array).mp (valid.classes old new found).1
  refine ⟨ClassName.not_isArray_of_isObjectName (keeps.isObjectName valid found object),
    fun plain => ?_⟩
  exact (isSignatureName_iff.mp (keeps.isSignatureName valid found
    (isSignatureName_iff.mpr ⟨object, plain⟩))).2

end Necessity

/-! ### The condition -/

theorem Mappings.KeepsShapes.keepsValidity {mappings : Mappings} (valid : mappings.Valid)
    (keeps : mappings.KeepsShapes) : mappings.KeepsValidity := by
  intro classes hierarchy supplement options renamed report fine supplied done
  obtain ⟨out, same, meets, _⟩ := gives_renameClasses valid fine hierarchy supplied options
  rw [Requirement.validIf_of_holds keeps] at meets
  cases Except.ok.inj (same.symm.trans done)
  exact meets

/-- **Validity through a pass.** With mappings from checked parts a pass over valid classes always
ends well, and all that it reports is valid. The classes that it gives are valid, for all valid
classes, if and only if the mappings keep the shapes of names. -/
theorem renamed_classes_valid_iff {mappings : Mappings} (built : mappings.Built) :
    (∀ (classes : List ClassFile) (hierarchy : Hierarchy) (supplement : Supplement)
      (options : PassOptions),
      (∀ file ∈ classes, file.Meets .valid) → supplement.Meets .valid →
        ∃ renamed report,
          (renameClasses classes mappings hierarchy supplement options).result =
            .ok (renamed, report) ∧
          ∀ bridge ∈ report.degradedBridges, bridge.Meets .valid) ∧
    (mappings.KeepsValidity ↔ mappings.KeepsShapes) := by
  have valid := built.valid
  refine ⟨?_, fun keeps => keeps.keepsShapes valid, fun keeps => keeps.keepsValidity valid⟩
  intro classes hierarchy supplement options fine supplied
  obtain ⟨⟨renamed, report⟩, done, _, reported⟩ :=
    gives_renameClasses valid fine hierarchy supplied options
  exact ⟨renamed, report, done, reported⟩

/-- Mappings that give a class the name of an array. -/
def arrayTarget : Mappings := (∅ : Mappings).addClass ⟨"a"⟩ ⟨"[I"⟩

/-- The mappings come from checked parts, but a field of the renamed class loses its type. -/
theorem mapping_to_array_breaks_validity :
    arrayTarget.Built ∧ ¬ arrayTarget.KeepsValidity ∧
      (renameClasses [.holding ⟨.none, ⟨"x"⟩, ⟨"La;"⟩, none⟩] arrayTarget ∅ ∅ {}).result =
        .ok ([.holding ⟨.none, ⟨"x"⟩, ⟨"L[I;"⟩, none⟩], ⟨1, []⟩) := by
  have added : (∅ : Mappings).addClassText "a" "[I" = .ok arrayTarget := by
    cbv
  have built : arrayTarget.Built := .addClass .empty added
  refine ⟨built, fun keeps => ?_, by cbv⟩
  have shapes := (renamed_classes_valid_iff built).2.mp keeps
  have noArray := (shapes ⟨"a"⟩ ⟨"[I"⟩ (by decide) (by decide)).1
  exact absurd noArray (by decide)

end Renaming

import Renaming.Proofs.References

/-!
# Runs of a pass

What is needed of a whole run, to say something of its outcome: `result_renameClasses_eq` takes it
apart into what happens to each class, `process_eq_ok_iff` takes that apart into degrading bridges
and renaming, and `degradesTo_of_degradeBridges` says what degrading bridges can do to a class. None
of this looks into the parts of a class. At the end are small classes to run passes over.
-/

namespace Renaming

open Recorded

/-! ### Degrading bridges -/

/-- The methods of the second class are those of the first, some of them without the flags of
bridges; all else is the same. -/
def ClassFile.DegradesTo (file degraded : ClassFile) : Prop :=
  ∃ methods, degraded = { file with methods } ∧
    List.Forall₂ (fun method other => ∃ target, other = Method.degradedTo method target)
      file.methods methods

theorem ClassFile.DegradesTo.refl (file : ClassFile) : file.DegradesTo file :=
  ⟨file.methods, rfl, List.forall₂_same.mpr fun _ _ => ⟨none, rfl⟩⟩

theorem ClassFile.degradesTo_of_degradeBridges (file : ClassFile) :
    file.degradeBridges.Ensures fun out => file.DegradesTo out.1 := by
  unfold degradeBridges
  refine ensures_lift.bind fun targets found => ?_
  refine ensures_result.bind fun _ _ => ensures_pure ⟨_, rfl, ?_⟩
  rw [List.forall₂_map_right_iff]
  have covered : file.methods.length ≤ targets.length :=
    (except_mapM_eq_ok_iff.mp found).length_eq.le
  have kept : List.Forall₂ Eq file.methods ((file.methods.zip targets).map Prod.fst) := by
    rw [List.map_fst_zip covered]
    exact List.forall₂_refl _
  rw [List.forall₂_map_right_iff] at kept
  refine kept.imp fun method pair same => ⟨pair.2, ?_⟩
  rw [same]

section Degraded

variable (method : Method) (target : Option MethodKey)

@[simp] theorem Method.key_degradedTo : (method.degradedTo target).key = method.key := by
  rw [degradedTo]
  split <;> rfl

@[simp] theorem Method.code_degradedTo : (method.degradedTo target).code = method.code := by
  rw [degradedTo]
  split <;> rfl

@[simp] theorem Method.isPrivate_degradedTo :
    (method.degradedTo target).access.isPrivate = method.access.isPrivate := by
  rw [degradedTo]
  split
  · simp only [MethodAccess.withoutBridge, Access.isPrivate, Access.getLsbD_clear]
    simp
  · rfl

@[simp] theorem Method.isStatic_degradedTo :
    (method.degradedTo target).access.isStatic = method.access.isStatic := by
  rw [degradedTo]
  split
  · simp only [MethodAccess.withoutBridge, Access.isStatic, Access.getLsbD_clear]
    simp
  · rfl

end Degraded

/-! ### One class -/

namespace Pass

variable {pass : Pass} {file new : ClassFile} {bridges : List DegradedBridge}

/-- A class is processed by renaming what is left of it when its bridges are degraded. -/
theorem process_eq_ok_iff :
    (pass.process file).result = .ok (new, bridges) ↔
      ∃ degraded, (if pass.options.degradeBridges then file.degradeBridges.result
          else .ok (file, [])) = .ok (degraded, bridges) ∧
        (pass.classFile degraded).result = .ok new := by
  -- renaming and the note about it are the same with and without bridges
  have rest : ∀ degraded : ClassFile × List DegradedBridge, Recorded.result (do
      let renamed ← pass.classFile degraded.1
      Recorded.note [.classDone renamed.name]
      return (renamed, degraded.2) : Journal (ClassFile × List DegradedBridge)) =
        .ok (new, bridges) ↔
        degraded.2 = bridges ∧ (pass.classFile degraded.1).result = .ok new := by
    intro degraded
    simp only [result_bind_eq_ok_iff, result_note, result_pure, Except.ok.injEq, Prod.mk.injEq]
    grind
  unfold process
  by_cases degrades : pass.options.degradeBridges = true
  · rw [if_pos degrades, if_pos degrades, result_bind_eq_ok_iff]
    constructor
    · rintro ⟨degraded, first, second⟩
      obtain ⟨rfl, renamed⟩ := (rest degraded).mp second
      exact ⟨degraded.1, first, renamed⟩
    · rintro ⟨degraded, first, renamed⟩
      exact ⟨(degraded, bridges), first, (rest (degraded, bridges)).mpr ⟨rfl, renamed⟩⟩
  · rw [if_neg degrades, if_neg degrades]
    refine (rest (file, [])).trans ?_
    simp only [Except.ok.injEq, Prod.mk.injEq]
    grind

/-- Whether bridges are degraded or not, the class that is renamed has what the given one has. -/
theorem exists_degradesTo_of_process (done : (pass.process file).result = .ok (new, bridges)) :
    ∃ degraded, file.DegradesTo degraded ∧ (pass.classFile degraded).result = .ok new := by
  obtain ⟨degraded, first, renamed⟩ := process_eq_ok_iff.mp done
  refine ⟨degraded, ?_, renamed⟩
  by_cases degrades : pass.options.degradeBridges = true
  · rw [if_pos degrades] at first
    exact file.degradesTo_of_degradeBridges _ first
  · rw [if_neg degrades] at first
    cases first
    exact .refl file

end Pass

/-! ### All classes -/

section Run

variable (classes : List ClassFile) (mappings : Mappings) (hierarchy : Hierarchy)
  (supplement : Supplement) (options : PassOptions)

/-- What is left of a run without its record: the classes are processed one after the other, and
what they give is put together. -/
theorem result_renameClasses_eq :
    (renameClasses classes mappings hierarchy supplement options).result =
      (classes.mapM fun file => (((Pass.ofIndex (indexTable classes) mappings hierarchy supplement
          options).process file).within (.inClass file.name)).result).map fun processed =>
        (processed.map Prod.fst, ⟨processed.length, processed.flatMap Prod.snd⟩) := by
  rw [← result_mapM]
  simp only [renameClasses, indexClasses, result_bind, result_note, result_pure]
  cases outcome : (List.mapM (fun file => ((Pass.ofIndex (indexTable classes) mappings hierarchy
      supplement options).process file).within (.inClass file.name)) classes).result with
  | error fault => simp [bind, Except.bind, Except.map, outcome]
  | ok processed => simp [bind, Except.bind, Except.map, outcome]

/-- A run ends well if all classes are processed, and gives what they give. -/
theorem renameClasses_eq_ok_iff {renamed : List ClassFile} {report : PassReport} :
    (renameClasses classes mappings hierarchy supplement options).result = .ok (renamed, report) ↔
      ∃ processed, List.Forall₂
          (fun file out => ((Pass.ofIndex (indexTable classes) mappings hierarchy
          supplement options).process file).result = .ok out) classes processed ∧
        renamed = processed.map Prod.fst ∧
        report = ⟨processed.length, processed.flatMap Prod.snd⟩ := by
  rw [result_renameClasses_eq, except_map_eq_ok_iff]
  simp only [except_mapM_eq_ok_iff, result_within_eq_ok_iff, Prod.mk.injEq]
  constructor
  · rintro ⟨processed, each, rfl, rfl⟩
    exact ⟨processed, each, rfl, rfl⟩
  · rintro ⟨processed, each, rfl, rfl⟩
    exact ⟨processed, each, rfl, rfl⟩

end Run

/-! ### Small classes -/

/-- The method with a name and a descriptor and nothing else. -/
def Method.bare (name : MethodName) (descriptor : MethodDescriptor) : Method :=
  ⟨.none, name, descriptor, none, none, none, none⟩

/-- The class with a name, perhaps a super class, and methods, and nothing else. -/
def ClassFile.ofMethods (name : ClassName) (superClass : Option ClassName) (methods : List Method) :
    ClassFile where
  version := ⟨61, 0⟩
  access := .none
  name := name
  superClass := superClass
  interfaces := []
  fields := []
  methods := methods
  nestedClasses := none
  enclosingMethod := none
  signature := none
  sourceFile := none
  nestHost := none
  nestMembers := none
  permittedSubclasses := none

end Renaming

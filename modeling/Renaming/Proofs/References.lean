import Renaming.Pass
import Renaming.Proofs.DescriptorRenaming

/-!
# References of a class

A class refers to other classes by name, to types by descriptors and to members by references with a
class, a name and a descriptor. `ClassFile.slots` lists all places where it does so, through code,
handles and nested constants. A slot tells which parts of the class lead to it, and `Slot.rename`
says what a renamer makes of what stands there.

The pass renames every slot by itself: the renamed class has the slots of the class, each with its
reference renamed (`Pass.ensures_classFile`). So nothing moves from one part to another, and the
classes that a renamed class mentions are, one by one, the new names of those that the class
mentioned. An array class cannot be nested in another, so an entry for a nested class with the name
of an array is not counted.
-/

namespace Renaming

/-! ### Runs that end well -/

theorem except_mapM_eq_ok_iff {ε α β : Type} {body : α → Except ε β} {items : List α}
    {values : List β} :
    items.mapM body = .ok values ↔
      List.Forall₂ (fun item value => body item = .ok value) items values := by
  induction items generalizing values with
  | nil =>
    rw [List.mapM_nil, List.forall₂_nil_left_iff]
    exact ⟨fun done => (Except.ok.inj done).symm, fun empty => congrArg Except.ok empty.symm⟩
  | cons item rest ih =>
    rw [List.mapM_cons, List.forall₂_cons_left_iff]
    cases found : body item with
    | error fault => exact ⟨nofun, fun ⟨_, _, impossible, _⟩ => nomatch impossible⟩
    | ok value =>
      cases others : rest.mapM body with
      | error fault =>
        refine ⟨nofun, fun ⟨_, more, _, listed, _⟩ => ?_⟩
        rw [ih.mpr listed] at others
        cases others
      | ok more =>
        constructor
        · intro done
          exact ⟨value, more, rfl, ih.mp others, (Except.ok.inj done).symm⟩
        · rintro ⟨_, _, ⟨⟩, listed, rfl⟩
          rw [ih.mpr listed] at others
          cases others
          rfl

theorem except_map_eq_ok_iff {ε α β : Type} {result : Except ε α} {change : α → β} {last : β} :
    result.map change = .ok last ↔ ∃ value, result = .ok value ∧ change value = last := by
  cases result with
  | error fault => exact ⟨nofun, fun ⟨_, impossible, _⟩ => nomatch impossible⟩
  | ok value =>
    constructor
    · intro done
      exact ⟨value, rfl, Except.ok.inj done⟩
    · rintro ⟨_, ⟨⟩, rfl⟩
      rfl

namespace Recorded

variable {ρ α β : Type}

/-- If the computation ends with a value, the condition holds of it. -/
def Ensures (run : Recorded ρ α) (condition : α → Prop) : Prop :=
  ∀ value, run.result = .ok value → condition value

section Ensures

variable {condition : α → Prop} {last : β → Prop}

theorem ensures_pure {value : α} (holds : condition value) :
    (pure value : Recorded ρ α).Ensures condition := by
  rintro _ ⟨⟩
  exact holds

theorem ensures_result {run : Recorded ρ α} : run.Ensures fun value => run.result = .ok value :=
  fun _ done => done

theorem ensures_lift {result : Except Fault α} :
    (liftM result : Recorded ρ α).Ensures fun value => result = .ok value :=
  fun _ done => done

theorem Ensures.bind {run : Recorded ρ α} {next : α → Recorded ρ β} (first : run.Ensures condition)
    (rest : ∀ value, condition value → (next value).Ensures last) :
    (run >>= next).Ensures last := by
  intro result done
  obtain ⟨value, valueDone, restDone⟩ := result_bind_eq_ok_iff.mp done
  exact rest value (first value valueDone) result restDone

theorem Ensures.within {run : Recorded ρ α} (ensures : run.Ensures condition)
    (circumstances : Fault → Fault) : (run.within circumstances).Ensures condition :=
  fun value done => ensures value (result_within_eq_ok_iff.mp done)

/-- What relates each item to what is made of it, relates the lists item by item. -/
theorem ensures_mapM {items : List α} {body : α → Recorded ρ β} {relation : α → β → Prop}
    (each : ∀ item, (body item).Ensures (relation item)) :
    (items.mapM body).Ensures (List.Forall₂ relation items) := by
  intro values done
  rw [result_mapM] at done
  exact (except_mapM_eq_ok_iff.mp done).imp fun item value found => each item value found

theorem ensures_mapM_option {item : Option α} {body : α → Recorded ρ β} {relation : α → β → Prop}
    (each : ∀ value, (body value).Ensures (relation value)) :
    (item.mapM body).Ensures fun result => List.Forall₂ relation item.toList result.toList := by
  cases item with
  | none => exact ensures_pure .nil
  | some value =>
    exact (each value).bind fun result holds => ensures_pure (.cons holds .nil)

end Ensures

end Recorded

/-! ### The places where a class refers to something -/

/-- What is referred to. Of a member it is told whether the use is static. -/
inductive Reference where
  | type (name : ClassName)
  | fieldType (descriptor : FieldDescriptor)
  | methodType (descriptor : MethodDescriptor)
  | field (isStatic : Bool) (ref : FieldRef)
  | method (isStatic : Bool) (ref : MethodRef)
deriving DecidableEq

namespace Reference

/-- The names of object classes in a reference. -/
def classNames : Reference → List ClassName
  | .type name => name.objectNames
  | .fieldType descriptor => descriptor.classNames
  | .methodType descriptor => descriptor.classNames
  | .field _ ref => ref.classNames
  | .method _ ref => ref.classNames

/-- What a renamer makes of a reference. -/
def rename (renamer : Renamer) : Reference → Except Fault Reference
  | .type name => (renamer.mappings.classNameAny name).map .type
  | .fieldType descriptor => (renamer.mappings.fieldDescriptor descriptor).map .fieldType
  | .methodType descriptor => (renamer.mappings.methodDescriptor descriptor).map .methodType
  | .field isStatic ref => (renamer.fieldRef ref isStatic).result.map (.field isStatic)
  | .method isStatic ref => (renamer.methodRef ref isStatic).result.map (.method isStatic)

end Reference

/-- A part of a class, or of one of its parts. Parts of the same sort are numbered. -/
inductive Part where
  | name
  | superClass
  | interface (index : Nat)
  | nestHost
  | nestMember (index : Nat)
  | permittedSubclass (index : Nat)
  | nestedClass (index : Nat)
  | inner
  | outer
  | enclosingMethod
  | owner
  | field (index : Nat)
  | method (index : Nat)
  | descriptor
  | handle
  | argument (index : Nat)
  | instruction (index : Nat)
  | exceptionRange (index : Nat)
  | localVariable (index : Nat)
deriving DecidableEq

/-- A place where something is referred to: the parts that lead there, the outermost first, and what
is referred to. -/
structure Slot where
  path : List Part
  reference : Reference
deriving DecidableEq

namespace Slot

variable {α : Type}

/-- What a renamer makes of what stands in the slot. -/
def rename (renamer : Renamer) (slot : Slot) : Except Fault Slot :=
  (slot.reference.rename renamer).map (Slot.mk slot.path)

/-- The slots of a part, as slots of the whole. -/
def under (part : Part) (slots : List Slot) : List Slot :=
  slots.map fun slot => ⟨part :: slot.path, slot.reference⟩

/-- The slots of a part that may be missing. -/
def underSome (part : Part) (slots : α → List Slot) (item : Option α) : List Slot :=
  item.toList.flatMap fun value => under part (slots value)

/-- The slots of parts of the same sort, numbered from the index on. -/
def underEach (part : Nat → Part) (slots : α → List Slot) : Nat → List α → List Slot
  | _, [] => []
  | index, item :: rest => under (part index) (slots item) ++ underEach part slots (index + 1) rest

end Slot

open Slot

def ClassName.slots (name : ClassName) : List Slot := [⟨[], .type name⟩]

def Handle.reference : Handle → Reference
  | .field use ref => .field use.isStatic ref
  | .method how ref => .method how.isStatic ref

mutual

def Loadable.slots : Loadable → List Slot
  | .type name => name.slots
  | .handle target => [⟨[], target.reference⟩]
  | .methodType descriptor => [⟨[], .methodType descriptor⟩]
  | .computed _ descriptor target arguments =>
    ⟨[.descriptor], .fieldType descriptor⟩ :: ⟨[.handle], target.reference⟩ ::
      Loadable.allSlots 0 arguments
  | .integer _ | .float _ | .long _ | .double _ | .string _ => []

/-- The slots of the arguments of a constant or of a call, numbered from the index on. -/
def Loadable.allSlots (index : Nat) : List Loadable → List Slot
  | [] => []
  | value :: rest => under (.argument index) value.slots ++ Loadable.allSlots (index + 1) rest

end

def DynamicCall.slots (call : DynamicCall) : List Slot :=
  ⟨[.descriptor], .methodType call.descriptor⟩ :: ⟨[.handle], call.handle.reference⟩ ::
    Loadable.allSlots 0 call.arguments

def Instruction.slots : Instruction → List Slot
  | .load value => value.slots
  | .field use ref => [⟨[], .field use.isStatic ref⟩]
  | .call kind ref => [⟨[], .method kind.isStatic ref⟩]
  | .callDynamic target => target.slots
  | .withClass _ name => name.slots
  | .createMultiArray name _ => name.slots
  | _ => []

def ExceptionRange.slots (range : ExceptionRange) : List Slot :=
  range.caught.toList.flatMap ClassName.slots

def LocalVariable.slots (entry : LocalVariable) : List Slot :=
  entry.descriptor.toList.map fun descriptor => ⟨[.descriptor], .fieldType descriptor⟩

/-- The slots of instructions, of caught classes and of the types of local variables. -/
def Code.slots (code : Code) : List Slot :=
  underEach .instruction (fun entry => entry.instruction.slots) 0 code.instructions ++
    (underEach .exceptionRange ExceptionRange.slots 0 code.exceptionTable ++
      underEach .localVariable LocalVariable.slots 0 code.localVariables.toList.flatten)

def Field.slots (field : Field) : List Slot := [⟨[.descriptor], .fieldType field.descriptor⟩]

def Method.slots (method : Method) : List Slot :=
  ⟨[.descriptor], .methodType method.descriptor⟩ :: method.code.toList.flatMap Code.slots

/-- The nested class, unless it has the name of an array, and the class around it. -/
def NestedClass.slots (entry : NestedClass) : List Slot :=
  under .inner (if entry.inner.isArray then [] else entry.inner.slots) ++
    underSome .outer ClassName.slots entry.outer

def EnclosingMethod.slots (entry : EnclosingMethod) : List Slot :=
  ⟨[.owner], .type entry.owner⟩ ::
    entry.method.toList.map fun key => ⟨[.descriptor], .methodType key.descriptor⟩

/-- All places in a class where something is referred to. -/
def ClassFile.slots (file : ClassFile) : List Slot :=
  [under .name file.name.slots,
    underSome .superClass ClassName.slots file.superClass,
    underEach .interface ClassName.slots 0 file.interfaces,
    underSome .nestHost ClassName.slots file.nestHost,
    underEach .nestMember ClassName.slots 0 file.nestMembers.toList.flatten,
    underEach .permittedSubclass ClassName.slots 0 file.permittedSubclasses.toList.flatten,
    underEach .nestedClass NestedClass.slots 0 file.nestedClasses.toList.flatten,
    underSome .enclosingMethod EnclosingMethod.slots file.enclosingMethod,
    underEach .field Field.slots 0 file.fields,
    underEach .method Method.slots 0 file.methods].flatten

/-- What a method refers to. -/
def Method.references (method : Method) : List Reference := method.slots.map Slot.reference

/-- What a class refers to. -/
def ClassFile.references (file : ClassFile) : List Reference := file.slots.map Slot.reference

/-- The names of object classes in all references of a class. -/
def ClassFile.classNames (file : ClassFile) : List ClassName :=
  file.references.flatMap Reference.classNames

/-! ### The classes that a renamed reference mentions -/

namespace Renamer

variable {renamer : Renamer}

theorem parts_of_fieldRef {ref new : FieldRef} {isStatic : Bool}
    (done : (renamer.fieldRef ref isStatic).result = .ok new) :
    renamer.mappings.classNameAny ref.owner = .ok new.owner ∧
      renamer.mappings.fieldDescriptor ref.descriptor = .ok new.descriptor := by
  obtain ⟨_, _, rest⟩ := Recorded.result_bind_eq_ok_iff.mp done
  obtain ⟨owner, ownerDone, rest⟩ := Recorded.result_bind_eq_ok_iff.mp rest
  obtain ⟨descriptor, descriptorDone, ⟨⟩⟩ := Recorded.result_bind_eq_ok_iff.mp rest
  exact ⟨ownerDone, descriptorDone⟩

theorem parts_of_methodRef {ref new : MethodRef} {isStatic : Bool}
    (done : (renamer.methodRef ref isStatic).result = .ok new) :
    renamer.mappings.classNameAny ref.owner = .ok new.owner ∧
      renamer.mappings.methodDescriptor ref.descriptor = .ok new.descriptor := by
  have parts : ∀ name : Option MethodName, Recorded.Ensures (do
      let owner ← (renamer.mappings.classNameAny ref.owner : Except Fault _)
      let descriptor ← (renamer.mappings.methodDescriptor ref.descriptor : Except Fault _)
      return MethodRef.mk owner (name.getD ref.name) descriptor : Journal MethodRef) fun new =>
        renamer.mappings.classNameAny ref.owner = .ok new.owner ∧
          renamer.mappings.methodDescriptor ref.descriptor = .ok new.descriptor := by
    intro name
    refine Recorded.ensures_lift.bind fun owner ownerDone => ?_
    refine Recorded.ensures_lift.bind fun descriptor descriptorDone => ?_
    exact Recorded.ensures_pure ⟨ownerDone, descriptorDone⟩
  unfold methodRef at done
  by_cases array : ref.owner.isArray = true
  · rw [if_pos array] at done
    exact parts none new done
  · rw [if_neg array] at done
    obtain ⟨name, _, rest⟩ := Recorded.result_bind_eq_ok_iff.mp done
    exact parts name new rest

end Renamer

theorem Reference.classNames_of_rename {renamer : Renamer}
    (targets : renamer.mappings.ObjectTargets)
    {old new : Reference} (done : old.rename renamer = .ok new) :
    new.classNames = old.classNames.map renamer.mappings.className := by
  cases old with
  | type name =>
    obtain ⟨renamed, found, rfl⟩ := except_map_eq_ok_iff.mp done
    exact Mappings.objectNames_of_classNameAny targets found
  | fieldType descriptor =>
    obtain ⟨renamed, found, rfl⟩ := except_map_eq_ok_iff.mp done
    exact Mappings.classNames_of_fieldDescriptor targets found
  | methodType descriptor =>
    obtain ⟨renamed, found, rfl⟩ := except_map_eq_ok_iff.mp done
    exact Mappings.classNames_of_methodDescriptor targets found
  | field isStatic ref =>
    obtain ⟨renamed, found, rfl⟩ := except_map_eq_ok_iff.mp done
    obtain ⟨owner, descriptor⟩ := Renamer.parts_of_fieldRef found
    show renamed.owner.objectNames ++ renamed.descriptor.classNames = _
    rw [Mappings.objectNames_of_classNameAny targets owner,
      Mappings.classNames_of_fieldDescriptor targets descriptor, ← List.map_append]
    rfl
  | method isStatic ref =>
    obtain ⟨renamed, found, rfl⟩ := except_map_eq_ok_iff.mp done
    obtain ⟨owner, descriptor⟩ := Renamer.parts_of_methodRef found
    show renamed.owner.objectNames ++ renamed.descriptor.classNames = _
    rw [Mappings.objectNames_of_classNameAny targets owner,
      Mappings.classNames_of_methodDescriptor targets descriptor, ← List.map_append]
    rfl

/-! ### The pass renames every reference -/

namespace Pass

open Recorded

variable (pass : Pass)

/-- The slots behind are those before, each with its reference renamed. -/
def Renames (before after : List Slot) : Prop :=
  List.Forall₂ (fun old new => old.rename pass.renamer = .ok new) before after

variable {pass}

section Renames

variable {α β : Type} {before after moreBefore moreAfter : List Slot} {items : List α}
  {values : List β} {slots : α → List Slot} {newSlots : β → List Slot}

theorem Renames.append (first : pass.Renames before after)
    (second : pass.Renames moreBefore moreAfter) :
    pass.Renames (before ++ moreBefore) (after ++ moreAfter) :=
  List.rel_append first second

theorem Renames.flatMap
    (each : List.Forall₂ (fun item value => pass.Renames (slots item) (newSlots value))
      items values) :
    pass.Renames (items.flatMap slots) (values.flatMap newSlots) :=
  List.rel_flatMap each fun _ _ renames => renames

/-- What is renamed in a part is renamed in the whole, and stays in the part. -/
theorem Renames.under (renames : pass.Renames before after) (part : Part) :
    pass.Renames (Slot.under part before) (Slot.under part after) := by
  rw [Renames, Slot.under, Slot.under, List.forall₂_map_left_iff, List.forall₂_map_right_iff]
  refine renames.imp fun old new done => ?_
  obtain ⟨reference, found, rfl⟩ := except_map_eq_ok_iff.mp done
  exact except_map_eq_ok_iff.mpr ⟨reference, found, rfl⟩

theorem Renames.underSome (part : Part) {item : Option α} {value : Option β}
    (each : List.Forall₂ (fun item value => pass.Renames (slots item) (newSlots value)) item.toList
      value.toList) :
    pass.Renames (Slot.underSome part slots item) (Slot.underSome part newSlots value) :=
  Renames.flatMap (each.imp fun _ _ renames => renames.under part)

theorem Renames.underEach (part : Nat → Part) (index : Nat)
    (each : List.Forall₂ (fun item value => pass.Renames (slots item) (newSlots value))
      items values) :
    pass.Renames (Slot.underEach part slots index items)
      (Slot.underEach part newSlots index values) := by
  induction each generalizing index with
  | nil => exact .nil
  | cons first _ ih => exact (first.under (part index)).append (ih (index + 1))

/-- The references by themselves are renamed, too. -/
theorem Renames.references (renames : pass.Renames before after) :
    List.Forall₂ (fun old new => old.rename pass.renamer = .ok new) (before.map Slot.reference)
      (after.map Slot.reference) := by
  rw [List.forall₂_map_left_iff, List.forall₂_map_right_iff]
  refine renames.imp fun old new done => ?_
  obtain ⟨reference, found, rfl⟩ := except_map_eq_ok_iff.mp done
  exact found

theorem renames_one (path : List Part) {old new : Reference}
    (done : old.rename pass.renamer = .ok new) : pass.Renames [⟨path, old⟩] [⟨path, new⟩] :=
  .cons (except_map_eq_ok_iff.mpr ⟨new, done, rfl⟩) .nil

theorem renames_type {name renamed : ClassName}
    (found : pass.mappings.classNameAny name = .ok renamed) :
    pass.Renames name.slots renamed.slots :=
  renames_one [] (except_map_eq_ok_iff.mpr ⟨renamed, found, rfl⟩)

theorem renames_fieldType (path : List Part) {descriptor renamed : FieldDescriptor}
    (found : pass.mappings.fieldDescriptor descriptor = .ok renamed) :
    pass.Renames [⟨path, .fieldType descriptor⟩] [⟨path, .fieldType renamed⟩] :=
  renames_one path (except_map_eq_ok_iff.mpr ⟨renamed, found, rfl⟩)

theorem renames_methodType (path : List Part) {descriptor renamed : MethodDescriptor}
    (found : pass.mappings.methodDescriptor descriptor = .ok renamed) :
    pass.Renames [⟨path, .methodType descriptor⟩] [⟨path, .methodType renamed⟩] :=
  renames_one path (except_map_eq_ok_iff.mpr ⟨renamed, found, rfl⟩)

end Renames

variable (pass)

/-! #### Constants and instructions -/

theorem ensures_handle (handle : Handle) :
    (pass.handle handle).Ensures fun renamed =>
      handle.reference.rename pass.renamer = .ok renamed.reference := by
  cases handle with
  | field use ref =>
    exact ensures_result.bind fun new found =>
      ensures_pure (except_map_eq_ok_iff.mpr ⟨new, found, rfl⟩)
  | method how ref =>
    exact ensures_result.bind fun new found =>
      ensures_pure (except_map_eq_ok_iff.mpr ⟨new, found, rfl⟩)

mutual

/-- **A constant is renamed slot by slot**, and so is everything that it is computed from. -/
theorem ensures_loadable : (value : Loadable) → (pass.loadable value).Ensures fun renamed =>
    pass.Renames value.slots renamed.slots
  | .type name => by
    rw [Pass.loadable]
    exact ensures_lift.bind fun new found => ensures_pure (renames_type found)
  | .handle target => by
    rw [Pass.loadable]
    exact (pass.ensures_handle target).bind fun new referred =>
      ensures_pure (renames_one [] referred)
  | .methodType descriptor => by
    rw [Pass.loadable]
    exact ensures_lift.bind fun new found => ensures_pure (renames_methodType [] found)
  | .computed name descriptor target arguments => by
    rw [Pass.loadable]
    refine ensures_lift.bind fun newType found => ?_
    refine (pass.ensures_handle target).bind fun newTarget referred => ?_
    refine (ensures_loadables 0 arguments).bind fun newArguments given => ensures_pure ?_
    exact (renames_fieldType _ found).append ((renames_one _ referred).append given)
  | .integer _ => by
    rw [Pass.loadable]
    exact ensures_pure .nil
  | .float _ => by
    rw [Pass.loadable]
    exact ensures_pure .nil
  | .long _ => by
    rw [Pass.loadable]
    exact ensures_pure .nil
  | .double _ => by
    rw [Pass.loadable]
    exact ensures_pure .nil
  | .string _ => by
    rw [Pass.loadable]
    exact ensures_pure .nil

theorem ensures_loadables (index : Nat) :
    (values : List Loadable) → (pass.loadables values).Ensures fun renamed =>
      pass.Renames (Loadable.allSlots index values) (Loadable.allSlots index renamed)
  | [] => by
    rw [Pass.loadables]
    exact ensures_pure .nil
  | value :: rest => by
    rw [Pass.loadables]
    refine (ensures_loadable value).bind fun newValue renames => ?_
    refine (ensures_loadables (index + 1) rest).bind fun newRest given => ensures_pure ?_
    exact (renames.under _).append given

end

theorem ensures_dynamicCall (call : DynamicCall) :
    (pass.dynamicCall call).Ensures fun renamed => pass.Renames call.slots renamed.slots := by
  have parts : ∀ name : Option MethodName, Ensures (do
      let descriptor ← (pass.mappings.methodDescriptor call.descriptor : Except Fault _)
      let handle ← pass.handle call.handle
      let arguments ← pass.loadables call.arguments
      return { name := name.getD call.name, descriptor, handle, arguments } : Journal DynamicCall)
        fun renamed => pass.Renames call.slots renamed.slots := by
    intro name
    refine ensures_lift.bind fun descriptor typed => ?_
    refine (pass.ensures_handle call.handle).bind fun handle referred => ?_
    refine (pass.ensures_loadables 0 call.arguments).bind fun arguments given => ensures_pure ?_
    exact (renames_methodType _ typed).append ((renames_one _ referred).append given)
  unfold dynamicCall
  by_cases lambdas : pass.options.renameLambdas = true
  · rw [if_pos lambdas]
    exact ensures_result.bind fun name _ => parts name
  · rw [if_neg lambdas]
    exact parts none

theorem ensures_instruction (instruction : Instruction) :
    (pass.instruction instruction).Ensures fun renamed =>
      pass.Renames instruction.slots renamed.slots := by
  cases instruction with
  | load value => exact (pass.ensures_loadable value).bind fun new renames => ensures_pure renames
  | field use ref =>
    exact ensures_result.bind fun new found =>
      ensures_pure (renames_one [] (except_map_eq_ok_iff.mpr ⟨new, found, rfl⟩))
  | call kind ref =>
    exact ensures_result.bind fun new found =>
      ensures_pure (renames_one [] (except_map_eq_ok_iff.mpr ⟨new, found, rfl⟩))
  | callDynamic call =>
    exact (pass.ensures_dynamicCall call).bind fun new renames => ensures_pure renames
  | withClass op name => exact ensures_lift.bind fun new found => ensures_pure (renames_type found)
  | createMultiArray name dimensions =>
    exact ensures_lift.bind fun new found => ensures_pure (renames_type found)
  | plain op => exact ensures_pure .nil
  | withLocal op index => exact ensures_pure .nil
  | jump op target => exact ensures_pure .nil
  | push op value => exact ensures_pure .nil
  | increment index amount => exact ensures_pure .nil
  | createBaseArray element => exact ensures_pure .nil
  | tableSwitch fallback low high targets => exact ensures_pure .nil
  | lookupSwitch fallback pairs => exact ensures_pure .nil

/-! #### Code and members -/

theorem ensures_codeEntry (entry : CodeEntry) :
    (pass.codeEntry entry).Ensures fun renamed =>
      pass.Renames entry.instruction.slots renamed.instruction.slots :=
  (pass.ensures_instruction entry.instruction).bind fun _ renames => ensures_pure renames

theorem ensures_exceptionRange (range : ExceptionRange) :
    (pass.exceptionRange range).Ensures fun renamed => pass.Renames range.slots renamed.slots := by
  unfold exceptionRange
  refine (ensures_mapM_option fun _ => ensures_lift).bind fun _ caught => ensures_pure ?_
  exact Renames.flatMap (caught.imp fun _ _ found => renames_type found)

theorem ensures_localVariable (entry : LocalVariable) :
    (pass.localVariable entry).Ensures fun renamed => pass.Renames entry.slots renamed.slots := by
  unfold localVariable
  refine (ensures_mapM_option fun _ => ensures_lift).bind fun descriptor typed => ?_
  refine ensures_result.bind fun signature _ => ensures_pure ?_
  rw [LocalVariable.slots, ← List.flatMap_pure_eq_map, LocalVariable.slots,
    ← List.flatMap_pure_eq_map]
  exact Renames.flatMap (typed.imp fun _ _ found => renames_fieldType _ found)

theorem ensures_code (code : Code) :
    (pass.code code).Ensures fun renamed => pass.Renames code.slots renamed.slots := by
  unfold Pass.code
  refine (ensures_mapM pass.ensures_codeEntry).bind fun instructions executed => ?_
  refine (ensures_mapM pass.ensures_exceptionRange).bind fun exceptionTable caught => ?_
  refine (ensures_mapM_option fun entries =>
    ensures_mapM pass.ensures_localVariable).bind fun localVariables typed => ensures_pure ?_
  exact (Renames.underEach _ 0 executed).append ((Renames.underEach _ 0 caught).append
    (Renames.underEach _ 0 (List.rel_flatten typed)))

theorem ensures_field (owner : ClassName) (field : Field) :
    (pass.field owner field).Ensures fun renamed => pass.Renames field.slots renamed.slots := by
  unfold Pass.field
  refine ensures_lift.bind fun descriptor typed => ?_
  exact ensures_result.bind fun signature _ => ensures_pure (renames_fieldType _ typed)

/-- Of a method, its descriptor and its code are followed; the pass may add to the classes that it
throws. -/
theorem ensures_method (owner : ClassName) (method : Method) :
    (pass.method owner method).Ensures fun renamed => pass.Renames method.slots renamed.slots := by
  unfold Pass.method
  refine ensures_result.bind fun parameters _ => ensures_result.bind fun found _ => ?_
  refine ensures_lift.bind fun descriptor typed => ?_
  refine (ensures_mapM_option pass.ensures_code).bind fun code coded => ?_
  refine ensures_result.bind fun signature _ => ensures_pure ?_
  exact (renames_methodType _ typed).append (Renames.flatMap coded)

/-! #### Classes -/

theorem ensures_className (name : ClassName) :
    (pass.className name).Ensures fun renamed => pass.mappings.classNameAny name = .ok renamed := by
  unfold Pass.className
  exact ensures_lift

theorem ensures_slots_of_className (name : ClassName) :
    (pass.className name).Ensures fun renamed => pass.Renames name.slots renamed.slots :=
  fun renamed done => renames_type (pass.ensures_className name renamed done)

/-- Only here it matters that no class gets the name of an array and that no array has an entry. -/
theorem ensures_nestedClass (keys : pass.mappings.ObjectKeys)
    (targets : pass.mappings.ObjectTargets) (entry : NestedClass) :
    (pass.nestedClass entry).Ensures fun renamed => pass.Renames entry.slots renamed.slots := by
  have inner : pass.Renames (if entry.inner.isArray then [] else entry.inner.slots)
      (if (pass.mappings.className entry.inner).isArray then []
        else (pass.mappings.className entry.inner).slots) := by
    cases array : entry.inner.isArray with
    | true =>
      rw [keys.className_of_isArray array, array, if_pos rfl]
      exact .nil
    | false =>
      rw [targets.isArray_className array, if_neg Bool.false_ne_true, if_neg Bool.false_ne_true]
      exact renames_type (if_neg (ne_true_of_eq_false array))
  unfold Pass.nestedClass
  refine (ensures_mapM_option fun _ => ensures_lift).bind fun outer around => ensures_pure ?_
  exact (inner.under _).append
    (Renames.underSome _ (around.imp fun _ _ found => renames_type found))

theorem ensures_methodKey (owner : ClassName) (key : MethodKey) :
    (pass.methodKey owner key).Ensures fun renamed =>
      pass.mappings.methodDescriptor key.descriptor = .ok renamed.descriptor := by
  unfold Pass.methodKey
  refine ensures_result.bind fun name _ => ?_
  exact ensures_lift.bind fun descriptor typed => ensures_pure typed

theorem ensures_enclosingMethod (entry : EnclosingMethod) :
    (pass.enclosingMethod entry).Ensures fun renamed => pass.Renames entry.slots renamed.slots := by
  unfold Pass.enclosingMethod
  refine (ensures_mapM_option (pass.ensures_methodKey entry.owner)).bind fun method typed => ?_
  refine ensures_lift.bind fun owner found => ensures_pure ?_
  refine ((renames_type found).under .owner).append ?_
  rw [← List.flatMap_pure_eq_map, ← List.flatMap_pure_eq_map]
  exact Renames.flatMap (typed.imp fun _ _ done => renames_methodType _ done)

/-- **The slots of a renamed class are those of the class, each with its reference renamed.** -/
theorem ensures_classFile (keys : pass.mappings.ObjectKeys) (targets : pass.mappings.ObjectTargets)
    (file : ClassFile) :
    (pass.classFile file).Ensures fun renamed => pass.Renames file.slots renamed.slots := by
  unfold Pass.classFile
  refine (ensures_mapM (pass.ensures_field file.name)).bind fun fields fieldsTyped => ?_
  refine (ensures_mapM fun method =>
    (pass.ensures_method file.name method).within _).bind fun methods methodsRenamed => ?_
  refine (pass.ensures_slots_of_className file.name).bind fun name named => ?_
  refine (ensures_mapM_option pass.ensures_slots_of_className).bind fun superClass above => ?_
  refine (ensures_mapM pass.ensures_slots_of_className).bind fun interfaces implemented => ?_
  refine (ensures_mapM_option fun entries =>
    ensures_mapM (pass.ensures_nestedClass keys targets)).bind fun nestedClasses nested => ?_
  refine (ensures_mapM_option pass.ensures_enclosingMethod).bind fun enclosingMethod enclosing => ?_
  refine ensures_result.bind fun signature _ => ?_
  refine (ensures_mapM_option pass.ensures_slots_of_className).bind fun nestHost host => ?_
  refine (ensures_mapM_option fun names =>
    ensures_mapM pass.ensures_slots_of_className).bind fun nestMembers members => ?_
  refine (ensures_mapM_option fun names =>
    ensures_mapM pass.ensures_slots_of_className).bind fun permittedSubclasses permitted =>
      ensures_pure (List.rel_flatten ?_)
  exact .cons (named.under _) <| .cons (Renames.underSome _ above) <|
    .cons (Renames.underEach _ 0 implemented) <| .cons (Renames.underSome _ host) <|
    .cons (Renames.underEach _ 0 (List.rel_flatten members)) <|
    .cons (Renames.underEach _ 0 (List.rel_flatten permitted)) <|
    .cons (Renames.underEach _ 0 (List.rel_flatten nested)) <|
    .cons (Renames.underSome _ enclosing) <| .cons (Renames.underEach _ 0 fieldsTyped) <|
    .cons (Renames.underEach _ 0 methodsRenamed) .nil

end Pass

/-! ### Bridges -/

theorem Method.slots_degradedTo (method : Method) (target : Option MethodKey) :
    (method.degradedTo target).slots = method.slots := by
  rw [degradedTo]
  split <;> rfl

/-- What degrading a method does not change, degrading all methods does not change. -/
theorem Method.map_degradedTo {α : Type} {view : Method → α}
    (same : ∀ method target, view (degradedTo method target) = view method) {methods : List Method}
    {targets : List (Option MethodKey)} (covered : methods.length ≤ targets.length) :
    ((methods.zip targets).map fun (method, target) => method.degradedTo target).map view =
      methods.map view := by
  rw [List.map_map]
  conv_rhs => rw [← List.map_fst_zip covered, List.map_map]
  exact congrArg (List.map · _) (funext fun pair => same pair.1 pair.2)

/-- The slots of all items depend on the slots of each item only. -/
theorem Slot.underEach_congr {α : Type} {part : Nat → Part} {slots : α → List Slot}
    {items others : List α} (same : items.map slots = others.map slots) (index : Nat) :
    underEach part slots index items = underEach part slots index others := by
  have listed : ∀ items : List α, underEach part slots index items =
      underEach part id index (items.map slots) := by
    intro items
    induction items generalizing index with
    | nil => rfl
    | cons item rest ih => exact congrArg (under (part index) (slots item) ++ ·) (ih (index + 1))
  rw [listed items, same, listed others]

/-- Degrading bridges changes flags only, so the class refers to what it referred to. -/
theorem ClassFile.slots_of_degradeBridges (file : ClassFile) :
    file.degradeBridges.Ensures fun out => out.1.slots = file.slots := by
  unfold degradeBridges
  refine Recorded.ensures_lift.bind fun targets found => ?_
  refine Recorded.ensures_result.bind fun _ _ => Recorded.ensures_pure ?_
  have methods := Method.map_degradedTo Method.slots_degradedTo
    (except_mapM_eq_ok_iff.mp found).length_eq.le
  simp only [slots, Slot.underEach_congr methods]

/-! ### The whole pass -/

/-- Degrading bridges comes before renaming and leaves the slots as they are. -/
theorem Pass.ensures_process (pass : Pass) (keys : pass.mappings.ObjectKeys)
    (targets : pass.mappings.ObjectTargets) (file : ClassFile) :
    (pass.process file).Ensures fun out => pass.Renames file.slots out.1.slots := by
  have renamed : ∀ degraded : ClassFile × List DegradedBridge,
      degraded.1.slots = file.slots → Recorded.Ensures (do
        let renamed ← pass.classFile degraded.1
        Recorded.note [.classDone renamed.name]
        return (renamed, degraded.2) : Journal (ClassFile × List DegradedBridge)) fun out =>
          pass.Renames file.slots out.1.slots := by
    intro degraded same
    refine (pass.ensures_classFile keys targets degraded.1).bind fun renamed renames => ?_
    rw [same] at renames
    exact Recorded.ensures_result.bind fun _ _ => Recorded.ensures_pure renames
  unfold process
  by_cases degrades : pass.options.degradeBridges = true
  · rw [if_pos degrades]
    exact file.slots_of_degradeBridges.bind renamed
  · rw [if_neg degrades]
    exact renamed (file, []) rfl

/-- The classes in renamed references are the new names of the classes in the references. -/
theorem Reference.classNames_of_renamed {renamer : Renamer}
    (targets : renamer.mappings.ObjectTargets) {before after : List Reference}
    (renamed : List.Forall₂ (fun old new => old.rename renamer = .ok new) before after) :
    after.flatMap classNames = (before.flatMap classNames).map renamer.mappings.className := by
  induction renamed with
  | nil => rfl
  | cons done _ ih =>
    rw [List.flatMap_cons, List.flatMap_cons, List.map_append, ih,
      classNames_of_rename targets done]

/-- **Every reference is renamed.** Let only classes that are no arrays have entries, and let their
new names not be those of arrays. If a pass ends well, then class by class the references of the
renamed class are those of the class, in the same order, each renamed by the resolver of the pass:
members with the static flag of their use, types and class names through the names inside. The
renamed reference stands in the slot in which the reference stood: the super class in that of the
super class, each interface in that of the interface with its number, each operand in that of the
instruction and the constant around it. The classes that a renamed class mentions are one by one the
new names of those that the class mentioned. -/
theorem references_renamed_one_by_one {mappings : Mappings} (keys : mappings.ObjectKeys)
    (targets : mappings.ObjectTargets) {classes renamed : List ClassFile} {hierarchy : Hierarchy}
    {supplement : Supplement} {options : PassOptions} {report : PassReport}
    (done : (renameClasses classes mappings hierarchy supplement options).result =
      .ok (renamed, report)) :
    let pass := Pass.ofIndex (indexTable classes) mappings hierarchy supplement options
    List.Forall₂ (fun file new =>
      new.classNames = file.classNames.map mappings.className ∧
        file.references.mapM (Reference.rename pass.renamer) = .ok new.references ∧
        file.slots.mapM (Slot.rename pass.renamer) = .ok new.slots)
      classes renamed := by
  intro pass
  unfold renameClasses at done
  obtain ⟨_, _, rest⟩ := Recorded.result_bind_eq_ok_iff.mp done
  obtain ⟨index, ⟨⟩, rest⟩ := Recorded.result_bind_eq_ok_iff.mp rest
  obtain ⟨processed, each, rest⟩ := Recorded.result_bind_eq_ok_iff.mp rest
  obtain ⟨_, _, ⟨⟩⟩ := Recorded.result_bind_eq_ok_iff.mp rest
  have renames : List.Forall₂ (fun file out => pass.Renames file.slots out.1.slots)
      classes processed :=
    Recorded.ensures_mapM (fun file => (pass.ensures_process keys targets file).within _) _ each
  have passTargets : pass.renamer.mappings.ObjectTargets := targets
  rw [List.forall₂_map_right_iff]
  refine renames.imp fun file out holds => ⟨?_, ?_, ?_⟩
  · exact Reference.classNames_of_renamed passTargets holds.references
  · exact except_mapM_eq_ok_iff.mpr holds.references
  · exact except_mapM_eq_ok_iff.mpr holds

/-! ### Constants within constants -/

namespace NestedConstants

/-- A constant that is computed from a field of the class and from another such constant, which is
computed from an array type. -/
def constant (owner : ClassName) (field : FieldName) (type : FieldDescriptor) (array : ClassName) :
    Loadable :=
  .computed ⟨"k"⟩ type (.field .getStatic ⟨owner, field, type⟩)
    [.computed ⟨"l"⟩ type (.field .getField ⟨owner, field, type⟩) [.type array]]

/-- A class with a method that loads the constant, and an entry for an array as a nested class. -/
def holding (name : ClassName) (constant : Loadable) : ClassFile where
  version := ⟨61, 0⟩
  access := .none
  name := name
  superClass := none
  interfaces := []
  fields := []
  methods := [⟨.none, ⟨"run"⟩, ⟨"()V"⟩, some ⟨none, none, [⟨none, .load constant⟩],
    [⟨0, 1, 2, some name⟩], none, none, none⟩, none, none, none⟩]
  nestedClasses := some [⟨⟨"[La;"⟩, some name, none, .none⟩]
  enclosingMethod := none
  signature := none
  sourceFile := none
  nestHost := none
  nestMembers := none
  permittedSubclasses := none

def file : ClassFile :=
  { holding ⟨"a"⟩ (constant ⟨"a"⟩ ⟨"f"⟩ ⟨"La;"⟩ ⟨"[La;"⟩) with
    superClass := some ⟨"s"⟩
    interfaces := [⟨"i"⟩, ⟨"j"⟩] }

/-- The super class gets the name that the second interface had. -/
def mappings : Mappings :=
  ((((∅ : Mappings).addClass ⟨"a"⟩ ⟨"b"⟩).addClass ⟨"s"⟩ ⟨"j"⟩).addClass ⟨"j"⟩ ⟨"k"⟩).addField
    ⟨"a"⟩ ⟨"f"⟩ ⟨"g"⟩

def renamed : ClassFile :=
  { holding ⟨"b"⟩ (constant ⟨"b"⟩ ⟨"g"⟩ ⟨"Lb;"⟩ ⟨"[Lb;"⟩) with
    superClass := some ⟨"j"⟩
    interfaces := [⟨"i"⟩, ⟨"k"⟩] }

end NestedConstants

/-- The class is mentioned ten times, seven of them within the constant, and each time its name is
replaced; so are those of the super class and of the second interface, in their slots. -/
theorem nested_constants_renamed_one_by_one :
    (renameClasses [NestedConstants.file] NestedConstants.mappings ∅ ∅ {}).result =
        .ok ([NestedConstants.renamed], ⟨1, []⟩) ∧
      NestedConstants.renamed.classNames =
        NestedConstants.file.classNames.map NestedConstants.mappings.className ∧
      NestedConstants.file.classNames =
        [⟨"a"⟩, ⟨"s"⟩, ⟨"i"⟩, ⟨"j"⟩] ++ List.replicate 9 ⟨"a"⟩ ∧
      NestedConstants.renamed.slots.take 5 =
        [⟨[.name], .type ⟨"b"⟩⟩, ⟨[.superClass], .type ⟨"j"⟩⟩, ⟨[.interface 0], .type ⟨"i"⟩⟩,
          ⟨[.interface 1], .type ⟨"k"⟩⟩, ⟨[.nestedClass 0, .outer], .type ⟨"b"⟩⟩] := by
  have done : (renameClasses [NestedConstants.file] NestedConstants.mappings ∅ ∅ {}).result =
      .ok ([NestedConstants.renamed], ⟨1, []⟩) := by
    cbv
  have keys : NestedConstants.mappings.ObjectKeys := by decide
  have targets : NestedConstants.mappings.ObjectTargets := by decide
  have pairs := references_renamed_one_by_one keys targets done
  obtain ⟨⟨names, _⟩, _⟩ := List.forall₂_cons.mp pairs
  exact ⟨done, names, by cbv, by cbv⟩

end Renaming

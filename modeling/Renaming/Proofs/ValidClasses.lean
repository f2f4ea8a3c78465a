import Renaming.Pass
import Renaming.Proofs.LookupOrder
import Renaming.Proofs.ValidMappings

/-!
# Validity through a pass

A pass over valid classes with mappings from checked parts never fails, and it gives valid classes
if and only if the mappings keep the shapes of names.

The proof follows the pass from the symbols upwards. What a computation of the pass gives is stated
with `Recorded.Gives`: it ends well, and what it ends with meets `Pass.outcome`, which is validity
under the condition on the mappings. So both halves of the result come out of one traversal.
-/

namespace Renaming

open Recorded

namespace Pass

/-- What holds of the symbols that a pass over valid classes gives. -/
def outcome (pass : Pass) : Requirement := .validIf pass.mappings.KeepsShapes

variable {pass : Pass}

/-- What is valid without any condition is valid under one. -/
theorem outcome_of_valid {kind : SymbolKind} {symbol : Symbol kind} (fine : symbol.Valid) :
    pass.outcome kind symbol := fun _ => fine

/-- A name that may have been replaced by a valid one. -/
theorem outcome_getD {kind : SymbolKind} {new : Option (Symbol kind)} {old : Symbol kind}
    (fine : ∀ name ∈ new, name.Valid) (kept : old.Valid) : pass.outcome kind (new.getD old) := by
  cases new with
  | none => exact outcome_of_valid kept
  | some name => exact outcome_of_valid (fine name rfl)

/-! ### Names of members -/

section References

variable (valid : pass.mappings.Valid)

include valid

/-- A name that is found comes from an entry, and entries have valid names. -/
theorem valid_of_field {ref : FieldRef} {isStatic : Bool} :
    ∀ name ∈ (pass.resolver.field ref isStatic).map Resolved.name, name.Valid := by
  intro name member
  obtain ⟨hit, found, rfl⟩ := Option.map_eq_some_iff.mp member
  obtain ⟨_, filed, _⟩ := (Resolver.field_eq_some_iff _ ref isStatic hit).mp found
  exact valid.fields _ _ _ filed

theorem valid_of_method {ref : MethodRef} {isStatic : Bool} :
    ∀ name ∈ (pass.resolver.method ref isStatic).map Resolved.name, name.Valid := by
  intro name member
  obtain ⟨hit, found, rfl⟩ := Option.map_eq_some_iff.mp member
  obtain ⟨_, _, filed, _⟩ := (Resolver.method_eq_some_iff _ ref isStatic hit).mp found
  exact valid.methods _ _ _ filed

/-- This holds also of the entry of a method that is overridden. -/
theorem valid_of_declaration {ref : MethodRef} {access : MethodAccess} :
    ∀ name ∈ (pass.resolver.declaration ref access).map Resolved.name, name.Valid := by
  intro name member
  obtain ⟨hit, found, rfl⟩ := Option.map_eq_some_iff.mp member
  obtain ⟨_, ⟨_, filed⟩ | ⟨_, _, _, _, filed, _⟩⟩ :=
    (Resolver.declaration_eq_some_iff _ ref access hit).mp found
  · exact valid.methods _ _ _ filed
  · exact valid.methods _ _ _ filed

theorem gives_methodName? (ref : MethodRef) (isStatic : Bool) :
    (pass.renamer.methodName? ref isStatic).Gives fun found => ∀ name ∈ found, name.Valid :=
  ⟨_, rfl, valid_of_method valid⟩

/-! ### Constants and references -/

theorem gives_className {name : ClassName} (fine : name.Valid) :
    (pass.className name).Gives (pass.outcome _) := by
  obtain ⟨renamed, done, holds⟩ := Mappings.exists_classNameAny valid fine
  refine ⟨renamed, ?_, holds⟩
  rw [← done]
  rfl

theorem gives_fieldRef {ref : FieldRef} (fine : ref.Meets .valid) (isStatic : Bool) :
    (pass.renamer.fieldRef ref isStatic).Gives (FieldRef.Meets pass.outcome) := by
  obtain ⟨owner, ownerFound, owned⟩ := Mappings.exists_classNameAny valid fine.owner
  obtain ⟨descriptor, read, typed⟩ := Mappings.exists_fieldDescriptor valid fine.descriptor
  exact ⟨_, Renamer.fieldRef_of_parts pass.resolver isStatic ownerFound read, owned,
    outcome_getD (valid_of_field valid) fine.name, typed⟩

/-- The class may be an array, whose name is renamed as a descriptor; then the method keeps its
name. -/
theorem gives_methodRef {ref : MethodRef} (fine : ref.Meets .valid) (isStatic : Bool) :
    (pass.renamer.methodRef ref isStatic).Gives (MethodRef.Meets pass.outcome) := by
  obtain ⟨owner, ownerFound, owned⟩ := Mappings.exists_classNameAny valid fine.owner
  obtain ⟨descriptor, read, typed⟩ := Mappings.exists_methodDescriptor valid fine.descriptor
  refine ⟨_, Renamer.methodRef_of_parts pass.resolver isStatic ownerFound read, owned, ?_, typed⟩
  by_cases array : ref.owner.isArray = true
  · rw [if_pos array]
    exact outcome_of_valid fine.name
  · rw [if_neg array]
    exact outcome_getD (valid_of_method valid) fine.name

theorem gives_handle {handle : Handle} (fine : handle.Meets .valid) :
    (pass.handle handle).Gives (Handle.Meets pass.outcome) := by
  cases handle with
  | field use ref =>
    exact (gives_fieldRef valid fine use.isStatic).bind fun _ holds => gives_pure holds
  | method how ref =>
    exact (gives_methodRef valid fine how.isStatic).bind fun _ holds => gives_pure holds

end References

mutual

/-- **Renaming a valid constant never fails**, and neither does renaming what it is computed
from. -/
theorem gives_loadable (valid : pass.mappings.Valid) : (value : Loadable) → value.Meets .valid →
    (pass.loadable value).Gives (Loadable.Meets pass.outcome)
  | .type name, fine => by
    rw [Pass.loadable]
    refine (gives_lift (Mappings.exists_classNameAny valid fine)).bind fun new holds => ?_
    exact gives_pure holds
  | .handle target, fine => by
    rw [Pass.loadable]
    exact (gives_handle valid fine).bind fun new holds => gives_pure holds
  | .methodType descriptor, fine => by
    rw [Pass.loadable]
    refine (gives_lift (Mappings.exists_methodDescriptor valid fine)).bind fun new holds => ?_
    exact gives_pure holds
  | .computed name descriptor target arguments, ⟨named, typed, handled, loaded⟩ => by
    rw [Pass.loadable]
    refine (gives_lift (Mappings.exists_fieldDescriptor valid typed)).bind fun newType written => ?_
    refine (gives_handle valid handled).bind fun newTarget referred => ?_
    refine (gives_loadables valid arguments loaded).bind fun newArguments given => ?_
    exact gives_pure ⟨outcome_of_valid named, written, referred, given⟩
  | .integer _, _ => by
    rw [Pass.loadable]
    exact gives_pure trivial
  | .float _, _ => by
    rw [Pass.loadable]
    exact gives_pure trivial
  | .long _, _ => by
    rw [Pass.loadable]
    exact gives_pure trivial
  | .double _, _ => by
    rw [Pass.loadable]
    exact gives_pure trivial
  | .string _, _ => by
    rw [Pass.loadable]
    exact gives_pure trivial

theorem gives_loadables (valid : pass.mappings.Valid) : (values : List Loadable) →
    Loadable.AllMeet .valid values → (pass.loadables values).Gives (Loadable.AllMeet pass.outcome)
  | [], _ => by
    rw [Pass.loadables]
    exact gives_pure trivial
  | value :: rest, ⟨first, others⟩ => by
    rw [Pass.loadables]
    refine (gives_loadable valid value first).bind fun newValue holds => ?_
    refine (gives_loadables valid rest others).bind fun newRest given => ?_
    exact gives_pure ⟨holds, given⟩

end

/-! ### Instructions -/

/-- The types that a valid descriptor writes can be read. -/
theorem exists_type {descriptor : MethodDescriptor} (fine : descriptor.Valid) :
    ∃ type, descriptor.type = .ok type := by
  obtain ⟨type, holds⟩ := (Grammar.check_eq_ok_iff MethodType).mp fine
  exact ⟨type, (Grammar.result_read_eq_ok_iff MethodType).mpr holds⟩

/-- The parameters of a method with a valid descriptor can be counted. -/
theorem exists_parameterCount {descriptor : MethodDescriptor} (fine : descriptor.Valid) :
    ∃ count, descriptor.parameterCount = .ok count := by
  obtain ⟨type, read⟩ := exists_type fine
  rw [MethodDescriptor.parameterCount, read]
  exact ⟨_, rfl⟩

section Classes

variable (valid : pass.mappings.Valid)

include valid

/-- The interface of a lambda is read off the descriptor of its call, and a valid descriptor can be
read. -/
theorem gives_lambdaName? {call : DynamicCall} (fine : call.Meets .valid) :
    (pass.lambdaName? call).Gives fun found => ∀ name ∈ found, name.Valid := by
  have nothing : (pure none : Journal (Option MethodName)).Gives
      fun found => ∀ name ∈ found, name.Valid :=
    gives_pure fun _ absent => (nomatch absent)
  obtain ⟨type, read⟩ := exists_type fine.descriptor
  unfold lambdaName?
  split
  case isFalse => exact nothing
  case isTrue =>
    split
    case h_2 => exact nothing
    case h_1 =>
      have reading : (liftM call.descriptor.type : Journal MethodType).Gives fun _ => True :=
        gives_lift ⟨type, read, trivial⟩
      refine reading.bind fun type _ => ?_
      split
      case h_2 => exact nothing
      case h_1 => exact ⟨_, rfl, valid_of_method valid⟩

theorem gives_dynamicCall {call : DynamicCall} (fine : call.Meets .valid) :
    (pass.dynamicCall call).Gives (DynamicCall.Meets pass.outcome) := by
  have parts : ∀ name : Option MethodName, (∀ new ∈ name, new.Valid) → Gives (do
      let descriptor ← (pass.mappings.methodDescriptor call.descriptor : Except Fault _)
      let handle ← pass.handle call.handle
      let arguments ← pass.loadables call.arguments
      return { name := name.getD call.name, descriptor, handle, arguments })
        (DynamicCall.Meets pass.outcome) := by
    intro name named
    refine (gives_lift (Mappings.exists_methodDescriptor valid fine.descriptor)).bind
      fun descriptor typed => ?_
    refine (gives_handle valid fine.handle).bind fun handle referred => ?_
    refine (gives_loadables valid call.arguments fine.arguments).bind fun arguments given => ?_
    exact gives_pure ⟨outcome_getD named fine.name, typed, referred, given⟩
  unfold dynamicCall
  by_cases lambdas : pass.options.renameLambdas = true
  · rw [if_pos lambdas]
    exact (gives_lambdaName? valid fine).bind parts
  · rw [if_neg lambdas]
    exact parts none fun _ absent => (nomatch absent)

/-- Instructions that name nothing meet every requirement. -/
theorem gives_instruction {instruction : Instruction} (fine : instruction.Meets .valid) :
    (pass.instruction instruction).Gives (Instruction.Meets pass.outcome) := by
  cases instruction with
  | load value => exact (gives_loadable valid value fine).bind fun _ holds => gives_pure holds
  | field use ref =>
    exact (gives_fieldRef valid fine use.isStatic).bind fun _ holds => gives_pure holds
  | call kind ref =>
    exact (gives_methodRef valid fine kind.isStatic).bind fun _ holds => gives_pure holds
  | callDynamic call => exact (gives_dynamicCall valid fine).bind fun _ holds => gives_pure holds
  | withClass op name =>
    exact (gives_lift (Mappings.exists_classNameAny valid fine)).bind fun _ holds =>
      gives_pure holds
  | createMultiArray name dimensions =>
    exact (gives_lift (Mappings.exists_classNameAny valid fine)).bind fun _ holds =>
      gives_pure holds
  | plain op => exact gives_pure trivial
  | withLocal op index => exact gives_pure trivial
  | jump op target => exact gives_pure trivial
  | push op value => exact gives_pure trivial
  | increment index amount => exact gives_pure trivial
  | createBaseArray element => exact gives_pure trivial
  | tableSwitch fallback low high targets => exact gives_pure trivial
  | lookupSwitch fallback pairs => exact gives_pure trivial

theorem gives_codeEntry {entry : CodeEntry} (fine : entry.instruction.Meets .valid) :
    (pass.codeEntry entry).Gives fun renamed => renamed.instruction.Meets pass.outcome :=
  (gives_instruction valid fine).bind fun _ holds => gives_pure holds

theorem gives_exceptionRange {range : ExceptionRange} (fine : ∀ name ∈ range.caught, name.Valid) :
    (pass.exceptionRange range).Gives fun renamed =>
      ∀ name ∈ renamed.caught, pass.outcome _ name := by
  unfold exceptionRange
  refine (gives_mapM_option fun name caught => ?_).bind fun caught holds => gives_pure holds
  exact gives_lift (Mappings.exists_classNameAny valid (fine name caught))

theorem gives_localVariable {entry : LocalVariable} (fine : entry.Meets .valid) :
    (pass.localVariable entry).Gives (LocalVariable.Meets pass.outcome) := by
  unfold localVariable
  refine (gives_mapM_option fun descriptor found =>
    gives_lift (Mappings.exists_fieldDescriptor valid (fine.descriptor descriptor found))).bind
    fun descriptor typed => ?_
  refine (gives_mapM_option fun signature found =>
    gives_lift (Mappings.exists_fieldSignature valid (fine.signature signature found))).bind
    fun signature written => ?_
  exact gives_pure ⟨typed, written⟩

theorem gives_code {code : Code} (fine : code.Meets .valid) :
    (pass.code code).Gives (Code.Meets pass.outcome) := by
  unfold Pass.code
  refine (gives_mapM fun entry member =>
    gives_codeEntry valid (fine.instructions entry member)).bind fun instructions each => ?_
  refine (gives_mapM fun range member =>
    gives_exceptionRange valid (fine.exceptionTable range member)).bind
    fun exceptionTable caught => ?_
  refine (gives_mapM_option fun entries present => gives_mapM fun entry member =>
    gives_localVariable valid (fine.localVariables entries present entry member)).bind
    fun localVariables typed => ?_
  exact gives_pure ⟨each, caught, typed⟩

/-! ### Members -/

/-- The thrown classes are valid, wherever they are known from. -/
theorem outcome_exceptions {owner : ClassName} {method : Method} (fine : method.Meets .valid)
    (supplied : pass.supplement.Meets .valid) :
    ∀ names ∈ pass.exceptions owner method, ∀ name ∈ names, pass.outcome _ name := by
  intro names given name member
  rw [exceptions] at given
  split at given
  case isTrue => cases given
  case isFalse =>
    cases given
    obtain ⟨old, listed, rfl⟩ := List.mem_map.mp (mem_distinct.mp member)
    refine outcome_of_valid (Mappings.valid_className valid ?_)
    simp only [List.mem_append] at listed
    rcases listed with declared | known | added
    · cases found : method.exceptions with
      | none =>
        rw [found] at declared
        cases declared
      | some exceptions =>
        rw [found] at declared
        exact fine.exceptions exceptions found old declared
    · cases found : pass.mappings.extra? owner method.key with
      | none =>
        rw [found] at known
        cases known
      | some extra =>
        rw [found] at known
        exact valid.exceptions owner method.key extra found old known
    · cases found : pass.supplement.get? owner method.key with
      | none =>
        rw [found] at added
        cases added
      | some exceptions =>
        rw [found] at added
        exact supplied owner method.key exceptions found old added

omit valid in
theorem gives_parameters (owner : ClassName) {method : Method} (fine : method.Meets .valid) :
    (liftM (pass.parameters owner method) : Journal (Option (List MethodParameter))).Gives
      fun _ => True := by
  refine gives_lift ?_
  rw [parameters]
  split
  case isTrue =>
    obtain ⟨count, counted⟩ := exists_parameterCount fine.descriptor
    rw [counted]
    exact ⟨_, rfl, trivial⟩
  case isFalse => exact ⟨_, rfl, trivial⟩

theorem gives_resolveDeclaration (ref : MethodRef) (access : MethodAccess) :
    (pass.resolver.resolveDeclaration ref access).Gives
      fun found => ∀ name ∈ found.map Resolved.name, name.Valid :=
  ⟨_, rfl, valid_of_declaration valid⟩

/-- The supplement may bring thrown classes of its own, so it has to be valid, too. -/
theorem gives_method (owner : ClassName) {method : Method} (fine : method.Meets .valid)
    (supplied : pass.supplement.Meets .valid) :
    (pass.method owner method).Gives (Method.Meets pass.outcome) := by
  unfold Pass.method
  refine (gives_parameters owner fine).bind fun parameters _ => ?_
  refine (gives_resolveDeclaration valid _ method.access).bind fun found named => ?_
  refine (gives_lift (Mappings.exists_methodDescriptor valid fine.descriptor)).bind
    fun descriptor typed => ?_
  refine (gives_mapM_option fun code present => gives_code valid (fine.code code present)).bind
    fun code coded => ?_
  refine (gives_mapM_option fun signature present =>
    gives_lift (Mappings.exists_methodSignature valid (fine.signature signature present))).bind
    fun signature written => ?_
  exact gives_pure ⟨outcome_getD named fine.name, typed, coded,
    outcome_exceptions valid fine supplied, written⟩

theorem gives_field (owner : ClassName) {field : Field} (fine : field.Meets .valid) :
    (pass.field owner field).Gives (Field.Meets pass.outcome) := by
  unfold Pass.field
  refine (gives_lift (Mappings.exists_fieldDescriptor valid fine.descriptor)).bind
    fun descriptor typed => ?_
  refine (gives_mapM_option fun signature present =>
    gives_lift (Mappings.exists_fieldSignature valid (fine.signature signature present))).bind
    fun signature written => ?_
  exact gives_pure ⟨outcome_getD (fun name found => valid.fields _ _ _ found) fine.name,
    typed, written⟩

/-! ### Classes -/

theorem gives_nestedClass {entry : NestedClass} (fine : entry.Meets .valid) :
    (pass.nestedClass entry).Gives (NestedClass.Meets pass.outcome) := by
  unfold Pass.nestedClass
  refine (gives_mapM_option fun name present =>
    gives_lift (Mappings.exists_classNameAny valid (fine.outer name present))).bind
    fun outer around => ?_
  exact gives_pure ⟨outcome_of_valid (Mappings.valid_className valid fine.inner), around⟩

theorem gives_methodKey (owner : ClassName) {key : MethodKey} (fine : key.Meets .valid) :
    (pass.methodKey owner key).Gives (MethodKey.Meets pass.outcome) := by
  unfold Pass.methodKey
  refine (gives_methodName? valid (key.on owner) false).bind fun name named => ?_
  refine (gives_lift (Mappings.exists_methodDescriptor valid fine.descriptor)).bind
    fun descriptor typed => ?_
  exact gives_pure ⟨outcome_getD named fine.name, typed⟩

theorem gives_enclosingMethod {entry : EnclosingMethod} (fine : entry.Meets .valid) :
    (pass.enclosingMethod entry).Gives (EnclosingMethod.Meets pass.outcome) := by
  unfold Pass.enclosingMethod
  refine (gives_mapM_option fun key present =>
    gives_methodKey valid entry.owner (fine.method key present)).bind fun method keyed => ?_
  refine (gives_lift (Mappings.exists_classNameAny valid fine.owner)).bind fun owner owned => ?_
  exact gives_pure ⟨owned, keyed⟩

/-- **Renaming a valid class never fails**, and it meets the outcome symbol by symbol. -/
theorem gives_classFile {file : ClassFile} (fine : file.Meets .valid)
    (supplied : pass.supplement.Meets .valid) :
    (pass.classFile file).Gives (ClassFile.Meets pass.outcome) := by
  unfold Pass.classFile
  refine (gives_mapM fun field member =>
    gives_field valid file.name (fine.fields field member)).bind
    fun fields fieldsMeet => ?_
  refine (gives_mapM fun method member =>
    (gives_method valid file.name (fine.methods method member) supplied).within _).bind
    fun methods methodsMeet => ?_
  refine (gives_className valid fine.name).bind fun name named => ?_
  refine (gives_mapM_option fun name present =>
    gives_className valid (fine.superClass name present)).bind fun superClass superMeets => ?_
  refine (gives_mapM fun name member =>
    gives_className valid (fine.interfaces name member)).bind fun interfaces interfacesMeet => ?_
  refine (gives_mapM_option fun entries present => gives_mapM fun entry member =>
    gives_nestedClass valid (fine.nestedClasses entries present entry member)).bind
    fun nestedClasses nestedMeet => ?_
  refine (gives_mapM_option fun entry present =>
    gives_enclosingMethod valid (fine.enclosingMethod entry present)).bind
    fun enclosingMethod enclosingMeets => ?_
  refine (gives_mapM_option fun signature present =>
    gives_lift (Mappings.exists_classSignature valid (fine.signature signature present))).bind
    fun signature written => ?_
  refine (gives_mapM_option fun name present =>
    gives_className valid (fine.nestHost name present)).bind fun nestHost hostMeets => ?_
  refine (gives_mapM_option fun names present => gives_mapM fun name member =>
    gives_className valid (fine.nestMembers names present name member)).bind
    fun nestMembers membersMeet => ?_
  refine (gives_mapM_option fun names present => gives_mapM fun name member =>
    gives_className valid (fine.permittedSubclasses names present name member)).bind
    fun permittedSubclasses permittedMeet => ?_
  exact gives_pure ⟨named, superMeets, interfacesMeet, fieldsMeet, methodsMeet, nestedMeet,
    enclosingMeets, written, hostMeets, membersMeet, permittedMeet⟩

end Classes

end Pass

/-! ### Bridges -/

theorem Method.Meets.key {requirement : Requirement} {method : Method}
    (fine : method.Meets requirement) : method.key.Meets requirement :=
  ⟨fine.name, fine.descriptor⟩

/-- What a bridge forwards to is a method of the same class. To compare them, the parameters of both
are counted, which valid descriptors allow. -/
theorem exists_forwardingTarget (owner : ClassName) {siblings : List Method} {bridge : Method}
    (fine : ∀ method ∈ siblings, method.Meets .valid) (member : bridge ∈ siblings) :
    ∃ target, forwardingTarget owner siblings bridge = .ok target ∧
      ∀ key ∈ target, key.Meets .valid := by
  have nothing : ∃ target, (Except.ok none : Except Fault (Option MethodKey)) = .ok target ∧
      ∀ key ∈ target, key.Meets .valid := ⟨none, rfl, fun _ absent => (nomatch absent)⟩
  rw [forwardingTarget]
  split
  case isFalse => exact nothing
  case isTrue =>
    split
    case h_1 => exact nothing
    case h_2 ref _ =>
      split
      case isTrue => exact nothing
      case isFalse =>
        split
        case h_1 => exact nothing
        case h_2 target found =>
          have fineTarget := fine target (List.mem_of_find?_eq_some found)
          obtain ⟨targetCount, counted⟩ := Pass.exists_parameterCount fineTarget.descriptor
          obtain ⟨bridgeCount, counted'⟩ :=
            Pass.exists_parameterCount (fine bridge member).descriptor
          rw [counted, counted']
          refine ⟨_, rfl, fun key same => ?_⟩
          split at same
          case isTrue =>
            cases same
            exact fineTarget.key
          case isFalse => cases same

/-- A method that is no longer a bridge has the symbols it had. -/
theorem Method.Meets.degradedTo {requirement : Requirement} {method : Method}
    (fine : method.Meets requirement) (target : Option MethodKey) :
    (method.degradedTo target).Meets requirement := by
  rw [Method.degradedTo]
  split
  case isTrue => exact ⟨fine.name, fine.descriptor, fine.code, fine.exceptions, fine.signature⟩
  case isFalse => exact fine

theorem ClassFile.gives_degradeBridges {file : ClassFile} (fine : file.Meets .valid) :
    file.degradeBridges.Gives fun out =>
      out.1.Meets .valid ∧ ∀ bridge ∈ out.2, bridge.Meets .valid := by
  unfold degradeBridges
  have targets : (liftM file.forwardingTargets : Journal (List (Option MethodKey))).Gives
      fun targets => ∀ target ∈ targets, ∀ key ∈ target, key.Meets .valid :=
    gives_lift_mapM fun method member => exists_forwardingTarget file.name fine.methods member
  refine targets.bind fun targets keyed => (gives_note _).bind fun _ _ => gives_pure ⟨?_, ?_⟩
  · refine { fine with methods := fun method member => ?_ }
    obtain ⟨⟨old, target⟩, paired, rfl⟩ := List.mem_map.mp member
    exact (fine.methods old (List.of_mem_zip paired).1).degradedTo target
  · intro bridge member
    obtain ⟨⟨method, target⟩, paired, made⟩ := List.mem_filterMap.mp member
    obtain ⟨present, listed⟩ := List.of_mem_zip paired
    obtain ⟨key, rfl, rfl⟩ := Option.map_eq_some_iff.mp made
    exact ⟨fine.name, (fine.methods method present).key, keyed _ listed key rfl⟩

/-! ### The whole pass -/

/-- Degrading comes first and leaves a valid class, so renaming goes on as it would without it. -/
theorem Pass.gives_process (pass : Pass) (valid : pass.mappings.Valid) {file : ClassFile}
    (fine : file.Meets .valid) (supplied : pass.supplement.Meets .valid) :
    (pass.process file).Gives fun out =>
      out.1.Meets pass.outcome ∧ ∀ bridge ∈ out.2, bridge.Meets .valid := by
  have renamed : ∀ degraded : ClassFile × List DegradedBridge,
      (degraded.1.Meets .valid ∧ ∀ bridge ∈ degraded.2, bridge.Meets .valid) → Gives (do
        let renamed ← pass.classFile degraded.1
        Recorded.note [.classDone renamed.name]
        return (renamed, degraded.2)) fun out =>
          out.1.Meets pass.outcome ∧ ∀ bridge ∈ out.2, bridge.Meets .valid := by
    rintro degraded ⟨stillFine, reported⟩
    refine (gives_classFile valid stillFine supplied).bind fun renamed meets => ?_
    exact (gives_note _).bind fun _ _ => gives_pure ⟨meets, reported⟩
  unfold process
  by_cases degrades : pass.options.degradeBridges = true
  · rw [if_pos degrades]
    exact (ClassFile.gives_degradeBridges fine).bind renamed
  · rw [if_neg degrades]
    exact renamed (file, []) ⟨fine, fun _ absent => (nomatch absent)⟩

/-- A pass over valid classes ends well; what it gives is valid if the mappings keep shapes, and
what it reports is valid. -/
theorem gives_renameClasses {mappings : Mappings} (valid : mappings.Valid)
    {classes : List ClassFile}
    (fine : ∀ file ∈ classes, file.Meets .valid) (hierarchy : Hierarchy) {supplement : Supplement}
    (supplied : supplement.Meets .valid) (options : PassOptions) :
    (renameClasses classes mappings hierarchy supplement options).Gives fun out =>
      (∀ file ∈ out.1, file.Meets (.validIf mappings.KeepsShapes)) ∧
        ∀ bridge ∈ out.2.degradedBridges, bridge.Meets .valid := by
  unfold renameClasses
  have indexed : (indexClasses classes).Gives fun _ => True := ⟨indexTable classes, rfl, trivial⟩
  refine (gives_note _).bind fun _ _ => indexed.bind fun index _ => ?_
  let pass := Pass.ofIndex index mappings hierarchy supplement options
  refine (gives_mapM fun file member =>
    (pass.gives_process valid (fine file member) supplied).within _).bind fun processed meets => ?_
  refine (gives_note _).bind fun _ _ => gives_pure ⟨fun file member => ?_, fun bridge member => ?_⟩
  · obtain ⟨out, present, rfl⟩ := List.mem_map.mp member
    exact (meets out present).1
  · obtain ⟨out, present, listed⟩ := List.mem_flatMap.mp member
    exact (meets out present).2 bridge listed

end Renaming

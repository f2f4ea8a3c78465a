import Mathlib
import Renaming.Bridge
import Renaming.Supplement

/-!
# What is asked of all symbols of a class

A requirement says something of symbols, kind by kind. `ClassFile.Meets` says that all symbols of a
class meet a requirement: the class names, the names of members, the descriptors and the signatures,
in whatever part of the class they stand. Names of parameters and of local variables are not asked
about, and neither are the simple names of nested classes, which are plain texts.
-/

namespace Renaming

/-- Something that is asked of symbols, kind by kind. -/
abbrev Requirement := (kind : SymbolKind) → Symbol kind → Prop

/-- Symbols are to obey the grammar of their kind. -/
def Requirement.valid : Requirement := fun _ symbol => symbol.Valid

/-- Symbols are to obey the grammar of their kind, if something else is the case. -/
def Requirement.validIf (condition : Prop) : Requirement := fun _ symbol =>
  condition → symbol.Valid

theorem Requirement.validIf_of_holds {condition : Prop} (holds : condition) :
    validIf condition = valid := by
  funext kind symbol
  exact propext (forall_prop_of_true holds)

variable (requirement : Requirement)

/-! ### Code -/

structure FieldRef.Meets (ref : FieldRef) : Prop where
  owner : requirement _ ref.owner
  name : requirement _ ref.name
  descriptor : requirement _ ref.descriptor

structure MethodRef.Meets (ref : MethodRef) : Prop where
  owner : requirement _ ref.owner
  name : requirement _ ref.name
  descriptor : requirement _ ref.descriptor

structure MethodKey.Meets (key : MethodKey) : Prop where
  name : requirement _ key.name
  descriptor : requirement _ key.descriptor

def Handle.Meets : Handle → Prop
  | .field _ ref => ref.Meets requirement
  | .method _ ref => ref.Meets requirement

mutual

def Loadable.Meets : Loadable → Prop
  | .type name => requirement _ name
  | .handle target => target.Meets requirement
  | .methodType descriptor => requirement _ descriptor
  | .computed name descriptor target arguments =>
    requirement _ name ∧ requirement _ descriptor ∧ target.Meets requirement ∧
      Loadable.AllMeet arguments
  | .integer _ | .float _ | .long _ | .double _ | .string _ => True

def Loadable.AllMeet : List Loadable → Prop
  | [] => True
  | value :: rest => value.Meets ∧ Loadable.AllMeet rest

end

structure DynamicCall.Meets (call : DynamicCall) : Prop where
  name : requirement _ call.name
  descriptor : requirement _ call.descriptor
  handle : call.handle.Meets requirement
  arguments : Loadable.AllMeet requirement call.arguments

/-- Only references are asked about; all other instructions carry no symbols. -/
def Instruction.Meets : Instruction → Prop
  | .load value => value.Meets requirement
  | .field _ ref => ref.Meets requirement
  | .call _ ref => ref.Meets requirement
  | .callDynamic target => target.Meets requirement
  | .withClass _ name => requirement _ name
  | .createMultiArray name _ => requirement _ name
  | _ => True

structure LocalVariable.Meets (entry : LocalVariable) : Prop where
  descriptor : ∀ descriptor ∈ entry.descriptor, requirement _ descriptor
  signature : ∀ signature ∈ entry.signature, requirement _ signature

structure Code.Meets (code : Code) : Prop where
  instructions : ∀ entry ∈ code.instructions, entry.instruction.Meets requirement
  exceptionTable : ∀ range ∈ code.exceptionTable, ∀ name ∈ range.caught, requirement _ name
  localVariables : ∀ entries ∈ code.localVariables, ∀ entry ∈ entries, entry.Meets requirement

/-! ### Members -/

structure Field.Meets (field : Field) : Prop where
  name : requirement _ field.name
  descriptor : requirement _ field.descriptor
  signature : ∀ signature ∈ field.signature, requirement _ signature

structure Method.Meets (method : Method) : Prop where
  name : requirement _ method.name
  descriptor : requirement _ method.descriptor
  code : ∀ code ∈ method.code, code.Meets requirement
  exceptions : ∀ names ∈ method.exceptions, ∀ name ∈ names, requirement _ name
  signature : ∀ signature ∈ method.signature, requirement _ signature

/-! ### Classes -/

structure NestedClass.Meets (entry : NestedClass) : Prop where
  inner : requirement _ entry.inner
  outer : ∀ name ∈ entry.outer, requirement _ name

structure EnclosingMethod.Meets (entry : EnclosingMethod) : Prop where
  owner : requirement _ entry.owner
  method : ∀ key ∈ entry.method, key.Meets requirement

/-- **All symbols of the class meet the requirement.** -/
structure ClassFile.Meets (file : ClassFile) : Prop where
  name : requirement _ file.name
  superClass : ∀ name ∈ file.superClass, requirement _ name
  interfaces : ∀ name ∈ file.interfaces, requirement _ name
  fields : ∀ field ∈ file.fields, field.Meets requirement
  methods : ∀ method ∈ file.methods, method.Meets requirement
  nestedClasses : ∀ entries ∈ file.nestedClasses, ∀ entry ∈ entries, entry.Meets requirement
  enclosingMethod : ∀ entry ∈ file.enclosingMethod, entry.Meets requirement
  signature : ∀ signature ∈ file.signature, requirement _ signature
  nestHost : ∀ name ∈ file.nestHost, requirement _ name
  nestMembers : ∀ names ∈ file.nestMembers, ∀ name ∈ names, requirement _ name
  permittedSubclasses : ∀ names ∈ file.permittedSubclasses, ∀ name ∈ names, requirement _ name

structure DegradedBridge.Meets (entry : DegradedBridge) : Prop where
  owner : requirement _ entry.owner
  bridge : entry.bridge.Meets requirement
  target : entry.target.Meets requirement

/-- All thrown classes of the supplement meet the requirement. -/
def Supplement.Meets (supplement : Supplement) : Prop :=
  ∀ owner key exceptions, supplement.get? owner key = some exceptions →
    ∀ name ∈ exceptions, requirement _ name

end Renaming

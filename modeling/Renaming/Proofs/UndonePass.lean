import Renaming.Proofs.DescriptorRenaming
import Renaming.Proofs.ValidClasses

/-!
# A pass that undoes another

With entries for classes only, a pass finds nothing about members: they keep their names, wherever
the hierarchy is searched for them, and nothing is added to methods. So what is left of a pass is to
rename the class names, the descriptors and the signatures of a class, each by itself.

`Mappings.UndoneBy` says that other mappings lead these back to what they were. It is then seen part
by part, from the references up to whole classes, that a second pass with them leads back everything
that the first one gives. The owners of members differ between the two passes, but without entries
for members they do not matter.
-/

namespace Renaming

/-! ### Leading back -/

/-- What the first makes of the value, the second makes the value of again. -/
def LedBack {α : Type} (there back : α → Except Fault α) (value : α) : Prop :=
  ∃ changed, there value = .ok changed ∧ back changed = .ok value

/-- What renaming could not lead back is not there: entries for nested classes, the simple names of
which are made anew, and classes that a method declares twice to throw. -/
structure ClassFile.IsRestorable (file : ClassFile) : Prop where
  nestedClasses : file.nestedClasses = none
  exceptions : ∀ method ∈ file.methods, ∀ names ∈ method.exceptions, names.Nodup

namespace Recorded

variable {ρ α β γ : Type}

/-- What the first computation makes of the value, the second one makes the value of again. -/
def Undone (there back : α → Recorded ρ α) (value : α) : Prop :=
  (there value).Gives fun changed => (back changed).result = .ok value

theorem result_bind_of_eq_ok {run : Recorded ρ α} {next : α → Recorded ρ β} {value : α} {last : β}
    (done : run.result = .ok value) (rest : (next value).result = .ok last) :
    (run >>= next).result = .ok last :=
  result_bind_eq_ok_iff.mpr ⟨value, done, rest⟩

/-- What holds of the results for each item holds of the results for a list of items. -/
theorem result_mapM_map {items : List α} {body : α → Recorded ρ β} {other : α → Recorded ρ γ}
    {change : β → γ} {values : List β}
    (each : ∀ item value, (body item).result = .ok value → (other item).result = .ok (change value))
    (done : (items.mapM body).result = .ok values) :
    (items.mapM other).result = .ok (values.map change) := by
  induction items generalizing values with
  | nil =>
    cases done
    rfl
  | cons item rest ih =>
    rw [List.mapM_cons] at done ⊢
    obtain ⟨value, first, later⟩ := result_bind_eq_ok_iff.mp done
    obtain ⟨others, remaining, made⟩ := result_bind_eq_ok_iff.mp later
    cases made
    exact result_bind_of_eq_ok (each item value first) (result_bind_of_eq_ok (ih remaining) rfl)

/-- Whether something is led back does not depend on what is recorded on the way. -/
theorem undone_lift {there back : α → Except Fault α} {value : α} (led : LedBack there back value) :
    Undone (fun value => (liftM (there value) : Recorded ρ α))
      (fun value => liftM (back value)) value :=
  led

section Undone

variable {there back : α → Recorded ρ α}

/-- Where no fault is met, its circumstances are of no account. -/
theorem Undone.within {value : α} (undone : Undone there back value)
    (circumstances : α → Fault → Fault) :
    Undone (fun value => (there value).within (circumstances value))
      (fun value => (back value).within (circumstances value)) value := by
  obtain ⟨changed, done, restored⟩ := undone
  exact ⟨changed, result_within_eq_ok_iff.mpr done, result_within_eq_ok_iff.mpr restored⟩

/-- All items may go through the first computation before any goes through the second. -/
theorem undone_mapM {items : List α} (each : ∀ item ∈ items, Undone there back item) :
    Undone (List.mapM there) (List.mapM back) items := by
  induction items with
  | nil => exact gives_pure rfl
  | cons item rest ih =>
    rw [Undone, List.mapM_cons]
    refine (each item List.mem_cons_self).bind fun value restored => ?_
    refine (ih fun other member => each other (List.mem_cons_of_mem _ member)).bind
      fun values others => gives_pure ?_
    rw [List.mapM_cons]
    exact result_bind_of_eq_ok restored (result_bind_of_eq_ok others rfl)

theorem undone_mapM_option {item : Option α} (each : ∀ value ∈ item, Undone there back value) :
    Undone (Option.mapM there) (Option.mapM back) item := by
  cases item with
  | none => exact gives_pure rfl
  | some value =>
    refine (each value rfl).bind fun changed restored => gives_pure ?_
    exact result_bind_of_eq_ok restored rfl

end Undone

end Recorded

open Recorded

/-! ### Nothing but classes -/

/-- The mappings have entries for classes only. -/
structure Mappings.OnlyClasses (mappings : Mappings) : Prop where
  fields : mappings.fields.entries = []
  methods : mappings.methods.entries = []
  extras : mappings.extras.entries = []

theorem Members.get?_of_entries_eq_nil {κ ν : Type} [DecidableEq κ] {members : Members κ ν}
    (empty : members.entries = []) (owner : ClassName) (key : κ) :
    members.get? owner key = none := by
  cases found : members.get? owner key with
  | none => rfl
  | some value =>
    have entry := mem_entries_of_get? found
    rw [empty] at entry
    cases entry

namespace Mappings.OnlyClasses

variable {mappings : Mappings} (only : mappings.OnlyClasses)

include only

theorem fieldName? (owner : ClassName) (name : FieldName) : mappings.fieldName? owner name = none :=
  Members.get?_of_entries_eq_nil only.fields owner name

theorem methodName? (owner : ClassName) (key : MethodKey) : mappings.methodName? owner key = none :=
  Members.get?_of_entries_eq_nil only.methods owner key

theorem extra? (owner : ClassName) (key : MethodKey) : mappings.extra? owner key = none :=
  Members.get?_of_entries_eq_nil only.extras owner key

end Mappings.OnlyClasses

namespace Resolver

variable {resolver : Resolver} (only : resolver.mappings.OnlyClasses)

include only

/-- However far the hierarchy is searched, no entry is met. -/
theorem field_of_onlyClasses (ref : FieldRef) (isStatic : Bool) :
    resolver.field ref isStatic = none := by
  rw [field_eq_none_iff]
  exact fun owner _ _ => only.fieldName? owner ref.name

theorem method_of_onlyClasses (ref : MethodRef) (isStatic : Bool) :
    resolver.method ref isStatic = none := by
  cases found : resolver.method ref isStatic with
  | none => rfl
  | some hit =>
    obtain ⟨_, _, filed, _⟩ := (resolver.method_eq_some_iff ref isStatic hit).mp found
    cases (only.methodName? hit.owner ref.key).symm.trans filed

/-- No method that it overrides has an entry either. -/
theorem declaration_of_onlyClasses (ref : MethodRef) (access : MethodAccess) :
    resolver.declaration ref access = none := by
  cases found : resolver.declaration ref access with
  | none => rfl
  | some hit =>
    obtain ⟨_, ⟨_, filed⟩ | ⟨_, _, _, _, filed, _⟩⟩ :=
      (resolver.declaration_eq_some_iff ref access hit).mp found
    · cases (only.methodName? ref.owner ref.key).symm.trans filed
    · cases (only.methodName? hit.owner ref.key).symm.trans filed

end Resolver

section Unknown

variable {pass : Pass} {owner : ClassName} {method : Method}
  (unknown : pass.mappings.extra? owner method.key = none)

include unknown

/-- A method that no more is known of throws the classes that it declares. -/
theorem Pass.exceptions_of_unknown (alone : pass.supplement.get? owner method.key = none) :
    pass.exceptions owner method = method.exceptions.map pass.mappings.exceptionNames := by
  rw [Pass.exceptions, unknown, alone]
  cases method.exceptions with
  | none => rfl
  | some names =>
    show some (pass.mappings.exceptionNames (names ++ [])) = _
    rw [List.append_nil]
    rfl

theorem Pass.parameters_of_unknown : pass.parameters owner method = .ok method.parameters := by
  rw [Pass.parameters, unknown]
  show (if pass.options.applyParameterNames && false then _ else _) = _
  rw [Bool.and_false]
  rfl

end Unknown

namespace Mappings.OnlyClasses

variable {pass : Pass} (only : pass.mappings.OnlyClasses)

include only

theorem result_methodName? (ref : MethodRef) (isStatic : Bool) :
    (pass.renamer.methodName? ref isStatic).result = .ok none := by
  show Except.ok ((pass.resolver.method ref isStatic).map Resolved.name) = .ok none
  rw [Resolver.method_of_onlyClasses only]
  rfl

theorem result_resolveDeclaration (ref : MethodRef) (access : MethodAccess) :
    (pass.resolver.resolveDeclaration ref access).result = .ok none := by
  rw [Resolver.result_resolveDeclaration, Resolver.declaration_of_onlyClasses only]

/-- Only the class and the descriptor of a reference are renamed, each by itself. -/
theorem result_fieldRef {ref : FieldRef} {owner : ClassName} {descriptor : FieldDescriptor}
    (isStatic : Bool) (ownerFound : pass.mappings.classNameAny ref.owner = .ok owner)
    (read : pass.mappings.fieldDescriptor ref.descriptor = .ok descriptor) :
    (pass.renamer.fieldRef ref isStatic).result = .ok ⟨owner, ref.name, descriptor⟩ := by
  rw [Pass.renamer, Renamer.fieldRef_of_parts pass.resolver isStatic ownerFound read,
    Resolver.field_of_onlyClasses only]
  rfl

theorem result_methodRef {ref : MethodRef} {owner : ClassName} {descriptor : MethodDescriptor}
    (isStatic : Bool) (ownerFound : pass.mappings.classNameAny ref.owner = .ok owner)
    (read : pass.mappings.methodDescriptor ref.descriptor = .ok descriptor) :
    (pass.renamer.methodRef ref isStatic).result = .ok ⟨owner, ref.name, descriptor⟩ := by
  rw [Pass.renamer, Renamer.methodRef_of_parts pass.resolver isStatic ownerFound read,
    Resolver.method_of_onlyClasses only, Option.map_none, Option.getD_none, ite_self]

/-- A lambda keeps its name, as long as the descriptor of its call can be read. -/
theorem result_lambdaName? {call : DynamicCall} {descriptor : MethodDescriptor}
    (read : pass.mappings.methodDescriptor call.descriptor = .ok descriptor) :
    (pass.lambdaName? call).result = .ok none := by
  obtain ⟨type, fine, written, _⟩ :=
    Grammar.exists_tree_of_renameText MethodType (Grammar.renameText_of_map MethodType read)
  have parsed : call.descriptor.type = .ok type :=
    (Grammar.result_read_eq_ok_iff MethodType).mpr ⟨fine, written⟩
  unfold Pass.lambdaName?
  split
  case isFalse => rfl
  case isTrue =>
    split
    case h_2 => rfl
    case h_1 =>
      refine result_bind_of_eq_ok parsed ?_
      split
      case h_2 => rfl
      case h_1 interface _ =>
        show Except.ok ((pass.resolver.method _ false).map Resolved.name) = .ok none
        rw [Resolver.method_of_onlyClasses only]
        rfl

/-- The name of a computed call stays, that of a lambda as well. -/
theorem result_dynamicCall {call : DynamicCall} {descriptor : MethodDescriptor} {handle : Handle}
    {arguments : List Loadable}
    (read : pass.mappings.methodDescriptor call.descriptor = .ok descriptor)
    (handled : (pass.handle call.handle).result = .ok handle)
    (loaded : (pass.loadables call.arguments).result = .ok arguments) :
    (pass.dynamicCall call).result = .ok ⟨call.name, descriptor, handle, arguments⟩ := by
  unfold Pass.dynamicCall
  split
  case isTrue =>
    refine result_bind_of_eq_ok (only.result_lambdaName? read) ?_
    exact result_bind_of_eq_ok read (result_bind_of_eq_ok handled (result_bind_of_eq_ok loaded rfl))
  case isFalse =>
    refine result_bind_of_eq_ok rfl ?_
    exact result_bind_of_eq_ok read (result_bind_of_eq_ok handled (result_bind_of_eq_ok loaded rfl))

theorem exceptions_eq (alone : pass.supplement = ∅) (owner : ClassName) (method : Method) :
    pass.exceptions owner method = method.exceptions.map pass.mappings.exceptionNames := by
  refine Pass.exceptions_of_unknown (only.extra? owner method.key) ?_
  rw [alone]
  rfl

theorem parameters_eq (owner : ClassName) (method : Method) :
    pass.parameters owner method = .ok method.parameters :=
  Pass.parameters_of_unknown (only.extra? owner method.key)

/-- Of a method, the descriptor, the code, the signature and the thrown classes are renamed. All
else stays, its name included. -/
theorem result_method (alone : pass.supplement = ∅) {owner : ClassName} {method : Method}
    {descriptor : MethodDescriptor} {code : Option Code} {signature : Option MethodSignature}
    (read : pass.mappings.methodDescriptor method.descriptor = .ok descriptor)
    (coded : (method.code.mapM pass.code).result = .ok code)
    (signed : (method.signature.mapM fun signature =>
      (liftM (pass.mappings.methodSignature signature) : Journal _)).result = .ok signature) :
    (pass.method owner method).result = .ok
      { method with
        descriptor, code, signature
        exceptions := method.exceptions.map pass.mappings.exceptionNames } := by
  rw [← only.exceptions_eq alone owner method]
  exact result_bind_of_eq_ok (only.parameters_eq owner method)
    (result_bind_of_eq_ok (only.result_resolveDeclaration _ _)
      (result_bind_of_eq_ok read (result_bind_of_eq_ok coded (result_bind_of_eq_ok signed rfl))))

theorem result_field {owner : ClassName} {field : Field} {descriptor : FieldDescriptor}
    {signature : Option FieldSignature}
    (read : pass.mappings.fieldDescriptor field.descriptor = .ok descriptor)
    (signed : (field.signature.mapM fun signature =>
      (liftM (pass.mappings.fieldSignature signature) : Journal _)).result = .ok signature) :
    (pass.field owner field).result = .ok { field with descriptor, signature } := by
  have unnamed : (pass.mappings.fieldName? owner field.name).getD field.name = field.name := by
    rw [only.fieldName?, Option.getD_none]
  have done : (pass.field owner field).result = .ok
      { field with
        name := (pass.mappings.fieldName? owner field.name).getD field.name
        descriptor, signature } :=
    result_bind_of_eq_ok read (result_bind_of_eq_ok signed rfl)
  rw [done, unnamed]

theorem result_methodKey {owner : ClassName} {key : MethodKey} {descriptor : MethodDescriptor}
    (read : pass.mappings.methodDescriptor key.descriptor = .ok descriptor) :
    (pass.methodKey owner key).result = .ok ⟨key.name, descriptor⟩ :=
  result_bind_of_eq_ok (only.result_methodName? _ false) (result_bind_of_eq_ok read rfl)

end Mappings.OnlyClasses

/-! ### One pass after the other -/

/-- Mappings that lead back what others make of symbols that meet the requirement, and of lists of
thrown classes without repetition. -/
structure Mappings.UndoneBy (there back : Mappings) (requirement : Requirement) : Prop where
  onlyClasses : there.OnlyClasses
  onlyClassesBack : back.OnlyClasses
  className : ∀ name, requirement _ name → LedBack there.classNameAny back.classNameAny name
  fieldDescriptor : ∀ descriptor, requirement _ descriptor →
    LedBack there.fieldDescriptor back.fieldDescriptor descriptor
  methodDescriptor : ∀ descriptor, requirement _ descriptor →
    LedBack there.methodDescriptor back.methodDescriptor descriptor
  classSignature : ∀ signature, requirement _ signature →
    LedBack there.classSignature back.classSignature signature
  fieldSignature : ∀ signature, requirement _ signature →
    LedBack there.fieldSignature back.fieldSignature signature
  methodSignature : ∀ signature, requirement _ signature →
    LedBack there.methodSignature back.methodSignature signature
  thrown : ∀ names : List ClassName, names.Nodup → (∀ name ∈ names, requirement _ name) →
    back.exceptionNames (there.exceptionNames names) = names

namespace Pass

section Symbols

variable {there back : Pass} {requirement : Requirement}
  (undone : there.mappings.UndoneBy back.mappings requirement)

include undone

/-! ### Constants and references -/

theorem undone_className {name : ClassName} (fine : requirement _ name) :
    Undone there.className back.className name :=
  undone_lift (undone.className name fine)

theorem undone_fieldRef {ref : FieldRef} (fine : ref.Meets requirement) (isStatic : Bool) :
    Undone (there.renamer.fieldRef · isStatic) (back.renamer.fieldRef · isStatic) ref := by
  obtain ⟨owner, ownerFound, ownerBack⟩ := undone.className ref.owner fine.owner
  obtain ⟨descriptor, read, readBack⟩ := undone.fieldDescriptor ref.descriptor fine.descriptor
  exact ⟨⟨owner, ref.name, descriptor⟩, undone.onlyClasses.result_fieldRef isStatic ownerFound read,
    undone.onlyClassesBack.result_fieldRef isStatic ownerBack readBack⟩

/-- The class and the descriptor are led back by themselves; the name is the same all the way. -/
theorem undone_methodRef {ref : MethodRef} (fine : ref.Meets requirement) (isStatic : Bool) :
    Undone (there.renamer.methodRef · isStatic) (back.renamer.methodRef · isStatic) ref := by
  obtain ⟨owner, ownerFound, ownerBack⟩ := undone.className ref.owner fine.owner
  obtain ⟨descriptor, read, readBack⟩ := undone.methodDescriptor ref.descriptor fine.descriptor
  exact ⟨⟨owner, ref.name, descriptor⟩,
    undone.onlyClasses.result_methodRef isStatic ownerFound read,
    undone.onlyClassesBack.result_methodRef isStatic ownerBack readBack⟩

theorem undone_handle {handle : Handle} (fine : handle.Meets requirement) :
    Undone there.handle back.handle handle := by
  cases handle with
  | field use ref =>
    refine (undone_fieldRef undone fine use.isStatic).bind fun changed restored => gives_pure ?_
    exact result_bind_of_eq_ok restored rfl
  | method how ref =>
    refine (undone_methodRef undone fine how.isStatic).bind fun changed restored => gives_pure ?_
    exact result_bind_of_eq_ok restored rfl

end Symbols

mutual

/-- **A constant is led back**, with everything that it is computed from. Constants and lists of
them are gone through together. -/
theorem undone_loadable {there back : Pass} {requirement : Requirement}
    (undone : there.mappings.UndoneBy back.mappings requirement) :
    (value : Loadable) → value.Meets requirement → Undone there.loadable back.loadable value
  | .type name, fine => by
    rw [Undone, Pass.loadable]
    refine (gives_lift (undone.className name fine)).bind fun changed restored => gives_pure ?_
    rw [Pass.loadable]
    exact result_bind_of_eq_ok restored rfl
  | .handle target, fine => by
    rw [Undone, Pass.loadable]
    refine (undone_handle undone fine).bind fun changed restored => gives_pure ?_
    rw [Pass.loadable]
    exact result_bind_of_eq_ok restored rfl
  | .methodType descriptor, fine => by
    rw [Undone, Pass.loadable]
    refine (gives_lift (undone.methodDescriptor descriptor fine)).bind
      fun changed restored => gives_pure ?_
    rw [Pass.loadable]
    exact result_bind_of_eq_ok restored rfl
  | .computed name descriptor target arguments, ⟨_, typed, handled, loaded⟩ => by
    rw [Undone, Pass.loadable]
    refine (gives_lift (undone.fieldDescriptor descriptor typed)).bind fun newType typeBack => ?_
    refine (undone_handle undone handled).bind fun newTarget targetBack => ?_
    refine (undone_loadables undone arguments loaded).bind
      fun newArguments argumentsBack => gives_pure ?_
    rw [Pass.loadable]
    exact result_bind_of_eq_ok typeBack (result_bind_of_eq_ok targetBack
      (result_bind_of_eq_ok argumentsBack rfl))
  | .integer _, _ => by
    rw [Undone, Pass.loadable]
    exact gives_pure (by rw [Pass.loadable]; rfl)
  | .float _, _ => by
    rw [Undone, Pass.loadable]
    exact gives_pure (by rw [Pass.loadable]; rfl)
  | .long _, _ => by
    rw [Undone, Pass.loadable]
    exact gives_pure (by rw [Pass.loadable]; rfl)
  | .double _, _ => by
    rw [Undone, Pass.loadable]
    exact gives_pure (by rw [Pass.loadable]; rfl)
  | .string _, _ => by
    rw [Undone, Pass.loadable]
    exact gives_pure (by rw [Pass.loadable]; rfl)

theorem undone_loadables {there back : Pass} {requirement : Requirement}
    (undone : there.mappings.UndoneBy back.mappings requirement) :
    (values : List Loadable) → Loadable.AllMeet requirement values →
      Undone there.loadables back.loadables values
  | [], _ => by
    rw [Undone, Pass.loadables]
    exact gives_pure (by rw [Pass.loadables]; rfl)
  | value :: rest, ⟨first, others⟩ => by
    rw [Undone, Pass.loadables]
    refine (undone_loadable undone value first).bind fun newValue valueBack => ?_
    refine (undone_loadables undone rest others).bind fun newRest restBack => gives_pure ?_
    rw [Pass.loadables]
    exact result_bind_of_eq_ok valueBack (result_bind_of_eq_ok restBack rfl)

end

section Classes

variable {there back : Pass} {requirement : Requirement}
  (undone : there.mappings.UndoneBy back.mappings requirement)

include undone

/-! ### Instructions -/

theorem undone_dynamicCall {call : DynamicCall} (fine : call.Meets requirement) :
    Undone there.dynamicCall back.dynamicCall call := by
  obtain ⟨descriptor, read, readBack⟩ := undone.methodDescriptor call.descriptor fine.descriptor
  obtain ⟨handle, handled, handleBack⟩ := undone_handle undone fine.handle
  obtain ⟨arguments, loaded, argumentsBack⟩ := undone_loadables undone call.arguments fine.arguments
  exact ⟨⟨call.name, descriptor, handle, arguments⟩,
    undone.onlyClasses.result_dynamicCall read handled loaded,
    undone.onlyClassesBack.result_dynamicCall readBack handleBack argumentsBack⟩

/-- Instructions that name nothing are the same all the way; the others are led back by what they
name. -/
theorem undone_instruction {instruction : Instruction} (fine : instruction.Meets requirement) :
    Undone there.instruction back.instruction instruction := by
  cases instruction with
  | load value =>
    refine (undone_loadable undone value fine).bind fun changed restored => gives_pure ?_
    exact result_bind_of_eq_ok restored rfl
  | field use ref =>
    refine (undone_fieldRef undone fine use.isStatic).bind fun changed restored => gives_pure ?_
    exact result_bind_of_eq_ok restored rfl
  | call kind ref =>
    refine (undone_methodRef undone fine kind.isStatic).bind fun changed restored => gives_pure ?_
    exact result_bind_of_eq_ok restored rfl
  | callDynamic call =>
    refine (undone_dynamicCall undone fine).bind fun changed restored => gives_pure ?_
    exact result_bind_of_eq_ok restored rfl
  | withClass op name =>
    refine (gives_lift (undone.className name fine)).bind fun changed restored => gives_pure ?_
    exact result_bind_of_eq_ok restored rfl
  | createMultiArray name dimensions =>
    refine (gives_lift (undone.className name fine)).bind fun changed restored => gives_pure ?_
    exact result_bind_of_eq_ok restored rfl
  | plain op => exact gives_pure rfl
  | withLocal op index => exact gives_pure rfl
  | jump op target => exact gives_pure rfl
  | push op value => exact gives_pure rfl
  | increment index amount => exact gives_pure rfl
  | createBaseArray element => exact gives_pure rfl
  | tableSwitch fallback low high targets => exact gives_pure rfl
  | lookupSwitch fallback pairs => exact gives_pure rfl

theorem undone_codeEntry {entry : CodeEntry} (fine : entry.instruction.Meets requirement) :
    Undone there.codeEntry back.codeEntry entry := by
  refine (undone_instruction undone fine).bind fun changed restored => gives_pure ?_
  exact result_bind_of_eq_ok restored rfl

theorem undone_exceptionRange {range : ExceptionRange}
    (fine : ∀ name ∈ range.caught, requirement _ name) :
    Undone there.exceptionRange back.exceptionRange range := by
  refine (undone_mapM_option fun name caught =>
    undone_lift (undone.className name (fine name caught))).bind fun caught restored =>
      gives_pure ?_
  exact result_bind_of_eq_ok restored rfl

theorem undone_localVariable {entry : LocalVariable} (fine : entry.Meets requirement) :
    Undone there.localVariable back.localVariable entry := by
  refine (undone_mapM_option fun descriptor found =>
    undone_lift (undone.fieldDescriptor descriptor (fine.descriptor descriptor found))).bind
    fun descriptor typeBack => ?_
  refine (undone_mapM_option fun signature found =>
    undone_lift (undone.fieldSignature signature (fine.signature signature found))).bind
    fun signature signatureBack => gives_pure ?_
  exact result_bind_of_eq_ok typeBack (result_bind_of_eq_ok signatureBack rfl)

theorem undone_code {code : Code} (fine : code.Meets requirement) :
    Undone there.code back.code code := by
  refine (undone_mapM fun entry member =>
    undone_codeEntry undone (fine.instructions entry member)).bind
    fun instructions instructionsBack => ?_
  refine (undone_mapM fun range member =>
    undone_exceptionRange undone (fine.exceptionTable range member)).bind
    fun exceptionTable tableBack => ?_
  refine (undone_mapM_option fun entries present => undone_mapM fun entry member =>
    undone_localVariable undone (fine.localVariables entries present entry member)).bind
    fun localVariables variablesBack => gives_pure ?_
  exact result_bind_of_eq_ok instructionsBack (result_bind_of_eq_ok tableBack
    (result_bind_of_eq_ok variablesBack rfl))

/-! ### Members -/

/-- A method is led back, whichever classes its owner is taken for. -/
theorem undone_method (alone : there.supplement = ∅) (aloneBack : back.supplement = ∅)
    (owner newOwner : ClassName) {method : Method} (fine : method.Meets requirement)
    (distinct : ∀ names ∈ method.exceptions, names.Nodup) :
    Undone (there.method owner) (back.method newOwner) method := by
  obtain ⟨descriptor, read, readBack⟩ := undone.methodDescriptor method.descriptor fine.descriptor
  obtain ⟨code, coded, codeBack⟩ :=
    undone_mapM_option fun code present => undone_code undone (fine.code code present)
  obtain ⟨signature, signed, signatureBack⟩ := undone_mapM_option fun signature present =>
    undone_lift (undone.methodSignature signature (fine.signature signature present))
  have thrown : (method.exceptions.map there.mappings.exceptionNames).map
      back.mappings.exceptionNames = method.exceptions := by
    cases declared : method.exceptions with
    | none => rfl
    | some names =>
      exact congrArg some (undone.thrown names (distinct names declared)
        (fine.exceptions names declared))
  let changed : Method :=
    { method with
      descriptor, code, signature
      exceptions := method.exceptions.map there.mappings.exceptionNames }
  have restored : (back.method newOwner changed).result = .ok
      { method with exceptions := changed.exceptions.map back.mappings.exceptionNames } :=
    undone.onlyClassesBack.result_method aloneBack readBack codeBack signatureBack
  refine ⟨changed, undone.onlyClasses.result_method alone read coded signed, restored.trans ?_⟩
  exact congrArg (fun exceptions => Except.ok { method with exceptions }) thrown

theorem undone_field (owner newOwner : ClassName) {field : Field} (fine : field.Meets requirement) :
    Undone (there.field owner) (back.field newOwner) field := by
  obtain ⟨descriptor, read, readBack⟩ := undone.fieldDescriptor field.descriptor fine.descriptor
  obtain ⟨signature, signed, signatureBack⟩ := undone_mapM_option fun signature present =>
    undone_lift (undone.fieldSignature signature (fine.signature signature present))
  exact ⟨{ field with descriptor, signature }, undone.onlyClasses.result_field read signed,
    undone.onlyClassesBack.result_field readBack signatureBack⟩

/-! ### Classes -/

theorem undone_methodKey (owner newOwner : ClassName) {key : MethodKey}
    (fine : key.Meets requirement) :
    Undone (there.methodKey owner) (back.methodKey newOwner) key := by
  obtain ⟨descriptor, read, readBack⟩ := undone.methodDescriptor key.descriptor fine.descriptor
  exact ⟨⟨key.name, descriptor⟩, undone.onlyClasses.result_methodKey read,
    undone.onlyClassesBack.result_methodKey readBack⟩

theorem undone_enclosingMethod {entry : EnclosingMethod} (fine : entry.Meets requirement) :
    Undone there.enclosingMethod back.enclosingMethod entry := by
  obtain ⟨owner, ownerFound, ownerBack⟩ := undone.className entry.owner fine.owner
  obtain ⟨method, keyed, methodBack⟩ := undone_mapM_option fun key present =>
    undone_methodKey undone entry.owner owner (fine.method key present)
  exact ⟨⟨owner, method⟩, result_bind_of_eq_ok keyed (result_bind_of_eq_ok ownerFound rfl),
    result_bind_of_eq_ok methodBack (result_bind_of_eq_ok ownerBack rfl)⟩

/-- **A class is led back**, part by part. There are no entries for nested classes, since their
simple names would be made anew. -/
theorem undone_classFile (alone : there.supplement = ∅) (aloneBack : back.supplement = ∅)
    {file : ClassFile} (fine : file.Meets requirement) (restorable : file.IsRestorable) :
    Undone there.classFile back.classFile file := by
  obtain ⟨name, named, nameBack⟩ := undone_className undone fine.name
  obtain ⟨fields, fieldsDone, fieldsBack⟩ := undone_mapM fun field member =>
    undone_field undone file.name name (fine.fields field member)
  obtain ⟨methods, methodsDone, methodsBack⟩ := undone_mapM fun method member =>
    (undone_method undone alone aloneBack file.name name (fine.methods method member)
      (restorable.exceptions method member)).within fun method => .inMethod method.key
  obtain ⟨superClass, superDone, superBack⟩ := undone_mapM_option fun name present =>
    undone_className undone (fine.superClass name present)
  obtain ⟨interfaces, interfacesDone, interfacesBack⟩ := undone_mapM fun name member =>
    undone_className undone (fine.interfaces name member)
  have nested : Undone (Option.mapM fun entries => entries.mapM there.nestedClass)
      (Option.mapM fun entries => entries.mapM back.nestedClass) file.nestedClasses := by
    rw [restorable.nestedClasses]
    exact gives_pure rfl
  obtain ⟨nestedClasses, nestedDone, nestedBack⟩ := nested
  obtain ⟨enclosingMethod, enclosingDone, enclosingBack⟩ := undone_mapM_option fun entry present =>
    undone_enclosingMethod undone (fine.enclosingMethod entry present)
  obtain ⟨signature, signed, signatureBack⟩ := undone_mapM_option fun signature present =>
    undone_lift (undone.classSignature signature (fine.signature signature present))
  obtain ⟨nestHost, hostDone, hostBack⟩ := undone_mapM_option fun name present =>
    undone_className undone (fine.nestHost name present)
  obtain ⟨nestMembers, membersDone, membersBack⟩ := undone_mapM_option fun names present =>
    undone_mapM fun name member =>
      undone_className undone (fine.nestMembers names present name member)
  obtain ⟨permittedSubclasses, permittedDone, permittedBack⟩ :=
    undone_mapM_option fun names present =>
    undone_mapM fun name member =>
      undone_className undone (fine.permittedSubclasses names present name member)
  refine ⟨{ file with fields, methods, name, superClass, interfaces, nestedClasses, enclosingMethod,
                      signature, nestHost, nestMembers, permittedSubclasses }, ?_, ?_⟩
  · refine result_bind_of_eq_ok fieldsDone (result_bind_of_eq_ok methodsDone ?_)
    refine result_bind_of_eq_ok named (result_bind_of_eq_ok superDone ?_)
    refine result_bind_of_eq_ok interfacesDone (result_bind_of_eq_ok nestedDone ?_)
    refine result_bind_of_eq_ok enclosingDone (result_bind_of_eq_ok signed ?_)
    refine result_bind_of_eq_ok hostDone (result_bind_of_eq_ok membersDone ?_)
    exact result_bind_of_eq_ok permittedDone rfl
  · refine result_bind_of_eq_ok fieldsBack (result_bind_of_eq_ok methodsBack ?_)
    refine result_bind_of_eq_ok nameBack (result_bind_of_eq_ok superBack ?_)
    refine result_bind_of_eq_ok interfacesBack (result_bind_of_eq_ok nestedBack ?_)
    refine result_bind_of_eq_ok enclosingBack (result_bind_of_eq_ok signatureBack ?_)
    refine result_bind_of_eq_ok hostBack (result_bind_of_eq_ok membersBack ?_)
    exact result_bind_of_eq_ok permittedBack rfl

end Classes

/-! ### The whole pass -/

/-- With bridges left alone, a class is renamed and nothing is reported of it. -/
theorem result_process {pass : Pass} (keeps : pass.options.degradeBridges = false)
    {file renamed : ClassFile} (done : (pass.classFile file).result = .ok renamed) :
    (pass.process file).result = .ok (renamed, []) := by
  unfold process
  rw [if_neg (ne_true_of_eq_false keeps)]
  exact result_bind_of_eq_ok rfl (result_bind_of_eq_ok done rfl)

end Pass

/-- A pass that leaves bridges alone renames one class after the other. -/
theorem result_renameClasses {classes renamed : List ClassFile} {mappings : Mappings}
    {hierarchy : Hierarchy} {supplement : Supplement} {options : PassOptions}
    (keeps : options.degradeBridges = false)
    (done : (classes.mapM (Pass.ofIndex (indexTable classes) mappings hierarchy supplement
      options).classFile).result = .ok renamed) :
    (renameClasses classes mappings hierarchy supplement options).result =
      .ok (renamed, ⟨renamed.length, []⟩) := by
  let pass := Pass.ofIndex (indexTable classes) mappings hierarchy supplement options
  have processed : (classes.mapM fun file =>
        (pass.process file).within (.inClass file.name)).result =
      .ok (renamed.map fun file => (file, [])) := by
    refine result_mapM_map (fun file new finished => ?_) done
    exact result_within_eq_ok_iff.mpr (pass.result_process keeps finished)
  have files : (renamed.map fun file => (file, ([] : List DegradedBridge))).map Prod.fst =
      renamed := by
    rw [List.map_map]
    exact List.map_id renamed
  have bridges : (renamed.map fun file => (file, ([] : List DegradedBridge))).flatMap
      Prod.snd = [] := by
    simp
  refine result_bind_of_eq_ok rfl (result_bind_of_eq_ok rfl (result_bind_of_eq_ok processed ?_))
  refine result_bind_of_eq_ok rfl ?_
  show Except.ok (_, PassReport.mk _ _) = _
  rw [files, bridges]

/-- **One pass over classes undoes another**, if it does so for the symbols in them. -/
theorem Mappings.UndoneBy.renameClasses {mappings back : Mappings} {requirement : Requirement}
    (undone : mappings.UndoneBy back requirement) {classes : List ClassFile}
    (fine : ∀ file ∈ classes, file.Meets requirement)
    (restorable : ∀ file ∈ classes, file.IsRestorable) (hierarchy otherHierarchy : Hierarchy)
    {options otherOptions : PassOptions} (keeps : options.degradeBridges = false)
    (keepsToo : otherOptions.degradeBridges = false) :
    ∃ renamed report reportBack,
      (renameClasses classes mappings hierarchy ∅ options).result = .ok (renamed, report) ∧
        (renameClasses renamed back otherHierarchy ∅ otherOptions).result =
          .ok (classes, reportBack) := by
  let there := Pass.ofIndex (indexTable classes) mappings hierarchy ∅ options
  -- The second pass works with an index of what the first one gives, but the index does not matter.
  have each : ∀ index, Undone (List.mapM there.classFile)
      (List.mapM (Pass.ofIndex index back otherHierarchy ∅ otherOptions).classFile) classes := by
    intro index
    have passes : there.mappings.UndoneBy
      (Pass.ofIndex index back otherHierarchy ∅ otherOptions).mappings requirement := undone
    refine undone_mapM fun file member => ?_
    exact Pass.undone_classFile passes rfl rfl (fine file member) (restorable file member)
  obtain ⟨renamed, done, _⟩ := each ∅
  obtain ⟨same, doneAgain, restored⟩ := each (indexTable renamed)
  obtain rfl : same = renamed := Except.ok.inj (doneAgain.symm.trans done)
  exact ⟨same, _, _, result_renameClasses keeps done, result_renameClasses keepsToo restored⟩

end Renaming

import Renaming.Proofs.Runs

/-!
# What renaming leaves alone

A class without its symbols is its *skeleton*: versions, flags, numbers, texts that name nothing,
places to jump to, kinds of instructions and handles, how many there are of everything and in which
order, and which of the optional parts are there. `ClassFile.erased` is the skeleton, as a class
with empty symbols; of a method it also leaves out the classes it throws and its parameters, since
the pass adds to these.

The pass makes every class anew, part by part. `Recorded.Preserves` says of a computation that what
it gives looks the same as a given value, seen through a function; here the function takes the
skeleton.
-/

namespace Renaming

/-! ### Skeletons -/

/-- The symbol without its text. -/
def Symbol.erased {kind : SymbolKind} (_ : Symbol kind) : Symbol kind := ⟨""⟩

def FieldRef.erased (ref : FieldRef) : FieldRef :=
  ⟨ref.owner.erased, ref.name.erased, ref.descriptor.erased⟩

def MethodRef.erased (ref : MethodRef) : MethodRef :=
  ⟨ref.owner.erased, ref.name.erased, ref.descriptor.erased⟩

def MethodKey.erased (key : MethodKey) : MethodKey := ⟨key.name.erased, key.descriptor.erased⟩

/-- The kind of the handle. -/
def Handle.erased : Handle → Handle
  | .field use ref => .field use ref.erased
  | .method how ref => .method how ref.erased

mutual

/-- The constant without symbols; the name of a computed one is kept. -/
def Loadable.erased : Loadable → Loadable
  | .type name => .type name.erased
  | .handle target => .handle target.erased
  | .methodType descriptor => .methodType descriptor.erased
  | .computed name descriptor target arguments =>
    .computed name descriptor.erased target.erased (Loadable.allErased arguments)
  | .integer value => .integer value
  | .float bits => .float bits
  | .long value => .long value
  | .double bits => .double bits
  | .string value => .string value

def Loadable.allErased : List Loadable → List Loadable
  | [] => []
  | value :: rest => value.erased :: Loadable.allErased rest

end

def DynamicCall.erased (call : DynamicCall) : DynamicCall where
  name := call.name.erased
  descriptor := call.descriptor.erased
  handle := call.handle.erased
  arguments := Loadable.allErased call.arguments

def Instruction.erased : Instruction → Instruction
  | .load value => .load value.erased
  | .field use ref => .field use ref.erased
  | .call kind ref => .call kind ref.erased
  | .callDynamic target => .callDynamic target.erased
  | .withClass op name => .withClass op name.erased
  | .createMultiArray name dimensions => .createMultiArray name.erased dimensions
  | other => other

def CodeEntry.erased (entry : CodeEntry) : CodeEntry :=
  { entry with instruction := entry.instruction.erased }

def ExceptionRange.erased (range : ExceptionRange) : ExceptionRange :=
  { range with caught := range.caught.map Symbol.erased }

/-- A local variable keeps its name. -/
def LocalVariable.erased (entry : LocalVariable) : LocalVariable :=
  { entry with
    descriptor := entry.descriptor.map Symbol.erased
    signature := entry.signature.map Symbol.erased }

def Code.erased (code : Code) : Code :=
  { code with
    instructions := code.instructions.map CodeEntry.erased
    exceptionTable := code.exceptionTable.map ExceptionRange.erased
    localVariables := code.localVariables.map (List.map LocalVariable.erased) }

def Field.erased (field : Field) : Field where
  access := field.access
  name := field.name.erased
  descriptor := field.descriptor.erased
  signature := field.signature.map Symbol.erased

def Method.erased (method : Method) : Method where
  access := method.access
  name := method.name.erased
  descriptor := method.descriptor.erased
  code := method.code.map Code.erased
  exceptions := none
  signature := method.signature.map Symbol.erased
  parameters := none

/-- Of the simple name of a nested class it stays whether there is one. -/
def NestedClass.erased (entry : NestedClass) : NestedClass where
  inner := entry.inner.erased
  outer := entry.outer.map Symbol.erased
  simpleName := entry.simpleName.map fun _ => ""
  flags := entry.flags

def EnclosingMethod.erased (entry : EnclosingMethod) : EnclosingMethod where
  owner := entry.owner.erased
  method := entry.method.map MethodKey.erased

/-- **The skeleton of a class.** -/
def ClassFile.erased (file : ClassFile) : ClassFile where
  version := file.version
  access := file.access
  name := file.name.erased
  superClass := file.superClass.map Symbol.erased
  interfaces := file.interfaces.map Symbol.erased
  fields := file.fields.map Field.erased
  methods := file.methods.map Method.erased
  nestedClasses := file.nestedClasses.map (List.map NestedClass.erased)
  enclosingMethod := file.enclosingMethod.map EnclosingMethod.erased
  signature := file.signature.map Symbol.erased
  sourceFile := file.sourceFile
  nestHost := file.nestHost.map Symbol.erased
  nestMembers := file.nestMembers.map (List.map Symbol.erased)
  permittedSubclasses := file.permittedSubclasses.map (List.map Symbol.erased)

/-! ### Computations that give something that looks the same -/

namespace Recorded

variable {ρ α β : Type} {view : α → β}

/-- If the computation ends well, what it gives looks the same as the value. -/
def Preserves (run : Recorded ρ α) (view : α → β) (value : α) : Prop :=
  run.Ensures fun last => view last = view value

/-- Whatever is made of a symbol is a symbol, and looks the same without its text. -/
theorem preserves_erased {kind : SymbolKind} (run : Recorded ρ (Symbol kind))
    (symbol : Symbol kind) : run.Preserves Symbol.erased symbol :=
  fun _ _ => rfl

theorem preserves_mapM {items : List α} {body : α → Recorded ρ α}
    (each : ∀ item, (body item).Preserves view item) :
    (items.mapM body).Preserves (List.map view) items := by
  intro values done
  have pairs : List.Forall₂ (fun item value => view value = view item) items values :=
    ensures_mapM each values done
  rw [← List.forall₂_eq_eq_eq, List.forall₂_map_left_iff, List.forall₂_map_right_iff]
  exact pairs.flip

theorem preserves_mapM_option {item : Option α} {body : α → Recorded ρ α}
    (each : ∀ value, (body value).Preserves view value) :
    (item.mapM body).Preserves (Option.map view) item := by
  cases item with
  | none => exact ensures_pure rfl
  | some value => exact (each value).bind fun last same => ensures_pure (congrArg some same)

end Recorded

/-! ### The pass, part by part -/

namespace Pass

open Recorded

section Constants

variable (pass : Pass)

theorem preserves_handle (handle : Handle) :
    (pass.handle handle).Preserves Handle.erased handle := by
  cases handle with
  | field use ref => exact ensures_result.bind fun _ _ => ensures_pure rfl
  | method how ref => exact ensures_result.bind fun _ _ => ensures_pure rfl

mutual

/-- Constants and lists of them are gone through together. A computed constant keeps its name, which
is no symbol. -/
theorem preserves_loadable :
    (value : Loadable) → (pass.loadable value).Preserves Loadable.erased value
  | .type name => by
    rw [Pass.loadable]
    exact ensures_result.bind fun _ _ =>
      ensures_pure (by rw [Loadable.erased, Loadable.erased]; rfl)
  | .handle target => by
    rw [Pass.loadable]
    refine (pass.preserves_handle target).bind fun _ same => ensures_pure ?_
    rw [Loadable.erased, Loadable.erased, same]
  | .methodType descriptor => by
    rw [Pass.loadable]
    exact ensures_result.bind fun _ _ =>
      ensures_pure (by rw [Loadable.erased, Loadable.erased]; rfl)
  | .computed name descriptor target arguments => by
    rw [Pass.loadable]
    refine ensures_result.bind fun newDescriptor _ => ?_
    refine (pass.preserves_handle target).bind fun newTarget sameTarget => ?_
    refine (preserves_loadables arguments).bind fun newArguments sameArguments => ensures_pure ?_
    rw [Loadable.erased, Loadable.erased, sameTarget, sameArguments]
    rfl
  | .integer _ => by
    rw [Pass.loadable]
    exact ensures_pure rfl
  | .float _ => by
    rw [Pass.loadable]
    exact ensures_pure rfl
  | .long _ => by
    rw [Pass.loadable]
    exact ensures_pure rfl
  | .double _ => by
    rw [Pass.loadable]
    exact ensures_pure rfl
  | .string _ => by
    rw [Pass.loadable]
    exact ensures_pure rfl

theorem preserves_loadables :
    (values : List Loadable) → (pass.loadables values).Preserves Loadable.allErased values
  | [] => by
    rw [Pass.loadables]
    exact ensures_pure rfl
  | value :: rest => by
    rw [Pass.loadables]
    refine (preserves_loadable value).bind fun newValue sameValue => ?_
    refine (preserves_loadables rest).bind fun newRest sameRest => ensures_pure ?_
    rw [Loadable.allErased, Loadable.allErased, sameValue, sameRest]

end

end Constants

variable (pass : Pass)

theorem preserves_dynamicCall (call : DynamicCall) :
    (pass.dynamicCall call).Preserves DynamicCall.erased call := by
  -- the name is erased, so it does not matter where it comes from
  have parts : ∀ name : Option MethodName, Preserves (do
      let descriptor ← (pass.mappings.methodDescriptor call.descriptor : Except Fault _)
      let handle ← pass.handle call.handle
      let arguments ← pass.loadables call.arguments
      return { name := name.getD call.name, descriptor, handle, arguments } : Journal DynamicCall)
        DynamicCall.erased call := by
    intro name
    refine ensures_result.bind fun descriptor _ => ?_
    refine (pass.preserves_handle call.handle).bind fun handle sameHandle => ?_
    refine (pass.preserves_loadables call.arguments).bind fun arguments sameArguments => ?_
    refine ensures_pure ?_
    rw [DynamicCall.erased, DynamicCall.erased, sameHandle, sameArguments]
    rfl
  unfold dynamicCall
  by_cases lambdas : pass.options.renameLambdas = true
  · rw [if_pos lambdas]
    exact ensures_result.bind fun name _ => parts name
  · rw [if_neg lambdas]
    exact parts none

/-- An instruction keeps its kind and its operands but for the symbols in them. -/
theorem preserves_instruction (instruction : Instruction) :
    (pass.instruction instruction).Preserves Instruction.erased instruction := by
  cases instruction with
  | load value =>
    exact (pass.preserves_loadable value).bind fun _ same =>
      ensures_pure (congrArg Instruction.load same)
  | field use ref => exact ensures_result.bind fun _ _ => ensures_pure rfl
  | call kind ref => exact ensures_result.bind fun _ _ => ensures_pure rfl
  | callDynamic call =>
    exact (pass.preserves_dynamicCall call).bind fun _ same =>
      ensures_pure (congrArg Instruction.callDynamic same)
  | withClass op name => exact ensures_result.bind fun _ _ => ensures_pure rfl
  | createMultiArray name dimensions => exact ensures_result.bind fun _ _ => ensures_pure rfl
  | plain op => exact ensures_pure rfl
  | withLocal op index => exact ensures_pure rfl
  | jump op target => exact ensures_pure rfl
  | push op value => exact ensures_pure rfl
  | increment index amount => exact ensures_pure rfl
  | createBaseArray element => exact ensures_pure rfl
  | tableSwitch fallback low high targets => exact ensures_pure rfl
  | lookupSwitch fallback pairs => exact ensures_pure rfl

/-! #### Code and members -/

theorem preserves_codeEntry (entry : CodeEntry) :
    (pass.codeEntry entry).Preserves CodeEntry.erased entry :=
  (pass.preserves_instruction entry.instruction).bind fun _ same =>
    ensures_pure (congrArg (CodeEntry.mk entry.label) same)

theorem preserves_exceptionRange (range : ExceptionRange) :
    (pass.exceptionRange range).Preserves ExceptionRange.erased range := by
  refine (preserves_mapM_option fun name => preserves_erased _ name).bind fun caught same => ?_
  exact ensures_pure (congrArg (ExceptionRange.mk range.start range.stop range.handler) same)

theorem preserves_localVariable (entry : LocalVariable) :
    (pass.localVariable entry).Preserves LocalVariable.erased entry := by
  unfold localVariable
  refine (preserves_mapM_option fun descriptor => preserves_erased _ descriptor).bind
    fun descriptor sameDescriptor => ?_
  refine (preserves_mapM_option fun signature => preserves_erased _ signature).bind
    fun signature sameSignature => ensures_pure ?_
  rw [LocalVariable.erased, LocalVariable.erased, sameDescriptor, sameSignature]

theorem preserves_code (code : Code) : (pass.code code).Preserves Code.erased code := by
  unfold Pass.code
  refine (preserves_mapM pass.preserves_codeEntry).bind fun instructions sameInstructions => ?_
  refine (preserves_mapM pass.preserves_exceptionRange).bind fun exceptionTable sameTable => ?_
  refine (preserves_mapM_option fun entries => preserves_mapM pass.preserves_localVariable).bind
    fun localVariables sameVariables => ensures_pure ?_
  rw [Code.erased, Code.erased, sameInstructions, sameTable, sameVariables]

theorem preserves_field (owner : ClassName) (field : Field) :
    (pass.field owner field).Preserves Field.erased field := by
  unfold Pass.field
  refine ensures_result.bind fun descriptor _ => ?_
  refine (preserves_mapM_option fun signature => preserves_erased _ signature).bind
    fun signature sameSignature => ensures_pure ?_
  rw [Field.erased, Field.erased, sameSignature]
  rfl

/-- Thrown classes and parameters are no part of the skeleton, as the pass may add to them. -/
theorem preserves_method (owner : ClassName) (method : Method) :
    (pass.method owner method).Preserves Method.erased method := by
  unfold Pass.method
  refine ensures_result.bind fun parameters _ => ensures_result.bind fun found _ => ?_
  refine ensures_result.bind fun descriptor _ => ?_
  refine (preserves_mapM_option pass.preserves_code).bind fun code sameCode => ?_
  refine (preserves_mapM_option fun signature => preserves_erased _ signature).bind
    fun signature sameSignature => ensures_pure ?_
  rw [Method.erased, Method.erased, sameCode, sameSignature]
  rfl

/-! #### Classes -/

theorem preserves_nestedClass (entry : NestedClass) :
    (pass.nestedClass entry).Preserves NestedClass.erased entry := by
  unfold Pass.nestedClass
  refine (preserves_mapM_option fun name => preserves_erased _ name).bind
    fun outer sameOuter => ensures_pure ?_
  rw [NestedClass.erased, NestedClass.erased, sameOuter, Option.map_map]
  rfl

theorem preserves_enclosingMethod (entry : EnclosingMethod) :
    (pass.enclosingMethod entry).Preserves EnclosingMethod.erased entry := by
  have blank : ∀ key, (pass.methodKey entry.owner key).Preserves MethodKey.erased key :=
    fun _ _ _ => rfl
  unfold Pass.enclosingMethod
  refine (preserves_mapM_option blank).bind fun method sameMethod => ?_
  refine ensures_result.bind fun owner _ => ensures_pure ?_
  rw [EnclosingMethod.erased, EnclosingMethod.erased, sameMethod]
  rfl

/-- **A renamed class has the skeleton of the class.** -/
theorem preserves_classFile (file : ClassFile) :
    (pass.classFile file).Preserves ClassFile.erased file := by
  have blank : ∀ name, (pass.className name).Preserves Symbol.erased name :=
    fun name => preserves_erased _ name
  unfold Pass.classFile
  refine (preserves_mapM (pass.preserves_field file.name)).bind fun fields sameFields => ?_
  refine (preserves_mapM fun method => (pass.preserves_method file.name method).within _).bind
    fun methods sameMethods => ?_
  refine ensures_result.bind fun name _ => ?_
  refine (preserves_mapM_option blank).bind fun superClass sameSuper => ?_
  refine (preserves_mapM blank).bind fun interfaces sameInterfaces => ?_
  refine (preserves_mapM_option fun entries => preserves_mapM pass.preserves_nestedClass).bind
    fun nestedClasses sameNested => ?_
  refine (preserves_mapM_option pass.preserves_enclosingMethod).bind
    fun enclosing sameEnclosing => ?_
  refine (preserves_mapM_option fun signature => preserves_erased _ signature).bind
    fun signature sameSignature => ?_
  refine (preserves_mapM_option blank).bind fun nestHost sameHost => ?_
  refine (preserves_mapM_option fun names => preserves_mapM blank).bind
    fun nestMembers sameMembers => ?_
  refine (preserves_mapM_option fun names => preserves_mapM blank).bind
    fun permitted samePermitted => ensures_pure ?_
  rw [ClassFile.erased, ClassFile.erased, sameFields, sameMethods, sameSuper, sameInterfaces,
    sameNested, sameEnclosing, sameSignature, sameHost, sameMembers, samePermitted]
  rfl

theorem preserves_process (keeps : pass.options.degradeBridges = false) (file : ClassFile) :
    (pass.process file).Ensures fun out => out.1.erased = file.erased := by
  rintro ⟨new, bridges⟩ done
  obtain ⟨degraded, first, renamed⟩ := process_eq_ok_iff.mp done
  rw [keeps, if_neg Bool.false_ne_true, Except.ok.injEq, Prod.mk.injEq] at first
  rw [first.1]
  exact pass.preserves_classFile degraded new renamed

end Pass

/-! ### The statement -/

/-- **Nothing but symbols changes.** If a pass that leaves bridges alone ends well, it gives one
class for each class, in the same order and with the same skeleton. -/
theorem only_symbols_change {classes renamed : List ClassFile} {mappings : Mappings}
    {hierarchy : Hierarchy} {supplement : Supplement} {options : PassOptions} {report : PassReport}
    (keeps : options.degradeBridges = false)
    (done : (renameClasses classes mappings hierarchy supplement options).result =
      .ok (renamed, report)) :
    List.Forall₂ (fun file new => new.erased = file.erased) classes renamed := by
  obtain ⟨processed, each, rfl, _⟩ := (renameClasses_eq_ok_iff _ _ _ _ _).mp done
  rw [List.forall₂_map_right_iff]
  exact each.imp fun file out finished => Pass.preserves_process _ keeps file out finished

namespace Switchboard

/-- Code with a switch, a computed constant, a call on an interface and a computed call, a guarded
part, line numbers and a variable. It refers to a field and a method of the class. -/
def code (owner : ClassName) (field : FieldRef) (method : MethodRef) : Code where
  maxStack := some 4
  maxLocals := some 2
  instructions :=
    [⟨some 0, .tableSwitch 2 (-1) 0 [1, 2]⟩,
      ⟨some 1, .load (.computed ⟨"f"⟩ field.descriptor (.field .getStatic field)
        [.integer 7, .type owner])⟩,
      ⟨none, .call (.onSpecial true) method⟩,
      ⟨none, .callDynamic ⟨⟨"m"⟩, method.descriptor, .method (.call .onVirtual) method,
        [.string "f"]⟩⟩,
      ⟨some 2, .plain .returnVoid⟩]
  exceptionTable := [⟨0, 1, 2, some owner⟩, ⟨1, 2, 2, none⟩]
  lastLabel := some 3
  lineNumbers := some [(0, 10), (2, 12)]
  localVariables := some [⟨0, 3, ⟨"f"⟩, some field.descriptor, none, 1⟩]

/-- A class with such a method, and a class nested in it. -/
def file (nested : ClassName) (simpleName : String) (field : FieldRef) (method : MethodRef) :
    ClassFile where
  version := ⟨61, 3⟩
  access := .ofNat 33
  name := field.owner
  superClass := some ⟨"s"⟩
  interfaces := []
  fields := [⟨.ofNat 8, field.name, field.descriptor, none⟩]
  methods :=
    [⟨.ofNat 1, method.name, method.descriptor, some (code field.owner field method),
      none, none, none⟩]
  nestedClasses := some [⟨nested, some field.owner, some simpleName, .ofNat 8⟩,
    ⟨nested, none, none, .none⟩]
  enclosingMethod := none
  signature := none
  sourceFile := some "a"
  nestHost := none
  nestMembers := some [nested]
  permittedSubclasses := some []

def old : ClassFile :=
  file ⟨"a$b"⟩ "b" ⟨⟨"a"⟩, ⟨"f"⟩, ⟨"La;"⟩⟩ ⟨⟨"a"⟩, ⟨"m"⟩, ⟨"(La;)V"⟩⟩

def new : ClassFile :=
  file ⟨"c$d"⟩ "d" ⟨⟨"c"⟩, ⟨"g"⟩, ⟨"Lc;"⟩⟩ ⟨⟨"c"⟩, ⟨"n"⟩, ⟨"(Lc;)V"⟩⟩

def mappings : Mappings :=
  ((((∅ : Mappings).addClass ⟨"a"⟩ ⟨"c"⟩).addClass ⟨"a$b"⟩ ⟨"c$d"⟩).addField ⟨"a"⟩ ⟨"f"⟩
    ⟨"g"⟩).addMethod ⟨"a"⟩ ⟨⟨"m"⟩, ⟨"(La;)V"⟩⟩ ⟨"n"⟩

end Switchboard

/-- The class, the nested class, the field and the method are renamed everywhere; the variable, the
constant and the texts with the same names are not, nor is the computed call, and all else is the
same. -/
theorem switchboard_keeps_skeleton :
    (renameClasses [Switchboard.old] Switchboard.mappings ∅ ∅ ⟨false, true, true⟩).result =
        .ok ([Switchboard.new], ⟨1, []⟩) ∧
      Switchboard.new.erased = Switchboard.old.erased := by
  have done : (renameClasses [Switchboard.old] Switchboard.mappings ∅ ∅
        ⟨false, true, true⟩).result =
      .ok ([Switchboard.new], ⟨1, []⟩) := by
    cbv
  exact ⟨done, (List.forall₂_cons.mp (only_symbols_change rfl done)).1⟩

end Renaming

import Renaming.Proofs.References

/-!
# What makes a pass fail

A pass reads the descriptors and signatures of a class and, where they are those of arrays, its
class names. `ClassFile.readSymbols` lists them all. The classes that a method throws and the names
of nested classes are replaced as a whole, without being read.

The pass fails if and only if one of these symbols is malformed, and the fault names the first class
with such a symbol and blames one of them. `Recorded.Examines` says this of a single computation,
and it is seen part by part of the pass. Some computations read a symbol on the side that is read in
its turn anyway: the number of parameters, the interface of a lambda and the target of a bridge.
They may fail earlier, but not for another reason (`Recorded.Blames`).
-/

namespace Renaming

/-! ### Symbols that are read -/

/-- A symbol of whichever kind. -/
structure AnySymbol where
  kind : SymbolKind
  symbol : Symbol kind

/-- The symbol, with its kind forgotten. -/
def Symbol.any {kind : SymbolKind} (symbol : Symbol kind) : AnySymbol := ⟨kind, symbol⟩

namespace AnySymbol

def text (any : AnySymbol) : String := any.symbol.text

/-- The symbol cannot be read: it is a descriptor or a signature and not a valid one, or the name of
an array class and not a valid one. -/
def Malformed : AnySymbol → Prop
  | ⟨.name .type, name⟩ => ClassName.isArray name = true ∧ ¬ name.Valid
  | ⟨.name _, _⟩ => False
  | ⟨_, symbol⟩ => ¬ symbol.Valid

/-- Nothing that passes the check of its kind is malformed. -/
theorem not_malformed_of_check {any : AnySymbol} (passes : any.kind.check any.text = .ok ()) :
    ¬ any.Malformed := by
  unfold Malformed
  split
  · exact fun malformed => malformed.2 passes
  · exact id
  · exact not_not_intro passes

/-- The fault is about the text of the symbol, as that of a signature or else of a descriptor. -/
def IsBlamedBy (fault : Fault) : AnySymbol → Prop
  | ⟨.classSignature, symbol⟩ => ∃ flaw, fault = .signature symbol.text flaw
  | ⟨.fieldSignature, symbol⟩ => ∃ flaw, fault = .signature symbol.text flaw
  | ⟨.methodSignature, symbol⟩ => ∃ flaw, fault = .signature symbol.text flaw
  | ⟨_, symbol⟩ => ∃ flaw, fault = .descriptor symbol.text flaw

end AnySymbol

def FieldRef.readSymbols (ref : FieldRef) : List AnySymbol := [ref.owner.any, ref.descriptor.any]

def MethodRef.readSymbols (ref : MethodRef) : List AnySymbol := [ref.owner.any, ref.descriptor.any]

def Handle.readSymbols : Handle → List AnySymbol
  | .field _ ref => ref.readSymbols
  | .method _ ref => ref.readSymbols

mutual

def Loadable.readSymbols : Loadable → List AnySymbol
  | .type name => [name.any]
  | .handle target => target.readSymbols
  | .methodType descriptor => [descriptor.any]
  | .computed _ descriptor target arguments =>
    descriptor.any :: (target.readSymbols ++ Loadable.allReadSymbols arguments)
  | .integer _ | .float _ | .long _ | .double _ | .string _ => []

def Loadable.allReadSymbols : List Loadable → List AnySymbol
  | [] => []
  | value :: rest => value.readSymbols ++ Loadable.allReadSymbols rest

end

def DynamicCall.readSymbols (call : DynamicCall) : List AnySymbol :=
  call.descriptor.any :: (call.handle.readSymbols ++ Loadable.allReadSymbols call.arguments)

def Instruction.readSymbols : Instruction → List AnySymbol
  | .load value => value.readSymbols
  | .field _ ref => ref.readSymbols
  | .call _ ref => ref.readSymbols
  | .callDynamic target => target.readSymbols
  | .withClass _ name => [name.any]
  | .createMultiArray name _ => [name.any]
  | _ => []

def LocalVariable.readSymbols (entry : LocalVariable) : List AnySymbol :=
  entry.descriptor.toList.map Symbol.any ++ entry.signature.toList.map Symbol.any

def Code.readSymbols (code : Code) : List AnySymbol :=
  (code.instructions.flatMap fun entry => entry.instruction.readSymbols) ++
    ((code.exceptionTable.flatMap fun range => range.caught.toList.map Symbol.any) ++
      code.localVariables.toList.flatMap fun entries => entries.flatMap LocalVariable.readSymbols)

def Field.readSymbols (field : Field) : List AnySymbol :=
  field.descriptor.any :: field.signature.toList.map Symbol.any

/-- The classes that the method throws are not among them. -/
def Method.readSymbols (method : Method) : List AnySymbol :=
  method.descriptor.any ::
    (method.code.toList.flatMap Code.readSymbols ++ method.signature.toList.map Symbol.any)

/-- The name of the nested class itself is not among them. -/
def NestedClass.readSymbols (entry : NestedClass) : List AnySymbol :=
  entry.outer.toList.map Symbol.any

def EnclosingMethod.readSymbols (entry : EnclosingMethod) : List AnySymbol :=
  (entry.method.toList.map fun key => key.descriptor.any) ++ [entry.owner.any]

/-- **The symbols of a class that the pass reads**, in the order of reading. -/
def ClassFile.readSymbols (file : ClassFile) : List AnySymbol :=
  [file.fields.flatMap Field.readSymbols,
    file.methods.flatMap Method.readSymbols,
    [file.name.any],
    file.superClass.toList.map Symbol.any,
    file.interfaces.map Symbol.any,
    file.nestedClasses.toList.flatMap fun entries => entries.flatMap NestedClass.readSymbols,
    file.enclosingMethod.toList.flatMap EnclosingMethod.readSymbols,
    file.signature.toList.map Symbol.any,
    file.nestHost.toList.map Symbol.any,
    file.nestMembers.toList.flatMap fun names => names.map Symbol.any,
    file.permittedSubclasses.toList.flatMap fun names => names.map Symbol.any].flatten

/-! ### Computations that read symbols -/

namespace Recorded

variable {ρ α β : Type}

theorem result_bind_eq_error_iff {first : Recorded ρ α} {rest : α → Recorded ρ β} {fault : Fault} :
    (first >>= rest).result = .error fault ↔
      first.result = .error fault ∨
        ∃ value, first.result = .ok value ∧ (rest value).result = .error fault := by
  rw [result_bind]
  cases first.result <;> simp [bind, Except.bind]

theorem result_within_eq_error_iff {circumstances : Fault → Fault} {run : Recorded ρ α}
    {fault : Fault} : (run.within circumstances).result = .error fault ↔
      ∃ cause, run.result = .error cause ∧ circumstances cause = fault := by
  rw [result_within]
  cases run.result <;> simp [Except.mapError]

/-- A list is gone through up to the first item that fails. -/
theorem exists_first_of_mapM_eq_error {items : List α} {body : α → Recorded ρ β} {fault : Fault}
    (failed : (items.mapM body).result = .error fault) :
    ∃ before item after, items = before ++ item :: after ∧
      (∀ earlier ∈ before, ∃ value, (body earlier).result = .ok value) ∧
      (body item).result = .error fault := by
  induction items with
  | nil => cases failed
  | cons item rest ih =>
    rw [List.mapM_cons, result_bind_eq_error_iff] at failed
    rcases failed with here | ⟨value, done, later⟩
    · exact ⟨[], item, rest, rfl, nofun, here⟩
    · rcases result_bind_eq_error_iff.mp later with failed | ⟨_, _, impossible⟩
      · obtain ⟨before, culprit, after, rfl, fine, failed⟩ := ih failed
        exact ⟨item :: before, culprit, after, rfl,
          List.forall_mem_cons.mpr ⟨⟨value, done⟩, fine⟩, failed⟩
      · cases impossible

/-- If the computation fails, then one of the symbols is malformed and is blamed. -/
def Blames (run : Recorded ρ α) (symbols : List AnySymbol) : Prop :=
  ∀ fault, run.result = .error fault →
    ∃ symbol ∈ symbols, symbol.Malformed ∧ symbol.IsBlamedBy fault.root

/-- The computation fails if and only if one of the symbols is malformed, and then blames such a
one. -/
structure Examines (run : Recorded ρ α) (symbols : List AnySymbol) : Prop where
  blames : run.Blames symbols
  passes : run.Ensures fun _ => ∀ symbol ∈ symbols, ¬ symbol.Malformed

section Blames

variable {symbols others : List AnySymbol}

theorem blames_of_eq_ok {run : Recorded ρ α} {value : α} (done : run.result = .ok value) :
    run.Blames symbols := by
  intro fault failed
  rw [done] at failed
  cases failed

theorem Blames.mono {run : Recorded ρ α} (blames : run.Blames symbols) (among : symbols ⊆ others) :
    run.Blames others := by
  intro fault failed
  obtain ⟨symbol, member, blamed⟩ := blames fault failed
  exact ⟨symbol, among member, blamed⟩

theorem Blames.of_mem {run : Recorded ρ α} {symbol : AnySymbol} (blames : run.Blames [symbol])
    (member : symbol ∈ symbols) : run.Blames symbols :=
  blames.mono (List.cons_subset.mpr ⟨member, List.nil_subset symbols⟩)

theorem Blames.bind {run : Recorded ρ α} {next : α → Recorded ρ β} (first : run.Blames symbols)
    (rest : ∀ value, run.result = .ok value → (next value).Blames symbols) :
    (run >>= next).Blames symbols := by
  intro fault failed
  rcases result_bind_eq_error_iff.mp failed with here | ⟨value, done, later⟩
  · exact first fault here
  · exact rest value done fault later

/-- The same without a record. -/
theorem blames_lift_bind {result : Except Fault α} {next : α → Except Fault β}
    (first : (liftM result : Recorded ρ α).Blames symbols)
    (rest : ∀ value, (liftM (next value) : Recorded ρ β).Blames symbols) :
    (liftM (result >>= next) : Recorded ρ β).Blames symbols := by
  cases result with
  | error fault => exact fun _ failed => first _ (congrArg Except.error (Except.error.inj failed))
  | ok value => exact rest value

/-- Putting a fault into circumstances does not change what is blamed. -/
theorem Blames.within {run : Recorded ρ α} (blames : run.Blames symbols)
    {circumstances : Fault → Fault} (same : ∀ fault, (circumstances fault).root = fault.root) :
    (run.within circumstances).Blames symbols := by
  intro fault failed
  obtain ⟨cause, found, rfl⟩ := result_within_eq_error_iff.mp failed
  rw [same]
  exact blames cause found

theorem blames_mapM {items : List α} {body : α → Recorded ρ β}
    (each : ∀ item ∈ items, (body item).Blames symbols) : (items.mapM body).Blames symbols := by
  intro fault failed
  obtain ⟨before, item, after, rfl, _, failed⟩ := exists_first_of_mapM_eq_error failed
  exact each item (List.mem_append_right _ List.mem_cons_self) fault failed

end Blames

section Examines

variable {symbols others : List AnySymbol}

theorem examines_of_eq_ok {run : Recorded ρ α} {value : α} (done : run.result = .ok value) :
    run.Examines [] :=
  ⟨blames_of_eq_ok done, fun _ _ => nofun⟩

theorem examines_pure (value : α) : (pure value : Recorded ρ α).Examines [] := examines_of_eq_ok rfl

/-- What is read by two computations one after the other. -/
theorem Examines.bind {run : Recorded ρ α} {next : α → Recorded ρ β} (first : run.Examines symbols)
    (rest : ∀ value, run.result = .ok value → (next value).Examines others) :
    (run >>= next).Examines (symbols ++ others) := by
  constructor
  · refine (first.blames.mono (List.subset_append_left _ _)).bind fun value done => ?_
    exact (rest value done).blames.mono (List.subset_append_right _ _)
  · intro last done
    obtain ⟨value, valueDone, restDone⟩ := result_bind_eq_ok_iff.mp done
    exact List.forall_mem_append.mpr
      ⟨first.passes value valueDone, (rest value valueDone).passes last restDone⟩

/-- What is read on the side is read in its turn anyway. -/
theorem Blames.bind_examines {run : Recorded ρ α} {next : α → Recorded ρ β}
    (aside : run.Blames symbols)
    (rest : ∀ value, run.result = .ok value → (next value).Examines symbols) :
    (run >>= next).Examines symbols := by
  constructor
  · exact aside.bind fun value done => (rest value done).blames
  · intro last done
    obtain ⟨value, valueDone, restDone⟩ := result_bind_eq_ok_iff.mp done
    exact (rest value valueDone).passes last restDone

theorem Examines.then_pure {run : Recorded ρ α} (examines : run.Examines symbols) (change : α → β) :
    (run >>= fun value => pure (change value)).Examines symbols := by
  rw [← List.append_nil symbols]
  exact examines.bind fun _ _ => examines_pure _

theorem Examines.lift_map {result : Except Fault α}
    (examines : (liftM result : Recorded ρ α).Examines symbols) (change : α → β) :
    (liftM (result.map change) : Recorded ρ β).Examines symbols := by
  cases result with
  | error fault =>
    refine ⟨fun _ failed => ?_, nofun⟩
    exact examines.blames _ (congrArg Except.error (Except.error.inj failed))
  | ok value => exact ⟨blames_of_eq_ok rfl, fun _ _ => examines.passes value rfl⟩

theorem Examines.within {run : Recorded ρ α} (examines : run.Examines symbols)
    {circumstances : Fault → Fault} (same : ∀ fault, (circumstances fault).root = fault.root) :
    (run.within circumstances).Examines symbols :=
  ⟨examines.blames.within same, examines.passes.within circumstances⟩

theorem Examines.exists_error_iff {run : Recorded ρ α} (examines : run.Examines symbols) :
    (∃ fault, run.result = .error fault) ↔ ∃ symbol ∈ symbols, symbol.Malformed := by
  constructor
  · rintro ⟨fault, failed⟩
    obtain ⟨symbol, member, malformed, _⟩ := examines.blames fault failed
    exact ⟨symbol, member, malformed⟩
  · rintro ⟨symbol, member, malformed⟩
    cases found : run.result with
    | error fault => exact ⟨fault, rfl⟩
    | ok value => exact absurd malformed (examines.passes value found symbol member)

theorem examines_mapM {items : List α} {body : α → Recorded ρ β} {read : α → List AnySymbol}
    (each : ∀ item ∈ items, (body item).Examines (read item)) :
    (items.mapM body).Examines (items.flatMap read) := by
  induction items with
  | nil => exact examines_pure []
  | cons item rest ih =>
    rw [List.mapM_cons, List.flatMap_cons]
    refine (each item List.mem_cons_self).bind fun value _ => ?_
    exact (ih fun other member => each other (List.mem_cons_of_mem _ member)).then_pure _

theorem examines_mapM_option {item : Option α} {body : α → Recorded ρ β} {read : α → List AnySymbol}
    (each : ∀ value, (body value).Examines (read value)) :
    (item.mapM body).Examines (item.toList.flatMap read) := by
  cases item with
  | none => exact examines_pure none
  | some value =>
    rw [Option.toList_some, List.flatMap_singleton]
    exact (each value).then_pure some

/-- The same where there is one symbol in each item. -/
theorem examines_mapM_single {items : List α} {body : α → Recorded ρ β} {read : α → AnySymbol}
    (each : ∀ item, (body item).Examines [read item]) :
    (items.mapM body).Examines (items.map read) := by
  rw [List.map_eq_flatMap]
  exact examines_mapM fun item _ => each item

theorem examines_mapM_option_single {item : Option α} {body : α → Recorded ρ β}
    {read : α → AnySymbol} (each : ∀ value, (body value).Examines [read value]) :
    (item.mapM body).Examines (item.toList.map read) := by
  rw [List.map_eq_flatMap]
  exact examines_mapM_option each

end Examines

end Recorded

/-! ### Reading one symbol -/

/-- The symbol is read in the grammar: it is malformed if it does not pass, and is blamed for
that. -/
structure AnySymbol.IsReadAs (τ : Type) [Grammar τ] (any : AnySymbol) : Prop where
  malformed_iff : any.Malformed ↔ ¬ Grammar.check τ any.text = .ok ()
  isBlamedBy : ∀ fault, (Grammar.read any.text : Reading τ).result = .error fault →
    any.IsBlamedBy fault.root

section IsReadAs

variable {τ : Type} [Grammar τ] {any : AnySymbol}

theorem Descriptor.isReadAs {scan : Scan τ} (reads : Grammar.read any.text = read scan any.text)
    (malformed_iff : any.Malformed ↔ ¬ Grammar.check τ any.text = .ok ())
    (isBlamedBy : ∀ flaw, any.IsBlamedBy (.descriptor any.text flaw)) : any.IsReadAs τ := by
  refine ⟨malformed_iff, fun fault failed => ?_⟩
  rw [reads, read] at failed
  split at failed
  · cases failed
  · cases failed
    exact isBlamedBy _

theorem Signature.isReadAs {scan : Scan τ} (reads : Grammar.read any.text = read scan any.text)
    (malformed_iff : any.Malformed ↔ ¬ Grammar.check τ any.text = .ok ())
    (isBlamedBy : ∀ flaw, any.IsBlamedBy (.signature any.text flaw)) : any.IsReadAs τ := by
  refine ⟨malformed_iff, fun fault failed => ?_⟩
  rw [reads, read] at failed
  split at failed
  · cases failed
  · cases failed
    exact isBlamedBy _

end IsReadAs

theorem FieldDescriptor.isReadAs (descriptor : FieldDescriptor) :
    descriptor.any.IsReadAs FieldType :=
  Descriptor.isReadAs rfl Iff.rfl fun flaw => ⟨flaw, rfl⟩

theorem MethodDescriptor.isReadAs (descriptor : MethodDescriptor) :
    descriptor.any.IsReadAs MethodType :=
  Descriptor.isReadAs rfl Iff.rfl fun flaw => ⟨flaw, rfl⟩

theorem ClassSignature.isReadAs (signature : ClassSignature) : signature.any.IsReadAs ClassSig :=
  Signature.isReadAs rfl Iff.rfl fun flaw => ⟨flaw, rfl⟩

theorem FieldSignature.isReadAs (signature : FieldSignature) : signature.any.IsReadAs TypeSig :=
  Signature.isReadAs rfl Iff.rfl fun flaw => ⟨flaw, rfl⟩

theorem MethodSignature.isReadAs (signature : MethodSignature) : signature.any.IsReadAs MethodSig :=
  Signature.isReadAs rfl Iff.rfl fun flaw => ⟨flaw, rfl⟩

/-- The name of an array class is read as the descriptor of a field. -/
theorem ClassName.isReadAs {name : ClassName} (array : name.isArray = true) :
    name.any.IsReadAs FieldType := by
  refine Descriptor.isReadAs rfl ?_ fun flaw => ⟨flaw, rfl⟩
  show name.isArray = true ∧ ¬ name.Valid ↔ _
  rw [valid_iff_of_isArray array]
  exact and_iff_right array

namespace Recorded

variable {ρ α τ : Type} [Grammar τ]

/-- Reading a symbol examines it. -/
theorem examines_read {any : AnySymbol} (readAs : any.IsReadAs τ) :
    (liftM (Grammar.read any.text : Reading τ).result : Recorded ρ τ).Examines [any] := by
  have checked : Grammar.check τ any.text =
      (Grammar.read any.text : Reading τ).result.map fun _ => () := rfl
  constructor
  · intro fault failed
    rw [result_monadLift] at failed
    refine ⟨any, List.mem_singleton_self any, ?_, readAs.isBlamedBy fault failed⟩
    rw [readAs.malformed_iff, checked, failed]
    exact nofun
  · intro tree done
    rw [result_monadLift] at done
    rw [List.forall_mem_singleton, readAs.malformed_iff, not_not, checked, done]
    rfl

theorem examines_rename {any : AnySymbol} (readAs : any.IsReadAs τ)
    (renamed : ClassName → Option ClassName) (build : String → α) :
    (liftM ((Grammar.renameText τ renamed any.text).map build) : Recorded ρ α).Examines [any] := by
  rw [Grammar.renameText_eq]
  exact ((examines_read readAs).lift_map _).lift_map build

end Recorded

/-- How many parameters a method has is told by reading its descriptor. -/
theorem MethodDescriptor.examines_parameterCount (descriptor : MethodDescriptor) :
    (liftM descriptor.parameterCount : Journal Nat).Examines [descriptor.any] :=
  (Recorded.examines_read descriptor.isReadAs).lift_map _

namespace Mappings

open Recorded

variable (mappings : Mappings)

theorem examines_classNameAny (name : ClassName) :
    (liftM (mappings.classNameAny name) : Journal ClassName).Examines [name.any] := by
  unfold classNameAny
  by_cases array : name.isArray = true
  · rw [if_pos array, Descriptor.renameText_of_isArray array]
    exact examines_rename (ClassName.isReadAs array) _ _
  · rw [if_neg array]
    refine ⟨blames_of_eq_ok rfl, fun _ _ => ?_⟩
    rw [List.forall_mem_singleton]
    exact fun malformed => array malformed.1

theorem examines_fieldDescriptor (descriptor : FieldDescriptor) :
    (liftM (mappings.fieldDescriptor descriptor) : Journal FieldDescriptor).Examines
      [descriptor.any] :=
  examines_rename descriptor.isReadAs _ _

theorem examines_methodDescriptor (descriptor : MethodDescriptor) :
    (liftM (mappings.methodDescriptor descriptor) : Journal MethodDescriptor).Examines
      [descriptor.any] :=
  examines_rename descriptor.isReadAs _ _

theorem examines_classSignature (signature : ClassSignature) :
    (liftM (mappings.classSignature signature) : Journal ClassSignature).Examines [signature.any] :=
  examines_rename signature.isReadAs _ _

theorem examines_fieldSignature (signature : FieldSignature) :
    (liftM (mappings.fieldSignature signature) : Journal FieldSignature).Examines [signature.any] :=
  examines_rename signature.isReadAs _ _

theorem examines_methodSignature (signature : MethodSignature) :
    (liftM (mappings.methodSignature signature) : Journal MethodSignature).Examines
      [signature.any] :=
  examines_rename signature.isReadAs _ _

end Mappings

/-! ### The pass, part by part -/

namespace Pass

open Recorded

variable (pass : Pass)

/-! #### Constants and instructions -/

theorem examines_fieldRef (ref : FieldRef) (isStatic : Bool) :
    (pass.renamer.fieldRef ref isStatic).Examines ref.readSymbols := by
  unfold Renamer.fieldRef
  -- looking a member up never fails
  refine (blames_of_eq_ok rfl).bind_examines fun name _ => ?_
  refine (pass.mappings.examines_classNameAny ref.owner).bind fun owner _ => ?_
  exact (pass.mappings.examines_fieldDescriptor ref.descriptor).then_pure _

theorem examines_methodRef (ref : MethodRef) (isStatic : Bool) :
    (pass.renamer.methodRef ref isStatic).Examines ref.readSymbols := by
  have parts : ∀ name : Option MethodName, Examines (do
      let owner ← (pass.mappings.classNameAny ref.owner : Except Fault _)
      let descriptor ← (pass.mappings.methodDescriptor ref.descriptor : Except Fault _)
      return MethodRef.mk owner (name.getD ref.name) descriptor : Journal MethodRef)
        ref.readSymbols := by
    intro name
    refine (pass.mappings.examines_classNameAny ref.owner).bind fun owner _ => ?_
    exact (pass.mappings.examines_methodDescriptor ref.descriptor).then_pure _
  unfold Renamer.methodRef
  by_cases array : ref.owner.isArray = true
  · rw [if_pos array]
    exact parts none
  · rw [if_neg array]
    exact (blames_of_eq_ok rfl).bind_examines fun name _ => parts name

theorem examines_handle (handle : Handle) : (pass.handle handle).Examines handle.readSymbols := by
  cases handle with
  | field use ref => exact (pass.examines_fieldRef ref _).then_pure _
  | method how ref => exact (pass.examines_methodRef ref _).then_pure _

mutual

theorem examines_loadable : (value : Loadable) → (pass.loadable value).Examines value.readSymbols
  | .type name => by
    rw [Pass.loadable, Loadable.readSymbols]
    exact (pass.mappings.examines_classNameAny name).then_pure _
  | .handle target => by
    rw [Pass.loadable, Loadable.readSymbols]
    exact (pass.examines_handle target).then_pure _
  | .methodType descriptor => by
    rw [Pass.loadable, Loadable.readSymbols]
    exact (pass.mappings.examines_methodDescriptor descriptor).then_pure _
  | .computed name descriptor target arguments => by
    rw [Pass.loadable, Loadable.readSymbols]
    refine (pass.mappings.examines_fieldDescriptor descriptor).bind fun _ _ => ?_
    refine (pass.examines_handle target).bind fun _ _ => ?_
    exact (examines_loadables arguments).then_pure _
  | .integer _ => by
    rw [Pass.loadable, Loadable.readSymbols]
    exact examines_pure _
  | .float _ => by
    rw [Pass.loadable, Loadable.readSymbols]
    exact examines_pure _
  | .long _ => by
    rw [Pass.loadable, Loadable.readSymbols]
    exact examines_pure _
  | .double _ => by
    rw [Pass.loadable, Loadable.readSymbols]
    exact examines_pure _
  | .string _ => by
    rw [Pass.loadable, Loadable.readSymbols]
    exact examines_pure _

theorem examines_loadables : (values : List Loadable) →
    (pass.loadables values).Examines (Loadable.allReadSymbols values)
  | [] => by
    rw [Pass.loadables, Loadable.allReadSymbols]
    exact examines_pure []
  | value :: rest => by
    rw [Pass.loadables, Loadable.allReadSymbols]
    refine (examines_loadable value).bind fun _ _ => ?_
    exact (examines_loadables rest).then_pure _

end

/-- To find the interface of a lambda, no more is read than the descriptor of the call. -/
theorem blames_lambdaName? (call : DynamicCall) :
    (pass.lambdaName? call).Blames call.readSymbols := by
  unfold lambdaName?
  split
  · split
    · have typed : (liftM call.descriptor.type : Journal MethodType).Blames [call.descriptor.any] :=
        (examines_read call.descriptor.isReadAs).blames
      refine (typed.of_mem List.mem_cons_self).bind fun type _ => ?_
      split <;> exact blames_of_eq_ok rfl
    · exact blames_of_eq_ok rfl
  · exact blames_of_eq_ok rfl

theorem examines_dynamicCall (call : DynamicCall) :
    (pass.dynamicCall call).Examines call.readSymbols := by
  have parts : ∀ name : Option MethodName, Examines (do
      let descriptor ← (pass.mappings.methodDescriptor call.descriptor : Except Fault _)
      let handle ← pass.handle call.handle
      let arguments ← pass.loadables call.arguments
      return { name := name.getD call.name, descriptor, handle, arguments } : Journal DynamicCall)
        call.readSymbols := by
    intro name
    refine (pass.mappings.examines_methodDescriptor call.descriptor).bind fun _ _ => ?_
    refine (pass.examines_handle call.handle).bind fun _ _ => ?_
    exact (pass.examines_loadables call.arguments).then_pure _
  unfold dynamicCall
  by_cases lambdas : pass.options.renameLambdas = true
  · rw [if_pos lambdas]
    exact (pass.blames_lambdaName? call).bind_examines fun name _ => parts name
  · rw [if_neg lambdas]
    exact parts none

theorem examines_instruction (instruction : Instruction) :
    (pass.instruction instruction).Examines instruction.readSymbols := by
  cases instruction with
  | load value => exact (pass.examines_loadable value).then_pure _
  | field use ref => exact (pass.examines_fieldRef ref _).then_pure _
  | call kind ref => exact (pass.examines_methodRef ref _).then_pure _
  | callDynamic call => exact (pass.examines_dynamicCall call).then_pure _
  | withClass op name => exact (pass.mappings.examines_classNameAny name).then_pure _
  | createMultiArray name dimensions => exact (pass.mappings.examines_classNameAny name).then_pure _
  | plain op => exact examines_pure _
  | withLocal op index => exact examines_pure _
  | jump op target => exact examines_pure _
  | push op value => exact examines_pure _
  | increment index amount => exact examines_pure _
  | createBaseArray element => exact examines_pure _
  | tableSwitch fallback low high targets => exact examines_pure _
  | lookupSwitch fallback pairs => exact examines_pure _

/-! #### Code and members -/

theorem examines_codeEntry (entry : CodeEntry) :
    (pass.codeEntry entry).Examines entry.instruction.readSymbols :=
  (pass.examines_instruction entry.instruction).then_pure _

theorem examines_exceptionRange (range : ExceptionRange) :
    (pass.exceptionRange range).Examines (range.caught.toList.map Symbol.any) :=
  (examines_mapM_option_single pass.mappings.examines_classNameAny).then_pure _

theorem examines_localVariable (entry : LocalVariable) :
    (pass.localVariable entry).Examines entry.readSymbols := by
  unfold localVariable
  refine (examines_mapM_option_single pass.mappings.examines_fieldDescriptor).bind fun _ _ => ?_
  exact (examines_mapM_option_single pass.mappings.examines_fieldSignature).then_pure _

theorem examines_code (code : Code) : (pass.code code).Examines code.readSymbols := by
  unfold Pass.code
  refine (examines_mapM fun entry _ => pass.examines_codeEntry entry).bind fun _ _ => ?_
  refine (examines_mapM fun range _ => pass.examines_exceptionRange range).bind fun _ _ => ?_
  refine Examines.then_pure (examines_mapM_option fun entries => ?_) _
  exact examines_mapM fun entry _ => pass.examines_localVariable entry

theorem examines_field (owner : ClassName) (field : Field) :
    (pass.field owner field).Examines field.readSymbols := by
  unfold Pass.field
  refine (pass.mappings.examines_fieldDescriptor field.descriptor).bind fun _ _ => ?_
  exact (examines_mapM_option_single pass.mappings.examines_fieldSignature).then_pure _

/-- Naming the parameters reads no more than the descriptor of the method. -/
theorem blames_parameters (owner : ClassName) (method : Method) :
    (liftM (pass.parameters owner method) : Journal (Option (List MethodParameter))).Blames
      method.readSymbols := by
  simp only [Pass.parameters]
  split
  · have counted := method.descriptor.examines_parameterCount.blames
    exact blames_lift_bind (counted.of_mem List.mem_cons_self) fun _ => blames_of_eq_ok rfl
  · exact blames_of_eq_ok rfl

theorem examines_method (owner : ClassName) (method : Method) :
    (pass.method owner method).Examines method.readSymbols := by
  unfold Pass.method
  -- the parameters are counted first, so the descriptor may already fail there
  refine (pass.blames_parameters owner method).bind_examines fun _ _ => ?_
  refine (blames_of_eq_ok rfl).bind_examines fun _ _ => ?_
  refine (pass.mappings.examines_methodDescriptor method.descriptor).bind fun _ _ => ?_
  refine (examines_mapM_option pass.examines_code).bind fun _ _ => ?_
  exact (examines_mapM_option_single pass.mappings.examines_methodSignature).then_pure _

/-! #### Classes -/

theorem examines_className (name : ClassName) : (pass.className name).Examines [name.any] := by
  unfold Pass.className
  exact pass.mappings.examines_classNameAny name

theorem examines_nestedClass (entry : NestedClass) :
    (pass.nestedClass entry).Examines entry.readSymbols :=
  (examines_mapM_option_single pass.mappings.examines_classNameAny).then_pure _

theorem examines_methodKey (owner : ClassName) (key : MethodKey) :
    (pass.methodKey owner key).Examines [key.descriptor.any] := by
  unfold Pass.methodKey
  refine (blames_of_eq_ok rfl).bind_examines fun _ _ => ?_
  exact (pass.mappings.examines_methodDescriptor key.descriptor).then_pure _

theorem examines_enclosingMethod (entry : EnclosingMethod) :
    (pass.enclosingMethod entry).Examines entry.readSymbols := by
  unfold Pass.enclosingMethod
  refine (examines_mapM_option_single (pass.examines_methodKey entry.owner)).bind fun _ _ => ?_
  exact (pass.mappings.examines_classNameAny entry.owner).then_pure _

theorem examines_classNames (names : Option (List ClassName)) :
    Examines (names.mapM fun names => names.mapM pass.className)
      (names.toList.flatMap fun names => names.map Symbol.any) :=
  examines_mapM_option fun _ => examines_mapM_single pass.examines_className

/-- **Renaming a class fails if and only if one of the symbols that it reads is malformed.** -/
theorem examines_classFile (file : ClassFile) :
    (pass.classFile file).Examines file.readSymbols := by
  unfold Pass.classFile
  simp only [ClassFile.readSymbols, List.flatten_cons, List.flatten_nil]
  refine (examines_mapM fun field _ => pass.examines_field file.name field).bind fun _ _ => ?_
  refine Examines.bind (examines_mapM fun method _ => ?_) fun _ _ => ?_
  · exact (pass.examines_method file.name method).within fun _ => rfl
  refine (pass.examines_className file.name).bind fun _ _ => ?_
  refine (examines_mapM_option_single pass.examines_className).bind fun _ _ => ?_
  refine (examines_mapM_single pass.examines_className).bind fun _ _ => ?_
  refine Examines.bind (examines_mapM_option fun entries => ?_) fun _ _ => ?_
  · exact examines_mapM fun entry _ => pass.examines_nestedClass entry
  refine (examines_mapM_option pass.examines_enclosingMethod).bind fun _ _ => ?_
  refine (examines_mapM_option_single pass.mappings.examines_classSignature).bind fun _ _ => ?_
  refine (examines_mapM_option_single pass.examines_className).bind fun _ _ => ?_
  refine (pass.examines_classNames file.nestMembers).bind fun _ _ => ?_
  exact (pass.examines_classNames file.permittedSubclasses).bind fun _ _ => examines_pure _

end Pass

/-! ### Bridges -/

theorem ClassFile.mem_readSymbols_of_method {file : ClassFile} {method : Method}
    (declared : method ∈ file.methods) : method.descriptor.any ∈ file.readSymbols := by
  simp only [readSymbols, List.flatten_cons]
  refine List.mem_append_right _ (List.mem_append_left _ ?_)
  exact List.mem_flatMap.mpr ⟨method, declared, List.mem_cons_self⟩

theorem ClassFile.blames_parameterCount (file : ClassFile) {method : Method}
    (declared : method ∈ file.methods) :
    (liftM method.descriptor.parameterCount : Journal Nat).Blames file.readSymbols :=
  method.descriptor.examines_parameterCount.blames.of_mem (mem_readSymbols_of_method declared)

/-- To find the target of a bridge, no more is read than descriptors of methods of the class. -/
theorem ClassFile.blames_forwardingTarget (file : ClassFile) {bridge : Method}
    (declared : bridge ∈ file.methods) :
    (liftM (forwardingTarget file.name file.methods bridge) : Journal (Option MethodKey)).Blames
      file.readSymbols := by
  unfold forwardingTarget
  split
  · split
    · exact Recorded.blames_of_eq_ok rfl
    · split
      · exact Recorded.blames_of_eq_ok rfl
      · split
        · exact Recorded.blames_of_eq_ok rfl
        · next target found =>
          have targetDeclared := List.mem_of_find?_eq_some found
          refine Recorded.blames_lift_bind (file.blames_parameterCount targetDeclared) fun _ => ?_
          refine Recorded.blames_lift_bind (file.blames_parameterCount declared) fun _ => ?_
          exact Recorded.blames_of_eq_ok rfl
  · exact Recorded.blames_of_eq_ok rfl

theorem Method.readSymbols_degradedTo (method : Method) (target : Option MethodKey) :
    (method.degradedTo target).readSymbols = method.readSymbols := by
  rw [degradedTo]
  split <;> rfl

theorem ClassFile.blames_degradeBridges (file : ClassFile) :
    file.degradeBridges.Blames file.readSymbols := by
  have targets : (liftM file.forwardingTargets : Journal _).Blames file.readSymbols := by
    have each : (file.methods.mapM fun bridge =>
        (liftM (forwardingTarget file.name file.methods bridge) :
          Journal (Option MethodKey))).Blames file.readSymbols :=
      Recorded.blames_mapM fun bridge declared => file.blames_forwardingTarget declared
    intro fault failed
    refine each fault ?_
    rw [Recorded.result_mapM]
    exact failed
  unfold degradeBridges
  refine targets.bind fun _ _ => ?_
  exact Recorded.blames_of_eq_ok rfl

/-- Degrading bridges changes flags only, so the class is read as before. -/
theorem ClassFile.readSymbols_of_degradeBridges (file : ClassFile) :
    file.degradeBridges.Ensures fun out => out.1.readSymbols = file.readSymbols := by
  unfold degradeBridges
  refine Recorded.ensures_lift.bind fun targets found => ?_
  refine Recorded.ensures_result.bind fun _ _ => Recorded.ensures_pure ?_
  have methods := Method.map_degradedTo Method.readSymbols_degradedTo
    (except_mapM_eq_ok_iff.mp found).length_eq.le
  simp only [readSymbols, List.flatMap_def, methods]

/-! ### The whole pass -/

theorem Pass.examines_process (pass : Pass) (file : ClassFile) :
    (pass.process file).Examines file.readSymbols := by
  have renamed : ∀ degraded : ClassFile × List DegradedBridge,
      degraded.1.readSymbols = file.readSymbols → Recorded.Examines (do
        let renamed ← pass.classFile degraded.1
        Recorded.note [.classDone renamed.name]
        return (renamed, degraded.2) : Journal (ClassFile × List DegradedBridge))
          file.readSymbols := by
    intro degraded same
    rw [← same, ← List.append_nil degraded.1.readSymbols]
    exact (pass.examines_classFile degraded.1).bind fun _ _ => Recorded.examines_of_eq_ok rfl
  unfold process
  by_cases degrades : pass.options.degradeBridges = true
  · rw [if_pos degrades]
    -- a bridge may blame a method that comes after one with a flaw in its code
    refine file.blames_degradeBridges.bind_examines fun degraded done => ?_
    exact renamed degraded (file.readSymbols_of_degradeBridges degraded done)
  · rw [if_neg degrades]
    exact renamed (file, []) rfl

/-- Some symbol that a pass reads of the class is malformed. -/
def ClassFile.HasMalformed (file : ClassFile) : Prop :=
  ∃ symbol ∈ file.readSymbols, symbol.Malformed

/-- Classes all of whose symbols pass their checks can be read. -/
theorem ClassFile.not_hasMalformed_of_checks {classes : List ClassFile} {count : Nat}
    (checked : (classes.flatMap readSymbols).map (fun any => any.kind.check any.text) =
      List.replicate count (.ok ())) : ∀ file ∈ classes, ¬ file.HasMalformed := by
  have passes : ∀ result ∈ (classes.flatMap readSymbols).map (fun any => any.kind.check any.text),
      result = .ok () := by
    rw [checked]
    exact fun _ => List.eq_of_mem_replicate
  rintro file listed ⟨any, occurs, malformed⟩
  have member := List.mem_flatMap.mpr ⟨file, listed, occurs⟩
  exact AnySymbol.not_malformed_of_check (List.forall_mem_map.mp passes any member) malformed

/-- The fault tells the first class with malformed symbols, and blames one of these as what it
is. -/
def Fault.BlamesFirst (fault : Fault) (classes : List ClassFile) : Prop :=
  ∃ before file after cause, classes = before ++ file :: after ∧
    (∀ earlier ∈ before, ¬ earlier.HasMalformed) ∧ fault = .inClass file.name cause ∧
    ∃ symbol ∈ file.readSymbols, symbol.Malformed ∧ symbol.IsBlamedBy fault.root ∧
      fault.offending? = some symbol.text

theorem AnySymbol.IsBlamedBy.offending? {any : AnySymbol} {fault : Fault}
    (blamed : any.IsBlamedBy fault.root) : fault.offending? = some any.text := by
  unfold Fault.offending?
  obtain ⟨kind, symbol⟩ := any
  cases kind <;> obtain ⟨flaw, root⟩ := blamed <;> rw [root] <;> rfl

section Pass

variable (classes : List ClassFile) (mappings : Mappings) (hierarchy : Hierarchy)
  (supplement : Supplement) (options : PassOptions)

theorem examines_renameClasses :
    (renameClasses classes mappings hierarchy supplement options).Examines
      (classes.flatMap ClassFile.readSymbols) := by
  unfold renameClasses
  refine (Recorded.blames_of_eq_ok rfl).bind_examines fun _ _ => ?_
  refine (Recorded.blames_of_eq_ok rfl).bind_examines fun index _ => ?_
  rw [← List.append_nil (classes.flatMap _)]
  refine Recorded.Examines.bind (Recorded.examines_mapM fun file _ => ?_) fun _ _ => ?_
  · exact (Pass.examines_process _ file).within fun _ => rfl
  · exact Recorded.examines_of_eq_ok rfl

/-- A pass fails at the first class that cannot be processed. -/
theorem exists_first_of_renameClasses {fault : Fault}
    (failed : (renameClasses classes mappings hierarchy supplement options).result = .error fault) :
    ∃ pass : Pass, ∃ before file after cause, classes = before ++ file :: after ∧
      (∀ earlier ∈ before, ∃ out, (pass.process earlier).result = .ok out) ∧
      (pass.process file).result = .error cause ∧ fault = .inClass file.name cause := by
  unfold renameClasses at failed
  obtain ⟨_, _, rest⟩ := (Recorded.result_bind_eq_error_iff.mp failed).resolve_left nofun
  obtain ⟨index, _, rest⟩ := (Recorded.result_bind_eq_error_iff.mp rest).resolve_left nofun
  rcases Recorded.result_bind_eq_error_iff.mp rest with stopped | ⟨_, _, ended⟩
  · obtain ⟨before, file, after, rfl, done, stuck⟩ := Recorded.exists_first_of_mapM_eq_error stopped
    obtain ⟨cause, processed, rfl⟩ := Recorded.result_within_eq_error_iff.mp stuck
    refine ⟨_, before, file, after, cause, rfl, fun earlier member => ?_, processed, rfl⟩
    obtain ⟨out, finished⟩ := done earlier member
    exact ⟨out, Recorded.result_within_eq_ok_iff.mp finished⟩
  · cases ended

/-- **A pass fails exactly on malformed symbols.** Whatever the mappings, the hierarchy, the
supplement and the options are, a pass over classes fails if and only if in one of them a symbol
that it reads is malformed: a descriptor or a signature that breaks its grammar, or such a name of
an array class. The fault tells the first class that has malformed symbols, and the text of one of
these, as a descriptor or as a signature. -/
theorem pass_fails_exactly_on_malformed_symbols :
    ((∃ fault, (renameClasses classes mappings hierarchy supplement options).result =
      .error fault) ↔ ∃ file ∈ classes, file.HasMalformed) ∧
    ∀ fault, (renameClasses classes mappings hierarchy supplement options).result = .error fault →
      fault.BlamesFirst classes := by
  refine ⟨?_, fun fault failed => ?_⟩
  · rw [(examines_renameClasses classes mappings hierarchy supplement options).exists_error_iff]
    constructor
    · rintro ⟨symbol, member, malformed⟩
      obtain ⟨file, listed, occurs⟩ := List.mem_flatMap.mp member
      exact ⟨file, listed, symbol, occurs, malformed⟩
    · rintro ⟨file, listed, symbol, occurs, malformed⟩
      exact ⟨symbol, List.mem_flatMap.mpr ⟨file, listed, occurs⟩, malformed⟩
  · obtain ⟨pass, before, file, after, cause, split, done, processed, rfl⟩ :=
      exists_first_of_renameClasses classes mappings hierarchy supplement options failed
    obtain ⟨symbol, member, malformed, blamed⟩ :=
      (pass.examines_process file).blames cause processed
    refine ⟨before, file, after, cause, split, fun earlier listed => ?_, rfl, symbol,
      member, malformed, blamed, blamed.offending?⟩
    obtain ⟨out, finished⟩ := done earlier listed
    rintro ⟨other, occurs, bad⟩
    exact (pass.examines_process earlier).passes out finished other occurs bad

end Pass

namespace MalformedConstant

/-- A class in which only the name of a nested class is malformed, which is not read. -/
def sound : ClassFile :=
  { NestedConstants.holding ⟨"a"⟩ (.type ⟨"[La;"⟩) with
    nestedClasses := some [⟨⟨"[La"⟩, some ⟨"a"⟩, none, .none⟩] }

/-- A class that loads a constant which is computed from one that is computed from a malformed
name. -/
def unsound : ClassFile :=
  NestedConstants.holding ⟨"b"⟩ (NestedConstants.constant ⟨"b"⟩ ⟨"f"⟩ ⟨"Lb;"⟩ ⟨"[Lb"⟩)

end MalformedConstant

/-- The malformed name is found within the constants of the second class, which is told with its
method. -/
theorem malformed_constant_blamed :
    ∃ fault, (renameClasses [MalformedConstant.sound, MalformedConstant.unsound] ∅ ∅ ∅ {}).result =
        .error fault ∧
      fault = .inClass ⟨"b"⟩ (.inMethod ⟨⟨"run"⟩, ⟨"()V"⟩⟩ (.descriptor "[Lb" .unclosedClassName)) ∧
      (∃ file ∈ [MalformedConstant.sound, MalformedConstant.unsound], file.HasMalformed) ∧
      fault.BlamesFirst [MalformedConstant.sound, MalformedConstant.unsound] := by
  have failed : (renameClasses [MalformedConstant.sound, MalformedConstant.unsound]
        ∅ ∅ ∅ {}).result =
      .error (.inClass ⟨"b"⟩
        (.inMethod ⟨⟨"run"⟩, ⟨"()V"⟩⟩ (.descriptor "[Lb" .unclosedClassName))) := by
    cbv
  have exactly := pass_fails_exactly_on_malformed_symbols
    [MalformedConstant.sound, MalformedConstant.unsound] ∅ ∅ ∅ {}
  exact ⟨_, failed, rfl, exactly.1.mp ⟨_, failed⟩, exactly.2 _ failed⟩

end Renaming

import Renaming.Proofs.KeptNames
import Renaming.Proofs.MalformedSymbols
import Renaming.Proofs.UndonePass

/-!
# Passes that change nothing

Mappings that give every name itself change nothing, whether they have entries or not. That holds of
the pass too: every descriptor and signature is read and written again, members are looked up
through the hierarchy, and the parts of nested classes are cut out of their names, but each of these
gives what was there before.

`Recorded.Keeps` says of a computation that it gives a certain value if it ends well. So the parts
of the pass are seen to keep what they are given, without asking whether they fail. That they do not
is known from the symbols that they read.
-/

namespace Renaming

/-! ### Mappings of names to themselves -/

/-- Every entry maps a name to itself. -/
structure Mappings.IsIdentity (mappings : Mappings) : Prop where
  classes : ∀ entry ∈ mappings.classes.entries, entry.2 = entry.1
  fields : ∀ entry ∈ mappings.fields.entries, entry.2.2 = entry.2.1
  methods : ∀ entry ∈ mappings.methods.entries, entry.2.2 = entry.2.1.name

instance (mappings : Mappings) : Decidable mappings.IsIdentity :=
  decidable_of_iff ((∀ entry ∈ mappings.classes.entries, entry.2 = entry.1) ∧
      (∀ entry ∈ mappings.fields.entries, entry.2.2 = entry.2.1) ∧
      ∀ entry ∈ mappings.methods.entries, entry.2.2 = entry.2.1.name)
    ⟨fun ⟨classes, fields, methods⟩ => ⟨classes, fields, methods⟩,
      fun same => ⟨same.classes, same.fields, same.methods⟩⟩

example : (∅ : Mappings).IsIdentity := by decide

namespace Mappings.IsIdentity

variable {mappings : Mappings} (same : mappings.IsIdentity)

include same

/-- A class has an entry with its own name, or none; it keeps its name either way. -/
theorem className (name : ClassName) : mappings.className name = name := by
  rw [Mappings.className]
  cases found : mappings.className? name with
  | none => rfl
  | some new => exact same.classes _ (Table.mem_entries_of_get? found)

theorem keepsNames (names : List ClassName) : KeepsNames mappings.className? names :=
  fun name _ => same.className name

theorem eq_of_fieldName? {owner : ClassName} {old new : FieldName}
    (found : mappings.fieldName? owner old = some new) : new = old :=
  same.fields _ (Members.mem_entries_of_get? found)

theorem eq_of_methodName? {owner : ClassName} {key : MethodKey} {new : MethodName}
    (found : mappings.methodName? owner key = some new) : new = key.name :=
  same.methods _ (Members.mem_entries_of_get? found)

/-- A symbol that is renamed is the same as before. -/
theorem eq_of_rename (τ : Type) [Grammar τ] [LawfulGrammar τ] [KeepingGrammar τ] {kind : SymbolKind}
    {symbol renamed : Symbol kind}
    (done : (Grammar.renameText τ mappings.className? symbol.text).map Symbol.mk = .ok renamed) :
    renamed = symbol := by
  obtain ⟨text, found, rfl⟩ := except_map_eq_ok_iff.mp done
  rw [Grammar.renameText_of_keeps τ (same.keepsNames _) found]

/-- The name of an array is read and written as a descriptor, and comes out the same. -/
theorem eq_of_classNameAny {name renamed : ClassName}
    (done : mappings.classNameAny name = .ok renamed) : renamed = name := by
  rw [classNameAny] at done
  by_cases array : name.isArray = true
  · rw [if_pos array, Descriptor.renameText_of_isArray array] at done
    exact same.eq_of_rename FieldType done
  · rw [if_neg array, same.className] at done
    exact (Except.ok.inj done).symm

/-- Renaming thrown classes leaves out repetitions, so there must be none before. -/
theorem exceptionNames {names : List ClassName} (distinct : names.Nodup) :
    mappings.exceptionNames names = names := by
  have unchanged : mappings.className = id := funext same.className
  rw [Mappings.exceptionNames, unchanged, List.map_id]
  exact distinct_of_nodup distinct

end Mappings.IsIdentity

namespace Resolver

variable {resolver : Resolver} (same : resolver.mappings.IsIdentity)

include same

/-- Wherever in the hierarchy the entry of a field is found, it has the name of the field. -/
theorem getD_field (ref : FieldRef) (isStatic : Bool) :
    ((resolver.field ref isStatic).map Resolved.name).getD ref.name = ref.name := by
  cases found : resolver.field ref isStatic with
  | none => rfl
  | some hit =>
    obtain ⟨_, filed, _⟩ := (resolver.field_eq_some_iff ref isStatic hit).mp found
    exact same.eq_of_fieldName? filed

theorem getD_method (ref : MethodRef) (isStatic : Bool) :
    ((resolver.method ref isStatic).map Resolved.name).getD ref.name = ref.name := by
  cases found : resolver.method ref isStatic with
  | none => rfl
  | some hit =>
    obtain ⟨_, _, filed, _⟩ := (resolver.method_eq_some_iff ref isStatic hit).mp found
    exact same.eq_of_methodName? filed

/-- Also the name of an overridden method is that of the method. -/
theorem getD_declaration (ref : MethodRef) (access : MethodAccess) :
    ((resolver.declaration ref access).map Resolved.name).getD ref.name = ref.name := by
  cases found : resolver.declaration ref access with
  | none => rfl
  | some hit =>
    obtain ⟨_, ⟨_, filed⟩ | ⟨_, _, _, _, filed, _⟩⟩ :=
      (resolver.declaration_eq_some_iff ref access hit).mp found
    · exact same.eq_of_methodName? filed
    · exact same.eq_of_methodName? filed

end Resolver

/-! ### Computations that keep a value -/

namespace Recorded

variable {ρ α β : Type}

/-- If the computation ends well, it gives the value. -/
def Keeps (run : Recorded ρ α) (value : α) : Prop := run.Ensures fun last => last = value

theorem keeps_pure {value last : α} (same : value = last) :
    (pure value : Recorded ρ α).Keeps last :=
  ensures_pure same

/-- What comes next has to be looked at only for the value that is kept. -/
theorem Keeps.bind {run : Recorded ρ α} {next : α → Recorded ρ β} {value : α} {last : β}
    (first : run.Keeps value) (rest : (next value).Keeps last) : (run >>= next).Keeps last := by
  refine Ensures.bind first fun other same => ?_
  rw [same]
  exact rest

theorem Keeps.within {run : Recorded ρ α} {value : α} (keeps : run.Keeps value)
    (circumstances : Fault → Fault) : (run.within circumstances).Keeps value :=
  Ensures.within keeps circumstances

/-- A list is kept if each of its items is. -/
theorem keeps_mapM {items : List α} {body : α → Recorded ρ α}
    (each : ∀ item ∈ items, (body item).Keeps item) : (items.mapM body).Keeps items := by
  induction items with
  | nil => exact keeps_pure rfl
  | cons item rest ih =>
    rw [List.mapM_cons]
    refine (each item List.mem_cons_self).bind ?_
    exact (ih fun other member => each other (List.mem_cons_of_mem _ member)).bind (keeps_pure rfl)

theorem keeps_mapM_option {item : Option α} {body : α → Recorded ρ α}
    (each : ∀ value, (body value).Keeps value) : (item.mapM body).Keeps item := by
  cases item with
  | none => exact keeps_pure rfl
  | some value => exact (each value).bind (keeps_pure rfl)

/-- Where nothing is malformed, a value that is kept is given. -/
theorem Examines.eq_ok_of_keeps {run : Recorded ρ α} {symbols : List AnySymbol} {value : α}
    (examines : run.Examines symbols) (readable : ∀ symbol ∈ symbols, ¬ symbol.Malformed)
    (keeps : run.Keeps value) : run.result = .ok value := by
  cases found : run.result with
  | error fault =>
    obtain ⟨symbol, member, malformed, _⟩ := examines.blames fault found
    exact absurd malformed (readable symbol member)
  | ok last => rw [keeps last found]

end Recorded

/-! ### The pass, part by part -/

/-- Neither the mappings nor the supplement ask for a change. -/
structure Pass.IsIdle (pass : Pass) : Prop where
  mappings : pass.mappings.IsIdentity
  extras : pass.mappings.extras.entries = []
  supplement : pass.supplement.entries = []

namespace Pass.IsIdle

open Recorded

section Symbols

variable {pass : Pass} (idle : pass.IsIdle)

include idle

theorem extra? (owner : ClassName) (key : MethodKey) : pass.mappings.extra? owner key = none :=
  Members.get?_of_entries_eq_nil idle.extras owner key

theorem keeps_classNameAny (name : ClassName) :
    (liftM (pass.mappings.classNameAny name) : Journal ClassName).Keeps name :=
  fun _ done => idle.mappings.eq_of_classNameAny done

theorem keeps_fieldDescriptor (descriptor : FieldDescriptor) :
    (liftM (pass.mappings.fieldDescriptor descriptor) : Journal FieldDescriptor).Keeps descriptor :=
  fun _ done => idle.mappings.eq_of_rename FieldType done

theorem keeps_methodDescriptor (descriptor : MethodDescriptor) :
    (liftM (pass.mappings.methodDescriptor descriptor) : Journal MethodDescriptor).Keeps
      descriptor :=
  fun _ done => idle.mappings.eq_of_rename MethodType done

theorem keeps_classSignature (signature : ClassSignature) :
    (liftM (pass.mappings.classSignature signature) : Journal ClassSignature).Keeps signature :=
  fun _ done => idle.mappings.eq_of_rename ClassSig done

theorem keeps_fieldSignature (signature : FieldSignature) :
    (liftM (pass.mappings.fieldSignature signature) : Journal FieldSignature).Keeps signature :=
  fun _ done => idle.mappings.eq_of_rename TypeSig done

theorem keeps_methodSignature (signature : MethodSignature) :
    (liftM (pass.mappings.methodSignature signature) : Journal MethodSignature).Keeps signature :=
  fun _ done => idle.mappings.eq_of_rename MethodSig done

/-! #### Constants and instructions -/

theorem keeps_fieldRef (ref : FieldRef) (isStatic : Bool) :
    (pass.renamer.fieldRef ref isStatic).Keeps ref := by
  have named : (pass.renamer.fieldName? ref isStatic).Ensures
      fun name => name.getD ref.name = ref.name := by
    rintro _ ⟨⟩
    exact Resolver.getD_field idle.mappings ref isStatic
  unfold Renamer.fieldRef
  refine Ensures.bind named fun name kept => ?_
  refine (idle.keeps_classNameAny ref.owner).bind
    ((idle.keeps_fieldDescriptor ref.descriptor).bind ?_)
  rw [kept]
  exact keeps_pure rfl

/-- What is found for a method, if anything, is the name that it has. -/
theorem ensures_methodName? (ref : MethodRef) (isStatic : Bool) :
    (pass.renamer.methodName? ref isStatic).Ensures fun name => name.getD ref.name = ref.name := by
  rintro _ ⟨⟩
  exact Resolver.getD_method idle.mappings ref isStatic

theorem keeps_methodRef (ref : MethodRef) (isStatic : Bool) :
    (pass.renamer.methodRef ref isStatic).Keeps ref := by
  have parts : ∀ name : Option MethodName, name.getD ref.name = ref.name → Keeps (do
      let owner ← (pass.mappings.classNameAny ref.owner : Except Fault _)
      let descriptor ← (pass.mappings.methodDescriptor ref.descriptor : Except Fault _)
      return MethodRef.mk owner (name.getD ref.name) descriptor : Journal MethodRef) ref := by
    intro name kept
    rw [kept]
    refine (idle.keeps_classNameAny ref.owner).bind ?_
    exact (idle.keeps_methodDescriptor ref.descriptor).bind (keeps_pure rfl)
  unfold Renamer.methodRef
  by_cases array : ref.owner.isArray = true
  · rw [if_pos array]
    exact parts none rfl
  · rw [if_neg array]
    exact Ensures.bind (idle.ensures_methodName? ref isStatic) parts

theorem keeps_handle (handle : Handle) : (pass.handle handle).Keeps handle := by
  cases handle with
  | field use ref => exact (idle.keeps_fieldRef ref _).bind (keeps_pure rfl)
  | method how ref => exact (idle.keeps_methodRef ref _).bind (keeps_pure rfl)

end Symbols

mutual

/-- **A constant is kept**, and so are the constants that it is computed from. -/
theorem keeps_loadable {pass : Pass} (idle : pass.IsIdle) :
    (value : Loadable) → (pass.loadable value).Keeps value
  | .type name => by
    rw [Pass.loadable]
    exact (idle.keeps_classNameAny name).bind (keeps_pure rfl)
  | .handle target => by
    rw [Pass.loadable]
    exact (idle.keeps_handle target).bind (keeps_pure rfl)
  | .methodType descriptor => by
    rw [Pass.loadable]
    exact (idle.keeps_methodDescriptor descriptor).bind (keeps_pure rfl)
  | .computed name descriptor target arguments => by
    rw [Pass.loadable]
    refine (idle.keeps_fieldDescriptor descriptor).bind ((idle.keeps_handle target).bind ?_)
    exact (keeps_loadables idle arguments).bind (keeps_pure rfl)
  | .integer _ => by
    rw [Pass.loadable]
    exact keeps_pure rfl
  | .float _ => by
    rw [Pass.loadable]
    exact keeps_pure rfl
  | .long _ => by
    rw [Pass.loadable]
    exact keeps_pure rfl
  | .double _ => by
    rw [Pass.loadable]
    exact keeps_pure rfl
  | .string _ => by
    rw [Pass.loadable]
    exact keeps_pure rfl

theorem keeps_loadables {pass : Pass} (idle : pass.IsIdle) :
    (values : List Loadable) → (pass.loadables values).Keeps values
  | [] => by
    rw [Pass.loadables]
    exact keeps_pure rfl
  | value :: rest => by
    rw [Pass.loadables]
    exact (keeps_loadable idle value).bind ((keeps_loadables idle rest).bind (keeps_pure rfl))

end

section Classes

variable {pass : Pass} (idle : pass.IsIdle)

include idle

/-- A lambda has the name of the method that it implements, and that method keeps its name. -/
theorem ensures_lambdaName? (call : DynamicCall) :
    (pass.lambdaName? call).Ensures fun name => name.getD call.name = call.name := by
  unfold lambdaName?
  split
  · split
    · refine Ensures.bind ensures_lift fun type _ => ?_
      split
      · rintro _ ⟨⟩
        exact Resolver.getD_method idle.mappings _ false
      · exact ensures_pure rfl
    · exact ensures_pure rfl
  · exact ensures_pure rfl

theorem keeps_dynamicCall (call : DynamicCall) : (pass.dynamicCall call).Keeps call := by
  have parts : ∀ name : Option MethodName, name.getD call.name = call.name → Keeps (do
      let descriptor ← (pass.mappings.methodDescriptor call.descriptor : Except Fault _)
      let handle ← pass.handle call.handle
      let arguments ← pass.loadables call.arguments
      return { name := name.getD call.name, descriptor, handle, arguments } : Journal DynamicCall)
        call := by
    intro name kept
    rw [kept]
    refine (idle.keeps_methodDescriptor call.descriptor).bind
      ((idle.keeps_handle call.handle).bind ?_)
    exact (idle.keeps_loadables call.arguments).bind (keeps_pure rfl)
  unfold dynamicCall
  by_cases lambdas : pass.options.renameLambdas = true
  · rw [if_pos lambdas]
    exact Ensures.bind (idle.ensures_lambdaName? call) parts
  · rw [if_neg lambdas]
    exact parts none rfl

theorem keeps_instruction (instruction : Instruction) :
    (pass.instruction instruction).Keeps instruction := by
  cases instruction with
  | load value => exact (idle.keeps_loadable value).bind (keeps_pure rfl)
  | field use ref => exact (idle.keeps_fieldRef ref _).bind (keeps_pure rfl)
  | call kind ref => exact (idle.keeps_methodRef ref _).bind (keeps_pure rfl)
  | callDynamic call => exact (idle.keeps_dynamicCall call).bind (keeps_pure rfl)
  | withClass op name => exact (idle.keeps_classNameAny name).bind (keeps_pure rfl)
  | createMultiArray name dimensions => exact (idle.keeps_classNameAny name).bind (keeps_pure rfl)
  | plain op => exact keeps_pure rfl
  | withLocal op index => exact keeps_pure rfl
  | jump op target => exact keeps_pure rfl
  | push op value => exact keeps_pure rfl
  | increment index amount => exact keeps_pure rfl
  | createBaseArray element => exact keeps_pure rfl
  | tableSwitch fallback low high targets => exact keeps_pure rfl
  | lookupSwitch fallback pairs => exact keeps_pure rfl

/-! #### Code and members -/

theorem keeps_codeEntry (entry : CodeEntry) : (pass.codeEntry entry).Keeps entry :=
  (idle.keeps_instruction entry.instruction).bind (keeps_pure rfl)

theorem keeps_exceptionRange (range : ExceptionRange) : (pass.exceptionRange range).Keeps range :=
  (keeps_mapM_option idle.keeps_classNameAny).bind (keeps_pure rfl)

theorem keeps_localVariable (entry : LocalVariable) : (pass.localVariable entry).Keeps entry := by
  unfold Pass.localVariable
  refine (keeps_mapM_option idle.keeps_fieldDescriptor).bind ?_
  exact (keeps_mapM_option idle.keeps_fieldSignature).bind (keeps_pure rfl)

theorem keeps_code (code : Code) : (pass.code code).Keeps code := by
  unfold Pass.code
  refine (keeps_mapM fun entry _ => idle.keeps_codeEntry entry).bind ?_
  refine (keeps_mapM fun range _ => idle.keeps_exceptionRange range).bind ?_
  refine Keeps.bind (keeps_mapM_option fun entries => ?_) (keeps_pure rfl)
  exact keeps_mapM fun entry _ => idle.keeps_localVariable entry

theorem keeps_field (owner : ClassName) (field : Field) : (pass.field owner field).Keeps field := by
  have named : (pass.mappings.fieldName? owner field.name).getD field.name = field.name := by
    cases found : pass.mappings.fieldName? owner field.name with
    | none => rfl
    | some new => exact idle.mappings.eq_of_fieldName? found
  unfold Pass.field
  rw [named]
  refine (idle.keeps_fieldDescriptor field.descriptor).bind ?_
  exact (keeps_mapM_option idle.keeps_fieldSignature).bind (keeps_pure rfl)

/-- No names for parameters are listed, so the entries stay whatever the options say. -/
theorem keeps_parameters (owner : ClassName) (method : Method) :
    (liftM (pass.parameters owner method) : Journal (Option (List MethodParameter))).Keeps
      method.parameters := by
  rw [Pass.parameters_of_unknown (idle.extra? owner method.key)]
  exact keeps_pure rfl

/-- Nobody lists more thrown classes, and those that are declared keep their names. -/
theorem exceptions_eq (owner : ClassName) {method : Method}
    (distinct : ∀ names ∈ method.exceptions, names.Nodup) :
    pass.exceptions owner method = method.exceptions := by
  have alone : pass.supplement.get? owner method.key = none :=
    Members.get?_of_entries_eq_nil idle.supplement owner method.key
  rw [Pass.exceptions_of_unknown (idle.extra? owner method.key) alone]
  cases declared : method.exceptions with
  | none => rfl
  | some names => exact congrArg some (idle.mappings.exceptionNames (distinct names declared))

theorem keeps_method (owner : ClassName) {method : Method}
    (distinct : ∀ names ∈ method.exceptions, names.Nodup) :
    (pass.method owner method).Keeps method := by
  unfold Pass.method
  rw [idle.exceptions_eq owner distinct]
  refine (idle.keeps_parameters owner method).bind ?_
  refine Ensures.bind ensures_result fun found resolved => ?_
  have named : (found.map Resolved.name).getD method.name = method.name := by
    cases resolved
    exact Resolver.getD_declaration idle.mappings (method.key.on owner) method.access
  rw [named]
  refine (idle.keeps_methodDescriptor method.descriptor).bind ?_
  refine (keeps_mapM_option idle.keeps_code).bind ?_
  exact (keeps_mapM_option idle.keeps_methodSignature).bind (keeps_pure rfl)

/-! #### Classes -/

theorem keeps_className (name : ClassName) : (pass.className name).Keeps name := by
  unfold Pass.className
  exact idle.keeps_classNameAny name

theorem keeps_classNames (names : Option (List ClassName)) :
    Keeps (names.mapM fun names => names.mapM pass.className) names :=
  keeps_mapM_option fun _ => keeps_mapM fun name _ => idle.keeps_className name

/-- A nested class whose name is kept keeps its simple name, whatever that is. -/
theorem keeps_nestedClass (entry : NestedClass) : (pass.nestedClass entry).Keeps entry := by
  unfold Pass.nestedClass
  -- the simple name is made anew only where the name of the class has changed
  simp only [idle.mappings.className, if_true]
  refine (keeps_mapM_option idle.keeps_classNameAny).bind (keeps_pure ?_)
  rw [Option.map_id']

/-- The method around a class is looked up as a reference to it would be. -/
theorem keeps_methodKey (owner : ClassName) (key : MethodKey) :
    (pass.methodKey owner key).Keeps key := by
  unfold Pass.methodKey
  refine Ensures.bind (idle.ensures_methodName? (key.on owner) false) fun name kept => ?_
  refine (idle.keeps_methodDescriptor key.descriptor).bind (keeps_pure ?_)
  exact congrArg (MethodKey.mk · key.descriptor) kept

theorem keeps_enclosingMethod (entry : EnclosingMethod) :
    (pass.enclosingMethod entry).Keeps entry := by
  unfold Pass.enclosingMethod
  refine (keeps_mapM_option (idle.keeps_methodKey entry.owner)).bind ?_
  exact (idle.keeps_classNameAny entry.owner).bind (keeps_pure rfl)

/-- **A class that is renamed is the same as before.** -/
theorem keeps_classFile {file : ClassFile}
    (distinct : ∀ method ∈ file.methods, ∀ names ∈ method.exceptions, names.Nodup) :
    (pass.classFile file).Keeps file := by
  unfold Pass.classFile
  refine (keeps_mapM fun field _ => idle.keeps_field file.name field).bind ?_
  refine Keeps.bind (keeps_mapM fun method member => ?_) ?_
  · exact (idle.keeps_method file.name (distinct method member)).within _
  refine (idle.keeps_className file.name).bind ?_
  refine (keeps_mapM_option idle.keeps_className).bind ?_
  refine (keeps_mapM fun name _ => idle.keeps_className name).bind ?_
  refine Keeps.bind (keeps_mapM_option fun entries => ?_) ?_
  · exact keeps_mapM fun entry _ => idle.keeps_nestedClass entry
  refine (keeps_mapM_option idle.keeps_enclosingMethod).bind ?_
  refine (keeps_mapM_option idle.keeps_classSignature).bind ?_
  refine (keeps_mapM_option idle.keeps_className).bind ?_
  refine (idle.keeps_classNames file.nestMembers).bind ?_
  exact (idle.keeps_classNames file.permittedSubclasses).bind (keeps_pure rfl)

end Classes

end Pass.IsIdle

/-! ### The whole pass -/

/-- **Mappings of names to themselves change nothing.** Let all entries for classes, fields and
methods map a name to itself, let no more be known of methods, neither by the mappings nor by the
supplement, and let bridges stay. Then a pass over classes that can be read, in which no method
declares twice to throw a class, ends well and gives these classes back. -/
theorem classes_unchanged_by_identity {mappings : Mappings} (same : mappings.IsIdentity)
    (bare : mappings.extras.entries = []) {supplement : Supplement}
    (alone : supplement.entries = []) {options : PassOptions}
    (keeps : options.degradeBridges = false) {classes : List ClassFile}
    (readable : ∀ file ∈ classes, ¬ file.HasMalformed)
    (distinct : ∀ file ∈ classes, ∀ method ∈ file.methods, ∀ names ∈ method.exceptions, names.Nodup)
    (hierarchy : Hierarchy) :
    (renameClasses classes mappings hierarchy supplement options).result =
      .ok (classes, ⟨classes.length, []⟩) := by
  refine result_renameClasses keeps ?_
  have idle : (Pass.ofIndex (indexTable classes) mappings hierarchy supplement options).IsIdle :=
    ⟨same, bare, alone⟩
  have examines := Recorded.examines_mapM fun file (_ : file ∈ classes) =>
    (Pass.ofIndex (indexTable classes) mappings hierarchy supplement options).examines_classFile
      file
  refine examines.eq_ok_of_keeps (fun symbol member malformed => ?_) ?_
  · obtain ⟨file, listed, occurs⟩ := List.mem_flatMap.mp member
    exact readable file listed ⟨symbol, occurs, malformed⟩
  · exact Recorded.keeps_mapM fun file listed => idle.keeps_classFile (distinct file listed)

namespace GenericNest

/-- A generic class that nests another one, under a simple name that is not in its class name. It
overrides a method, and throws the class that it extends. -/
def nest : ClassFile where
  version := ⟨61, 0⟩
  access := .none
  name := ⟨"a"⟩
  superClass := some ⟨"s"⟩
  interfaces := []
  fields := [⟨.none, ⟨"f"⟩, ⟨"La$b;"⟩, some ⟨"La<TX;>.b<*>;"⟩⟩]
  methods := [⟨.none, ⟨"m"⟩, ⟨"()V"⟩,
    some ⟨none, none, [⟨none, .field .getField ⟨⟨"a"⟩, ⟨"f"⟩, ⟨"La$b;"⟩⟩⟩,
      ⟨none, .withClass .cast ⟨"[La$b;"⟩⟩], [], none, none, none⟩, some [⟨"s"⟩, ⟨"a"⟩], none, none⟩]
  nestedClasses := some [⟨⟨"a$b"⟩, some ⟨"a"⟩, some "c", .none⟩]
  enclosingMethod := none
  signature := some ⟨"<X:>Ls;"⟩
  sourceFile := none
  nestHost := none
  nestMembers := none
  permittedSubclasses := none

/-- The class above, with the method that is overridden. -/
def above : ClassFile :=
  { nest with
    name := ⟨"s"⟩
    superClass := none
    fields := []
    methods := [⟨.none, ⟨"m"⟩, ⟨"()V"⟩, none, none, none, none⟩]
    nestedClasses := none
    signature := none }

def mappings : Mappings :=
  (((∅ : Mappings).addClass ⟨"a$b"⟩ ⟨"a$b"⟩).addField ⟨"a"⟩ ⟨"f"⟩ ⟨"f"⟩).addMethod ⟨"s"⟩
    ⟨⟨"m"⟩, ⟨"()V"⟩⟩ ⟨"m"⟩

end GenericNest

/-- What is behind the dot of the nested class is cut out of its name and is the same again, its
simple name stays, and so does the overriding method, whose name comes from the class above. -/
theorem generic_nest_unchanged :
    GenericNest.mappings.IsIdentity ∧
      (renameClasses [GenericNest.nest, GenericNest.above] GenericNest.mappings ∅ ∅
        ⟨false, true, true⟩).result = .ok ([GenericNest.nest, GenericNest.above], ⟨2, []⟩) := by
  have same : GenericNest.mappings.IsIdentity := by decide
  have checked : ([GenericNest.nest, GenericNest.above].flatMap ClassFile.readSymbols).map
      (fun any => any.kind.check any.text) = List.replicate 12 (.ok ()) := by
    cbv
  have distinct : ∀ file ∈ [GenericNest.nest, GenericNest.above], ∀ method ∈ file.methods,
      ∀ names ∈ method.exceptions, names.Nodup := by
    decide
  exact ⟨same, classes_unchanged_by_identity same rfl rfl rfl
    (ClassFile.not_hasMalformed_of_checks checked) distinct ∅⟩

end Renaming

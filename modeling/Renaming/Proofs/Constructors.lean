import Renaming.Proofs.MalformedSymbols
import Renaming.Proofs.OverridableMethods
import Renaming.Proofs.ValidMappings

/-!
# Constructors and class initialisers

The names of constructors and class initialisers are special. A pass never looks for an entry for
them, so they stay as they are at every place where a method is named: declarations, calls, handles,
computed calls and enclosing methods.

The other way round it is up to the mappings. The special names are valid names of methods, and
nothing looks at what a name is replaced by. An ordinary method with such an entry becomes a
constructor, and only such a method does.

* `ClassFile.methodNames`: all places of a class where a method is named.
* `Mappings.Renames`: what may become of the name of a method.
* `Mappings.MakesNoSpecial`: no entry gives an ordinary method a special name. Passes with the
  mappings leave special names where they are and make no others exactly under this condition.
-/

namespace Renaming

open Recorded

/-! ### The places where a class names a method -/

def Handle.methodNames : Handle → List MethodName
  | .field _ _ => []
  | .method _ ref => [ref.name]

mutual

def Loadable.methodNames : Loadable → List MethodName
  | .handle target => target.methodNames
  | .computed _ _ target arguments => target.methodNames ++ Loadable.allMethodNames arguments
  | .type _ | .methodType _ | .integer _ | .float _ | .long _ | .double _ | .string _ => []

def Loadable.allMethodNames : List Loadable → List MethodName
  | [] => []
  | value :: rest => value.methodNames ++ Loadable.allMethodNames rest

end

/-- A computed call has a name of its own, which is that of a method if the call makes a lambda. -/
def DynamicCall.methodNames (call : DynamicCall) : List MethodName :=
  call.name :: (call.handle.methodNames ++ Loadable.allMethodNames call.arguments)

def Instruction.methodNames : Instruction → List MethodName
  | .load value => value.methodNames
  | .call _ ref => [ref.name]
  | .callDynamic target => target.methodNames
  | _ => []

def Code.methodNames (code : Code) : List MethodName :=
  code.instructions.flatMap fun entry => entry.instruction.methodNames

def Method.methodNames (method : Method) : List MethodName :=
  method.name :: method.code.toList.flatMap Code.methodNames

def EnclosingMethod.methodNames (entry : EnclosingMethod) : List MethodName :=
  entry.method.toList.map MethodKey.name

/-- All places of a class where a method is named. -/
def ClassFile.methodNames (file : ClassFile) : List MethodName :=
  file.methods.flatMap Method.methodNames ++
    file.enclosingMethod.toList.flatMap EnclosingMethod.methodNames

/-! ### What may become of a name -/

namespace Mappings

variable (mappings : Mappings)

/-- The mappings have an entry that replaces the one name of a method by the other. -/
def HasEntry (old new : MethodName) : Prop :=
  ∃ owner descriptor, mappings.methodName? owner ⟨old, descriptor⟩ = some new

/-- The name stays as it is, or it is an ordinary one and replaced by that of an entry for it. -/
def Renames (old new : MethodName) : Prop :=
  new = old ∨ old.isSpecial = false ∧ mappings.HasEntry old new

/-- No entry gives an ordinary method a special name. -/
def MakesNoSpecial : Prop :=
  ∀ old new, mappings.HasEntry old new → new.isSpecial = true → old.isSpecial = true

end Mappings

/-- Both names are that of constructors, or none of them is; and so for class initialisers. -/
def MethodName.EquallySpecial (old new : MethodName) : Prop :=
  (new = .init ↔ old = .init) ∧ (new = .clinit ↔ old = .clinit)

section Names

variable {mappings : Mappings} {old new : MethodName}

theorem MethodName.isSpecial_iff : old.isSpecial = true ↔ old = .init ∨ old = .clinit := by
  rw [isSpecial, Bool.or_eq_true, decide_eq_true_iff, decide_eq_true_iff]

theorem Mappings.Renames.equallySpecial (renames : mappings.Renames old new)
    (makesNone : mappings.MakesNoSpecial) : old.EquallySpecial new := by
  rcases renames with rfl | ⟨ordinary, entry⟩
  · exact ⟨Iff.rfl, Iff.rfl⟩
  · have newOrdinary : ¬ new.isSpecial = true := fun special =>
      Bool.false_ne_true (ordinary.symm.trans (makesNone old new entry special))
    have oldOrdinary : ¬ old.isSpecial = true := ne_true_of_eq_false ordinary
    rw [MethodName.isSpecial_iff, not_or] at newOrdinary oldOrdinary
    exact ⟨iff_of_false newOrdinary.1 oldOrdinary.1, iff_of_false newOrdinary.2 oldOrdinary.2⟩

theorem MethodName.EquallySpecial.isSpecial (equally : old.EquallySpecial new)
    (special : new.isSpecial = true) : old.isSpecial = true := by
  rw [isSpecial_iff] at special ⊢
  exact special.imp equally.1.mp equally.2.mp

end Names

/-! ### Each place on its own -/

namespace Resolver

variable (resolver : Resolver)

theorem renames_method (ref : MethodRef) (isStatic : Bool) :
    resolver.mappings.Renames ref.name
      (((resolver.method ref isStatic).map Resolved.name).getD ref.name) := by
  cases found : resolver.method ref isStatic with
  | none => exact .inl rfl
  | some hit =>
    obtain ⟨ordinary, first⟩ := (resolver.method_eq_some_iff ref isStatic hit).mp found
    exact .inr ⟨ordinary, hit.owner, ref.descriptor, first.2.1⟩

theorem renames_declaration (ref : MethodRef) (access : MethodAccess) :
    resolver.mappings.Renames ref.name
      (((resolver.declaration ref access).map Resolved.name).getD ref.name) := by
  cases found : resolver.declaration ref access with
  | none => exact .inl rfl
  | some hit =>
    obtain ⟨ordinary, own | ⟨_, _, _, first⟩⟩ :=
      (resolver.declaration_eq_some_iff ref access hit).mp found
    · exact .inr ⟨ordinary, ref.owner, ref.descriptor, own.2⟩
    · exact .inr ⟨ordinary, hit.owner, ref.descriptor, first.2.1⟩

end Resolver

/-! ### Through a class -/

namespace Pass

variable (pass : Pass)

/-- The names of methods behind are those before, each renamed. -/
def RenamesMethods (before after : List MethodName) : Prop :=
  List.Forall₂ pass.mappings.Renames before after

variable {pass}

theorem RenamesMethods.append {before after moreBefore moreAfter : List MethodName}
    (first : pass.RenamesMethods before after) (second : pass.RenamesMethods moreBefore moreAfter) :
    pass.RenamesMethods (before ++ moreBefore) (after ++ moreAfter) :=
  List.rel_append first second

theorem RenamesMethods.flatMap {α β : Type} {items : List α} {values : List β}
    {before : α → List MethodName} {after : β → List MethodName}
    (each : List.Forall₂ (fun item value => pass.RenamesMethods (before item) (after value)) items
      values) :
    pass.RenamesMethods (items.flatMap before) (values.flatMap after) :=
  List.rel_flatMap each fun _ _ renames => renames

variable (pass)

theorem renames_methodName? (ref : MethodRef) (isStatic : Bool) :
    (pass.renamer.methodName? ref isStatic).Ensures fun found =>
      pass.mappings.Renames ref.name (found.getD ref.name) := by
  rintro _ ⟨⟩
  exact pass.resolver.renames_method ref isStatic

theorem renames_methodRef (ref : MethodRef) (isStatic : Bool) :
    (pass.renamer.methodRef ref isStatic).Ensures fun renamed =>
      pass.RenamesMethods [ref.name] [renamed.name] := by
  have parts : ∀ name : Option MethodName, pass.mappings.Renames ref.name (name.getD ref.name) →
      Ensures (do
        let owner ← (pass.renamer.mappings.classNameAny ref.owner : Except Fault _)
        let descriptor ← (pass.renamer.mappings.methodDescriptor ref.descriptor : Except Fault _)
        return MethodRef.mk owner (name.getD ref.name) descriptor : Journal MethodRef)
        fun renamed => pass.RenamesMethods [ref.name] [renamed.name] := by
    intro name renames
    refine ensures_result.bind fun owner _ => ensures_result.bind fun descriptor _ => ?_
    exact ensures_pure (.cons renames .nil)
  unfold Renamer.methodRef
  by_cases array : ref.owner.isArray = true
  · rw [if_pos array]
    exact parts none (.inl rfl)
  · rw [if_neg array]
    exact (pass.renames_methodName? ref isStatic).bind parts

theorem renamesMethods_handle (handle : Handle) :
    (pass.handle handle).Ensures fun renamed =>
      pass.RenamesMethods handle.methodNames renamed.methodNames := by
  cases handle with
  | field use ref => exact ensures_result.bind fun new _ => ensures_pure .nil
  | method how ref =>
    exact (pass.renames_methodRef ref how.isStatic).bind fun new renames => ensures_pure renames

mutual

theorem renamesMethods_loadable : (value : Loadable) → (pass.loadable value).Ensures fun renamed =>
    pass.RenamesMethods value.methodNames renamed.methodNames
  | .type name => by
    rw [Pass.loadable]
    exact ensures_result.bind fun new _ => ensures_pure .nil
  | .handle target => by
    rw [Pass.loadable]
    exact (pass.renamesMethods_handle target).bind fun new renames => ensures_pure renames
  | .methodType descriptor => by
    rw [Pass.loadable]
    exact ensures_result.bind fun new _ => ensures_pure .nil
  | .computed name descriptor target arguments => by
    rw [Pass.loadable]
    refine ensures_result.bind fun newType _ => ?_
    refine (pass.renamesMethods_handle target).bind fun newTarget referred => ?_
    refine (renamesMethods_loadables arguments).bind fun newArguments given => ensures_pure ?_
    exact referred.append given
  | .integer _ => by
    rw [Pass.loadable]
    exact ensures_pure .nil
  | .float _ => by
    rw [Pass.loadable]
    exact ensures_pure .nil
  | .long _ => by
    rw [Pass.loadable]
    exact ensures_pure .nil
  | .double _ => by
    rw [Pass.loadable]
    exact ensures_pure .nil
  | .string _ => by
    rw [Pass.loadable]
    exact ensures_pure .nil

theorem renamesMethods_loadables : (values : List Loadable) →
    (pass.loadables values).Ensures fun renamed =>
      pass.RenamesMethods (Loadable.allMethodNames values) (Loadable.allMethodNames renamed)
  | [] => by
    rw [Pass.loadables]
    exact ensures_pure .nil
  | value :: rest => by
    rw [Pass.loadables]
    refine (renamesMethods_loadable value).bind fun newValue renames => ?_
    exact (renamesMethods_loadables rest).bind fun newRest given =>
      ensures_pure (renames.append given)

end

/-- The name of a computed call is looked up like that of a call of the method that the lambda
implements. -/
theorem renames_lambdaName? (call : DynamicCall) :
    (pass.lambdaName? call).Ensures fun found =>
      pass.mappings.Renames call.name (found.getD call.name) := by
  have unnamed : (pure none : Journal (Option MethodName)).Ensures fun found =>
      pass.mappings.Renames call.name (found.getD call.name) := ensures_pure (.inl rfl)
  unfold lambdaName?
  split
  · split
    · refine ensures_result.bind fun type _ => ?_
      split
      · rintro _ ⟨⟩
        exact pass.resolver.renames_method _ false
      · exact unnamed
    · exact unnamed
  · exact unnamed

theorem renamesMethods_dynamicCall (call : DynamicCall) :
    (pass.dynamicCall call).Ensures fun renamed =>
      pass.RenamesMethods call.methodNames renamed.methodNames := by
  have parts : ∀ name : Option MethodName, pass.mappings.Renames call.name (name.getD call.name) →
      Ensures (do
        let descriptor ← (pass.mappings.methodDescriptor call.descriptor : Except Fault _)
        let handle ← pass.handle call.handle
        let arguments ← pass.loadables call.arguments
        return { name := name.getD call.name, descriptor, handle, arguments } : Journal DynamicCall)
          fun renamed => pass.RenamesMethods call.methodNames renamed.methodNames := by
    intro name renames
    refine ensures_result.bind fun descriptor _ => ?_
    refine (pass.renamesMethods_handle call.handle).bind fun handle referred => ?_
    refine (pass.renamesMethods_loadables call.arguments).bind fun arguments given =>
      ensures_pure ?_
    exact .cons renames (referred.append given)
  unfold dynamicCall
  by_cases lambdas : pass.options.renameLambdas = true
  · rw [if_pos lambdas]
    exact (pass.renames_lambdaName? call).bind parts
  · rw [if_neg lambdas]
    exact parts none (.inl rfl)

theorem renamesMethods_instruction (instruction : Instruction) :
    (pass.instruction instruction).Ensures fun renamed =>
      pass.RenamesMethods instruction.methodNames renamed.methodNames := by
  cases instruction with
  | load value =>
    exact (pass.renamesMethods_loadable value).bind fun _ renames => ensures_pure renames
  | call kind ref =>
    exact (pass.renames_methodRef ref kind.isStatic).bind fun _ renames => ensures_pure renames
  | callDynamic call =>
    exact (pass.renamesMethods_dynamicCall call).bind fun _ renames => ensures_pure renames
  | field use ref => exact ensures_result.bind fun _ _ => ensures_pure .nil
  | withClass op name => exact ensures_result.bind fun _ _ => ensures_pure .nil
  | createMultiArray name dimensions => exact ensures_result.bind fun _ _ => ensures_pure .nil
  | plain op => exact ensures_pure .nil
  | withLocal op index => exact ensures_pure .nil
  | jump op target => exact ensures_pure .nil
  | push op value => exact ensures_pure .nil
  | increment index amount => exact ensures_pure .nil
  | createBaseArray element => exact ensures_pure .nil
  | tableSwitch fallback low high targets => exact ensures_pure .nil
  | lookupSwitch fallback pairs => exact ensures_pure .nil

theorem renamesMethods_code (code : Code) :
    (pass.code code).Ensures fun renamed =>
      pass.RenamesMethods code.methodNames renamed.methodNames := by
  have entry (entry : CodeEntry) : (pass.codeEntry entry).Ensures fun renamed =>
      pass.RenamesMethods entry.instruction.methodNames renamed.instruction.methodNames :=
    (pass.renamesMethods_instruction entry.instruction).bind fun _ renames => ensures_pure renames
  unfold Pass.code
  refine (ensures_mapM entry).bind fun instructions executed => ?_
  refine ensures_result.bind fun exceptionTable _ => ensures_result.bind fun localVariables _ => ?_
  exact ensures_pure (RenamesMethods.flatMap executed)

theorem renamesMethods_method (owner : ClassName) (method : Method) :
    (pass.method owner method).Ensures fun renamed =>
      pass.RenamesMethods method.methodNames renamed.methodNames := by
  unfold Pass.method
  refine ensures_result.bind fun parameters _ => ensures_result.bind fun found resolved => ?_
  refine ensures_result.bind fun descriptor _ => ?_
  refine (ensures_mapM_option pass.renamesMethods_code).bind fun code coded => ?_
  refine ensures_result.bind fun signature _ => ensures_pure ?_
  obtain rfl : pass.resolver.declaration (method.key.on owner) method.access = found :=
    Except.ok.inj resolved
  exact .cons (pass.resolver.renames_declaration _ _) (RenamesMethods.flatMap coded)

theorem renamesMethods_enclosingMethod (entry : EnclosingMethod) :
    (pass.enclosingMethod entry).Ensures fun renamed =>
      pass.RenamesMethods entry.methodNames renamed.methodNames := by
  have key (key : MethodKey) : (pass.methodKey entry.owner key).Ensures fun renamed =>
      pass.mappings.Renames key.name renamed.name := by
    refine (pass.renames_methodName? (key.on entry.owner) false).bind fun name renames => ?_
    exact ensures_result.bind fun descriptor _ => ensures_pure renames
  unfold Pass.enclosingMethod
  refine (ensures_mapM_option key).bind fun method renames => ?_
  refine ensures_result.bind fun owner _ => ensures_pure ?_
  show List.Forall₂ _ (entry.method.toList.map _) (method.toList.map _)
  rw [List.forall₂_map_left_iff, List.forall₂_map_right_iff]
  exact renames

/-- **Every place where a class names a method is renamed by itself.** -/
theorem renamesMethods_classFile (file : ClassFile) :
    (pass.classFile file).Ensures fun renamed =>
      pass.RenamesMethods file.methodNames renamed.methodNames := by
  unfold Pass.classFile
  refine ensures_result.bind fun fields _ => ?_
  refine (ensures_mapM fun method =>
    (pass.renamesMethods_method file.name method).within _).bind fun methods declared => ?_
  refine ensures_result.bind fun _ _ => ensures_result.bind fun _ _ => ?_
  refine ensures_result.bind fun _ _ => ensures_result.bind fun _ _ => ?_
  refine (ensures_mapM_option pass.renamesMethods_enclosingMethod).bind fun enclosing around => ?_
  refine ensures_result.bind fun _ _ => ensures_result.bind fun _ _ => ?_
  refine ensures_result.bind fun _ _ => ensures_result.bind fun _ _ => ensures_pure ?_
  exact (RenamesMethods.flatMap declared).append (RenamesMethods.flatMap around)

end Pass

theorem Method.methodNames_degradedTo (method : Method) (target : Option MethodKey) :
    (method.degradedTo target).methodNames = method.methodNames := by
  cases target <;> rfl

/-- Degrading bridges renames nothing. -/
theorem ClassFile.DegradesTo.methodNames {file degraded : ClassFile}
    (degrades : file.DegradesTo degraded) : degraded.methodNames = file.methodNames := by
  obtain ⟨methods, rfl, kept⟩ := degrades
  have names : methods.flatMap Method.methodNames = file.methods.flatMap Method.methodNames := by
    generalize file.methods = given at kept
    induction kept with
    | nil => rfl
    | cons same _ ih =>
      obtain ⟨target, rfl⟩ := same
      rw [List.flatMap_cons, List.flatMap_cons, Method.methodNames_degradedTo, ih]
  show methods.flatMap Method.methodNames ++ _ = _
  rw [names]
  rfl

/-! ### Runs -/

section Run

variable {classes renamed : List ClassFile} {mappings : Mappings} {hierarchy : Hierarchy}
  {supplement : Supplement} {options : PassOptions} {report : PassReport}

/-- At every place where a method is named, the name stays or comes from an entry for it. -/
theorem renames_of_renameClasses
    (done : (renameClasses classes mappings hierarchy supplement options).result =
      .ok (renamed, report)) :
    List.Forall₂ (fun file new => List.Forall₂ mappings.Renames file.methodNames new.methodNames)
      classes renamed := by
  obtain ⟨processed, each, rfl, _⟩ := (renameClasses_eq_ok_iff _ _ _ _ _).mp done
  rw [List.forall₂_map_right_iff]
  refine each.imp fun file out processedWell => ?_
  obtain ⟨degraded, degrades, renames⟩ := Pass.exists_degradesTo_of_process processedWell
  rw [← degrades.methodNames]
  exact Pass.renamesMethods_classFile _ degraded _ renames

end Run

/-- The classes and descriptors of entries for methods are checked, like the names. -/
theorem Mappings.Built.valid_of_methodName? {mappings : Mappings} (built : mappings.Built)
    {owner : ClassName} {key : MethodKey} {name : MethodName}
    (found : mappings.methodName? owner key = some name) : owner.Valid ∧ key.descriptor.Valid := by
  induction built with
  | empty => cases found
  | addClass _ added ih =>
    obtain ⟨_, _, rest⟩ := except_bind_eq_ok_iff.mp added
    obtain ⟨_, _, ⟨⟩⟩ := except_bind_eq_ok_iff.mp rest
    exact ih found
  | addField _ added ih =>
    obtain ⟨_, _, rest⟩ := except_bind_eq_ok_iff.mp added
    obtain ⟨_, _, rest⟩ := except_bind_eq_ok_iff.mp rest
    obtain ⟨_, _, ⟨⟩⟩ := except_bind_eq_ok_iff.mp rest
    exact ih found
  | @addMethod mappings after ownerText old descriptor new _ added ih =>
    obtain ⟨site, readSite, rest⟩ := except_bind_eq_ok_iff.mp added
    obtain ⟨before, _, rest⟩ := except_bind_eq_ok_iff.mp rest
    obtain ⟨types, readTypes, rest⟩ := except_bind_eq_ok_iff.mp rest
    obtain ⟨replaced, _, ⟨⟩⟩ := except_bind_eq_ok_iff.mp rest
    change (mappings.methods.insert site ⟨before, types⟩ replaced).get? owner key =
      some name at found
    rw [Members.get?_insert] at found
    split at found
    case isTrue same =>
      obtain ⟨rfl, rfl⟩ := same
      exact ⟨(part_eq_ok_iff.mp readSite).2, (part_eq_ok_iff.mp readTypes).2⟩
    case isFalse => exact ih found
  | addExceptions _ _ _ _ ih => exact ih found
  | addParameters _ _ _ _ ih => exact ih found

/-! ### Making constructors -/

section Made

variable {mappings : Mappings} {owner : ClassName} {key : MethodKey} {name : MethodName}

/-- A pass over the class with just one method ends well if the class and the descriptor are
valid. -/
theorem exists_of_bare (owner : ClassName) (key : MethodKey) (ownerValid : owner.Valid)
    (descriptorValid : key.descriptor.Valid) (mappings : Mappings) (hierarchy : Hierarchy)
    (supplement : Supplement) (options : PassOptions) :
    ∃ renamed report,
      (renameClasses [.ofMethods owner none [.bare key.name key.descriptor]] mappings
      hierarchy supplement options).result = .ok (renamed, report) := by
  have examines := examines_renameClasses [.ofMethods owner none [.bare key.name key.descriptor]]
    mappings hierarchy supplement options
  cases outcome : (renameClasses [.ofMethods owner none [.bare key.name key.descriptor]] mappings
      hierarchy supplement options).result with
  | ok out => exact ⟨out.1, out.2, rfl⟩
  | error fault =>
    obtain ⟨symbol, member, malformed⟩ := examines.exists_error_iff.mp ⟨fault, outcome⟩
    have read : symbol ∈ [key.descriptor.any, owner.any] := member
    rcases List.mem_cons.mp read with rfl | last
    · exact absurd malformed (AnySymbol.not_malformed_of_check descriptorValid)
    · rw [List.mem_singleton.mp last] at malformed
      exact absurd malformed (AnySymbol.not_malformed_of_check ownerValid)

/-- The first method that the renamed class names is the declared one, with the name of its own
entry. -/
theorem head?_methodNames_of_bare (ordinary : key.name.isSpecial = false)
    (found : mappings.methodName? owner key = some name) {hierarchy : Hierarchy}
    {supplement : Supplement} {options : PassOptions} {renamed : List ClassFile}
    {report : PassReport}
    (done : (renameClasses [.ofMethods owner none [.bare key.name key.descriptor]] mappings
      hierarchy supplement options).result = .ok (renamed, report)) :
    ∃ new, renamed = [new] ∧ new.methodNames.head? = some name := by
  obtain ⟨processed, each, rfl, _⟩ := (renameClasses_eq_ok_iff _ _ _ _ _).mp done
  obtain ⟨out, _, processedWell, last, rfl⟩ := List.forall₂_cons_left_iff.mp each
  cases last
  have rewrites := Pass.rewrites_of_process processedWell
  obtain ⟨method, others, ⟨target, declared⟩, _, methods⟩ :=
    List.forall₂_cons_left_iff.mp rewrites.methods
  have resolved (resolver : Resolver) (same : resolver.mappings = mappings)
      (access : MethodAccess) :
      resolver.declaration (key.on owner) access = some ⟨owner, name⟩ := by
    rw [Resolver.declaration_eq_some_iff, same]
    exact ⟨ordinary, .inl ⟨rfl, found⟩⟩
  have named : method.name = name := by
    rw [(Pass.name_and_descriptor_of_method _ declared).2, Method.key_degradedTo]
    exact congrArg (fun hit => (Option.map Resolved.name hit).getD _) (resolved _ rfl _)
  refine ⟨out.1, rfl, ?_⟩
  rw [ClassFile.methodNames, methods, List.flatMap_cons, Method.methodNames, named]
  rfl

end Made

/-- **Only entries make constructors.** Let mappings be built from checked parts. At every place
where a method is named, a pass leaves the name as it is, as it always does with the special names,
or replaces an ordinary name by that of an entry for it. All passes agree in which names are special
before and after if and only if no entry gives an ordinary method a special name. -/
theorem only_entries_make_constructors {mappings : Mappings} (built : mappings.Built)
    (hierarchy : Hierarchy) (supplement : Supplement) (options : PassOptions) :
    let run := fun classes => (renameClasses classes mappings hierarchy supplement options).result
    (∀ classes renamed report, run classes = .ok (renamed, report) →
      List.Forall₂ (fun file new => List.Forall₂ mappings.Renames file.methodNames new.methodNames)
        classes renamed) ∧
    ((∀ classes renamed report, run classes = .ok (renamed, report) →
      List.Forall₂ (fun file new =>
          List.Forall₂ MethodName.EquallySpecial file.methodNames new.methodNames)
        classes renamed) ↔ mappings.MakesNoSpecial) := by
  intro run
  refine ⟨fun classes renamed report done => renames_of_renameClasses done, ?_, ?_⟩
  · rintro equally old new ⟨owner, descriptor, found⟩ special
    by_contra notSpecial
    -- the class of the entry, with nothing but the method of the entry
    let key : MethodKey := ⟨old, descriptor⟩
    obtain ⟨ownerValid, descriptorValid⟩ := built.valid_of_methodName? found
    obtain ⟨renamed, report, done⟩ := exists_of_bare owner key ownerValid descriptorValid mappings
      hierarchy supplement options
    have ordinary : key.name.isSpecial = false := eq_false_of_ne_true notSpecial
    obtain ⟨file, rfl, named⟩ := head?_methodNames_of_bare ordinary found done
    obtain ⟨places, _⟩ := List.forall₂_cons.mp (equally _ _ _ done)
    obtain ⟨first, _, declared, _, names⟩ := List.forall₂_cons_left_iff.mp places
    rw [names, List.head?_cons] at named
    obtain rfl := Option.some.inj named
    exact notSpecial (declared.isSpecial special)
  · intro makesNone classes renamed report done
    refine (renames_of_renameClasses done).imp fun file new places => ?_
    exact places.imp fun old name renames => renames.equallySpecial makesNone

namespace Promotion

/-- A class with a constructor and a method that calls it. -/
def file (name : MethodName) : ClassFile :=
  .ofMethods ⟨"a"⟩ none [.bare .init ⟨"()V"⟩,
    { Method.bare name ⟨"()V"⟩ with
      code := some ⟨none, none, [⟨none, .call (.onSpecial false) ⟨⟨"a"⟩, .init, ⟨"()V"⟩⟩⟩],
        [], none, none, none⟩ }]

/-- An entry for the constructor, which is never used. -/
def unused : Mappings := (∅ : Mappings).addMethod ⟨"a"⟩ ⟨.init, ⟨"()V"⟩⟩ ⟨"n"⟩

def mappings (name : MethodName) : Mappings := unused.addMethod ⟨"a"⟩ ⟨⟨"m"⟩, ⟨"()V"⟩⟩ name

theorem built {name : MethodName}
    (added : unused.addMethodText "a" "m" "()V" name.text = .ok (mappings name)) :
    (mappings name).Built := by
  have first : (∅ : Mappings).addMethodText "a" "<init>" "()V" "n" = .ok unused := by cbv
  exact .addMethod (.addMethod .empty first) added

theorem makesNoSpecial (name : MethodName) (ordinary : name.isSpecial = false) :
    (mappings name).MakesNoSpecial := by
  rintro old new ⟨owner, descriptor, found⟩ special
  change ((unused.methods.insert ⟨"a"⟩ ⟨⟨"m"⟩, ⟨"()V"⟩⟩ name).get? owner ⟨old, descriptor⟩) =
    some new at found
  rw [Members.get?_insert] at found
  split at found
  case isTrue =>
    rw [← Option.some.inj found, ordinary] at special
    cases special
  case isFalse =>
    change (((∅ : Mappings).methods.insert ⟨"a"⟩ ⟨.init, ⟨"()V"⟩⟩ ⟨"n"⟩).get? owner
      ⟨old, descriptor⟩) = some new at found
    rw [Members.get?_insert] at found
    split at found
    case isTrue same =>
      rw [(MethodKey.mk.inj same.2).1]
      rfl
    case isFalse => cases found

end Promotion

/-- A constructor stays one and a method stays an ordinary one, though there are entries for
both. -/
theorem promotion_keeps_constructor :
    (Promotion.mappings ⟨"k"⟩).Built ∧
      (renameClasses [Promotion.file ⟨"m"⟩] (Promotion.mappings ⟨"k"⟩) ∅ ∅ {}).result =
        .ok ([Promotion.file ⟨"k"⟩], ⟨1, []⟩) ∧
      List.Forall₂ MethodName.EquallySpecial (Promotion.file ⟨"m"⟩).methodNames
        (Promotion.file ⟨"k"⟩).methodNames := by
  have built : (Promotion.mappings ⟨"k"⟩).Built := Promotion.built (by cbv)
  have done : (renameClasses [Promotion.file ⟨"m"⟩] (Promotion.mappings ⟨"k"⟩) ∅ ∅ {}).result =
      .ok ([Promotion.file ⟨"k"⟩], ⟨1, []⟩) := by cbv
  have makesNone := Promotion.makesNoSpecial ⟨"k"⟩ (by decide)
  have equally := (only_entries_make_constructors built ∅ ∅ {}).2.mpr makesNone _ _ _ done
  exact ⟨built, done, (List.forall₂_cons.mp equally).1⟩

/-- The entry of the method is accepted, and makes it a second constructor. -/
theorem promotion_makes_constructor :
    (Promotion.mappings .init).Built ∧
      (renameClasses [Promotion.file ⟨"m"⟩] (Promotion.mappings .init) ∅ ∅ {}).result =
        .ok ([Promotion.file .init], ⟨1, []⟩) ∧
      ¬ List.Forall₂ MethodName.EquallySpecial (Promotion.file ⟨"m"⟩).methodNames
        (Promotion.file .init).methodNames := by
  refine ⟨Promotion.built (by cbv), by cbv, fun equally => ?_⟩
  obtain ⟨_, others⟩ := List.forall₂_cons.mp equally
  obtain ⟨declared, _⟩ := List.forall₂_cons.mp others
  have made : ⟨"m"⟩ = MethodName.init := declared.1.mp rfl
  exact absurd made (by decide)

end Renaming

import Renaming.Proofs.MalformedSymbols
import Renaming.Proofs.Skeletons

/-!
# What the options change

A pass degrades bridges, renames the methods that lambdas implement and writes names of parameters,
or leaves any of these alone. Each option has its own place in the renamed classes: the flags of the
reported methods, the names of computed calls, and the parameters of methods. Nothing else depends
on the options, not even whether the pass fails, although each option makes it read symbols on the
side.

* `Recorded.Agree`: what two computations give looks the same, wherever both end well. Renaming a
  class under two choices of options is compared with it, part by part (`Pass.agree_classFile`).
* `Pass.classFile_degradedTo`: degrading bridges before a class is renamed comes to the same as
  degrading them afterwards, since the flags of a bridge have no say in how anything is renamed.
* `PassOptions.commonParts`: the renamed classes without what the options are about.
-/

namespace Renaming

open Recorded

/-! ### Leaving out what the options are about -/

/-- The options in which the two differ. -/
def PassOptions.differing (first second : PassOptions) : PassOptions where
  degradeBridges := first.degradeBridges != second.degradeBridges
  renameLambdas := first.renameLambdas != second.renameLambdas
  applyParameterNames := first.applyParameterNames != second.applyParameterNames

/-- The call without its name, if the options are about the names of lambdas. -/
def DynamicCall.without (options : PassOptions) (call : DynamicCall) : DynamicCall :=
  if options.renameLambdas then { call with name := call.name.erased } else call

def Instruction.without (options : PassOptions) : Instruction → Instruction
  | .callDynamic target => .callDynamic (target.without options)
  | other => other

def CodeEntry.without (options : PassOptions) (entry : CodeEntry) : CodeEntry :=
  { entry with instruction := entry.instruction.without options }

def Code.without (options : PassOptions) (code : Code) : Code :=
  { code with instructions := code.instructions.map (CodeEntry.without options) }

/-- The method without the names of computed calls and without its parameters, as far as the options
are about them. -/
def Method.without (options : PassOptions) (method : Method) : Method :=
  { method with
    code := method.code.map (Code.without options)
    parameters := if options.applyParameterNames then none else method.parameters }

def ClassFile.without (options : PassOptions) (file : ClassFile) : ClassFile :=
  { file with methods := file.methods.map (Method.without options) }

/-- The method without the flags of a bridge, if it is listed. -/
def Method.withoutFlagsIf (listed : Bool) (method : Method) : Method :=
  if listed then { method with access := method.access.withoutBridge } else method

/-- The class, without the flags of bridges at its listed methods. -/
def ClassFile.withoutFlagsAt (listed : Nat → Bool) (file : ClassFile) : ClassFile :=
  { file with methods := file.methods.mapIdx fun place => Method.withoutFlagsIf (listed place) }

/-- The report lists the method of the class as a degraded bridge. -/
def PassReport.lists (report : PassReport) (file : ClassFile) (method : Method) : Bool :=
  report.degradedBridges.any fun entry => entry.owner = file.name && entry.bridge = method.key

/-- Whether one of the reports lists the method at a place of the class at a place. -/
def isListed (classes : List ClassFile) (reports : List PassReport) (place methodPlace : Nat) :
    Bool :=
  classes[place]?.any fun file => file.methods[methodPlace]?.any fun method =>
    reports.any fun report => report.lists file method

/-- What renamed classes have in common whatever the options: everything but the flags of the
methods that are listed in one of the reports, the names of computed calls and the parameters of
methods, each only if the options are about them. -/
def PassOptions.commonParts (options : PassOptions) (classes : List ClassFile)
    (reports : List PassReport) (renamed : List ClassFile) : List ClassFile :=
  renamed.mapIdx fun place file =>
    ((if options.degradeBridges then file.withoutFlagsAt (isListed classes reports place)
      else file).without options)

/-! ### Two computations that agree -/

namespace Recorded

variable {ρ α β γ δ : Type}

/-- If both computations end well, what they give looks the same. -/
def Agree (view : α → β) (run other : Recorded ρ α) : Prop :=
  ∀ value last, run.result = .ok value → other.result = .ok last → view value = view last

variable {view : α → β} {seen : γ → δ}

theorem Agree.refl (run : Recorded ρ α) : Agree view run run := by
  intro value last done also
  rw [done] at also
  rw [Except.ok.inj also]

theorem agree_pure {value last : α} (same : view value = view last) :
    Agree view (pure value : Recorded ρ α) (pure last) := by
  rintro _ _ ⟨⟩ ⟨⟩
  exact same

theorem Agree.bind {run other : Recorded ρ α} {next next' : α → Recorded ρ γ}
    (first : Agree view run other)
    (rest : ∀ value last, view value = view last → Agree seen (next value) (next' last)) :
    Agree seen (run >>= next) (other >>= next') := by
  intro result result' done done'
  obtain ⟨value, valueDone, restDone⟩ := result_bind_eq_ok_iff.mp done
  obtain ⟨last, lastDone, restDone'⟩ := result_bind_eq_ok_iff.mp done'
  exact rest value last (first value last valueDone lastDone) result result' restDone restDone'

/-- Computations that start alike agree if they agree on how to go on. -/
theorem agree_bind_same {run : Recorded ρ α} {next next' : α → Recorded ρ γ}
    (rest : ∀ value, Agree seen (next value) (next' value)) :
    Agree seen (run >>= next) (run >>= next') := by
  have same : Agree id run run := Agree.refl run
  refine same.bind fun value last equal => ?_
  rw [show value = last from equal]
  exact rest last

/-- What one of the computations does besides does not matter. -/
theorem agree_bind_left {run : Recorded ρ α} {next : α → Recorded ρ γ} {other : Recorded ρ γ}
    (rest : ∀ value, Agree seen (next value) other) : Agree seen (run >>= next) other := by
  intro result result' done done'
  obtain ⟨value, _, restDone⟩ := result_bind_eq_ok_iff.mp done
  exact rest value result result' restDone done'

theorem Agree.symm {run other : Recorded ρ α} (agree : Agree view run other) :
    Agree view other run :=
  fun value last done also => (agree last value also done).symm

theorem Agree.within {run other : Recorded ρ α} (agree : Agree view run other)
    (circumstances : Fault → Fault) :
    Agree view (run.within circumstances) (other.within circumstances) :=
  fun value last done also =>
    agree value last (result_within_eq_ok_iff.mp done) (result_within_eq_ok_iff.mp also)

theorem agree_mapM {items : List γ} {body body' : γ → Recorded ρ α}
    (each : ∀ item, Agree view (body item) (body' item)) :
    Agree (List.map view) (items.mapM body) (items.mapM body') := by
  induction items with
  | nil => exact Agree.refl _
  | cons item rest ih =>
    rw [List.mapM_cons, List.mapM_cons]
    refine (each item).bind fun value last same => ih.bind fun values lasts others => agree_pure ?_
    rw [List.map_cons, List.map_cons, same, others]

theorem agree_mapM_option {item : Option γ} {body body' : γ → Recorded ρ α}
    (each : ∀ value, Agree view (body value) (body' value)) :
    Agree (Option.map view) (item.mapM body) (item.mapM body') := by
  cases item with
  | none => exact Agree.refl _
  | some value => exact (each value).bind fun _ _ same => agree_pure (congrArg some same)

end Recorded

/-! ### Passes that differ in their options -/

namespace Pass

/-- The pass with other options. -/
def withOptions (pass : Pass) (options : PassOptions) : Pass := { pass with options }

section Constants

variable (pass : Pass) (options : PassOptions)

theorem handle_withOptions (handle : Handle) :
    (pass.withOptions options).handle handle = pass.handle handle := by
  cases handle <;> rfl

mutual

theorem loadable_withOptions :
    (value : Loadable) → (pass.withOptions options).loadable value = pass.loadable value
  | .type name => by rw [Pass.loadable, Pass.loadable]; rfl
  | .handle target => by rw [Pass.loadable, Pass.loadable, handle_withOptions]
  | .methodType descriptor => by rw [Pass.loadable, Pass.loadable]; rfl
  | .computed name descriptor target arguments => by
    rw [Pass.loadable, Pass.loadable, handle_withOptions, loadables_withOptions arguments]
    rfl
  | .integer _ => by rw [Pass.loadable, Pass.loadable]
  | .float _ => by rw [Pass.loadable, Pass.loadable]
  | .long _ => by rw [Pass.loadable, Pass.loadable]
  | .double _ => by rw [Pass.loadable, Pass.loadable]
  | .string _ => by rw [Pass.loadable, Pass.loadable]

theorem loadables_withOptions :
    (values : List Loadable) → (pass.withOptions options).loadables values = pass.loadables values
  | [] => by rw [Pass.loadables, Pass.loadables]
  | value :: rest => by
    rw [Pass.loadables, Pass.loadables, loadable_withOptions value, loadables_withOptions rest]

end

end Constants

variable (pass : Pass) (options : PassOptions)

/-- Which name a computed call gets is up to the options, and nothing else of it. -/
theorem agree_dynamicCall (call : DynamicCall) :
    Agree (DynamicCall.without (pass.options.differing options)) (pass.dynamicCall call)
      ((pass.withOptions options).dynamicCall call) := by
  -- what is made of the rest of the call, with one name and with another
  have parts : ∀ name other : Option MethodName,
      (pass.options.renameLambdas = options.renameLambdas → name = other) →
      Agree (ρ := Event) (DynamicCall.without (pass.options.differing options))
        (do
          let descriptor ← (pass.mappings.methodDescriptor call.descriptor : Except Fault _)
          let handle ← pass.handle call.handle
          let arguments ← pass.loadables call.arguments
          return { name := name.getD call.name, descriptor, handle, arguments })
        (do
          let descriptor ← (pass.mappings.methodDescriptor call.descriptor : Except Fault _)
          let handle ← pass.handle call.handle
          let arguments ← pass.loadables call.arguments
          return { name := other.getD call.name, descriptor, handle, arguments }) := by
    intro name other same
    refine agree_bind_same fun descriptor => agree_bind_same fun handle => ?_
    refine agree_bind_same fun arguments => agree_pure ?_
    by_cases equal : pass.options.renameLambdas = options.renameLambdas
    · rw [same equal]
    · have differ : (pass.options.differing options).renameLambdas = true := bne_iff_ne.mpr equal
      rw [DynamicCall.without, DynamicCall.without, if_pos differ, if_pos differ]
      rfl
  have handle := pass.handle_withOptions options call.handle
  have arguments := pass.loadables_withOptions options call.arguments
  unfold dynamicCall
  rw [handle, arguments]
  cases lambdas : pass.options.renameLambdas <;> cases others : options.renameLambdas
  · rw [if_neg Bool.false_ne_true, withOptions, if_neg (ne_true_of_eq_false others)]
    exact parts none none fun _ => rfl
  · rw [if_neg Bool.false_ne_true, withOptions, if_pos others]
    refine (agree_bind_left fun name => ?_).symm
    refine (parts none name fun same => ?_).symm
    rw [lambdas, others] at same
    cases same
  · rw [if_pos rfl, withOptions, if_neg (ne_true_of_eq_false others)]
    refine agree_bind_left fun name => parts name none fun same => ?_
    rw [lambdas, others] at same
    cases same
  · rw [if_pos rfl, withOptions, if_pos others]
    exact agree_bind_same fun name => parts name name fun _ => rfl

theorem agree_instruction (instruction : Instruction) :
    Agree (Instruction.without (pass.options.differing options)) (pass.instruction instruction)
      ((pass.withOptions options).instruction instruction) := by
  cases instruction with
  | callDynamic call =>
    exact (pass.agree_dynamicCall options call).bind fun _ _ same =>
      agree_pure (congrArg Instruction.callDynamic same)
  | load value =>
    show Agree _ (do return Instruction.load (← pass.loadable value))
      (do return Instruction.load (← (pass.withOptions options).loadable value))
    rw [pass.loadable_withOptions options value]
    exact Agree.refl _
  | _ => exact Agree.refl _

theorem agree_codeEntry (entry : CodeEntry) :
    Agree (CodeEntry.without (pass.options.differing options)) (pass.codeEntry entry)
      ((pass.withOptions options).codeEntry entry) :=
  (pass.agree_instruction options entry.instruction).bind fun _ _ same =>
    agree_pure (congrArg (CodeEntry.mk entry.label) same)

theorem agree_code (code : Code) :
    Agree (Code.without (pass.options.differing options)) (pass.code code)
      ((pass.withOptions options).code code) := by
  unfold Pass.code
  refine (agree_mapM (pass.agree_codeEntry options)).bind fun instructions others same => ?_
  refine agree_bind_same fun exceptionTable => agree_bind_same fun localVariables => agree_pure ?_
  simp only [Code.without, same]

theorem agree_parameters (owner : ClassName) (method : Method) :
    Agree (ρ := Event)
      (fun parameters => if (pass.options.differing options).applyParameterNames then none
        else parameters)
      (liftM (pass.parameters owner method))
      (liftM ((pass.withOptions options).parameters owner method)) := by
  by_cases equal : pass.options.applyParameterNames = options.applyParameterNames
  · have same : (pass.withOptions options).parameters owner method =
        pass.parameters owner method := by
      simp only [Pass.parameters, withOptions, equal]
      rfl
    rw [same]
    exact Agree.refl _
  · have differ : (pass.options.differing options).applyParameterNames = true :=
      bne_iff_ne.mpr equal
    intro parameters others _ _
    simp only [differ, reduceIte]

theorem agree_method (owner : ClassName) (method : Method) :
    Agree (Method.without (pass.options.differing options)) (pass.method owner method)
      ((pass.withOptions options).method owner method) := by
  unfold Pass.method
  refine (pass.agree_parameters options owner method).bind fun parameters others same => ?_
  refine agree_bind_same fun found => agree_bind_same fun descriptor => ?_
  refine (agree_mapM_option (pass.agree_code options)).bind fun code otherCode sameCode => ?_
  refine agree_bind_same fun signature => agree_pure ?_
  simp only [Method.without, same, sameCode]
  rfl

/-- **Whichever the options are, a class becomes the same**, apart from what they are about. -/
theorem agree_classFile (file : ClassFile) :
    Agree (ClassFile.without (pass.options.differing options)) (pass.classFile file)
      ((pass.withOptions options).classFile file) := by
  unfold Pass.classFile
  refine agree_bind_same fun fields => ?_
  refine (agree_mapM fun method => (pass.agree_method options file.name method).within _).bind
    fun methods others same => ?_
  refine agree_bind_same fun name => agree_bind_same fun superClass => ?_
  refine agree_bind_same fun interfaces => agree_bind_same fun nestedClasses => ?_
  refine agree_bind_same fun enclosingMethod => agree_bind_same fun signature => ?_
  refine agree_bind_same fun nestHost => agree_bind_same fun nestMembers => ?_
  refine agree_bind_same fun permittedSubclasses => agree_pure ?_
  simp only [ClassFile.without, same]

end Pass

/-! ### Renaming and degrading -/

namespace Recorded

variable {ρ α β γ : Type}

theorem result_map (change : α → β) (run : Recorded ρ α) :
    (change <$> run).result = run.result.map change := by
  obtain ⟨record, result⟩ := run
  cases result <;> rfl

theorem within_map (circumstances : Fault → Fault) (change : α → β) (run : Recorded ρ α) :
    (change <$> run).within circumstances = change <$> run.within circumstances := by
  obtain ⟨record, result⟩ := run
  cases result <;> rfl

/-- Items that are changed before are made into what is made of the items, changed. -/
theorem mapM_zipWith (body : α → Recorded ρ β) (change : α → γ → α) (relabel : β → γ → β)
    (commutes : ∀ item other, body (change item other) = (relabel · other) <$> body item)
    {items : List α} {others : List γ} (covered : items.length = others.length) :
    (List.zipWith change items others).mapM body =
      (List.zipWith relabel · others) <$> items.mapM body := by
  induction items generalizing others with
  | nil => rfl
  | cons item rest ih =>
    cases others with
    | nil => cases covered
    | cons other more =>
      rw [List.zipWith_cons_cons, List.mapM_cons, List.mapM_cons, commutes,
        ih (Nat.succ.inj covered)]
      simp only [map_bind, map_pure, bind_map_left, List.zipWith_cons_cons]

end Recorded

/-- The flags of a bridge have no say in what a method overrides. -/
theorem Resolver.resolveDeclaration_degradedTo (resolver : Resolver) (ref : MethodRef)
    (method : Method) (target : Option MethodKey) :
    resolver.resolveDeclaration ref (method.degradedTo target).access =
      resolver.resolveDeclaration ref method.access := by
  have found : resolver.declaration ref (method.degradedTo target).access =
      resolver.declaration ref method.access := by
    rw [declaration, declaration, method.isPrivate_degradedTo, method.isStatic_degradedTo]
  rw [resolveDeclaration, resolveDeclaration, found]

/-- The class, with some of its methods degraded. -/
def ClassFile.degradedTo (file : ClassFile) (targets : List (Option MethodKey)) : ClassFile :=
  { file with methods := List.zipWith Method.degradedTo file.methods targets }

namespace Pass

variable (pass : Pass)

/-- **Renaming does not see the flags of bridges**: a degraded method is renamed to what the method
is renamed to, degraded. -/
theorem method_degradedTo (owner : ClassName) (method : Method) (target : Option MethodKey) :
    pass.method owner (method.degradedTo target) =
      (Method.degradedTo · target) <$> pass.method owner method := by
  cases target with
  | none =>
    have same : (fun method : Method => method.degradedTo none) = id := rfl
    rw [same, id_map]
    rfl
  | some key =>
    have found :=
      pass.resolver.resolveDeclaration_degradedTo (method.key.on owner) method (some key)
    simp only [Pass.method, map_bind, map_pure]
    rw [Method.key_degradedTo, found]
    rfl

theorem classFile_degradedTo (file : ClassFile) {targets : List (Option MethodKey)}
    (covered : file.methods.length = targets.length) :
    pass.classFile (file.degradedTo targets) =
      (ClassFile.degradedTo · targets) <$> pass.classFile file := by
  let body (method : Method) := (pass.method file.name method).within (.inMethod method.key)
  have commutes (method : Method) (target : Option MethodKey) :
      body (method.degradedTo target) = (Method.degradedTo · target) <$> body method := by
    show Recorded.within _ _ = _
    rw [method.key_degradedTo, pass.method_degradedTo, within_map]
  have methods := mapM_zipWith body Method.degradedTo Method.degradedTo commutes covered
  simp only [Pass.classFile, ClassFile.degradedTo, methods, map_bind, map_pure, bind_map_left, body]

end Pass

/-! ### One class -/

/-- The methods that the methods of the class forward to, if they are to be degraded; else none. -/
def ClassFile.targetsIf (file : ClassFile) (degrades : Bool) :
    Except Fault (List (Option MethodKey)) :=
  if degrades then file.forwardingTargets else .ok (file.methods.map fun _ => none)

/-- What is reported of a class with the targets. -/
def ClassFile.reported (file : ClassFile) (targets : List (Option MethodKey)) :
    List DegradedBridge :=
  (file.methods.zip targets).filterMap fun (method, target) =>
    target.map fun target => ⟨file.name, method.key, target⟩

theorem ClassFile.length_targetsIf {file : ClassFile} {degrades : Bool}
    {targets : List (Option MethodKey)} (found : file.targetsIf degrades = .ok targets) :
    file.methods.length = targets.length := by
  unfold targetsIf at found
  split at found
  · exact (except_mapM_eq_ok_iff.mp found).length_eq
  · rw [← Except.ok.inj found, List.length_map]

theorem ClassFile.targetsIf_unique {file : ClassFile} {degrades also : Bool}
    {targets others : List (Option MethodKey)} (found : file.targetsIf degrades = .ok targets)
    (foundAlso : file.targetsIf also = .ok others) (same : degrades = also) : targets = others := by
  rw [same, foundAlso] at found
  exact (Except.ok.inj found).symm

theorem ClassFile.degradedTo_none (file : ClassFile) :
    file.degradedTo (file.methods.map fun _ => none) = file := by
  have methods : List.zipWith Method.degradedTo file.methods (file.methods.map fun _ => none) =
      file.methods := by
    rw [List.zipWith_map_right, List.zipWith_self]
    exact List.map_id _
  rw [degradedTo, methods]

theorem ClassFile.reported_none (file : ClassFile) :
    file.reported (file.methods.map fun _ => none) = [] := by
  refine List.filterMap_eq_nil_iff.mpr ?_
  rintro ⟨method, target⟩ member
  obtain ⟨_, _, rfl⟩ := List.mem_map.mp (List.of_mem_zip member).2
  rfl

theorem ClassFile.result_degradeBridges (file : ClassFile) :
    file.degradeBridges.result =
      file.forwardingTargets.map fun targets =>
        (file.degradedTo targets, file.reported targets) := by
  have degraded (targets : List (Option MethodKey)) :
      (file.methods.zip targets).map (fun (method, target) => method.degradedTo target) =
        List.zipWith Method.degradedTo file.methods targets := List.map_zip_eq_zipWith
  unfold degradeBridges
  rw [result_bind, result_monadLift]
  cases file.forwardingTargets with
  | error fault => rfl
  | ok targets =>
    show Except.ok (_, _) = Except.ok (_, _)
    rw [degraded]
    rfl

/-- A class is processed by renaming it as it is, and degrading what it becomes. -/
theorem Pass.exists_plain_of_process {pass : Pass} {file new : ClassFile}
    {bridges : List DegradedBridge} (done : (pass.process file).result = .ok (new, bridges)) :
    ∃ targets plain, file.targetsIf pass.options.degradeBridges = .ok targets ∧
      (pass.classFile file).result = .ok plain ∧ new = plain.degradedTo targets ∧
      bridges = file.reported targets := by
  obtain ⟨degraded, first, renamed⟩ := process_eq_ok_iff.mp done
  have given : ∃ targets, file.targetsIf pass.options.degradeBridges = .ok targets ∧
      degraded = file.degradedTo targets ∧ bridges = file.reported targets := by
    by_cases degrades : pass.options.degradeBridges = true
    · rw [if_pos degrades, file.result_degradeBridges] at first
      obtain ⟨targets, found, same⟩ := except_map_eq_ok_iff.mp first
      obtain ⟨rfl, rfl⟩ := Prod.mk.inj same
      exact ⟨targets, (if_pos degrades).trans found, rfl, rfl⟩
    · rw [if_neg degrades] at first
      obtain ⟨rfl, rfl⟩ := Prod.mk.inj (Except.ok.inj first)
      exact ⟨_, if_neg degrades, file.degradedTo_none.symm, file.reported_none.symm⟩
  obtain ⟨targets, found, rfl, reported⟩ := given
  rw [pass.classFile_degradedTo file (ClassFile.length_targetsIf found), result_map] at renamed
  obtain ⟨plain, plainDone, rfl⟩ := except_map_eq_ok_iff.mp renamed
  exact ⟨targets, plain, found, plainDone, rfl, reported⟩

theorem ClassFile.mem_reported {file : ClassFile} {targets : List (Option MethodKey)} {place : Nat}
    {method : Method} {key : MethodKey} (declared : file.methods[place]? = some method)
    (forwards : targets[place]? = some (some key)) :
    ⟨file.name, method.key, key⟩ ∈ file.reported targets := by
  have paired : (file.methods.zip targets)[place]? = some (method, some key) := by
    rw [List.getElem?_zip_eq_some]
    exact ⟨declared, forwards⟩
  exact List.mem_filterMap.mpr ⟨(method, some key), List.mem_of_getElem? paired, rfl⟩

/-! ### Flags that are left out -/

theorem MethodAccess.withoutBridge_withoutBridge (access : MethodAccess) :
    access.withoutBridge.withoutBridge = access.withoutBridge := by
  have bits : access.withoutBridge.withoutBridge.bits = access.withoutBridge.bits := by
    refine BitVec.eq_of_getLsbD_eq fun place _ => ?_
    simp only [withoutBridge, Access.getLsbD_clear]
    grind
  exact congrArg Access.mk bits

/-- Where the flags of a method are left out, it does not matter whether the method is degraded. -/
theorem Method.withoutFlagsIf_degradedTo {method : Method} {target : Option MethodKey}
    {listed : Bool} (marked : target.isSome = true → listed = true) :
    (method.degradedTo target).withoutFlagsIf listed = method.withoutFlagsIf listed := by
  cases target with
  | none => rfl
  | some key =>
    have degraded : method.degradedTo (some key) =
        { method with access := method.access.withoutBridge } := rfl
    rw [marked rfl, degraded]
    simp only [withoutFlagsIf, reduceIte, MethodAccess.withoutBridge_withoutBridge]

theorem ClassFile.withoutFlagsAt_degradedTo {file : ClassFile} {targets : List (Option MethodKey)}
    {listed : Nat → Bool} (covered : file.methods.length = targets.length)
    (marked : ∀ place key, targets[place]? = some (some key) → listed place = true) :
    (file.degradedTo targets).withoutFlagsAt listed = file.withoutFlagsAt listed := by
  have methods : (List.zipWith Method.degradedTo file.methods targets).mapIdx
      (fun place => Method.withoutFlagsIf (listed place)) =
        file.methods.mapIdx fun place => Method.withoutFlagsIf (listed place) := by
    refine List.ext_getElem (by simp [covered]) fun place inside _ => ?_
    simp only [List.getElem_mapIdx, List.getElem_zipWith]
    refine Method.withoutFlagsIf_degradedTo fun forwards => ?_
    obtain ⟨key, found⟩ := Option.isSome_iff_exists.mp forwards
    exact marked place key (List.getElem?_eq_some_iff.mpr ⟨_, found⟩)
  simp only [withoutFlagsAt, degradedTo, methods]

theorem ClassFile.without_degradedTo (options : PassOptions) (file : ClassFile)
    (targets : List (Option MethodKey)) :
    (file.degradedTo targets).without options = (file.without options).degradedTo targets := by
  have each (method : Method) (target : Option MethodKey) :
      (method.degradedTo target).without options = (method.without options).degradedTo target := by
    cases target <;> rfl
  simp only [without, degradedTo, List.map_zipWith, List.zipWith_map_left, each]

theorem ClassFile.without_withoutFlagsAt (options : PassOptions) (listed : Nat → Bool)
    (file : ClassFile) :
    (file.withoutFlagsAt listed).without options =
      (file.without options).withoutFlagsAt listed := by
  have each (mark : Bool) (method : Method) :
      (method.withoutFlagsIf mark).without options =
        (method.without options).withoutFlagsIf mark := by
    cases mark <;> rfl
  have methods : (file.methods.mapIdx fun place => Method.withoutFlagsIf (listed place)).map
      (Method.without options) = (file.methods.map (Method.without options)).mapIdx
        fun place => Method.withoutFlagsIf (listed place) := by
    refine List.ext_getElem (by simp) fun place _ _ => ?_
    simp only [List.getElem_map, List.getElem_mapIdx, each]
  simp only [without, withoutFlagsAt, methods]

/-! ### Two runs -/

namespace Pass

variable {pass : Pass} {options : PassOptions} {file new other : ClassFile}
  {bridges others : List DegradedBridge}

theorem length_methods_of_classFile (done : (pass.classFile file).result = .ok new) :
    new.methods.length = file.methods.length := by
  have same : new.erased = file.erased := pass.preserves_classFile file new done
  have methods := congrArg (fun skeleton : ClassFile => skeleton.methods.length) same
  simpa only [ClassFile.erased, List.length_map] using methods

/-- Whether bridges are degraded is all that the report depends on. -/
theorem reported_alike (done : (pass.process file).result = .ok (new, bridges))
    (also : ((pass.withOptions options).process file).result = .ok (other, others))
    (same : pass.options.degradeBridges = options.degradeBridges) : bridges = others := by
  obtain ⟨targets, _, found, _, _, rfl⟩ := exists_plain_of_process done
  obtain ⟨otherTargets, _, otherFound, _, _, rfl⟩ := exists_plain_of_process also
  rw [ClassFile.targetsIf_unique found otherFound same]

/-- **One class under two choices of options.** What the class becomes is the same, apart from what
the options are about. -/
theorem common_of_process {listed : Nat → Bool}
    (done : (pass.process file).result = .ok (new, bridges))
    (also : ((pass.withOptions options).process file).result = .ok (other, others))
    (marked : ∀ place method, file.methods[place]? = some method → ∀ entry ∈ bridges ++ others,
      entry.owner = file.name → entry.bridge = method.key → listed place = true) :
    let differing := pass.options.differing options
    (if differing.degradeBridges then new.withoutFlagsAt listed else new).without differing =
      (if differing.degradeBridges then other.withoutFlagsAt listed else other).without
        differing := by
  intro differing
  obtain ⟨targets, plain, found, renamed, rfl, rfl⟩ := exists_plain_of_process done
  obtain ⟨otherTargets, otherPlain, otherFound, otherRenamed, rfl, rfl⟩ :=
    exists_plain_of_process also
  have common : plain.without differing = otherPlain.without differing :=
    pass.agree_classFile options file plain otherPlain renamed otherRenamed
  by_cases equal : pass.options.degradeBridges = options.degradeBridges
  · have alike : differing.degradeBridges = false := bne_eq_false_iff_eq.mpr equal
    rw [ClassFile.targetsIf_unique found otherFound equal, alike, if_neg Bool.false_ne_true,
      if_neg Bool.false_ne_true, ClassFile.without_degradedTo, ClassFile.without_degradedTo, common]
  · have differ : differing.degradeBridges = true := bne_iff_ne.mpr equal
    -- a method that forwards to another one is reported, so its flags are left out
    have reported (given : List (Option MethodKey))
        (covered : file.methods.length = given.length)
        (among : ∀ entry ∈ file.reported given,
          entry ∈ file.reported targets ++ file.reported otherTargets)
        (place : Nat) (key : MethodKey) (forwards : given[place]? = some (some key)) :
        listed place = true := by
      have inside : place < file.methods.length := by
        rw [covered]
        exact (List.getElem?_eq_some_iff.mp forwards).1
      have declared := List.getElem?_eq_getElem inside
      exact marked place _ declared _ (among _ (ClassFile.mem_reported declared forwards)) rfl rfl
    have covered := ClassFile.length_targetsIf found
    have otherCovered := ClassFile.length_targetsIf otherFound
    rw [differ, if_pos rfl, if_pos rfl,
      ClassFile.withoutFlagsAt_degradedTo ((length_methods_of_classFile renamed).trans covered)
        (reported targets covered fun _ => List.mem_append_left _),
      ClassFile.withoutFlagsAt_degradedTo
        ((length_methods_of_classFile otherRenamed).trans otherCovered)
        (reported otherTargets otherCovered fun _ => List.mem_append_right _),
      ClassFile.without_withoutFlagsAt, ClassFile.without_withoutFlagsAt, common]

end Pass

/-- What is made of the items of a list in two ways, place by place. -/
theorem forall₂_getElem? {α β γ : Type} {relation : α → β → Prop} {another : α → γ → Prop}
    {items : List α} {values : List β} {others : List γ}
    (each : List.Forall₂ relation items values) (also : List.Forall₂ another items others)
    (place : Nat) :
    values[place]? = none ∧ others[place]? = none ∨
      ∃ item value other, items[place]? = some item ∧ values[place]? = some value ∧
        others[place]? = some other ∧ relation item value ∧ another item other := by
  induction each generalizing others place with
  | nil =>
    cases also
    exact .inl ⟨rfl, rfl⟩
  | cons holds _ ih =>
    obtain _ | ⟨holdsAlso, rest⟩ := also
    cases place with
    | zero => exact .inr ⟨_, _, _, rfl, rfl, rfl, holds, holdsAlso⟩
    | succ place => exact ih rest place

theorem isListed_of_mem {classes : List ClassFile} {reports : List PassReport} {report : PassReport}
    {place methodPlace : Nat} {file : ClassFile} {method : Method} {entry : DegradedBridge}
    (given : classes[place]? = some file) (declared : file.methods[methodPlace]? = some method)
    (among : report ∈ reports) (listed : entry ∈ report.degradedBridges)
    (owner : entry.owner = file.name) (bridge : entry.bridge = method.key) :
    isListed classes reports place methodPlace = true := by
  have lists : report.lists file method = true :=
    List.any_eq_true.mpr ⟨entry, listed, by simp [owner, bridge]⟩
  simp only [isListed, given, declared, Option.any_some]
  exact List.any_eq_true.mpr ⟨report, among, lists⟩

theorem ends_well_alike (classes : List ClassFile) (mappings : Mappings) (hierarchy : Hierarchy)
    (supplement : Supplement) (first second : PassOptions) :
    (∃ out, (renameClasses classes mappings hierarchy supplement first).result = .ok out) ↔
      ∃ out, (renameClasses classes mappings hierarchy supplement second).result = .ok out := by
  -- whether a pass fails is told by the symbols that it reads, whatever its options
  have fails (options : PassOptions) :=
    (examines_renameClasses classes mappings hierarchy supplement options).exists_error_iff
  have ends (options : PassOptions) :
      (∃ out, (renameClasses classes mappings hierarchy supplement options).result = .ok out) ↔
        ¬ ∃ fault, (renameClasses classes mappings hierarchy supplement options).result =
          .error fault := by
    cases (renameClasses classes mappings hierarchy supplement options).result <;> simp
  rw [ends first, ends second, fails first, fails second]

/-- **The options are orthogonal.** A pass ends well under one choice of options if it does under
another, and then gives the same classes, apart from what the options that differ are about. The
reports are the same, unless the choices differ in whether bridges are degraded. -/
theorem options_are_orthogonal (classes : List ClassFile) (mappings : Mappings)
    (hierarchy : Hierarchy) (supplement : Supplement) (first second : PassOptions) :
    let run := fun options => (renameClasses classes mappings hierarchy supplement options).result
    let common := (first.differing second).commonParts classes
    ((∃ out, run first = .ok out) ↔ ∃ out, run second = .ok out) ∧
      ∀ renamed report others otherReport, run first = .ok (renamed, report) →
        run second = .ok (others, otherReport) →
          common [report, otherReport] renamed = common [report, otherReport] others ∧
          (first.degradeBridges = second.degradeBridges → report = otherReport) := by
  intro run common
  refine ⟨ends_well_alike classes mappings hierarchy supplement first second, ?_⟩
  intro renamed report others otherReport done also
  obtain ⟨processed, each, rfl, rfl⟩ := (renameClasses_eq_ok_iff _ _ _ _ _).mp done
  obtain ⟨otherProcessed, otherEach, rfl, rfl⟩ := (renameClasses_eq_ok_iff _ _ _ _ _).mp also
  have places := forall₂_getElem? each otherEach
  constructor
  · refine List.ext_getElem? fun place => ?_
    simp only [common, PassOptions.commonParts, List.getElem?_mapIdx, List.getElem?_map]
    rcases places place with
      ⟨nothing, nothingElse⟩ | ⟨file, out, other, given, found, foundElse, holds⟩
    · rw [nothing, nothingElse]
    · rw [found, foundElse]
      refine congrArg some (Pass.common_of_process holds.1 holds.2 ?_)
      intro methodPlace method declared entry member owner bridge
      rcases List.mem_append.mp member with here | there
      · refine isListed_of_mem given declared List.mem_cons_self ?_ owner bridge
        exact List.mem_flatMap.mpr ⟨out, List.mem_of_getElem? found, here⟩
      · refine isListed_of_mem given declared (List.mem_cons_of_mem _ List.mem_cons_self) ?_ owner
          bridge
        exact List.mem_flatMap.mpr ⟨other, List.mem_of_getElem? foundElse, there⟩
  · intro same
    have bridges : processed.map Prod.snd = otherProcessed.map Prod.snd := by
      refine List.ext_getElem? fun place => ?_
      rw [List.getElem?_map, List.getElem?_map]
      rcases places place with
        ⟨nothing, nothingElse⟩ | ⟨file, out, other, _, found, foundElse, holds⟩
      · rw [nothing, nothingElse]
      · rw [found, foundElse]
        exact congrArg some (Pass.reported_alike holds.1 holds.2 same)
    have count : processed.length = otherProcessed.length :=
      each.length_eq.symm.trans otherEach.length_eq
    rw [List.flatMap_def, List.flatMap_def, bridges, count]

namespace Supplier

/-- A class with a method and a bridge that forwards to it. -/
def file (name : ClassName) (supply : MethodName) (flags : Nat)
    (parameters : Option (List MethodParameter)) : ClassFile :=
  .ofMethods name none
    [⟨.none, supply, ⟨"(I)I"⟩, none, none, none, parameters⟩,
      ⟨.ofNat flags, ⟨"get"⟩, ⟨"(I)J"⟩, some ⟨none, none,
        [⟨none, .call .onVirtual ⟨name, supply, ⟨"(I)I"⟩⟩⟩], [], none, none, none⟩,
          none, none, none⟩]

def old : ClassFile := file ⟨"a"⟩ ⟨"get"⟩ 4160 none

def mappings : Mappings :=
  (((∅ : Mappings).addClass ⟨"a"⟩ ⟨"c"⟩).addMethod ⟨"a"⟩ ⟨⟨"get"⟩, ⟨"(I)I"⟩⟩ ⟨"take"⟩).addParameters
    ⟨"a"⟩ ⟨⟨"get"⟩, ⟨"(I)I"⟩⟩ [⟨"x"⟩]

/-- What the class becomes with no option, and with all of them. -/
def plain : ClassFile := file ⟨"c"⟩ ⟨"take"⟩ 4160 none

def full : ClassFile := file ⟨"c"⟩ ⟨"take"⟩ 0 (some [⟨some ⟨"x"⟩, .none⟩])

def report : PassReport := ⟨1, [⟨⟨"a"⟩, ⟨⟨"get"⟩, ⟨"(I)J"⟩⟩, ⟨⟨"get"⟩, ⟨"(I)I"⟩⟩⟩]⟩

end Supplier

/-- With no option the bridge stays one and the parameter has no name. With all of them both change,
and nothing else does. -/
theorem supplier_common_parts :
    let run := fun options => (renameClasses [Supplier.old] Supplier.mappings ∅ ∅ options).result
    let common := PassOptions.commonParts ⟨true, true, true⟩ [Supplier.old]
      [⟨1, []⟩, Supplier.report]
    run ⟨false, false, false⟩ = .ok ([Supplier.plain], ⟨1, []⟩) ∧
      run ⟨true, true, true⟩ = .ok ([Supplier.full], Supplier.report) ∧
      Supplier.plain ≠ Supplier.full ∧ common [Supplier.plain] = common [Supplier.full] := by
  have without : (renameClasses [Supplier.old] Supplier.mappings ∅ ∅ ⟨false, false, false⟩).result =
      .ok ([Supplier.plain], ⟨1, []⟩) := by cbv
  have withAll : (renameClasses [Supplier.old] Supplier.mappings ∅ ∅ ⟨true, true, true⟩).result =
      .ok ([Supplier.full], Supplier.report) := by cbv
  have differ : Supplier.plain ≠ Supplier.full := by
    intro same
    have parameters := congrArg (fun file : ClassFile => file.methods.map Method.parameters) same
    cases parameters
  have orthogonal := options_are_orthogonal [Supplier.old] Supplier.mappings ∅ ∅
    ⟨false, false, false⟩ ⟨true, true, true⟩
  exact ⟨without, withAll, differ, (orthogonal.2 _ _ _ _ without withAll).1⟩

end Renaming

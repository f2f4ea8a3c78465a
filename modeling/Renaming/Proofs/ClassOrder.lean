import Renaming.Proofs.HiddenMembers

/-!
# The order of the classes

A pass goes through its classes one after the other, and before that it makes an index of all of
them. What it makes of a class depends on the others through the index only, and on the index
through what is found in it. So it does not matter in which order the classes are given, as long as
no two have the same name: then the same is found in the index, and each class becomes the same,
wherever it stands.

Hierarchies in which the same is found show the same of every class, so they lead a search to the
same answers (`Hierarchy.ShowAlike.search`).

* `Pass.Alike.process`: passes that find the same make the same of a class, and record the same.
* `lookup_ofClasses_of_perm`: in which order classes with distinct names are indexed makes no
  difference to what is found.
-/

namespace Renaming

/-! ### Renamers and passes that find the same -/

namespace Resolver.Alike

variable {first second : Resolver} (alike : first.Alike second)

include alike

theorem methodName? (ref : MethodRef) (isStatic : Bool) :
    (Renamer.ofResolver first).methodName? ref isStatic =
      (Renamer.ofResolver second).methodName? ref isStatic := by
  show first.resolveMethod ref isStatic >>= _ = second.resolveMethod ref isStatic >>= _
  rw [alike.resolveMethod]

theorem fieldRef (ref : FieldRef) (isStatic : Bool) :
    (Renamer.ofResolver first).fieldRef ref isStatic =
      (Renamer.ofResolver second).fieldRef ref isStatic := by
  have name : (Renamer.ofResolver first).fieldName? ref isStatic =
      (Renamer.ofResolver second).fieldName? ref isStatic := by
    show first.resolveField ref isStatic >>= _ = second.resolveField ref isStatic >>= _
    rw [alike.resolveField]
  have mappings : (Renamer.ofResolver first).mappings = (Renamer.ofResolver second).mappings :=
    alike.mappings
  rw [Renamer.fieldRef, Renamer.fieldRef, name, mappings]

theorem methodRef (ref : MethodRef) (isStatic : Bool) :
    (Renamer.ofResolver first).methodRef ref isStatic =
      (Renamer.ofResolver second).methodRef ref isStatic := by
  have mappings : (Renamer.ofResolver first).mappings = (Renamer.ofResolver second).mappings :=
    alike.mappings
  rw [Renamer.methodRef, Renamer.methodRef, alike.methodName?, mappings]

end Resolver.Alike

/-- Both passes find the same, know the same of methods and have the same options. -/
structure Pass.Alike (first second : Pass) : Prop where
  resolver : first.resolver.Alike second.resolver
  supplement : first.supplement = second.supplement
  options : first.options = second.options

namespace Pass.Alike

section Constants

variable {first second : Pass} (alike : first.Alike second)

include alike

theorem mappings : first.mappings = second.mappings := alike.resolver.mappings

theorem handle (handle : Handle) : first.handle handle = second.handle handle := by
  cases handle with
  | field use ref => rw [Pass.handle, Pass.handle, renamer, renamer, alike.resolver.fieldRef]
  | method how ref => rw [Pass.handle, Pass.handle, renamer, renamer, alike.resolver.methodRef]

end Constants

mutual

theorem loadable {first second : Pass} (alike : first.Alike second) :
    (value : Loadable) → first.loadable value = second.loadable value
  | .type name => by rw [Pass.loadable, Pass.loadable, alike.mappings]
  | .handle target => by rw [Pass.loadable, Pass.loadable, alike.handle]
  | .methodType descriptor => by rw [Pass.loadable, Pass.loadable, alike.mappings]
  | .computed name descriptor target arguments => by
    rw [Pass.loadable, Pass.loadable, alike.mappings, alike.handle, loadables alike arguments]
  | .integer _ => by rw [Pass.loadable, Pass.loadable]
  | .float _ => by rw [Pass.loadable, Pass.loadable]
  | .long _ => by rw [Pass.loadable, Pass.loadable]
  | .double _ => by rw [Pass.loadable, Pass.loadable]
  | .string _ => by rw [Pass.loadable, Pass.loadable]

theorem loadables {first second : Pass} (alike : first.Alike second) :
    (values : List Loadable) → first.loadables values = second.loadables values
  | [] => by rw [Pass.loadables, Pass.loadables]
  | value :: rest => by
    rw [Pass.loadables, Pass.loadables, loadable alike value, loadables alike rest]

end

section Classes

variable {first second : Pass} (alike : first.Alike second)

include alike

theorem lambdaName? (call : DynamicCall) : first.lambdaName? call = second.lambdaName? call := by
  simp only [Pass.lambdaName?, alike.resolver.resolveMethod]

theorem dynamicCall (call : DynamicCall) : first.dynamicCall call = second.dynamicCall call := by
  rw [Pass.dynamicCall, Pass.dynamicCall, alike.options, alike.lambdaName?, alike.mappings,
    alike.handle, alike.loadables]

theorem instruction (instruction : Instruction) :
    first.instruction instruction = second.instruction instruction := by
  cases instruction <;>
    simp only [Pass.instruction, renamer, alike.loadable, alike.dynamicCall, alike.mappings,
      alike.resolver.fieldRef, alike.resolver.methodRef]

theorem code (code : Code) : first.code code = second.code code := by
  have codeEntry : first.codeEntry = second.codeEntry := by
    funext entry
    rw [Pass.codeEntry, Pass.codeEntry, alike.instruction]
  have exceptionRange : first.exceptionRange = second.exceptionRange := by
    funext range
    rw [Pass.exceptionRange, Pass.exceptionRange, alike.mappings]
  have localVariable : first.localVariable = second.localVariable := by
    funext entry
    rw [Pass.localVariable, Pass.localVariable, alike.mappings]
  rw [Pass.code, Pass.code, codeEntry, exceptionRange, localVariable]

theorem method (owner : ClassName) (method : Method) :
    first.method owner method = second.method owner method := by
  have parameters : first.parameters owner method = second.parameters owner method := by
    rw [Pass.parameters, Pass.parameters, alike.mappings, alike.options]
  have exceptions : first.exceptions owner method = second.exceptions owner method := by
    rw [Pass.exceptions, Pass.exceptions, alike.mappings, alike.supplement]
  have code : first.code = second.code := funext alike.code
  rw [Pass.method, Pass.method, parameters, alike.resolver.resolveDeclaration, exceptions, code,
    alike.mappings]

theorem field (owner : ClassName) (field : Field) :
    first.field owner field = second.field owner field := by
  rw [Pass.field, Pass.field, alike.mappings]

theorem enclosingMethod (entry : EnclosingMethod) :
    first.enclosingMethod entry = second.enclosingMethod entry := by
  have methodKey : first.methodKey entry.owner = second.methodKey entry.owner := by
    funext key
    rw [Pass.methodKey, Pass.methodKey, renamer, renamer, alike.resolver.methodName?,
      alike.mappings]
  rw [Pass.enclosingMethod, Pass.enclosingMethod, methodKey, alike.mappings]

theorem classFile (file : ClassFile) : first.classFile file = second.classFile file := by
  have fields : first.field file.name = second.field file.name := funext (alike.field file.name)
  have methods : first.method file.name = second.method file.name := funext (alike.method file.name)
  have className : first.className = second.className := by
    funext name
    rw [Pass.className, Pass.className, alike.mappings]
  have nestedClass : first.nestedClass = second.nestedClass := by
    funext entry
    rw [Pass.nestedClass, Pass.nestedClass, alike.mappings]
  have enclosingMethod : first.enclosingMethod = second.enclosingMethod :=
    funext alike.enclosingMethod
  rw [Pass.classFile, Pass.classFile, fields, methods, className, nestedClass, enclosingMethod,
    alike.mappings]

/-- **Passes that find the same make the same of a class.** -/
theorem process (file : ClassFile) : first.process file = second.process file := by
  rw [Pass.process, Pass.process, alike.options]
  simp only [alike.classFile]

end Classes

end Pass.Alike

/-! ### The index -/

/-- What is found in a hierarchy of classes with distinct names: what is seen of the class with the
name. -/
theorem lookup_ofClasses_eq_some_iff {classes : List ClassFile}
    (distinct : (classes.map ClassFile.name).Nodup) {name : ClassName} {info : ClassInfo} :
    (Hierarchy.ofClasses classes).lookup name = some info ↔
      ∃ file ∈ classes, file.name = name ∧ file.info = info := by
  have keys : ((classes.map fun file => (file.name, file.info)).map Prod.fst).Nodup := by
    rwa [List.map_map]
  have entries : indexTable classes = ⟨classes.map fun file => (file.name, file.info)⟩ :=
    Table.ofEntries_of_nodup keys
  have unambiguous : (indexTable classes).Unambiguous := Table.unambiguous_ofEntries _
  refine (Table.get?_eq_some_iff unambiguous).trans ?_
  -- with distinct names no class takes the place of another one
  rw [entries, List.mem_map]
  simp only [Prod.mk.injEq]

/-- Classes with distinct names make hierarchies in which the same is found, whatever their
order. -/
theorem lookup_ofClasses_of_perm {classes others : List ClassFile} (permuted : classes.Perm others)
    (distinct : (classes.map ClassFile.name).Nodup) (name : ClassName) :
    (Hierarchy.ofClasses classes).lookup name = (Hierarchy.ofClasses others).lookup name := by
  have distinctToo : (others.map ClassFile.name).Nodup :=
    (permuted.map ClassFile.name).nodup_iff.mp distinct
  apply Option.ext
  intro info
  rw [lookup_ofClasses_eq_some_iff distinct, lookup_ofClasses_eq_some_iff distinctToo]
  simp only [permuted.mem_iff]

/-! ### Permuted runs -/

/-- The bridges that are degraded in a class are reported under its name. -/
theorem ClassFile.owner_of_degradeBridges (file : ClassFile) :
    file.degradeBridges.Ensures fun out => ∀ bridge ∈ out.2, bridge.owner = file.name := by
  unfold degradeBridges
  refine Recorded.ensures_lift.bind fun targets _ => ?_
  refine Recorded.ensures_result.bind fun _ _ => Recorded.ensures_pure fun bridge member => ?_
  obtain ⟨⟨method, target⟩, _, found⟩ := List.mem_filterMap.mp member
  obtain ⟨_, _, rfl⟩ := Option.map_eq_some_iff.mp found
  rfl

theorem Pass.owner_of_process {pass : Pass} {file : ClassFile}
    {out : ClassFile × List DegradedBridge}
    (done : (pass.process file).result = .ok out) : ∀ bridge ∈ out.2, bridge.owner = file.name := by
  obtain ⟨degraded, first, _⟩ := process_eq_ok_iff.mp done
  by_cases degrades : pass.options.degradeBridges = true
  · rw [if_pos degrades] at first
    exact file.owner_of_degradeBridges (degraded, out.2) first
  · rw [if_neg degrades, Except.ok.injEq, Prod.mk.injEq] at first
    rw [← first.2]
    simp

/-- What relates a family to a list, place by place, relates it to another family. -/
private theorem forall₂_ofFn_iff {α β : Type} {relation : α → β → Prop} {count : Nat}
    {items : Fin count → α} {values : List β} :
    List.Forall₂ relation (List.ofFn items) values ↔
      ∃ others : Fin count → β, values = List.ofFn others ∧
        ∀ place, relation (items place) (others place) := by
  induction count generalizing values with
  | zero => simp
  | succ count ih =>
    rw [List.ofFn_succ, List.forall₂_cons_left_iff]
    constructor
    · rintro ⟨value, rest, head, tail, rfl⟩
      obtain ⟨others, rfl, each⟩ := ih.mp tail
      refine ⟨Fin.cons value others, by simp [List.ofFn_succ], ?_⟩
      exact Fin.cases head each
    · rintro ⟨others, rfl, each⟩
      exact ⟨others 0, _, each 0, ih.mpr ⟨_, rfl, fun place => each place.succ⟩, List.ofFn_succ⟩

section Permuted

variable {count : Nat} {classes : Fin count → ClassFile} {mappings : Mappings}
  {hierarchy : Hierarchy} {supplement : Supplement} {options : PassOptions}

/-- A run over a family of classes gives a family of classes, with a block of the report for
each. -/
theorem renameClasses_ofFn_eq_ok_iff {renamed : List ClassFile} {report : PassReport} :
    (renameClasses (List.ofFn classes) mappings hierarchy supplement options).result =
        .ok (renamed, report) ↔
      ∃ (new : Fin count → ClassFile) (blocks : Fin count → List DegradedBridge),
        (∀ place, ((Pass.ofIndex (indexTable (List.ofFn classes)) mappings hierarchy supplement
          options).process (classes place)).result = .ok (new place, blocks place)) ∧
        renamed = List.ofFn new ∧ report = ⟨count, (List.ofFn blocks).flatten⟩ := by
  rw [renameClasses_eq_ok_iff]
  constructor
  · rintro ⟨processed, each, rfl, rfl⟩
    obtain ⟨outs, rfl, done⟩ := forall₂_ofFn_iff.mp each
    refine ⟨fun place => (outs place).1, fun place => (outs place).2, done, ?_, ?_⟩
    · rw [List.map_ofFn]
      rfl
    · rw [List.length_ofFn, List.flatMap, List.map_ofFn]
      rfl
  · rintro ⟨new, blocks, done, rfl, rfl⟩
    refine ⟨List.ofFn fun place => (new place, blocks place), ?_, ?_, ?_⟩
    · exact forall₂_ofFn_iff.mpr ⟨_, rfl, done⟩
    · rw [List.map_ofFn]
      rfl
    · rw [List.length_ofFn, List.flatMap, List.map_ofFn]
      rfl

/-- The passes over the classes in two orders find the same. -/
theorem alike_of_reordered (distinct : Function.Injective fun place => (classes place).name)
    (order : Equiv.Perm (Fin count)) :
    (Pass.ofIndex (indexTable (List.ofFn classes)) mappings hierarchy supplement options).Alike
      (Pass.ofIndex (indexTable (List.ofFn (classes ∘ order))) mappings hierarchy supplement
        options) := by
  have names : ((List.ofFn classes).map ClassFile.name).Nodup := by
    rw [List.map_ofFn]
    exact List.nodup_ofFn.mpr distinct
  have permuted : (List.ofFn classes).Perm (List.ofFn (classes ∘ order)) :=
    (order.ofFn_comp_perm classes).symm
  have alike := Hierarchy.showAlike_of_lookup_eq (lookup_ofClasses_of_perm permuted names)
  exact ⟨⟨rfl, alike.above hierarchy⟩, rfl, rfl⟩

/-- If the run over the classes in one order ends well, so does the one over them in another, and
each class becomes what it became. -/
theorem reordered_run (distinct : Function.Injective fun place => (classes place).name)
    (order : Equiv.Perm (Fin count)) {renamed : List ClassFile} {report : PassReport}
    (done : (renameClasses (List.ofFn classes) mappings hierarchy supplement options).result =
      .ok (renamed, report)) :
    ∃ (new : Fin count → ClassFile) (blocks : Fin count → List DegradedBridge),
      renamed = List.ofFn new ∧ report = ⟨count, (List.ofFn blocks).flatten⟩ ∧
        (∀ place, ∀ bridge ∈ blocks place, bridge.owner = (classes place).name) ∧
        (renameClasses (List.ofFn (classes ∘ order)) mappings hierarchy supplement options).result =
          .ok (List.ofFn (new ∘ order), ⟨count, (List.ofFn (blocks ∘ order)).flatten⟩) := by
  obtain ⟨new, blocks, each, rfl, rfl⟩ := renameClasses_ofFn_eq_ok_iff.mp done
  refine ⟨new, blocks, rfl, rfl, fun place => Pass.owner_of_process (each place), ?_⟩
  refine renameClasses_ofFn_eq_ok_iff.mpr ⟨_, _, fun place => ?_, rfl, rfl⟩
  rw [← (alike_of_reordered distinct order).process]
  exact each (order place)

end Permuted

/-! ### The statement -/

/-- **The order of the classes does not matter.** Let classes with distinct names be given in two
orders, with the same mappings, hierarchy, supplement and options. The pass ends well over both or
over neither. If it does, the renamed classes are the same in the other order, and the bridges that
are reported come in blocks, one for each class, which are the same in the other order too. -/
theorem class_order_does_not_matter {count : Nat} (classes : Fin count → ClassFile)
    (distinct : Function.Injective fun place => (classes place).name)
    (order : Equiv.Perm (Fin count)) (mappings : Mappings) (hierarchy : Hierarchy)
    (supplement : Supplement) (options : PassOptions) :
    let run := fun files : Fin count → ClassFile =>
      (renameClasses (List.ofFn files) mappings hierarchy supplement options).result
    ((∃ out, run classes = .ok out) ↔ ∃ out, run (classes ∘ order) = .ok out) ∧
      ∀ renamed report, run classes = .ok (renamed, report) →
        ∃ (new : Fin count → ClassFile) (blocks : Fin count → List DegradedBridge),
          renamed = List.ofFn new ∧ report = ⟨count, (List.ofFn blocks).flatten⟩ ∧
            (∀ place, ∀ bridge ∈ blocks place, bridge.owner = (classes place).name) ∧
            run (classes ∘ order) =
              .ok (List.ofFn (new ∘ order), ⟨count, (List.ofFn (blocks ∘ order)).flatten⟩) := by
  intro run
  refine ⟨⟨?_, ?_⟩, fun renamed report done => reordered_run distinct order done⟩
  · rintro ⟨out, done⟩
    obtain ⟨_, _, _, _, _, other⟩ := reordered_run distinct order done
    exact ⟨_, other⟩
  · rintro ⟨out, done⟩
    -- going back to the first order is another change of order
    have distinctToo : Function.Injective fun place => ((classes ∘ order) place).name :=
      distinct.comp order.injective
    obtain ⟨_, _, _, _, _, other⟩ := reordered_run distinctToo order.symm done
    rw [Function.comp_assoc, Equiv.self_comp_symm, Function.comp_id] at other
    exact ⟨_, other⟩

namespace Container

/-- A bridge that calls the method of its class with the other descriptor. -/
def bridge : Method :=
  { Method.bare ⟨"get"⟩ ⟨"()LO;"⟩ with
    access := .ofNat 4160
    code := some ⟨none, none, [⟨none, .call .onVirtual ⟨⟨"B"⟩, ⟨"get"⟩, ⟨"()LS;"⟩⟩⟩],
      [], none, none, none⟩ }

/-- The class above declares what the bridge overrides. -/
def upper (name : MethodName) : ClassFile := .ofMethods ⟨"A"⟩ none [.bare name ⟨"()LO;"⟩]

def lower (bridge : Method) : ClassFile :=
  .ofMethods ⟨"B"⟩ (some ⟨"A"⟩) [.bare ⟨"get"⟩ ⟨"()LS;"⟩, bridge]

/-- The bridge as an ordinary method under the name that it takes from the class above. -/
def degraded : Method := { bridge with access := .none, name := ⟨"take"⟩ }

def mappings : Mappings := (∅ : Mappings).addMethod ⟨"A"⟩ ⟨⟨"get"⟩, ⟨"()LO;"⟩⟩ ⟨"take"⟩

def classes (place : Fin 2) : ClassFile :=
  if place = 0 then upper ⟨"get"⟩ else lower bridge

/-- What is reported of the bridge. -/
def reported : DegradedBridge := ⟨⟨"B"⟩, ⟨⟨"get"⟩, ⟨"()LO;"⟩⟩, ⟨⟨"get"⟩, ⟨"()LS;"⟩⟩⟩

end Container

/-- The lower class takes a name from the upper one also if it comes first. -/
theorem container_order_does_not_matter :
    (renameClasses [Container.upper ⟨"get"⟩, Container.lower Container.bridge]
        Container.mappings ∅ ∅ {}).result =
      .ok ([Container.upper ⟨"take"⟩, Container.lower Container.degraded],
        ⟨2, [Container.reported]⟩) ∧
      ∃ report, (renameClasses [Container.lower Container.bridge, Container.upper ⟨"get"⟩]
          Container.mappings ∅ ∅ {}).result =
        .ok ([Container.lower Container.degraded, Container.upper ⟨"take"⟩], report) := by
  have done : (renameClasses [Container.upper ⟨"get"⟩, Container.lower Container.bridge]
        Container.mappings ∅ ∅ {}).result =
      .ok ([Container.upper ⟨"take"⟩, Container.lower Container.degraded],
        ⟨2, [Container.reported]⟩) := by
    cbv
  have distinct : ∀ place other, (Container.classes place).name = (Container.classes other).name →
      place = other := by decide
  obtain ⟨new, blocks, files, _, _, other⟩ := (class_order_does_not_matter Container.classes
    (fun _ _ => distinct _ _) (Equiv.swap 0 1) Container.mappings ∅ ∅ {}).2 _ _ done
  have places : List.ofFn (new ∘ Equiv.swap 0 1) = [new 1, new 0] := rfl
  have first : Container.upper ⟨"take"⟩ = new 0 := (List.cons.inj files).1
  have second : Container.lower Container.degraded = new 1 :=
    (List.cons.inj (List.cons.inj files).2).1
  rw [places, ← first, ← second] at other
  exact ⟨done, _, other⟩

end Renaming

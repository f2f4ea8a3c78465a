import Renaming.Proofs.Agreement
import Renaming.Proofs.Runs

/-!
# Methods that can be overridden

A method that is neither private nor static is named by a search up the hierarchy wherever it
occurs, but not by the same search. Its declaration asks for its own entry first and then for a
method that it overrides, which must not be final. References ask for the first entry of any class
that offers the method; the class of a lambda comes from a descriptor, the class around a local
class from an attribute.

The searches differ at final methods only. `method_eq_declaration` says that they find the same
entry if the one for references comes by no final method. Everything in the classes that refers to a
declared method then has its new name: this is `ClassFile.Follows`, which goes through all places
where a method is named.
-/

namespace Renaming

/-! ### Two searches -/

namespace Hierarchy

variable (hierarchy : Hierarchy)

private theorem findSome?_eq_of_throughFirst {τ : Type} {first second : ClassName → Option τ}
    {names : List ClassName}
    (agree : ∀ name ∈ throughFirst (fun name => (first name).isSome) names,
      first name = second name) :
    names.findSome? first = names.findSome? second := by
  induction names with
  | nil => rfl
  | cons name rest ih =>
    rw [throughFirst] at agree
    rw [List.findSome?_cons, List.findSome?_cons]
    cases found : first name with
    | some answer =>
      simp only [found, Option.isSome_some, ↓reduceIte, List.mem_singleton, forall_eq] at agree
      rw [← agree]
    | none =>
      simp only [found, Option.isSome_none, Bool.false_eq_true, ↓reduceIte, List.mem_cons,
        forall_eq_or_imp] at agree
      rw [← agree.1]
      exact ih agree.2

/-- Two searches end alike if their answers are the same at every class that the first one
visits. -/
theorem search_congr {τ : Type} {site : ClassName}
    {answer other : ClassName → Option ClassInfo → Bool → Option τ}
    (agree : ∀ name ∈ hierarchy.visited answer site,
      hierarchy.answerAt answer site name = hierarchy.answerAt other site name) :
    hierarchy.search answer site = hierarchy.search other site := by
  rw [visited_eq_throughFirst] at agree
  rw [search_eq_findSome?, search_eq_findSome?]
  exact findSome?_eq_of_throughFirst agree

/-- The class declares the method as a final one of instances, not privately. -/
def OffersFinal (ref : MethodRef) (owner : ClassName) : Prop :=
  ∃ info method, hierarchy.lookup owner = some info ∧ info.method? ref.key = some method ∧
    method.access.isPrivate = false ∧ method.access.isStatic = false ∧ method.access.isFinal = true

/-- A method that is offered and not final can be overridden. -/
theorem offersMethod_iff_of_not_final {ref : MethodRef} {owner : ClassName}
    (notFinal : ¬ hierarchy.OffersFinal ref owner) :
    hierarchy.OffersMethod ref false owner ↔ hierarchy.OffersOverriding ref owner := by
  constructor
  · rintro ⟨info, method, known, declared, notPrivate, static⟩
    have notStatic : method.access.isStatic = false := by simpa using static
    refine ⟨info, method, known, declared, notPrivate, notStatic, ?_⟩
    by_contra final
    exact notFinal ⟨info, method, known, declared, notPrivate, notStatic, by simpa using final⟩
  · rintro ⟨info, method, known, declared, notPrivate, notStatic, _⟩
    exact ⟨info, method, known, declared, notPrivate, Or.inr notStatic⟩

end Hierarchy

namespace Resolver

variable (resolver : Resolver)

/-- The entry that a visit finds for a method reference. -/
def methodEntry (ref : MethodRef) (isStatic : Bool) (owner : ClassName) (info : Option ClassInfo)
    (isSite : Bool) : Option (Resolved MethodName) :=
  if methodCounts ref isStatic info isSite then
    (resolver.mappings.methodName? owner ref.key).map (Resolved.mk owner)
  else none

theorem method_eq_search {ref : MethodRef} (ordinary : ref.name.isSpecial = false)
    (isStatic : Bool) : resolver.method ref isStatic =
      resolver.hierarchy.search (resolver.methodEntry ref isStatic) ref.owner := by
  rw [method, ordinary, if_neg Bool.false_ne_true]
  rfl

/-- No class that the search for the method visits, but perhaps the first one, declares it as
final. -/
def MeetsNoFinal (ref : MethodRef) : Prop :=
  ∀ owner ∈ resolver.hierarchy.visited (resolver.methodEntry ref false) ref.owner,
    owner ≠ ref.owner → ¬ resolver.hierarchy.OffersFinal ref owner

/-- An entry of the class that a reference names is the one that is found. -/
theorem method_of_own {ref : MethodRef} {name : MethodName} (ordinary : ref.name.isSpecial = false)
    (own : resolver.mappings.methodName? ref.owner ref.key = some name) (isStatic : Bool) :
    resolver.method ref isStatic = some ⟨ref.owner, name⟩ := by
  rw [method_eq_some_iff]
  obtain ⟨rest, order⟩ := resolver.hierarchy.lookupOrder_eq_cons ref.owner
  rw [order]
  exact ⟨ordinary, Resolved.isFirst_of_own own⟩

/-- Without an own entry and without final methods on the way, what a reference finds is what is
overridden. -/
theorem method_eq_overridden {ref : MethodRef} (ordinary : ref.name.isSpecial = false)
    (unnamed : resolver.mappings.methodName? ref.owner ref.key = none)
    (free : resolver.MeetsNoFinal ref) : resolver.method ref false = resolver.overridden ref := by
  rw [method_eq_search resolver ordinary, overridden]
  refine resolver.hierarchy.search_congr fun owner visited => ?_
  simp only [Hierarchy.answerAt, methodEntry]
  by_cases same : owner = ref.owner
  · -- a reference would take the entry of the class itself, but there is none
    subst same
    simp [unnamed]
  · have alike : methodCounts ref false (resolver.hierarchy.lookup owner) (owner = ref.owner) =
        isOverridden ref (resolver.hierarchy.lookup owner) (owner = ref.owner) := by
      rw [Bool.eq_iff_iff, methodCounts_iff, isOverridden_iff, decide_eq_false same]
      simp [resolver.hierarchy.offersMethod_iff_of_not_final (free owner visited same)]
    rw [alike]

/-- **A reference and the declaration find the same entry,** if the method is neither private nor
static and the search for the reference comes by no final one. -/
theorem method_eq_declaration {ref : MethodRef} {access : MethodAccess}
    (notPrivate : access.isPrivate = false) (notStatic : access.isStatic = false)
    (free : resolver.MeetsNoFinal ref) :
    resolver.method ref false = resolver.declaration ref access := by
  cases special : ref.name.isSpecial with
  | true => simp [method, declaration, special]
  | false =>
    cases own : resolver.mappings.methodName? ref.owner ref.key with
    | some name => simp [resolver.method_of_own special own, declaration, special, own]
    | none =>
      rw [resolver.method_eq_overridden special own free]
      simp [declaration, special, own, notPrivate, notStatic]

end Resolver

/-! ### All places where a method is named -/

/-- The instructions of a method, none if it has no code. -/
def Method.instructions (method : Method) : List Instruction :=
  method.code.toList.flatMap fun code => code.instructions.map CodeEntry.instruction

@[simp] theorem Method.instructions_degradedTo (method : Method) (target : Option MethodKey) :
    (method.degradedTo target).instructions = method.instructions := by
  rw [instructions, code_degradedTo, instructions]

/-- The call makes a lambda that implements the method of an interface: its result is the interface,
its name that of the method, and its first argument the type of the method. -/
structure DynamicCall.Implements (call : DynamicCall) (ref : MethodRef) : Prop where
  factory : Pass.isLambdaFactory call.handle = true
  name : call.name = ref.name
  argument : call.arguments.head? = some (.methodType ref.descriptor)
  result : ∃ type, call.descriptor.type = .ok type ∧
    type.result = some (.plain (.object ref.owner))

/-- **Where a class names the method `old`, the renamed class names the method `new`.** -/
structure ClassFile.Follows (file : ClassFile) (lambdas : Bool) (old new : MethodRef)
    (renamed : ClassFile) : Prop where
  /-- Calls on instances, by whatever instruction. -/
  calls : List.Forall₂ (fun before after => ∀ kind : CallKind, kind.isStatic = false →
      before = .call kind old → after = .call kind new)
    (file.methods.flatMap Method.instructions) (renamed.methods.flatMap Method.instructions)
  /-- All uses on instances: besides calls, the handles in constants and in calls that are computed
  at run time, at any depth. -/
  uses : List.Forall₂ (fun before after => before = .method false old → after = .method false new)
    (file.methods.flatMap Method.references) (renamed.methods.flatMap Method.references)
  /-- The method around a local class. -/
  enclosing : file.enclosingMethod = some ⟨old.owner, some old.key⟩ →
    renamed.enclosingMethod = some ⟨new.owner, some new.key⟩
  /-- Lambdas that implement the method. -/
  implemented : lambdas = true → List.Forall₂ (fun before after => ∀ call : DynamicCall,
      before = .callDynamic call → call.Implements old →
        ∃ newCall, after = .callDynamic newCall ∧ newCall.name = new.name)
    (file.methods.flatMap Method.instructions) (renamed.methods.flatMap Method.instructions)

/-! ### What the pass makes of them -/

namespace Pass

open Recorded

/-- The pass calls the method `old` of an object class by the names in `new`. -/
structure RefersTo (pass : Pass) (old new : MethodRef) : Prop where
  object : old.owner.isArray = false
  owner : pass.mappings.classNameAny old.owner = .ok new.owner
  name : ((pass.resolver.method old false).map Resolved.name).getD old.name = new.name
  descriptor : pass.mappings.methodDescriptor old.descriptor = .ok new.descriptor

/-- A method that can be overridden is referred to as it is declared. -/
theorem refersTo_of_method {pass : Pass} {owner newOwner : ClassName} {method new : Method}
    (object : owner.isArray = false) (ownerDone : pass.mappings.classNameAny owner = .ok newOwner)
    (notPrivate : method.access.isPrivate = false) (notStatic : method.access.isStatic = false)
    (free : pass.resolver.MeetsNoFinal (method.key.on owner))
    (done : (pass.method owner method).result = .ok new) :
    pass.RefersTo (method.key.on owner) ⟨newOwner, new.name, new.descriptor⟩ := by
  obtain ⟨read, name⟩ := pass.name_and_descriptor_of_method done
  refine ⟨object, ownerDone, ?_, read⟩
  rw [pass.resolver.method_eq_declaration notPrivate notStatic free]
  exact name.symm

/-- The name of a lambda is looked up as that of a call on the interface. -/
theorem lambdaName?_of_implements (pass : Pass) {call : DynamicCall} {ref : MethodRef}
    (implements : call.Implements ref) :
    (pass.lambdaName? call).result = .ok ((pass.resolver.method ref false).map Resolved.name) := by
  obtain ⟨type, read, result⟩ := implements.result
  obtain ⟨rest, arguments⟩ := List.head?_eq_some_iff.mp implements.argument
  rw [Pass.lambdaName?, if_pos implements.factory, arguments]
  refine result_bind_eq_ok_iff.mpr ⟨type, read, ?_⟩
  rw [result, implements.name]
  rfl

namespace RefersTo

variable {pass : Pass} {old new : MethodRef} (refers : pass.RefersTo old new)

include refers

theorem methodRef : (pass.renamer.methodRef old false).result = .ok new := by
  have done := Renamer.methodRef_of_parts pass.resolver false refers.owner refers.descriptor
  rw [refers.object, if_neg Bool.false_ne_true, refers.name] at done
  exact done

theorem call {kind : CallKind} (onInstance : kind.isStatic = false) :
    (pass.instruction (.call kind old)).result = .ok (.call kind new) := by
  rw [instruction, onInstance]
  exact result_bind_eq_ok_iff.mpr ⟨new, refers.methodRef, rfl⟩

theorem reference : Reference.rename pass.renamer (.method false old) = .ok (.method false new) :=
  except_map_eq_ok_iff.mpr ⟨new, refers.methodRef, rfl⟩

theorem enclosingMethod :
    (pass.enclosingMethod ⟨old.owner, some old.key⟩).result = .ok ⟨new.owner, some new.key⟩ := by
  have key : (pass.methodKey old.owner old.key).result = .ok new.key := by
    refine result_bind_eq_ok_iff.mpr ⟨(pass.resolver.method old false).map Resolved.name, rfl, ?_⟩
    refine result_bind_eq_ok_iff.mpr ⟨new.descriptor, refers.descriptor, ?_⟩
    exact congrArg (fun name => Except.ok (MethodKey.mk name new.descriptor)) refers.name
  have method : (Option.mapM (pass.methodKey old.owner) (some old.key)).result =
      .ok (some new.key) :=
    result_bind_eq_ok_iff.mpr ⟨new.key, key, rfl⟩
  refine result_bind_eq_ok_iff.mpr ⟨some new.key, method, ?_⟩
  exact result_bind_eq_ok_iff.mpr ⟨new.owner, refers.owner, rfl⟩

theorem implemented (lambdas : pass.options.renameLambdas = true) {call : DynamicCall}
    (implements : call.Implements old) :
    (pass.dynamicCall call).Ensures fun newCall => newCall.name = new.name := by
  unfold dynamicCall
  rw [if_pos lambdas]
  refine ensures_result.bind fun name found => ?_
  rw [pass.lambdaName?_of_implements implements, Except.ok.injEq] at found
  refine ensures_result.bind fun descriptor _ => ensures_result.bind fun handle _ => ?_
  refine ensures_result.bind fun arguments _ => ensures_pure ?_
  show name.getD call.name = new.name
  rw [← found, implements.name]
  exact refers.name

end RefersTo

/-! ### Whole classes -/

private theorem forall₂_trans {α β γ : Type} {first : α → β → Prop} {second : β → γ → Prop}
    {items : List α} {middle : List β} {last : List γ} (here : List.Forall₂ first items middle)
    (there : List.Forall₂ second middle last) :
    List.Forall₂ (fun item value => ∃ between, first item between ∧ second between value)
      items last := by
  induction here generalizing last with
  | nil =>
    cases there
    exact .nil
  | cons head _ ih =>
    cases there with
    | cons next rest => exact .cons ⟨_, head, next⟩ (ih rest)

variable (pass : Pass)

/-- What a run makes of a class, as far as methods are named in it. -/
structure Rewrites (file renamed : ClassFile) : Prop where
  name : pass.mappings.classNameAny file.name = .ok renamed.name
  methods : List.Forall₂ (fun method new => ∃ target,
      (pass.method file.name (method.degradedTo target)).result = .ok new)
        file.methods renamed.methods
  enclosing : ∀ entry ∈ file.enclosingMethod, ∃ new,
    (pass.enclosingMethod entry).result = .ok new ∧ renamed.enclosingMethod = some new

theorem ensures_parts_of_classFile (file : ClassFile) :
    (pass.classFile file).Ensures fun renamed =>
      pass.mappings.classNameAny file.name = .ok renamed.name ∧
        List.Forall₂ (fun method new => (pass.method file.name method).result = .ok new)
          file.methods renamed.methods ∧
        ∀ entry ∈ file.enclosingMethod, ∃ new,
          (pass.enclosingMethod entry).result = .ok new ∧ renamed.enclosingMethod = some new := by
  unfold Pass.classFile
  refine ensures_result.bind fun fields _ => ?_
  refine (ensures_mapM fun method => ensures_result.within _).bind fun methods declared => ?_
  refine (pass.ensures_className file.name).bind fun name named => ?_
  refine ensures_result.bind fun _ _ => ensures_result.bind fun _ _ =>
    ensures_result.bind fun _ _ => ?_
  refine ensures_result.bind fun enclosing around => ?_
  refine ensures_result.bind fun _ _ => ensures_result.bind fun _ _ =>
    ensures_result.bind fun _ _ => ?_
  refine ensures_result.bind fun _ _ => ensures_pure ⟨named, declared, ?_⟩
  intro entry present
  rw [Option.mem_def.mp present] at around
  obtain ⟨new, done, ⟨⟩⟩ := result_bind_eq_ok_iff.mp around
  exact ⟨new, done, rfl⟩

/-- The instructions of a renamed method are those of the method, each renamed. -/
theorem ensures_instructions (owner : ClassName) (method : Method) :
    (pass.method owner method).Ensures fun new =>
      List.Forall₂ (fun before after => (pass.instruction before).result = .ok after)
        method.instructions new.instructions := by
  have executed : ∀ code : Code, (pass.code code).Ensures fun new =>
      List.Forall₂ (fun before after => (pass.instruction before).result = .ok after)
        (code.instructions.map CodeEntry.instruction)
          (new.instructions.map CodeEntry.instruction) := by
    intro code
    unfold Pass.code
    have each : ∀ entry : CodeEntry, (pass.codeEntry entry).Ensures fun new =>
        (pass.instruction entry.instruction).result = .ok new.instruction :=
      fun entry => ensures_result.bind fun _ done => ensures_pure done
    refine (ensures_mapM each).bind fun instructions renamed => ?_
    refine ensures_result.bind fun _ _ => ensures_result.bind fun _ _ => ensures_pure ?_
    rw [List.forall₂_map_left_iff, List.forall₂_map_right_iff]
    exact renamed
  unfold Pass.method
  refine ensures_result.bind fun _ _ => ensures_result.bind fun _ _ =>
    ensures_result.bind fun _ _ => ?_
  refine (ensures_mapM_option executed).bind fun code renamed => ?_
  exact ensures_result.bind fun _ _ => ensures_pure (List.rel_flatMap renamed fun _ _ same => same)

variable {pass}

theorem rewrites_of_process {file renamed : ClassFile} {bridges : List DegradedBridge}
    (done : (pass.process file).result = .ok (renamed, bridges)) : pass.Rewrites file renamed := by
  obtain ⟨_, ⟨methods, rfl, kept⟩, renames⟩ := exists_degradesTo_of_process done
  obtain ⟨named, declared, around⟩ := pass.ensures_parts_of_classFile _ _ renames
  refine ⟨named, ?_, around⟩
  refine (forall₂_trans kept declared).imp ?_
  rintro method new ⟨_, ⟨target, rfl⟩, renamedMethod⟩
  exact ⟨target, renamedMethod⟩

/-- In a class that the pass rewrites, all that names a method has its new names. -/
theorem RefersTo.follows {old new : MethodRef} (refers : pass.RefersTo old new)
    {file renamed : ClassFile} (rewrites : pass.Rewrites file renamed) :
    file.Follows pass.options.renameLambdas old new renamed := by
  have instructions : List.Forall₂
      (fun before after => (pass.instruction before).result = .ok after)
      (file.methods.flatMap Method.instructions) (renamed.methods.flatMap Method.instructions) := by
    refine List.rel_flatMap rewrites.methods ?_
    rintro method newMethod ⟨target, done⟩
    have each := pass.ensures_instructions file.name (method.degradedTo target) newMethod done
    rwa [Method.instructions_degradedTo] at each
  have references : List.Forall₂ (fun old new => old.rename pass.renamer = .ok new)
      (file.methods.flatMap Method.references) (renamed.methods.flatMap Method.references) := by
    refine List.rel_flatMap rewrites.methods ?_
    rintro method newMethod ⟨target, done⟩
    have each := pass.ensures_method file.name (method.degradedTo target) newMethod done
    rw [Method.slots_degradedTo] at each
    exact each.references
  refine ⟨?_, ?_, fun around => ?_, fun lambdas => ?_⟩
  · refine instructions.imp ?_
    rintro _ after done kind onInstance rfl
    exact Except.ok.inj (done.symm.trans (refers.call onInstance))
  · refine references.imp ?_
    rintro _ after done rfl
    exact Except.ok.inj (done.symm.trans refers.reference)
  · obtain ⟨entry, done, found⟩ := rewrites.enclosing _ around
    rw [found, Except.ok.inj (done.symm.trans refers.enclosingMethod)]
  · refine instructions.imp ?_
    rintro _ after done call rfl implements
    obtain ⟨newCall, callDone, ⟨⟩⟩ := result_bind_eq_ok_iff.mp done
    exact ⟨newCall, rfl, refers.implemented lambdas implements newCall callDone⟩

end Pass

/-! ### The statement -/

/-- **A method that can be overridden has one name everywhere.** Let a run end well, and let one of
its classes that is no array declare a method that is neither private nor static. If the search for
the method from that class comes by no other class that declares it as final, then in all classes of
the run calls on instances, handles, the methods around local classes and, where these are renamed,
lambdas that name the method on that class get the name that the run gives to its declaration. -/
theorem overridable_method_named_alike {classes renamed : List ClassFile} {mappings : Mappings}
    {hierarchy : Hierarchy} {supplement : Supplement} {options : PassOptions} {report : PassReport}
    (done : (renameClasses classes mappings hierarchy supplement options).result =
      .ok (renamed, report)) :
    let resolver : Resolver := ⟨mappings, (Hierarchy.ofClasses classes).above hierarchy⟩
    List.Forall₂ (fun file new => file.name.isArray = false →
        List.Forall₂ (fun method newMethod =>
            method.access.isPrivate = false → method.access.isStatic = false →
              resolver.MeetsNoFinal (method.key.on file.name) →
                List.Forall₂ (fun other newOther => other.Follows options.renameLambdas
                  (method.key.on file.name)
                    ⟨new.name, newMethod.name, newMethod.descriptor⟩ newOther)
                  classes renamed)
          file.methods new.methods)
      classes renamed := by
  intro resolver
  obtain ⟨processed, each, rfl, _⟩ := (renameClasses_eq_ok_iff _ _ _ _ _).mp done
  let pass := Pass.ofIndex (indexTable classes) mappings hierarchy supplement options
  have rewrites : List.Forall₂ pass.Rewrites classes (processed.map Prod.fst) := by
    rw [List.forall₂_map_right_iff]
    exact each.imp fun file out processedWell => Pass.rewrites_of_process processedWell
  refine rewrites.imp fun file new rewritten object => ?_
  refine rewritten.methods.imp ?_
  rintro method newMethod ⟨target, declared⟩ notPrivate notStatic free
  have refers := Pass.refersTo_of_method object rewritten.name
    (by rwa [Method.isPrivate_degradedTo]) (by rwa [Method.isStatic_degradedTo])
    (by rwa [Method.key_degradedTo]) declared
  -- a bridge that is degraded is referred to by the key that it had
  rw [Method.key_degradedTo] at refers
  exact rewrites.imp fun other newOther rewrittenToo => refers.follows rewrittenToo

namespace Drawing

/-- The method that makes lambdas. -/
def factory : MethodRef :=
  ⟨⟨"java/lang/invoke/LambdaMetafactory"⟩, ⟨"metafactory"⟩, ⟨"()V"⟩⟩

/-- A lambda that implements the method. -/
def lambda (used : MethodRef) (type : MethodDescriptor) : DynamicCall :=
  ⟨used.name, type, .method (.call (.onStatic false)) factory, [.methodType used.descriptor]⟩

/-- Code that uses the method in all ways. -/
def uses (used : MethodRef) (type : MethodDescriptor) : Code :=
  ⟨none, none, [⟨none, .call .onVirtual used⟩, ⟨none, .call .onInterface used⟩,
    ⟨none, .load (.handle (.method (.call (.onSpecial false)) used))⟩,
    ⟨none, .callDynamic (lambda used type)⟩], [], none, none, none⟩

def user (used : MethodRef) (type : MethodDescriptor) : Method :=
  { Method.bare ⟨"run"⟩ ⟨"()V"⟩ with code := some (uses used type) }

/-- A class within the method that uses it. -/
def client (used : MethodRef) (type : MethodDescriptor) : ClassFile :=
  { ClassFile.ofMethods ⟨"U"⟩ none [user used type] with
    enclosingMethod := some ⟨used.owner, some used.key⟩ }

def old : MethodRef := ⟨⟨"D"⟩, ⟨"m"⟩, ⟨"()V"⟩⟩

def new : MethodRef := ⟨⟨"E"⟩, ⟨"draw"⟩, ⟨"()V"⟩⟩

/-- The class above the one that is used; it declares the method as well. -/
def upper (name : MethodName) : ClassFile := .ofMethods ⟨"S"⟩ none [.bare name ⟨"()V"⟩]

def lower (used : MethodRef) : ClassFile :=
  .ofMethods used.owner (some ⟨"S"⟩) [.bare used.name used.descriptor]

def classes : List ClassFile := [upper old.name, lower old, client old ⟨"()LD;"⟩]

def renamed : List ClassFile := [upper new.name, lower new, client new ⟨"()LE;"⟩]

/-- Only the upper class has an entry for the method. -/
def mappings : Mappings :=
  ((∅ : Mappings).addClass ⟨"D"⟩ ⟨"E"⟩).addMethod ⟨"S"⟩ old.key ⟨"draw"⟩

def pass : Pass := Pass.ofIndex (indexTable classes) mappings ∅ ∅ {}

theorem meetsNoFinal : pass.resolver.MeetsNoFinal old := by
  have visited : pass.resolver.hierarchy.visited (pass.resolver.methodEntry old false) old.owner =
      [⟨"D"⟩, ⟨"S"⟩] := by cbv
  have known : pass.resolver.hierarchy.lookup ⟨"S"⟩ = some ⟨none, [], [], [⟨old.key, .none⟩]⟩ := by
    cbv
  intro owner member elsewhere
  rw [visited] at member
  rcases List.mem_cons.mp member with same | other
  · exact absurd same elsewhere
  rintro ⟨info, method, found, declared, _, _, final⟩
  rw [List.mem_singleton.mp other, known] at found
  obtain rfl : _ = info := Option.some.inj found
  obtain rfl : _ = method := Option.some.inj declared
  exact absurd final (by decide)

/-- Nothing is known of the class that makes lambdas, so its method keeps its name. -/
theorem methodRef_factory : (pass.renamer.methodRef factory true).result = .ok factory := by
  have unknown : pass.resolver.hierarchy.lookup factory.owner = none := by cbv
  have order : pass.resolver.hierarchy.lookupOrder factory.owner = [factory.owner] :=
    Hierarchy.levels_of_unknown _ List.not_mem_nil unknown
  have unnamed : pass.resolver.mappings.methodName? factory.owner factory.key = none := by decide
  have unresolved : pass.resolver.method factory true = none := by
    rw [Resolver.method_eq_none_iff _ _ _ (by decide), order]
    intro owner member _
    rw [List.mem_singleton.mp member]
    exact unnamed
  have owner : pass.resolver.mappings.classNameAny factory.owner = .ok factory.owner := by
    have object : ¬ factory.owner.isArray = true := by decide
    have unmapped : pass.resolver.mappings.className? factory.owner = none := by decide
    rw [Mappings.classNameAny, if_neg object, Mappings.className, unmapped, Option.getD_none]
  have descriptor : pass.resolver.mappings.methodDescriptor factory.descriptor =
      .ok factory.descriptor := by cbv
  have done := Renamer.methodRef_of_parts pass.resolver true owner descriptor
  rw [unresolved] at done
  exact done

theorem dynamicCall_lambda :
    (pass.dynamicCall (lambda old ⟨"()LD;"⟩)).result = .ok (lambda new ⟨"()LE;"⟩) := by
  have name : (pass.lambdaName? (lambda old ⟨"()LD;"⟩)).result = .ok (some new.name) := by cbv
  have type : pass.mappings.methodDescriptor ⟨"()LD;"⟩ = .ok ⟨"()LE;"⟩ := by cbv
  have handle : (pass.handle (lambda old ⟨"()LD;"⟩).handle).result =
      .ok (lambda new ⟨"()LE;"⟩).handle :=
    Recorded.result_bind_eq_ok_iff.mpr ⟨factory, methodRef_factory, rfl⟩
  have arguments : (pass.loadables (lambda old ⟨"()LD;"⟩).arguments).result =
      .ok (lambda new ⟨"()LE;"⟩).arguments := by cbv
  refine Recorded.result_bind_eq_ok_iff.mpr ⟨_, name, ?_⟩
  refine Recorded.result_bind_eq_ok_iff.mpr ⟨_, type, ?_⟩
  refine Recorded.result_bind_eq_ok_iff.mpr ⟨_, handle, ?_⟩
  exact Recorded.result_bind_eq_ok_iff.mpr ⟨_, arguments, rfl⟩

/-- The class is renamed part by part, since the name of the class that makes lambdas is too long to
be computed with. -/
theorem process_client :
    (pass.process (client old ⟨"()LD;"⟩)).result = .ok (client new ⟨"()LE;"⟩, []) := by
  have refers : pass.RefersTo old new := ⟨by decide, by cbv, by cbv, by cbv⟩
  have handle :
      (pass.instruction (.load (.handle (.method (.call (.onSpecial false)) old)))).result =
      .ok (.load (.handle (.method (.call (.onSpecial false)) new))) := by cbv
  have lambdaCall : (pass.instruction (.callDynamic (lambda old ⟨"()LD;"⟩))).result =
      .ok (.callDynamic (lambda new ⟨"()LE;"⟩)) :=
    Recorded.result_bind_eq_ok_iff.mpr ⟨_, dynamicCall_lambda, rfl⟩
  have entry : ∀ {before after : Instruction}, (pass.instruction before).result = .ok after →
      (pass.codeEntry ⟨none, before⟩).result = .ok ⟨none, after⟩ :=
    fun done => Recorded.result_bind_eq_ok_iff.mpr ⟨_, done, rfl⟩
  have instructions : ((uses old ⟨"()LD;"⟩).instructions.mapM pass.codeEntry).result =
      .ok (uses new ⟨"()LE;"⟩).instructions := by
    rw [Recorded.result_mapM]
    exact except_mapM_eq_ok_iff.mpr (.cons (entry (refers.call rfl))
      (.cons (entry (refers.call rfl)) (.cons (entry handle) (.cons (entry lambdaCall) .nil))))
  have code : (Option.mapM pass.code (some (uses old ⟨"()LD;"⟩))).result =
      .ok (some (uses new ⟨"()LE;"⟩)) := by
    refine Recorded.result_bind_eq_ok_iff.mpr ⟨_, ?_, rfl⟩
    exact Recorded.result_bind_eq_ok_iff.mpr ⟨_, instructions, rfl⟩
  have method : (pass.method ⟨"U"⟩ (user old ⟨"()LD;"⟩)).result = .ok (user new ⟨"()LE;"⟩) := by
    have parameters : pass.parameters ⟨"U"⟩ (user old ⟨"()LD;"⟩) = .ok none := by cbv
    have unnamed : pass.resolver.declaration ((user old ⟨"()LD;"⟩).key.on ⟨"U"⟩) .none =
        none := by cbv
    have descriptor : pass.mappings.methodDescriptor ⟨"()V"⟩ = .ok ⟨"()V"⟩ := by cbv
    have exceptions : pass.exceptions ⟨"U"⟩ (user old ⟨"()LD;"⟩) = none := by cbv
    refine Recorded.result_bind_eq_ok_iff.mpr ⟨_, parameters, ?_⟩
    refine Recorded.result_bind_eq_ok_iff.mpr ⟨none, congrArg Except.ok unnamed, ?_⟩
    refine Recorded.result_bind_eq_ok_iff.mpr ⟨_, descriptor, ?_⟩
    refine Recorded.result_bind_eq_ok_iff.mpr ⟨_, code, ?_⟩
    rw [exceptions]
    rfl
  have methods : ((client old ⟨"()LD;"⟩).methods.mapM fun method =>
      (pass.method ⟨"U"⟩ method).within (.inMethod method.key)).result =
        .ok (client new ⟨"()LE;"⟩).methods := by
    rw [Recorded.result_mapM]
    exact except_mapM_eq_ok_iff.mpr (.cons (Recorded.result_within_eq_ok_iff.mpr method) .nil)
  have name : (pass.className ⟨"U"⟩).result = .ok ⟨"U"⟩ := by cbv
  have enclosing : (Option.mapM pass.enclosingMethod (some ⟨old.owner, some old.key⟩)).result =
      .ok (some ⟨new.owner, some new.key⟩) :=
    Recorded.result_bind_eq_ok_iff.mpr ⟨_, refers.enclosingMethod, rfl⟩
  refine Pass.process_eq_ok_iff.mpr ⟨client old ⟨"()LD;"⟩, by rfl, ?_⟩
  refine Recorded.result_bind_eq_ok_iff.mpr ⟨[], rfl, ?_⟩
  refine Recorded.result_bind_eq_ok_iff.mpr ⟨_, methods, ?_⟩
  refine Recorded.result_bind_eq_ok_iff.mpr ⟨_, name, ?_⟩
  refine Recorded.result_bind_eq_ok_iff.mpr ⟨none, rfl, ?_⟩
  refine Recorded.result_bind_eq_ok_iff.mpr ⟨[], rfl, ?_⟩
  refine Recorded.result_bind_eq_ok_iff.mpr ⟨none, rfl, ?_⟩
  exact Recorded.result_bind_eq_ok_iff.mpr ⟨_, enclosing, rfl⟩

end Drawing

/-- The lower class takes the name from the upper one, and so does all that refers to the lower
one. -/
theorem drawing_named_alike :
    (renameClasses Drawing.classes Drawing.mappings ∅ ∅ {}).result =
      .ok (Drawing.renamed, ⟨3, []⟩) ∧
      (Drawing.client Drawing.old ⟨"()LD;"⟩).Follows true Drawing.old Drawing.new
        (Drawing.client Drawing.new ⟨"()LE;"⟩) := by
  have upper : (Drawing.pass.process (Drawing.upper Drawing.old.name)).result =
      .ok (Drawing.upper Drawing.new.name, []) := by cbv
  have lower : (Drawing.pass.process (Drawing.lower Drawing.old)).result =
      .ok (Drawing.lower Drawing.new, []) := by cbv
  have done : (renameClasses Drawing.classes Drawing.mappings ∅ ∅ {}).result =
      .ok (Drawing.renamed, ⟨3, []⟩) := by
    rw [renameClasses_eq_ok_iff]
    exact ⟨_, .cons upper (.cons lower (.cons Drawing.process_client .nil)), rfl, rfl⟩
  have pairs := overridable_method_named_alike done
  obtain ⟨_, pairs⟩ := List.forall₂_cons.mp pairs
  obtain ⟨atLower, _⟩ := List.forall₂_cons.mp pairs
  obtain ⟨ofMethod, _⟩ := List.forall₂_cons.mp (atLower (by decide))
  obtain ⟨_, others⟩ := List.forall₂_cons.mp (ofMethod (by decide) (by decide) Drawing.meetsNoFinal)
  obtain ⟨_, others⟩ := List.forall₂_cons.mp others
  exact ⟨done, (List.forall₂_cons.mp others).1⟩

end Renaming

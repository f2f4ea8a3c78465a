import Renaming.Bridge
import Renaming.Renamer
import Renaming.Supplement

/-!
# Renaming a list of classes

`renameClasses` gives every symbol of a list of classes its new name. Members are resolved through
the hierarchy that the classes themselves make, over one given for all other classes. Besides names,
the pass adds to a method what the mappings and a supplement know of it: the classes it throws and
the names of its parameters. What it finds nothing about stays as it is; only malformed descriptors,
signatures and array class names make it fail, and the fault tells in which class and method.
-/

namespace Renaming

/-- What the pass does besides renaming declarations and references. -/
structure PassOptions where
  /-- Bridges that forward to a method of their class become ordinary methods. -/
  degradeBridges : Bool := true
  /-- Dynamic calls that make lambdas take the new name of the method they implement. -/
  renameLambdas : Bool := true
  /-- Parameters take their names from the mappings. -/
  applyParameterNames : Bool := true
deriving DecidableEq

/-- What the pass did. -/
structure PassReport where
  classes : Nat
  degradedBridges : List DegradedBridge
deriving DecidableEq

/-- What the pass works with. -/
structure Pass where
  resolver : Resolver
  supplement : Supplement
  options : PassOptions

namespace Pass

/-- The pass over classes with the given index; the hierarchy is asked for all other classes. -/
def ofIndex (index : Table ClassName ClassInfo) (mappings : Mappings) (hierarchy : Hierarchy)
    (supplement : Supplement) (options : PassOptions) : Pass :=
  { resolver := ⟨mappings, (Hierarchy.ofTable index).above hierarchy⟩
    supplement
    options }

variable (pass : Pass)

def mappings : Mappings := pass.resolver.mappings

@[simp] theorem mappings_ofIndex (index : Table ClassName ClassInfo) (mappings : Mappings)
    (hierarchy : Hierarchy) (supplement : Supplement) (options : PassOptions) :
    (ofIndex index mappings hierarchy supplement options).mappings = mappings := rfl

/-- The renamer that looks members up through the hierarchy. -/
def renamer : Renamer := .ofResolver pass.resolver

/-! ### Constants and references -/

def handle : Handle → Journal Handle
  | .field use ref => return .field use (← pass.renamer.fieldRef ref use.isStatic)
  | .method how ref => return .method how (← pass.renamer.methodRef ref how.isStatic)

mutual

def loadable : Loadable → Journal Loadable
  | .type name => return .type (← pass.mappings.classNameAny name)
  | .handle target => return .handle (← pass.handle target)
  | .methodType descriptor => return .methodType (← pass.mappings.methodDescriptor descriptor)
  | .computed name descriptor target arguments => do
    let descriptor ← pass.mappings.fieldDescriptor descriptor
    let target ← pass.handle target
    let arguments ← loadables arguments
    return .computed name descriptor target arguments
  | .integer value => return .integer value
  | .float bits => return .float bits
  | .long value => return .long value
  | .double bits => return .double bits
  | .string value => return .string value

def loadables : List Loadable → Journal (List Loadable)
  | [] => return []
  | value :: rest => do
    let value ← loadable value
    let rest ← loadables rest
    return value :: rest

end

/-! ### Instructions -/

/-- Whether the handle is that of the method that makes objects out of lambdas. -/
def isLambdaFactory : Handle → Bool
  | .method (.call (.onStatic _)) ref =>
    ref.owner.text = "java/lang/invoke/LambdaMetafactory" &&
      (ref.name.text = "metafactory" || ref.name.text = "altMetafactory")
  | _ => false

/-- The new name of the method that a lambda implements. The interface is the result type of the
call, and the first argument is the descriptor of the method in the interface. -/
def lambdaName? (call : DynamicCall) : Journal (Option MethodName) := do
  if isLambdaFactory call.handle then
    match call.arguments with
    | .methodType descriptor :: _ =>
      let type ← call.descriptor.type
      match type.result with
      | some (.plain (.object interface)) =>
        let found ← pass.resolver.resolveMethod ⟨interface, call.name, descriptor⟩ false
        return found.map Resolved.name
      | _ => return none
    | _ => return none
  else
    return none

def dynamicCall (call : DynamicCall) : Journal DynamicCall := do
  let name ← if pass.options.renameLambdas then pass.lambdaName? call else pure none
  let descriptor ← pass.mappings.methodDescriptor call.descriptor
  let handle ← pass.handle call.handle
  let arguments ← pass.loadables call.arguments
  return { name := name.getD call.name, descriptor, handle, arguments }

def instruction : Instruction → Journal Instruction
  | .load value => return .load (← pass.loadable value)
  | .field use ref => return .field use (← pass.renamer.fieldRef ref use.isStatic)
  | .call kind ref => return .call kind (← pass.renamer.methodRef ref kind.isStatic)
  | .callDynamic call => return .callDynamic (← pass.dynamicCall call)
  | .withClass op name => return .withClass op (← pass.mappings.classNameAny name)
  | .createMultiArray name dimensions =>
    return .createMultiArray (← pass.mappings.classNameAny name) dimensions
  | other => return other

def codeEntry (entry : CodeEntry) : Journal CodeEntry := do
  let instruction ← pass.instruction entry.instruction
  return { entry with instruction }

def exceptionRange (range : ExceptionRange) : Journal ExceptionRange := do
  let caught ← range.caught.mapM fun name => pass.mappings.classNameAny name
  return { range with caught }

def localVariable (entry : LocalVariable) : Journal LocalVariable := do
  let descriptor ← entry.descriptor.mapM fun descriptor => pass.mappings.fieldDescriptor descriptor
  let signature ← entry.signature.mapM fun signature => pass.mappings.fieldSignature signature
  return { entry with descriptor, signature }

def code (code : Code) : Journal Code := do
  let instructions ← code.instructions.mapM pass.codeEntry
  let exceptionTable ← code.exceptionTable.mapM pass.exceptionRange
  let localVariables ← code.localVariables.mapM fun entries => entries.mapM pass.localVariable
  return { code with instructions, exceptionTable, localVariables }

/-! ### Members -/

/-- The classes that a method throws: those it declares, then those that the mappings know of, then
those of the supplement, each in terms of the new names and without repetition. -/
def exceptions (owner : ClassName) (method : Method) : Option (List ClassName) :=
  let known := ((pass.mappings.extra? owner method.key).elim [] MethodExtra.exceptions) ++
    (pass.supplement.get? owner method.key).getD []
  if method.exceptions.isNone && known.isEmpty then none
  else some (pass.mappings.exceptionNames (method.exceptions.getD [] ++ known))

/-- Sets the names of the first `count` parameters, as far as there are names. -/
def withParameterNames (parameters : Option (List MethodParameter)) (names : List ParameterName)
    (count : Nat) : List MethodParameter :=
  let named := names.take count
  let old := parameters.getD []
  (named.mapIdx fun index name =>
      { name := some name, flags := (old[index]?).elim .none MethodParameter.flags }) ++
    old.drop named.length

/-- The parameters of a method, with names from the mappings if there are any. -/
def parameters (owner : ClassName) (method : Method) :
    Except Fault (Option (List MethodParameter)) :=
  let names := (pass.mappings.extra? owner method.key).elim [] MethodExtra.parameters
  if pass.options.applyParameterNames && !names.isEmpty then do
    let count ← method.descriptor.parameterCount
    return some (withParameterNames method.parameters names count)
  else
    .ok method.parameters

def method (owner : ClassName) (method : Method) : Journal Method := do
  let parameters ← pass.parameters owner method
  let found ← pass.resolver.resolveDeclaration (method.key.on owner) method.access
  let descriptor ← pass.mappings.methodDescriptor method.descriptor
  let code ← method.code.mapM pass.code
  let signature ← method.signature.mapM fun signature => pass.mappings.methodSignature signature
  return {
    access := method.access
    name := (found.map Resolved.name).getD method.name
    descriptor
    code
    exceptions := pass.exceptions owner method
    signature
    parameters }

def field (owner : ClassName) (field : Field) : Journal Field := do
  let descriptor ← pass.mappings.fieldDescriptor field.descriptor
  let signature ← field.signature.mapM fun signature => pass.mappings.fieldSignature signature
  return {
    access := field.access
    name := (pass.mappings.fieldName? owner field.name).getD field.name
    descriptor
    signature }

/-! ### Classes -/

/-- The simple name of a nested class that was renamed: what follows the class around it and a `$`,
or else the innermost part of its name. -/
def nestedSimpleName (inner : ClassName) (outer : Option ClassName) : String :=
  match (outer.bind inner.partWithin?).filter fun part => !part.isEmpty with
  | some part => String.ofList part
  | none => inner.innermostName

def nestedClass (entry : NestedClass) : Journal NestedClass := do
  let inner := pass.mappings.className entry.inner
  let outer ← entry.outer.mapM fun name => pass.mappings.classNameAny name
  let simpleName := entry.simpleName.map fun old =>
    if inner = entry.inner then old else nestedSimpleName inner outer
  return { inner, outer, simpleName, flags := entry.flags }

/-- The key of a method of the given class, as a reference to it is renamed. -/
def methodKey (owner : ClassName) (key : MethodKey) : Journal MethodKey := do
  let name ← pass.renamer.methodName? (key.on owner) false
  let descriptor ← pass.mappings.methodDescriptor key.descriptor
  return ⟨name.getD key.name, descriptor⟩

def enclosingMethod (entry : EnclosingMethod) : Journal EnclosingMethod := do
  let method ← entry.method.mapM (pass.methodKey entry.owner)
  let owner ← pass.mappings.classNameAny entry.owner
  return { owner, method }

def className (name : ClassName) : Journal ClassName := do
  let renamed ← pass.mappings.classNameAny name
  return renamed

def classFile (file : ClassFile) : Journal ClassFile := do
  let fields ← file.fields.mapM (pass.field file.name)
  let methods ← file.methods.mapM fun method =>
    (pass.method file.name method).within (.inMethod method.key)
  let name ← pass.className file.name
  let superClass ← file.superClass.mapM pass.className
  let interfaces ← file.interfaces.mapM pass.className
  let nestedClasses ← file.nestedClasses.mapM fun entries => entries.mapM pass.nestedClass
  let enclosingMethod ← file.enclosingMethod.mapM pass.enclosingMethod
  let signature ← file.signature.mapM fun signature => pass.mappings.classSignature signature
  let nestHost ← file.nestHost.mapM pass.className
  let nestMembers ← file.nestMembers.mapM fun names => names.mapM pass.className
  let permittedSubclasses ← file.permittedSubclasses.mapM fun names => names.mapM pass.className
  return {
    version := file.version
    access := file.access
    sourceFile := file.sourceFile
    fields, methods, name, superClass, interfaces, nestedClasses, enclosingMethod, signature
    nestHost, nestMembers, permittedSubclasses }

/-- Degrades the bridges of a class if that is wanted, and renames it. -/
def process (file : ClassFile) : Journal (ClassFile × List DegradedBridge) := do
  let (file, degraded) ←
    if pass.options.degradeBridges then file.degradeBridges else pure (file, [])
  let renamed ← pass.classFile file
  Recorded.note [.classDone renamed.name]
  return (renamed, degraded)

end Pass

/-- Indexes what is seen of each of the classes. -/
def indexClasses (classes : List ClassFile) : Journal (Table ClassName ClassInfo) := do
  let index := indexTable classes
  Recorded.note [.indexed index.size]
  return index

/-- Renames all symbols of the classes. The hierarchy is asked for all other classes. -/
def renameClasses (classes : List ClassFile) (mappings : Mappings) (hierarchy : Hierarchy)
    (supplement : Supplement) (options : PassOptions) : Journal (List ClassFile × PassReport) := do
  Recorded.note [.started classes.length]
  let index ← indexClasses classes
  let pass := Pass.ofIndex index mappings hierarchy supplement options
  let processed ← classes.mapM fun file => (pass.process file).within (.inClass file.name)
  let renamed := processed.map Prod.fst
  let degradedBridges := processed.flatMap Prod.snd
  Recorded.note [.finished renamed.length degradedBridges.length]
  return (renamed, { classes := renamed.length, degradedBridges })

end Renaming

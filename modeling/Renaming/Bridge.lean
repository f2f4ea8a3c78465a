import Renaming.ClassFile.Basic
import Renaming.Journal

/-!
# Bridge methods

A compiler adds a bridge method where a method overrides another one with a less specific type: the
bridge only calls the more specific method. Once the two have different names the bridge should no
longer be hidden, so it becomes an ordinary method. `forwardingTarget` tells whether a method is
such a bridge and to which method of its class it forwards; `degradeBridges` first finds the targets
of all methods, then clears the flags.
-/

namespace Renaming

/-- A bridge method that became an ordinary one, with the method it forwards to. -/
structure DegradedBridge where
  owner : ClassName
  bridge : MethodKey
  target : MethodKey
deriving DecidableEq

/-- The methods that the code calls, those computed at run time apart. -/
def Code.calls (code : Code) : List MethodRef :=
  code.instructions.filterMap fun entry => entry.instruction.called?.map Prod.fst

/-- The one method that the method calls, if it has code with exactly one call. -/
def Method.onlyCall? (method : Method) : Option MethodRef :=
  match method.code.map Code.calls with
  | some [ref] => some ref
  | _ => none

/-- The method of the class that a bridge forwards to. It has the descriptor of the only call, which
is another one than that of the bridge with as many parameters, and is itself no bridge. -/
def forwardingTarget (owner : ClassName) (siblings : List Method) (bridge : Method) :
    Except Fault (Option MethodKey) :=
  if bridge.access.isBridge && bridge.access.isSynthetic then
    match bridge.onlyCall? with
    | none => .ok none
    | some ref =>
      if ref.owner ≠ owner || ref.descriptor = bridge.descriptor then .ok none
      else
        match siblings.find? fun method => method.key = ref.key && !method.access.isBridge with
        | none => .ok none
        | some target => do
          let targetCount ← target.descriptor.parameterCount
          let bridgeCount ← bridge.descriptor.parameterCount
          return if targetCount = bridgeCount then some target.key else none
  else .ok none

/-- The method that each method of the class forwards to, in order. -/
def ClassFile.forwardingTargets (file : ClassFile) : Except Fault (List (Option MethodKey)) :=
  file.methods.mapM (forwardingTarget file.name file.methods)

/-- The method, without the flags of a bridge if it forwards to a target. -/
def Method.degradedTo (method : Method) (target : Option MethodKey) : Method :=
  if target.isSome then { method with access := method.access.withoutBridge } else method

/-- Turns the bridges of a class that forward to one of its methods into ordinary methods. -/
def ClassFile.degradeBridges (file : ClassFile) : Journal (ClassFile × List DegradedBridge) := do
  let targets ← file.forwardingTargets
  let pairs := file.methods.zip targets
  let degraded := pairs.filterMap fun (method, target) =>
    target.map fun target => DegradedBridge.mk file.name method.key target
  Recorded.note (degraded.map fun bridge => .degraded bridge.owner bridge.bridge bridge.target)
  return ({ file with methods := pairs.map fun (method, target) => method.degradedTo target },
    degraded)

end Renaming

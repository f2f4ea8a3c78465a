import Renaming.Recorded

/-!
# The journal of a pass

What happens during a pass is recorded as events. `Event.level` says how important an event is and
`Event.message` words it.
-/

namespace Renaming

/-- How important an event is. -/
inductive Level where
  | error
  | warn
  | info
  | debug
  | trace
deriving DecidableEq

/-- The name of the level. -/
def Level.label : Level → String
  | .error => "ERROR"
  | .warn => "WARN"
  | .info => "INFO"
  | .debug => "DEBUG"
  | .trace => "TRACE"

/-- What happens during a pass. -/
inductive Event where
  /-- The pass starts with that many classes. -/
  | started (classes : Nat)
  /-- That many classes have been indexed. -/
  | indexed (classes : Nat)
  /-- A bridge method that forwards to another method is no longer a bridge. -/
  | degraded (owner : ClassName) (bridge target : MethodKey)
  /-- A field reference was resolved to an entry of a class. -/
  | fieldResolved (ref : FieldRef) (owner : ClassName) (name : FieldName)
  /-- A method reference was resolved to an entry of a class. -/
  | methodResolved (ref : MethodRef) (owner : ClassName) (name : MethodName)
  /-- A declared method takes the new name of a method that it overrides. -/
  | overriding (ref : MethodRef) (ancestor : ClassName) (name : MethodName)
  /-- A class is done and has a new name. -/
  | classDone (name : ClassName)
  /-- The pass is done. -/
  | finished (classes bridges : Nat)
deriving DecidableEq

def Event.level : Event → Level
  | .started .. => .info
  | .indexed .. => .debug
  | .degraded .. => .warn
  | .fieldResolved .. => .trace
  | .methodResolved .. => .trace
  | .overriding .. => .trace
  | .classDone .. => .debug
  | .finished .. => .info

def Event.message : Event → String
  | .started classes => "remapping " ++ toString classes ++ " classes"
  | .indexed classes => "indexed " ++ toString classes ++ " classes"
  | .degraded owner bridge target =>
    "degraded bridge method " ++ owner.text ++ "." ++ toString bridge ++ " forwarding to " ++
      toString target
  | .fieldResolved ref owner name =>
    "resolved field " ++ ref.owner.text ++ "." ++ ref.name.text ++ ":" ++ ref.descriptor.text ++
      " on " ++ owner.text ++ " to " ++ name.text
  | .methodResolved ref owner name =>
    "resolved method " ++ ref.owner.text ++ "." ++ toString ref.key ++ " on " ++ owner.text ++
      " to " ++ name.text
  | .overriding ref ancestor name =>
    "method " ++ ref.owner.text ++ "." ++ toString ref.key ++ " overrides " ++ ancestor.text ++
      ", renamed to " ++ name.text
  | .classDone name => "remapped class to " ++ name.text
  | .finished classes bridges =>
    "remapped " ++ toString classes ++ " classes, degraded " ++ toString bridges ++
      " bridge methods"

/-- A computation that records events. -/
abbrev Journal := Recorded Event

end Renaming

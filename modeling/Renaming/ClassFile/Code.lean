import Renaming.Access
import Renaming.Descriptor

/-!
# Code of methods

Instructions are grouped by what they carry: nothing, a local variable, a place to jump to, a
number, a constant, or a reference to a class or a member. Only references matter to renaming; the
rest is kept so that a class can be given back whole.

Constants may be computed at run time by a method that a handle refers to, from arguments that are
again constants, so `Loadable` is a recursive type.
-/

namespace Renaming

/-- A place in the code of a method. -/
abbrev Label := Nat

/-- The number of a local variable. -/
abbrev LocalIndex := Nat

/-- How a field is used. -/
inductive FieldUse where
  | getStatic
  | putStatic
  | getField
  | putField
deriving DecidableEq

/-- Whether the use is that of a static field. -/
def FieldUse.isStatic : FieldUse → Bool
  | .getStatic | .putStatic => true
  | .getField | .putField => false

/-- How an instruction calls a method, and whether the reference says that its class is an
interface. -/
inductive CallKind where
  | onVirtual
  | onSpecial (isInterface : Bool)
  | onStatic (isInterface : Bool)
  | onInterface
deriving DecidableEq

/-- Whether the call is that of a static method. -/
def CallKind.isStatic : CallKind → Bool
  | .onStatic _ => true
  | .onVirtual | .onSpecial _ | .onInterface => false

/-- How a method handle calls a method: as an instruction does, or to construct an object. -/
inductive HandleCall where
  | call (kind : CallKind)
  | construct
deriving DecidableEq

/-- Whether the handle calls a static method. -/
def HandleCall.isStatic : HandleCall → Bool
  | .call kind => kind.isStatic
  | .construct => false

/-- A handle to a member. -/
inductive Handle where
  | field (use : FieldUse) (ref : FieldRef)
  | method (how : HandleCall) (ref : MethodRef)
deriving DecidableEq

/-- A constant that an instruction loads. Floating-point numbers are given by their bits. -/
inductive Loadable where
  | integer (value : Int)
  | float (bits : Nat)
  | long (value : Int)
  | double (bits : Nat)
  | type (name : ClassName)
  | string (value : String)
  | handle (handle : Handle)
  | methodType (descriptor : MethodDescriptor)
  | computed (name : FieldName) (descriptor : FieldDescriptor) (handle : Handle)
      (arguments : List Loadable)

/-- A call whose target is computed at run time. -/
structure DynamicCall where
  name : MethodName
  descriptor : MethodDescriptor
  handle : Handle
  arguments : List Loadable

/-- Instructions that carry nothing. -/
inductive PlainOp where
  | nop
  | aconstNull
  | iconstM1 | iconst0 | iconst1 | iconst2 | iconst3 | iconst4 | iconst5
  | lconst0 | lconst1
  | fconst0 | fconst1 | fconst2
  | dconst0 | dconst1
  | iaload | laload | faload | daload | aaload | baload | caload | saload
  | iastore | lastore | fastore | dastore | aastore | bastore | castore | sastore
  | pop | pop2
  | dup | dupX1 | dupX2
  | dup2 | dup2X1 | dup2X2
  | swap
  | iadd | ladd | fadd | dadd
  | isub | lsub | fsub | dsub
  | imul | lmul | fmul | dmul
  | idiv | ldiv | fdiv | ddiv
  | irem | lrem | frem | drem
  | ineg | lneg | fneg | dneg
  | ishl | lshl
  | ishr | lshr
  | iushr | lushr
  | iand | land
  | ior | lor
  | ixor | lxor
  | i2l | i2f | i2d
  | l2i | l2f | l2d
  | f2i | f2l | f2d
  | d2i | d2l | d2f
  | i2b | i2c | i2s
  | lcmp
  | fcmpl | fcmpg
  | dcmpl | dcmpg
  | ireturn | lreturn | freturn | dreturn | areturn
  | returnVoid
  | arrayLength
  | athrow
  | monitorEnter | monitorExit
deriving DecidableEq

/-- All instructions that carry nothing, in the order of their codes. -/
def PlainOp.all : List PlainOp :=
  [.nop, .aconstNull, .iconstM1, .iconst0, .iconst1, .iconst2, .iconst3, .iconst4, .iconst5,
    .lconst0, .lconst1, .fconst0, .fconst1, .fconst2, .dconst0, .dconst1, .iaload, .laload, .faload,
    .daload, .aaload, .baload, .caload, .saload, .iastore, .lastore, .fastore, .dastore, .aastore,
    .bastore, .castore, .sastore, .pop, .pop2, .dup, .dupX1, .dupX2, .dup2, .dup2X1, .dup2X2, .swap,
    .iadd, .ladd, .fadd, .dadd, .isub, .lsub, .fsub, .dsub, .imul, .lmul, .fmul, .dmul, .idiv,
    .ldiv, .fdiv, .ddiv, .irem, .lrem, .frem, .drem, .ineg, .lneg, .fneg, .dneg, .ishl, .lshl,
    .ishr, .lshr, .iushr, .lushr, .iand, .land, .ior, .lor, .ixor, .lxor, .i2l, .i2f, .i2d, .l2i,
    .l2f, .l2d, .f2i, .f2l, .f2d, .d2i, .d2l, .d2f, .i2b, .i2c, .i2s, .lcmp, .fcmpl, .fcmpg, .dcmpl,
    .dcmpg, .ireturn, .lreturn, .freturn, .dreturn, .areturn, .returnVoid, .arrayLength, .athrow,
    .monitorEnter, .monitorExit]

theorem PlainOp.mem_all (op : PlainOp) : op ∈ all := by
  cases op <;> decide

/-- Instructions that carry a local variable. -/
inductive LocalOp where
  | iload | lload | fload | dload | aload
  | istore | lstore | fstore | dstore | astore
  | ret
deriving DecidableEq

/-- All instructions that carry a local variable, in the order of their codes. -/
def LocalOp.all : List LocalOp :=
  [.iload, .lload, .fload, .dload, .aload, .istore, .lstore, .fstore, .dstore, .astore, .ret]

theorem LocalOp.mem_all (op : LocalOp) : op ∈ all := by
  cases op <;> decide

/-- Instructions that carry a place to jump to. -/
inductive JumpOp where
  | ifeq | ifne | iflt | ifge | ifgt | ifle
  | ifIcmpeq | ifIcmpne | ifIcmplt | ifIcmpge | ifIcmpgt | ifIcmple
  | ifAcmpeq | ifAcmpne
  | goto
  | jsr
  | ifnull | ifnonnull
deriving DecidableEq

/-- All instructions that carry a place to jump to, in the order of their codes. -/
def JumpOp.all : List JumpOp :=
  [.ifeq, .ifne, .iflt, .ifge, .ifgt, .ifle, .ifIcmpeq, .ifIcmpne, .ifIcmplt, .ifIcmpge, .ifIcmpgt,
    .ifIcmple, .ifAcmpeq, .ifAcmpne, .goto, .jsr, .ifnull, .ifnonnull]

theorem JumpOp.mem_all (op : JumpOp) : op ∈ all := by
  cases op <;> decide

/-- Instructions that push a number. -/
inductive PushOp where
  | byte
  | short
deriving DecidableEq

/-- Instructions that carry a class. -/
inductive ClassOp where
  | create
  | createArray
  | cast
  | test
deriving DecidableEq

/-- An instruction. -/
inductive Instruction where
  | plain (op : PlainOp)
  | withLocal (op : LocalOp) (index : LocalIndex)
  | jump (op : JumpOp) (target : Label)
  | push (op : PushOp) (value : Int)
  | increment (index : LocalIndex) (amount : Int)
  | load (value : Loadable)
  | createBaseArray (element : BaseType)
  | tableSwitch (fallback : Label) (low high : Int) (targets : List Label)
  | lookupSwitch (fallback : Label) (pairs : List (Int × Label))
  | field (use : FieldUse) (ref : FieldRef)
  | call (kind : CallKind) (ref : MethodRef)
  | callDynamic (call : DynamicCall)
  | withClass (op : ClassOp) (name : ClassName)
  | createMultiArray (name : ClassName) (dimensions : Nat)

/-- The method that the instruction calls and whether on an instance, if it calls a given one. -/
def Instruction.called? : Instruction → Option (MethodRef × Bool)
  | .call kind ref => some (ref, !kind.isStatic)
  | _ => none

/-- An instruction in the code, possibly at a label. -/
structure CodeEntry where
  label : Option Label
  instruction : Instruction

/-- A part of the code that is guarded; without a class it catches everything. -/
structure ExceptionRange where
  start : Label
  stop : Label
  handler : Label
  caught : Option ClassName

/-- A local variable with the part of the code in which it lives. -/
structure LocalVariable where
  start : Label
  stop : Label
  name : VariableName
  descriptor : Option FieldDescriptor
  signature : Option FieldSignature
  index : LocalIndex

/-- The code of a method. -/
structure Code where
  maxStack : Option Nat
  maxLocals : Option Nat
  instructions : List CodeEntry
  exceptionTable : List ExceptionRange
  lastLabel : Option Label
  lineNumbers : Option (List (Label × Nat))
  localVariables : Option (List LocalVariable)

end Renaming

/-!
# Access flags

Classes, nested classes, fields, methods and parameters carry a word of sixteen bits with their
access flags. Each kind of word gives a meaning to some of the bits, in ascending order in
`AccessKind.flags`; `Access.ofNat` keeps those and drops all others.

Clearing a flag is described by `getLsbD_clear`: it takes away that bit and no other.
-/

namespace Renaming

/-- The kinds of words with access flags. -/
inductive AccessKind where
  | type
  | nestedType
  | field
  | method
  | parameter
deriving DecidableEq

/-- A flag: the place of its bit, and the word for it. -/
structure Flag where
  bit : Nat
  word : String
deriving DecidableEq

/-- The flags that the kind of word knows. -/
def AccessKind.flags : AccessKind → List Flag
  | .type =>
    [⟨0, "public"⟩, ⟨4, "final"⟩, ⟨5, "super"⟩, ⟨9, "interface"⟩, ⟨10, "abstract"⟩,
      ⟨12, "synthetic"⟩, ⟨13, "annotation"⟩, ⟨14, "enum"⟩, ⟨15, "module"⟩]
  | .nestedType =>
    [⟨0, "public"⟩, ⟨1, "private"⟩, ⟨2, "protected"⟩, ⟨3, "static"⟩, ⟨4, "final"⟩,
      ⟨9, "interface"⟩, ⟨10, "abstract"⟩, ⟨12, "synthetic"⟩, ⟨13, "annotation"⟩, ⟨14, "enum"⟩]
  | .field =>
    [⟨0, "public"⟩, ⟨1, "private"⟩, ⟨2, "protected"⟩, ⟨3, "static"⟩, ⟨4, "final"⟩,
      ⟨6, "volatile"⟩, ⟨7, "transient"⟩, ⟨12, "synthetic"⟩, ⟨14, "enum"⟩]
  | .method =>
    [⟨0, "public"⟩, ⟨1, "private"⟩, ⟨2, "protected"⟩, ⟨3, "static"⟩, ⟨4, "final"⟩,
      ⟨5, "synchronized"⟩, ⟨6, "bridge"⟩, ⟨7, "varargs"⟩, ⟨8, "native"⟩, ⟨10, "abstract"⟩,
      ⟨11, "strict"⟩, ⟨12, "synthetic"⟩]
  | .parameter => [⟨4, "final"⟩, ⟨12, "synthetic"⟩, ⟨15, "mandated"⟩]

/-- What words of the kind are called. -/
def AccessKind.title : AccessKind → String
  | .type => "ClassAccess"
  | .nestedType => "InnerClassFlags"
  | .field => "FieldAccess"
  | .method => "MethodAccess"
  | .parameter => "ParameterFlags"

/-- The bits that have a meaning in words of the kind. -/
def AccessKind.mask (kind : AccessKind) : BitVec 16 :=
  kind.flags.foldl (fun bits flag => bits ||| BitVec.twoPow 16 flag.bit) 0

/-- A word of access flags. -/
structure Access (kind : AccessKind) where
  bits : BitVec 16
deriving DecidableEq

namespace Access

variable {kind : AccessKind}

/-- The word without any flag. -/
def none : Access kind := ⟨0⟩

/-- The word with the bits of the number that have a meaning. -/
def ofNat (value : Nat) : Access kind := ⟨BitVec.ofNat 16 value &&& kind.mask⟩

def toNat (access : Access kind) : Nat := access.bits.toNat

/-- The word without the flag at the place. -/
def clear (access : Access kind) (place : Nat) : Access kind :=
  ⟨access.bits &&& ~~~BitVec.twoPow 16 place⟩

def isPrivate (access : Access kind) : Bool := access.bits.getLsbD 1

def isStatic (access : Access kind) : Bool := access.bits.getLsbD 3

def isFinal (access : Access kind) : Bool := access.bits.getLsbD 4

/-- The flags of the word in words, between braces after the title of its kind. -/
def describe (access : Access kind) : String :=
  let words := (kind.flags.filter fun flag => access.bits.getLsbD flag.bit).map fun flag =>
    flag.word ++ " "
  kind.title ++ " \x7b " ++ String.join words ++ "\x7d"

@[simp] theorem getLsbD_clear (access : Access kind) (place other : Nat) :
    (access.clear place).bits.getLsbD other =
      (access.bits.getLsbD other && other != place) := by
  by_cases small : other < 16
  · simp only [clear, BitVec.getLsbD_and, BitVec.getLsbD_not, BitVec.getLsbD_twoPow, small,
      decide_true, Bool.true_and]
    by_cases same : place = other
    · subst same
      simp [small]
    · have different : (other != place) = true := bne_iff_ne.mpr (Ne.symm same)
      simp [same, different]
  · simp [clear, BitVec.getLsbD_of_ge _ _ (Nat.le_of_not_lt small)]

end Access

/-- The word of a method. -/
abbrev MethodAccess := Access .method

namespace MethodAccess

def isBridge (access : MethodAccess) : Bool := access.bits.getLsbD 6

def isSynthetic (access : MethodAccess) : Bool := access.bits.getLsbD 12

/-- The word of a method that is no longer a bridge made by the compiler. -/
def withoutBridge (access : MethodAccess) : MethodAccess := (access.clear 6).clear 12

end MethodAccess

end Renaming

import Renaming.Member
import Renaming.Text.Quoted

/-!
# What can go wrong, and how it is told

A *flaw* is the reason why a text does not obey the grammar of descriptors or of signatures. A
*fault* is what an operation of the library fails with: an invalid name, a text with its flaw, or a
mapping entry with an invalid part, each possibly inside the circumstances in which it arose. All
wording is in `Fault.message`; `Fault.root` strips the circumstances.
-/

namespace Renaming

/-- Why a text is no descriptor. -/
inductive DescriptorFlaw where
  | tooManyDimensions
  | unclosedClassName
  | className (name : String)
  | unexpected (found : Char)
  | abruptEnd
  | noParameterList
  | unclosedParameterList
  | leftover (rest : String)
deriving DecidableEq

/-- Why a text is no signature; offsets count the bytes before the place. -/
inductive SignatureFlaw where
  | expected (wanted : Char) (offset : Nat) (found : Option Char)
  | tooDeep (offset : Nat)
  | unexpected (found : Char) (offset : Nat)
  | abruptEnd
  | identifier (name : String)
  | className (name : String)
  | emptyArguments
  | emptyParameters
  | unclosedParameterList
  | leftover (rest : String)
deriving DecidableEq

/-- How many reference types a signature may nest in each other. -/
def maxNesting : Nat := 256

/-- How many dimensions an array type may have. -/
def maxDimensions : Nat := 255

/-- What an operation fails with. -/
inductive Fault where
  /-- A text that is no name of the kind. -/
  | name (kind : NameKind)
  /-- A text that is no descriptor. -/
  | descriptor (text : String) (flaw : DescriptorFlaw)
  /-- A text that is no signature. -/
  | signature (text : String) (flaw : SignatureFlaw)
  /-- A part of a mapping entry that cannot be used. -/
  | mappingInput (input : String) (cause : Fault)
  /-- A fault found while checking a text. -/
  | onValue (text : String) (cause : Fault)
  /-- A fault found in a class. -/
  | inClass (owner : ClassName) (cause : Fault)
  /-- A fault found in a method. -/
  | inMethod (key : MethodKey) (cause : Fault)
deriving DecidableEq

/-- The rule that an invalid name of the kind breaks. -/
def NameKind.rule : NameKind → String
  | .type => "invalid class name: must be either array field descriptor; or must consist out of " ++
      "`/` separated non-empty parts, and not contain any of `.`, `;`, `[`"
  | .field => "invalid field name: must be non-empty and not contain any of `.`, `;`, `[` and `/`"
  | .method =>
    "invalid method name: must be either `<init>`, `<clinit>` or be non-empty and not " ++
    "contain any of `.`, `;`, `[`, `/`, `<` and `>`"
  | .parameter =>
      "invalid parameter name: must be non-empty and not contain any of `.`, `;`, `[` and `/`"
  | .localVariable =>
      "invalid local variable name: must be non-empty and not contain any of `.`, `;`, `[` and `/`"

def DescriptorFlaw.message : DescriptorFlaw → String
  | .tooManyDimensions => "array type with more than " ++ toString maxDimensions ++ " dimensions"
  | .unclosedClassName => "class name not terminated by `;`"
  | .className name => "invalid class name " ++ Text.quoted name
  | .unexpected found => "unexpected char " ++ Text.quotedChar found
  | .abruptEnd => "unexpected abrupt ending"
  | .noParameterList => "method descriptor doesn't start with `(`"
  | .unclosedParameterList => "parameter list not terminated by `)`"
  | .leftover rest => "expected end, got " ++ Text.quoted rest ++ " remaining"

def SignatureFlaw.message : SignatureFlaw → String
  | .expected wanted offset found =>
    "expected " ++ Text.quotedChar wanted ++ " at " ++ toString offset ++ ", got " ++
      (match found with
        | some c => Text.quotedChar c
        | none => "end")
  | .tooDeep offset =>
    "nesting too deep at " ++ toString offset ++ ", more than " ++ toString maxNesting ++ " levels"
  | .unexpected found offset =>
    "unexpected char " ++ Text.quotedChar found ++ " at " ++ toString offset
  | .abruptEnd => "unexpected abrupt ending"
  | .identifier name => "invalid identifier " ++ Text.quoted name
  | .className name => "invalid class name " ++ Text.quoted name
  | .emptyArguments => "empty type arguments"
  | .emptyParameters => "empty type parameters"
  | .unclosedParameterList => "parameter list not terminated by `)`"
  | .leftover rest => "expected end, got " ++ Text.quoted rest ++ " remaining"

/-- The wording of a fault, circumstances first. -/
def Fault.message : Fault → String
  | .name kind => kind.rule
  | .descriptor text flaw => "invalid descriptor " ++ Text.quoted text ++ ": " ++ flaw.message
  | .signature text flaw => "invalid signature " ++ Text.quoted text ++ ": " ++ flaw.message
  | .mappingInput input cause =>
    "malformed mapping input " ++ Text.quoted input ++ ": " ++ cause.message
  | .onValue text cause => "on value " ++ Text.quoted text ++ ": " ++ cause.message
  | .inClass owner cause => "failed to remap class " ++ owner.text ++ ": " ++ cause.message
  | .inMethod key cause => "failed to remap method " ++ toString key ++ ": " ++ cause.message

/-- The fault without the circumstances in which it was found. -/
def Fault.root : Fault → Fault
  | .onValue _ cause => cause.root
  | .inClass _ cause => cause.root
  | .inMethod _ cause => cause.root
  | fault => fault

/-- The text that is to blame, where the fault is about a descriptor, a signature or a mapping. -/
def Fault.offending? (fault : Fault) : Option String :=
  match fault.root with
  | .descriptor text _ => some text
  | .signature text _ => some text
  | .mappingInput input _ => some input
  | _ => none

end Renaming

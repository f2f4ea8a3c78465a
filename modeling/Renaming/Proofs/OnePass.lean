import Renaming.Proofs.DescribedTypes
import Renaming.Proofs.Lockstep
import Renaming.Proofs.SignatureGrammar

/-!
# Renaming signatures in one pass

A signature is renamed by reading it into a tree, asking for the names in the tree and writing the
tree with the new names. It can also be renamed while it is read: a name is asked for as soon as it
is read, and what is written depends on the answer. The answers are then at hand while the rest of
the text is read, the more so as a nested class is written within the new name of the class around
it.

They are of no account to the reading. `Signature.OnePass` rewrites signatures in one pass, with
answers that may depend on all questions before, and each of its rewriters goes the way of the
scanner that reads trees (`Alike`). So whatever is answered, the same names are asked for, and the
same texts are accepted. If the answer to a question is always the same, what is written is the
renamed tree.

* `OnePass.together_nestedClass`: the new name of an open class type is carried along, but it is the
  old one that the next question is made from.
* `Grammar.rewriteAsking_follows`: rewriting asks for the names that reading meets.
* `Grammar.rewriteAsking_eq_renameAsking`: rewriting comes to the same as reading first.
-/

namespace Renaming

/-! ### Writing while reading -/

namespace Signature.OnePass

open Scanner

variable (answers : Answers)

/-- Asks for a name. -/
def ask (name : ClassName) : Scan (Option ClassName) := fun cursor =>
  .ok (answers cursor.names name) { cursor with names := cursor.names ++ [name] }

def typeVariable : Scan (List Char) := do
  let name ← Signature.typeVariable
  return 'T' :: name.toList ++ [';']

def javaType (reference : Scan (List Char)) : Scan (List Char) := do
  match (← peek).bind BaseType.ofLetter? with
  | some type =>
    let _ ← next
    return [type.letter]
  | none => reference

def typeArgument (reference : Scan (List Char)) : Scan (List Char) := do
  let seen ← peek
  if seen = some '*' then
    expect '*'
    return ['*']
  else if seen = some '+' then
    expect '+'
    return '+' :: (← reference)
  else if seen = some '-' then
    expect '-'
    return '-' :: (← reference)
  else
    reference

def typeArguments (reference : Scan (List Char)) : Scan (List Char) := do
  let arguments ← inBrackets .emptyArguments (typeArgument reference)
  return bracketed arguments.flatten

/-- A class type whose end is not yet reached: the name of the class, its new name, and what is
written of it. -/
structure OpenClass where
  old : ClassName
  new : ClassName
  written : List Char

/-- Goes on to a class nested in the given one. The name that is asked for is made from old
names. -/
def nestedClass (reference : Scan (List Char)) (around : OpenClass) : Scan OpenClass := do
  let part ← identifier ['<', '.', ';']
  let old := around.old.nested part
  let answer ← ask answers old
  let arguments ← typeArguments reference
  let (new, newPart) := match answer with
    | some new => (new, new.partOf around.new)
    | none => (around.new.nested part, part)
  return ⟨old, new, around.written ++ '.' :: newPart.toList ++ arguments⟩

def classType (reference : Scan (List Char)) : Scan (List Char) := do
  expect 'L'
  let name ← takeUntil ['<', '.', ';']
  unless isClassTypeName name do
    throw (.className (String.ofList name))
  let name : ClassName := ⟨String.ofList name⟩
  let answer ← ask answers name
  let new := answer.getD name
  let arguments ← typeArguments reference
  let last ← repeatFrom (eat '.') (nestedClass answers reference)
    ⟨name, new, 'L' :: new.text.toList ++ arguments⟩
  expect ';'
  return last.written ++ [';']

def referenceType : Nat → Scan (List Char)
  | 0 => do throw (.tooDeep (← offset))
  | levels + 1 => do
    let seen ← peek
    if seen = some 'L' then
      classType answers (referenceType levels)
    else if seen = some 'T' then
      typeVariable
    else if seen = some '[' then
      expect '['
      return '[' :: (← javaType (referenceType levels))
    else
      match seen with
      | some c => throw (.unexpected c (← offset))
      | none => throw .abruptEnd

def reference : Scan (List Char) := referenceType answers maxNesting

def classBound : Scan (List Char) := do
  let seen ← peek
  if seen = some 'L' ∨ seen = some 'T' ∨ seen = some '[' then
    reference answers
  else
    return []

def typeParameter : Scan (List Char) := do
  let name ← identifier [':']
  expect ':'
  let classBound ← classBound answers
  let interfaceBounds ← many (eat ':') (reference answers)
  return name.toList ++ ':' :: classBound ++ interfaceBounds.flatMap fun bound => ':' :: bound

def typeParameters : Scan (List Char) := do
  let parameters ← inBrackets .emptyParameters (typeParameter answers)
  return bracketed parameters.flatten

def classSig : Scan (List Char) := do
  let typeParameters ← typeParameters answers
  let superClass ← classType answers (reference answers)
  let interfaces ← many more (classType answers (reference answers))
  return typeParameters ++ superClass ++ interfaces.flatten

def parameterType : Scan (List Char) := do
  if (← remaining).isEmpty then
    throw .unclosedParameterList
  javaType (reference answers)

def resultType : Scan (List Char) := do
  if ← eat 'V' then
    return ['V']
  else
    javaType (reference answers)

def thrownType : Scan (List Char) := do
  let seen ← peek
  if seen = some 'T' then
    typeVariable
  else
    classType answers (reference answers)

def methodSig : Scan (List Char) := do
  let typeParameters ← typeParameters answers
  expect '('
  let parameters ← many (notYet ')') (parameterType answers)
  let result ← resultType answers
  let thrown ← many (eat '^') (thrownType answers)
  return typeParameters ++ '(' :: parameters.flatten ++ [')'] ++ result ++
    thrown.flatMap fun type => '^' :: type

end Signature.OnePass

/-! ### Each symbol of the grammar -/

namespace Signature

open Scanner

variable {α β : Type}

namespace OnePass

variable (answers : Answers)

/-- If every question for a name is answered in the same way, the text is written as the view
says. -/
def Writes (view : (ClassName → Option ClassName) → List Char) (written : List Char) : Prop :=
  ∀ renamed, (∀ asked, answers asked = renamed) → written = view renamed

/-- What is written for a type. -/
abbrev WritesType (type : TypeSig) : List Char → Prop :=
  Writes answers fun renamed => (type.rename renamed).chars

abbrev WritesClass (type : ClassType) : List Char → Prop :=
  Writes answers fun renamed => (type.rename renamed).chars

variable {answers}

theorem alike_typeVariable : Alike (return .var (← Signature.typeVariable)) typeVariable
    (WritesType answers) := by
  refine silent_typeVariable.andThen fun name => together_pure fun _ _ renamed _ => ?_
  simp only [TypeSig.rename, TypeSig.chars]

section Level

variable {scan : Scan TypeSig} {rewrite : Scan (List Char)}
  (alike : Alike scan rewrite (WritesType answers))

include alike

theorem alike_javaType :
    Alike (Signature.javaType scan) (javaType rewrite) (WritesType answers) := by
  refine silent_peek.andThen fun seen => ?_
  cases seen.bind BaseType.ofLetter? with
  | none => exact alike
  | some base =>
    refine silent_next.andThen fun _ => together_pure fun _ _ renamed _ => ?_
    simp only [TypeSig.rename, TypeSig.chars]

theorem alike_typeArgument :
    Alike (Signature.typeArgument scan) (typeArgument rewrite) fun argument =>
      Writes answers fun renamed => (argument.rename renamed).chars := by
  have bounded (bound : Bound) : Alike (return .bounded bound (← scan))
      (do return bound.chars ++ (← rewrite)) fun argument =>
        Writes answers fun renamed => (TypeArg.rename renamed argument).chars := by
    refine Alike.bind alike fun type written writes => together_pure fun _ _ renamed same => ?_
    simp only [TypeArg.rename, TypeArg.chars, writes renamed same]
  refine silent_peek.andThen fun seen => ?_
  split
  case h_1 =>
    refine (silent_expect '*').andThen fun _ => together_pure fun _ _ renamed _ => ?_
    simp only [TypeArg.rename, TypeArg.chars]
  case h_2 => exact (silent_expect '+').andThen fun _ => bounded .extending
  case h_3 => exact (silent_expect '-').andThen fun _ => bounded .superOf
  case h_4 notAny notExtending notSuper =>
    rw [if_neg notAny, if_neg notExtending, if_neg notSuper]
    have unmarked := bounded .exactly
    simp only [Bound.chars, List.nil_append, bind_pure] at unmarked
    exact unmarked

theorem alike_typeArguments :
    Alike (Signature.typeArguments scan) (typeArguments rewrite) fun arguments =>
      Writes answers fun renamed =>
        bracketed (TypeArg.charsAll (TypeArg.renameAll renamed arguments)) := by
  have listed := alike_inBrackets (alike_typeArgument alike) .emptyArguments
  unfold typeArguments
  rw [← bind_pure (Signature.typeArguments scan)]
  refine Alike.bind listed fun arguments written writes => together_pure fun _ _ renamed same => ?_
  have all : written.flatten = TypeArg.charsAll (TypeArg.renameAll renamed arguments) := by
    induction writes with
    | nil => rw [TypeArg.renameAll, TypeArg.charsAll, List.flatten_nil]
    | cons single _ ih =>
      rw [TypeArg.renameAll, TypeArg.charsAll, List.flatten_cons, single renamed same, ih]
  simp only [all]

end Level

/-- An open class stands for a class type: it has its names, and its text but for the end. -/
structure IsOpen (answers : Answers) (type : ClassType) (state : OpenClass) : Prop where
  old : state.old = type.name
  new : ∀ renamed, (∀ asked, answers asked = renamed) → state.new = type.newName renamed
  written : Writes answers (fun renamed => (type.rename renamed).charsOpen) state.written

/-- The outermost class of a class type, with its arguments. -/
theorem isOpen_outer {name : ClassName} {answer : Option ClassName} {arguments : List TypeArg}
    {written : List Char}
    (answered : ∀ renamed, (∀ asked, answers asked = renamed) → answer = renamed name)
    (writes : Writes answers
      (fun renamed => bracketed (TypeArg.charsAll (TypeArg.renameAll renamed arguments))) written) :
    IsOpen answers (.outer name arguments)
      ⟨name, answer.getD name, 'L' :: (answer.getD name).text.toList ++ written⟩ := by
  refine ⟨rfl, fun renamed same => ?_, fun renamed same => ?_⟩
  · rw [answered renamed same]
    rfl
  · simp only [ClassType.rename, ClassType.charsOpen, answered renamed same, writes renamed same]

section Classes

variable {scan : Scan TypeSig} {rewrite : Scan (List Char)}
  (alike : Alike scan rewrite (WritesType answers))

theorem together_ask {given : List ClassName → Prop} {name : ClassName} {next : Unit → Scan α}
    {next' : Option ClassName → Scan β} {last : α → β → List ClassName → Prop}
    (allowed : ∀ asked, given asked → AskedAfter asked (asked ++ [name]))
    (rest : ∀ answer, (∀ renamed, (∀ asked, answers asked = renamed) → answer = renamed name) →
      Together (fun names => name ∈ names) (next ()) (next' answer) last) :
    Together given (meet name >>= next) (ask answers name >>= next') last := by
  intro cursor holds
  refine EndAlike.after ?_ (allowed cursor.names holds)
  refine rest (answers cursor.names name) (fun renamed same => ?_)
    { cursor with names := cursor.names ++ [name] } (List.mem_append_right _ List.mem_cons_self)
  rw [same]

include alike

/-- The next question is made from the old name of the open class, which both have; its new name is
at hand for the text that is written. -/
theorem together_nestedClass (type : ClassType) (state : OpenClass) :
    Together (fun names => IsOpen answers type state ∧ type.name ∈ names)
      (Signature.nestedClass scan type) (nestedClass answers rewrite state)
      fun type state names => IsOpen answers type state ∧ type.name ∈ names := by
  refine .under fun isOpen => ?_
  unfold Signature.nestedClass nestedClass
  refine identifier_andThen fun part valid => ?_
  rw [isOpen.old]
  refine together_ask (fun asked earlier => .nested .nothing earlier valid)
    fun answer answered => ?_
  refine ((alike_typeArguments alike).keeping _).bind fun arguments written => ?_
  refine .under fun writes => together_pure fun names member => ⟨⟨rfl, ?_, ?_⟩, member⟩
  · intro renamed same
    rw [ClassType.newName, ClassType.name, answered renamed same]
    cases renamed (type.name.nested part) with
    | none => simp only [isOpen.new renamed same]
    | some new => rfl
  · intro renamed same
    simp only [ClassType.rename, ClassType.charsOpen, ClassType.newPart, answered renamed same,
      isOpen.written renamed same, writes renamed same]
    cases renamed (type.name.nested part) with
    | none => rfl
    | some new => simp only [isOpen.new renamed same]

theorem alike_classType :
    Alike (Signature.classType scan) (classType answers rewrite) (WritesClass answers) := by
  unfold Signature.classType classType
  refine (silent_expect 'L').andThen fun _ => (silent_takeUntil ['<', '.', ';']).andThen
    fun text => ?_
  by_cases valid : isClassTypeName text = true
  · rw [if_pos valid, if_pos valid]
    have named : isClassTypeName (⟨String.ofList text⟩ : ClassName).text.toList = true := by
      rw [String.toList_ofList]
      exact valid
    refine together_ask (fun asked _ => .outer .nothing named) fun answer answered => ?_
    refine ((alike_typeArguments alike).keeping _).bind fun arguments written => ?_
    refine .under fun writes cursor member => ?_
    refine Together.bind (together_repeatFrom (silent_eat '.') (together_nestedClass alike) _ _)
      (fun type state => .under fun last => ?_) cursor ⟨isOpen_outer answered writes, member⟩
    refine (silent_expect ';').andThen fun _ => together_pure fun _ _ renamed same => ?_
    simp only [ClassType.chars, last.written renamed same]
  · rw [if_neg valid, if_neg valid]
    exact fun _ _ => .error .nothing

end Classes

/-- The induction is on the levels that are left. Both break off at the same one. -/
theorem alike_referenceType (levels : Nat) :
    Alike (Signature.referenceType levels) (referenceType answers levels) (WritesType answers) := by
  induction levels with
  | zero => exact silent_offset.andThen fun _ => alike_throw _
  | succ levels ih =>
    refine silent_peek.andThen fun seen => ?_
    split
    case h_1 =>
      rw [if_pos rfl, ← bind_pure (classType _ _)]
      refine Alike.bind (alike_classType ih) fun type written writes => ?_
      refine together_pure fun _ _ renamed same => ?_
      simp only [TypeSig.rename, TypeSig.chars, writes renamed same, ClassType.chars]
    case h_2 => exact alike_typeVariable
    case h_3 =>
      refine (silent_expect '[').andThen fun _ => ?_
      refine Alike.bind (alike_javaType ih) fun type written writes => ?_
      refine together_pure fun _ _ renamed same => ?_
      simp only [TypeSig.rename, TypeSig.chars, writes renamed same]
    case h_4 c notObject notVariable notArray =>
      have other : ∀ d, c ≠ d → some c ≠ some d :=
        fun d differ same => differ (Option.some.inj same)
      rw [if_neg (other _ notObject), if_neg (other _ notVariable), if_neg (other _ notArray)]
      exact silent_offset.andThen fun _ => alike_throw _
    case h_5 => exact alike_throw _

theorem alike_reference : Alike Signature.reference (reference answers) (WritesType answers) :=
  alike_referenceType maxNesting

theorem alike_wholeClassType :
    Alike (Signature.classType Signature.reference) (classType answers (reference answers))
      (WritesClass answers) := alike_classType alike_reference

theorem alike_classBound :
    Alike Signature.classBound (classBound answers) fun bound =>
      Writes answers fun renamed => (bound.map (TypeSig.rename renamed)).elim [] TypeSig.chars := by
  have given : Alike (return some (← Signature.reference)) (reference answers) fun bound =>
      Writes answers fun renamed => (bound.map (TypeSig.rename renamed)).elim [] TypeSig.chars := by
    rw [← bind_pure (reference answers)]
    refine Alike.bind alike_reference fun type written writes => ?_
    exact together_pure fun _ _ => writes
  refine silent_peek.andThen fun seen => ?_
  split
  case h_1 => exact given
  case h_2 => exact given
  case h_3 => exact given
  case h_4 notObject notVariable notArray =>
    have none : ¬(seen = some 'L' ∨ seen = some 'T' ∨ seen = some '[') := by
      simp only [not_or]
      exact ⟨notObject, notVariable, notArray⟩
    rw [if_neg none]
    exact together_pure fun _ _ renamed _ => rfl

/-- What is written for the items of a list. -/
theorem eq_map_of_forall₂ {α : Type} {items : List α} {written : List (List Char)}
    {view : α → (ClassName → Option ClassName) → List Char}
    (writes : List.Forall₂ (fun item => Writes answers (view item)) items written)
    {renamed : ClassName → Option ClassName} (same : ∀ asked, answers asked = renamed) :
    written = items.map fun item => view item renamed := by
  rw [← List.forall₂_eq_eq_eq, List.forall₂_map_right_iff]
  exact (writes.imp fun _ _ single => single renamed same).flip

theorem alike_typeParameter :
    Alike Signature.typeParameter (typeParameter answers) fun parameter =>
      Writes answers fun renamed => (parameter.rename renamed).chars := by
  refine (silent_identifier [':']).andThen fun name => (silent_expect ':').andThen fun _ => ?_
  refine Alike.bind alike_classBound fun bound written writes => ?_
  refine Alike.bind (alike_many (silent_eat ':') alike_reference)
    fun bounds others writesOthers => ?_
  refine together_pure fun _ _ renamed same => ?_
  simp only [TypeParameter.rename, TypeParameter.chars, writes renamed same,
    eq_map_of_forall₂ writesOthers same, List.flatMap_map]

theorem alike_typeParameters :
    Alike Signature.typeParameters (typeParameters answers) fun parameters =>
      Writes answers fun renamed =>
        bracketed ((parameters.map (TypeParameter.rename renamed)).flatMap
          TypeParameter.chars) := by
  rw [typeParameters, ← bind_pure Signature.typeParameters]
  refine Alike.bind (alike_inBrackets alike_typeParameter _) fun parameters written writes =>
    together_pure fun _ _ renamed same => ?_
  simp only [eq_map_of_forall₂ writes same, List.flatMap_def, List.map_map, Function.comp_def]

theorem alike_classSig :
    Alike Signature.classSig (classSig answers) fun signature =>
      Writes answers fun renamed => (signature.rename renamed).chars := by
  refine Alike.bind alike_typeParameters fun parameters written writes => ?_
  refine Alike.bind alike_wholeClassType fun superClass writtenSuper writesSuper => ?_
  refine Alike.bind (alike_many silent_more alike_wholeClassType)
    fun interfaces others writesOthers => ?_
  refine together_pure fun _ _ renamed same => ?_
  simp only [ClassSig.rename, ClassSig.chars, writes renamed same, writesSuper renamed same,
    eq_map_of_forall₂ writesOthers same, List.flatMap_def, List.map_map, Function.comp_def]

theorem alike_wholeJavaType :
    Alike (Signature.javaType Signature.reference) (javaType (reference answers))
      (WritesType answers) :=
  alike_javaType alike_reference

theorem alike_parameterType :
    Alike Signature.parameterType (parameterType answers) (WritesType answers) := by
  refine silent_remaining.andThen fun rest => ?_
  by_cases ended : rest.isEmpty = true
  · rw [if_pos ended, if_pos ended]
    exact fun _ _ => .error .nothing
  · rw [if_neg ended, if_neg ended]
    exact alike_wholeJavaType

theorem alike_resultType :
    Alike Signature.resultType (resultType answers) fun result =>
      Writes answers fun renamed =>
        (result.map (TypeSig.rename renamed)).elim ['V'] TypeSig.chars := by
  refine (silent_eat 'V').andThen fun found => ?_
  cases found with
  | true => exact together_pure fun _ _ renamed _ => rfl
  | false =>
    rw [if_neg Bool.false_ne_true, if_neg Bool.false_ne_true,
      ← bind_pure (javaType (reference answers))]
    refine Alike.bind alike_wholeJavaType fun type written writes => ?_
    exact together_pure fun _ _ => writes

theorem alike_thrownType :
    Alike Signature.thrownType (thrownType answers) fun type =>
      Writes answers fun renamed => thrownChars (type.rename renamed) := by
  refine silent_peek.andThen fun seen => ?_
  split
  case h_1 =>
    refine silent_typeVariable.andThen fun name => together_pure fun _ _ renamed _ => ?_
    rfl
  case h_2 other =>
    rw [if_neg other, ← bind_pure (classType answers (reference answers))]
    refine Alike.bind alike_wholeClassType fun type written writes => ?_
    exact together_pure fun _ _ => writes

theorem alike_methodSig :
    Alike Signature.methodSig (methodSig answers) fun signature =>
      Writes answers fun renamed => (signature.rename renamed).chars := by
  refine Alike.bind alike_typeParameters fun parameters written writes => ?_
  refine (silent_expect '(').andThen fun _ => ?_
  refine Alike.bind (alike_many (silent_notYet ')') alike_parameterType)
    fun types writtenTypes writesTypes => ?_
  refine Alike.bind alike_resultType fun result writtenResult writesResult => ?_
  refine Alike.bind (alike_many (silent_eat '^') alike_thrownType)
    fun thrown others writesOthers => ?_
  refine together_pure fun _ _ renamed same => ?_
  simp only [MethodSig.rename, MethodSig.chars, writes renamed same,
    eq_map_of_forall₂ writesTypes same,
    writesResult renamed same, eq_map_of_forall₂ writesOthers same, List.flatMap_def, List.map_map,
    Function.comp_def, chars_thrownType]

/-! ### Whole texts -/

theorem alike_whole {τ : Type} {scan : Scan τ} {rewrite : Scan (List Char)}
    {related : τ → List Char → Prop} (alike : Alike scan rewrite related) :
    Alike (whole .leftover scan) (whole .leftover rewrite) related := by
  refine Alike.bind alike fun tree written holds => silent_remaining.andThen fun rest => ?_
  by_cases ended : rest.isEmpty = true
  · rw [if_pos ended, if_pos ended]
    exact together_pure fun _ _ => holds
  · rw [if_neg ended, if_neg ended]
    exact fun _ _ => .error .nothing

end OnePass

end Signature

theorem Grammar.renameAsking_total (τ : Type) [Grammar τ] (renamed : ClassName → Option ClassName)
    (text : String) :
    renameAsking τ (Naming.total renamed) text =
      ⟨(read text : Reading τ).names,
        (read text : Reading τ).result.map fun tree => write (rename renamed tree)⟩ := by
  ext1
  · rw [renameAsking, Recorded.record_bind_of_eq_ok (result_consult_total renamed _),
      Naming.record_consult_total]
    cases (read text : Reading τ).result <;> exact List.append_nil _
  · exact renameText_eq τ renamed text

/-- The text is that of a tree with the names, which are in the order of reading. -/
def Grammar.HasNames (τ : Type) [Grammar τ] [LawfulGrammar τ] (text : String)
    (names : List ClassName) : Prop :=
  ∃ tree : τ, LawfulGrammar.WellFormed tree ∧ write tree = text ∧ LawfulGrammar.names tree = names

open Scanner Signature OnePass in
/-- A grammar of signatures that are renamed in one pass: the rewriter goes the way of the scanner
that reads trees, and writes the renamed tree. -/
class OnePassGrammar (τ : Type) [Grammar τ] where
  scan : Scan τ
  read_eq : Grammar.read = read scan
  chars : τ → List Char
  write_eq : ∀ tree, Grammar.write tree = String.ofList (chars tree)
  rewrite : Answers → Scan (List Char)
  alike : ∀ answers, Alike scan (rewrite answers) fun tree =>
    Writes answers fun renamed => chars (Grammar.rename renamed tree)

instance : OnePassGrammar ClassSig where
  scan := Signature.classSig
  read_eq := rfl
  chars := ClassSig.chars
  write_eq _ := rfl
  rewrite := Signature.OnePass.classSig
  alike _ := Signature.OnePass.alike_classSig

instance : OnePassGrammar MethodSig where
  scan := Signature.methodSig
  read_eq := rfl
  chars := MethodSig.chars
  write_eq _ := rfl
  rewrite := Signature.OnePass.methodSig
  alike _ := Signature.OnePass.alike_methodSig

instance : OnePassGrammar TypeSig where
  scan := Signature.reference
  read_eq := rfl
  chars := TypeSig.chars
  write_eq _ := rfl
  rewrite := Signature.OnePass.reference
  alike _ := Signature.OnePass.alike_reference

namespace Grammar

open Signature.OnePass (Writes alike_whole)

variable (τ : Type) [Grammar τ]

variable [OnePassGrammar τ]

/-- Renames a text while it is read, recording the names asked for. -/
def rewriteAsking (answers : Answers) (text : String) : Inquiry String :=
  match Scanner.whole .leftover (OnePassGrammar.rewrite τ answers) (.start text.toList) with
  | .ok written cursor => ⟨cursor.names, .ok (String.ofList written)⟩
  | .error flaw cursor => ⟨cursor.names, .error (.signature text flaw)⟩

/-- A text is read and rewritten to its end, or reading and rewriting break off at the same flaw. -/
theorem read_and_rewrite (answers : Answers) (text : String) :
    ∃ names, AskedAfter [] names ∧
      ((∃ tree : τ, read text = (⟨names, .ok tree⟩ : Reading τ) ∧
          ∃ written, rewriteAsking τ answers text = ⟨names, .ok (String.ofList written)⟩ ∧
            Writes answers (fun renamed => OnePassGrammar.chars (rename renamed tree)) written) ∨
        ∃ flaw, read text = (⟨names, .error (.signature text flaw)⟩ : Reading τ) ∧
          rewriteAsking τ answers text = ⟨names, .error (.signature text flaw)⟩) := by
  have ending := alike_whole (OnePassGrammar.alike (τ := τ) answers) (.start text.toList) trivial
  rw [OnePassGrammar.read_eq]
  unfold Signature.read rewriteAsking
  generalize Scanner.whole .leftover (OnePassGrammar.scan (τ := τ)) (.start text.toList) = result
    at ending ⊢
  generalize Scanner.whole .leftover (OnePassGrammar.rewrite τ answers)
    (.start text.toList) = result' at ending ⊢
  cases ending with
  | ok asked holds => exact ⟨_, asked, .inl ⟨_, rfl, _, rfl, holds⟩⟩
  | error asked => exact ⟨_, asked, .inr ⟨_, rfl, rfl⟩⟩

/-- **Rewriting asks for the names that reading meets**, and breaks off where reading does. -/
theorem rewriteAsking_follows (answers : Answers) (text : String) :
    (rewriteAsking τ answers text).record = (read text : Reading τ).names ∧
      (rewriteAsking τ answers text).result.map (fun _ => ()) = check τ text := by
  rw [check]
  obtain ⟨names, _, ⟨tree, found, written, done, _⟩ | ⟨flaw, found, done⟩⟩ :=
    read_and_rewrite τ answers text
  · rw [found, done]
    exact ⟨rfl, rfl⟩
  · rw [found, done]
    exact ⟨rfl, rfl⟩

/-- If answers do not depend on what was asked before, rewriting comes to the same as reading
first. -/
theorem rewriteAsking_eq_renameAsking (renamed : ClassName → Option ClassName) (text : String) :
    rewriteAsking τ (fun _ => renamed) text = renameAsking τ (Naming.total renamed) text := by
  rw [renameAsking_total]
  obtain ⟨names, _, ⟨tree, found, written, done, writes⟩ | ⟨flaw, found, done⟩⟩ :=
    read_and_rewrite τ (fun _ => renamed) text
  · have spelled : String.ofList written = write (rename renamed tree) := by
      rw [OnePassGrammar.write_eq, writes renamed fun _ => rfl]
    rw [found, done, spelled]
    rfl
  · rw [found, done]
    rfl

/-- What is known of a text before any answer is given. -/
theorem read_signature [LawfulGrammar τ] (text : String) :
    AskedAfter [] (read text : Reading τ).names ∧
      (∀ fault, check τ text = .error fault → ∃ flaw, fault = .signature text flaw) ∧
      (check τ text = .ok () → HasNames τ text (read text : Reading τ).names) := by
  rw [check]
  obtain ⟨names, asked, ⟨tree, found, _⟩ | ⟨flaw, found, _⟩⟩ :=
    read_and_rewrite τ (fun _ _ => none) text
  · obtain ⟨fine, met, written⟩ := LawfulGrammar.read_eq_iff.mp found
    rw [found]
    exact ⟨asked, nofun, fun _ => ⟨tree, fine, written, met.symm⟩⟩
  · rw [found]
    exact ⟨asked, fun fault failed => ⟨flaw, (Except.error.inj failed).symm⟩, nofun⟩

end Grammar

/-! ### The three kinds of signatures -/

inductive SignatureKind where
  | ofClass
  | ofMethod
  | ofField

namespace SignatureKind

def check : SignatureKind → String → Except Fault Unit
  | .ofClass => Grammar.check ClassSig
  | .ofMethod => Grammar.check MethodSig
  | .ofField => Grammar.check TypeSig

/-- Renames a signature that is read before. -/
def renameAsking : SignatureKind → Naming → String → Inquiry String
  | .ofClass => Grammar.renameAsking ClassSig
  | .ofMethod => Grammar.renameAsking MethodSig
  | .ofField => Grammar.renameAsking TypeSig

/-- Renames a signature while it is read. -/
def rewriteAsking : SignatureKind → Answers → String → Inquiry String
  | .ofClass => Grammar.rewriteAsking ClassSig
  | .ofMethod => Grammar.rewriteAsking MethodSig
  | .ofField => Grammar.rewriteAsking TypeSig

/-- The names that reading meets, up to a flaw if there is one. -/
def names : SignatureKind → String → List ClassName
  | .ofClass, text => (Grammar.read text : Reading ClassSig).names
  | .ofMethod, text => (Grammar.read text : Reading MethodSig).names
  | .ofField, text => (Grammar.read text : Reading TypeSig).names

/-- The text is that of a tree with the names, which are in the order of reading. -/
def HasNames : SignatureKind → String → List ClassName → Prop
  | .ofClass => Grammar.HasNames ClassSig
  | .ofMethod => Grammar.HasNames MethodSig
  | .ofField => Grammar.HasNames TypeSig

variable (kind : SignatureKind) (text : String)

theorem rewriteAsking_follows (answers : Answers) :
    (kind.rewriteAsking answers text).record = kind.names text ∧
      (kind.rewriteAsking answers text).result.map (fun _ => ()) = kind.check text := by
  cases kind with
  | ofClass => exact Grammar.rewriteAsking_follows ClassSig answers text
  | ofMethod => exact Grammar.rewriteAsking_follows MethodSig answers text
  | ofField => exact Grammar.rewriteAsking_follows TypeSig answers text

theorem rewriteAsking_eq_renameAsking (renamed : ClassName → Option ClassName) :
    kind.rewriteAsking (fun _ => renamed) text = kind.renameAsking (.total renamed) text := by
  cases kind with
  | ofClass => exact Grammar.rewriteAsking_eq_renameAsking ClassSig renamed text
  | ofMethod => exact Grammar.rewriteAsking_eq_renameAsking MethodSig renamed text
  | ofField => exact Grammar.rewriteAsking_eq_renameAsking TypeSig renamed text

theorem read_signature :
    AskedAfter [] (kind.names text) ∧
      (∀ fault, kind.check text = .error fault → ∃ flaw, fault = .signature text flaw) ∧
      (kind.check text = .ok () → kind.HasNames text (kind.names text)) := by
  cases kind with
  | ofClass => exact Grammar.read_signature ClassSig text
  | ofMethod => exact Grammar.read_signature MethodSig text
  | ofField => exact Grammar.read_signature TypeSig text

end SignatureKind

/-- **What a signature asks for does not depend on the answers.** A signature of any kind is renamed
while it is read, with answers that may depend on all that was asked before. For two ways to answer,
it is renamed under the one if it is under the other, which is if it passes its check; else both end
with the same fault, and it carries the whole text. The same names are asked for in the same order,
also before a fault: names as they stand in the text, and names of nested classes made from the
names that were asked for, not from the answers. Reading a signature first and renaming it after
comes to the same. -/
theorem signature_questions_ignore_answers (kind : SignatureKind) (text : String)
    (first second : Answers) :
    let run := fun answers => kind.rewriteAsking answers text
    (∀ renamed, run (fun _ => renamed) = kind.renameAsking (.total renamed) text) ∧
    ((∃ out, (run first).result = .ok out) ↔ ∃ out, (run second).result = .ok out) ∧
    ((∃ out, (run first).result = .ok out) ↔ kind.check text = .ok ()) ∧
    (∀ fault, (run first).result = .error fault ↔ (run second).result = .error fault) ∧
    (∀ fault, (run first).result = .error fault → ∃ flaw, fault = .signature text flaw) ∧
    (run first).record = (run second).record ∧
    AskedAfter [] (run first).record ∧
    (kind.check text = .ok () → kind.HasNames text (run first).record) := by
  intro run
  have record (answers : Answers) : (run answers).record = kind.names text :=
    (kind.rewriteAsking_follows text answers).1
  have ends (answers : Answers) :
      (∃ out, (run answers).result = .ok out) ↔ kind.check text = .ok () := by
    rw [← (kind.rewriteAsking_follows text answers).2]
    cases (run answers).result <;> simp [Except.map]
  have fails (answers : Answers) (fault : Fault) :
      (run answers).result = .error fault ↔ kind.check text = .error fault := by
    rw [← (kind.rewriteAsking_follows text answers).2]
    cases (run answers).result <;> simp [Except.map]
  obtain ⟨asked, carries, names⟩ := kind.read_signature text
  rw [record first, record second]
  refine ⟨kind.rewriteAsking_eq_renameAsking text,
    (ends first).trans (ends second).symm, ends first,
    fun fault => (fails first fault).trans (fails second fault).symm,
    fun fault failed => ?_, rfl, asked, names⟩
  exact carries fault ((fails first fault).mp failed)

namespace NestedQuestions

def keeping : Answers := fun _ _ => none

/-- Answers that depend on what was asked before. -/
def shifting : Answers := fun asked name =>
  if asked.isEmpty then some ⟨"c$d"⟩ else some (name.nested "e")

def asked : List ClassName := [⟨"a"⟩, ⟨"a$b"⟩, ⟨"a"⟩]

end NestedQuestions

open NestedQuestions in
/-- The name of the nested class is made from `a`, whatever was answered for it. -/
theorem nested_questions_ignore_answers :
    let broken := fun answers => SignatureKind.ofField.rewriteAsking answers "La.b<La;>"
    let whole := fun answers => SignatureKind.ofField.rewriteAsking answers "La.b<La;>;"
    let fault := .signature "La.b<La;>" (.expected ';' 9 none)
    broken shifting = ⟨asked, .error fault⟩ ∧ broken keeping = ⟨asked, .error fault⟩ ∧
      whole shifting = ⟨asked, .ok "Lc$d.e<La$e;>;"⟩ ∧
      SignatureKind.ofField.HasNames "La.b<La;>;" asked := by
  intro broken whole fault
  have flawed : broken shifting = ⟨asked, .error fault⟩ := by cbv
  have done : whole shifting = ⟨asked, .ok "Lc$d.e<La$e;>;"⟩ := by cbv
  obtain ⟨_, _, _, sameFault, _, sameRecord, _⟩ :=
    signature_questions_ignore_answers .ofField "La.b<La;>" shifting keeping
  obtain ⟨_, _, passes, _, _, _, _, names⟩ :=
    signature_questions_ignore_answers .ofField "La.b<La;>;" shifting keeping
  have named : SignatureKind.ofField.HasNames "La.b<La;>;" (whole shifting).record :=
    names (passes.mp ⟨_, congrArg Recorded.result done⟩)
  rw [done] at named
  refine ⟨flawed, Recorded.ext_parts ?_ ?_, done, named⟩
  · exact sameRecord.symm.trans (congrArg Recorded.record flawed)
  · exact (sameFault fault).mp (congrArg Recorded.result flawed)

end Renaming

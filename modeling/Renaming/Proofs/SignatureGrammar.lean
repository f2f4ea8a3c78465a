import Renaming.Proofs.ReferenceTypes

/-!
# The grammar of signatures

Which texts are signatures, and that reading a signature and writing its tree are inverse to each
other, on top of the reference types that signatures are made of.

There is one thing that the grammar alone does not show. A type parameter without bounds ends with a
colon, and what follows a colon is read as a bound if it looks like one. So a type parameter whose
name starts with `L` or `T` cannot stand behind one without bounds.
-/

namespace Renaming

/-! ### Well-formed trees -/

/-- A type parameter with a name and bounds as they are read. -/
structure TypeParameter.WellFormed (parameter : TypeParameter) : Prop where
  name : isIdentifier parameter.name.toList = true
  classBound : ∀ bound ∈ parameter.classBound, bound.IsReference maxNesting
  interfaceBounds : ∀ bound ∈ parameter.interfaceBounds, bound.IsReference maxNesting

/-- A type parameter without bounds. -/
def TypeParameter.IsBare (parameter : TypeParameter) : Prop :=
  parameter.classBound = none ∧ parameter.interfaceBounds = []

/-- The second type parameter is not taken for a bound of the first. -/
def TypeParameter.Separable (first second : TypeParameter) : Prop :=
  first.IsBare → ∀ c ∈ second.name.toList.head?, c ∉ ['L', 'T']

/-- Type parameters that are told from each other. -/
structure TypeParameter.ListWellFormed (parameters : List TypeParameter) : Prop where
  each : ∀ parameter ∈ parameters, parameter.WellFormed
  separable : parameters.IsChain Separable

/-- The class types that stand for themselves in a signature. -/
abbrev ClassType.IsWhole (type : ClassType) : Prop :=
  type.WellFormed (TypeSig.IsReference maxNesting)

/-- The signature of a class within the limits of the grammar. -/
structure ClassSig.WellFormed (signature : ClassSig) : Prop where
  typeParameters : TypeParameter.ListWellFormed signature.typeParameters
  superClass : signature.superClass.IsWhole
  interfaces : ∀ type ∈ signature.interfaces, type.IsWhole

/-- A thrown type within the limits of the grammar. -/
def ThrownType.WellFormed : ThrownType → Prop
  | .var name => isIdentifier name.toList = true
  | .object type => type.IsWhole

/-- The signature of a method within the limits of the grammar. -/
structure MethodSig.WellFormed (signature : MethodSig) : Prop where
  typeParameters : TypeParameter.ListWellFormed signature.typeParameters
  parameters : ∀ type ∈ signature.parameters, type.IsType (TypeSig.IsReference maxNesting)
  result : ∀ type ∈ signature.result, type.IsType (TypeSig.IsReference maxNesting)
  thrown : ∀ type ∈ signature.thrown, type.WellFormed

/-! ### Names in the order of reading -/

def TypeParameter.names (parameter : TypeParameter) : List ClassName :=
  parameter.classBound.elim [] TypeSig.names ++ parameter.interfaceBounds.flatMap TypeSig.names

def ClassSig.names (signature : ClassSig) : List ClassName :=
  signature.typeParameters.flatMap TypeParameter.names ++ signature.superClass.names ++
    signature.interfaces.flatMap ClassType.names

def ThrownType.names : ThrownType → List ClassName
  | .var _ => []
  | .object type => type.names

def MethodSig.names (signature : MethodSig) : List ClassName :=
  signature.typeParameters.flatMap TypeParameter.names ++
    signature.parameters.flatMap TypeSig.names ++ signature.result.elim [] TypeSig.names ++
    signature.thrown.flatMap ThrownType.names

namespace Signature

open Scanner

/-! ### Type parameters -/

theorem reads_classBound :
    Reads classBound (Exactly (fun bound => ∀ type ∈ bound, type.IsReference maxNesting)
      (fun bound => bound.elim [] TypeSig.chars) (fun bound => bound.elim [] TypeSig.names)
      fun bound rest => bound = none → ∀ c ∈ rest.head?, c ∉ ['L', 'T', '[']) := by
  have present : ∀ c ∈ ['L', 'T', '['], Reads (do return some (← reference))
      fun bound consumed met _ => (bound.isSome = true ↔ ∃ d ∈ some c, d ∈ ['L', 'T', '[']) ∧
        (∀ type ∈ bound, type.IsReference maxNesting) ∧ consumed = bound.elim [] TypeSig.chars ∧
        met = bound.elim [] TypeSig.names := by
    intro c letter
    refine (reads_reference.map some).congr fun bound consumed met rest => ?_
    constructor
    · rintro ⟨type, rfl, fine, rfl, rfl, _⟩
      exact ⟨⟨fun _ => ⟨c, rfl, letter⟩, fun _ => rfl⟩, by simpa using fine, rfl, rfl⟩
    · rintro ⟨shown, fine, rfl, rfl⟩
      cases bound with
      | none => exact absurd (shown.mpr ⟨c, rfl, letter⟩) Bool.false_ne_true
      | some type => exact ⟨type, rfl, fine type rfl, rfl, rfl, trivial⟩
  unfold classBound
  refine Reads.congr (Reads.afterPeek (fun seen bound consumed met _ =>
    (bound.isSome = true ↔ ∃ c ∈ seen, c ∈ ['L', 'T', '[']) ∧
      (∀ type ∈ bound, type.IsReference maxNesting) ∧ consumed = bound.elim [] TypeSig.chars ∧
      met = bound.elim [] TypeSig.names) fun seen => ?_) fun bound consumed met rest => ?_
  · split
    case h_1 => exact present _ (by decide)
    case h_2 => exact present _ (by decide)
    case h_3 => exact present _ (by decide)
    case h_4 noObject noVariable noArray =>
      have absent : ¬ ∃ c ∈ seen, c ∈ ['L', 'T', '['] := by
        rintro ⟨c, rfl, letter⟩
        simp only [List.mem_cons, List.not_mem_nil, or_false] at letter
        rcases letter with rfl | rfl | rfl
        · exact noObject rfl
        · exact noVariable rfl
        · exact noArray rfl
      refine (reads_pure none).congr fun bound consumed met rest => ?_
      constructor
      · rintro ⟨rfl, rfl, rfl⟩
        exact ⟨⟨fun some => (nomatch some), fun shown => absurd shown absent⟩,
          fun _ found => (nomatch found), rfl, rfl⟩
      · rintro ⟨shown, _, rfl, rfl⟩
        cases bound with
        | none => exact ⟨rfl, rfl, rfl⟩
        | some type => exact absurd (shown.mp rfl) absent
  · constructor
    · rintro ⟨shown, fine, rfl, rfl⟩
      refine ⟨fine, rfl, rfl, ?_⟩
      rintro rfl c seen letter
      exact Bool.false_ne_true (shown.mpr ⟨c, seen, letter⟩)
    · rintro ⟨fine, rfl, rfl, free⟩
      refine ⟨?_, fine, rfl, rfl⟩
      cases bound with
      | none =>
        refine ⟨fun some => (nomatch some), ?_⟩
        rintro ⟨c, seen, letter⟩
        exact absurd letter (free rfl c seen)
      | some type =>
        obtain ⟨c, more, written, letter⟩ := TypeSig.exists_chars_reference (fine type rfl)
        refine ⟨fun _ => ⟨c, ?_, letter⟩, fun _ => rfl⟩
        show (type.chars ++ rest).head? = some c
        rw [written]
        rfl

theorem reads_typeParameter :
    Reads typeParameter (Exactly TypeParameter.WellFormed TypeParameter.chars TypeParameter.names
      fun parameter rest => (parameter.IsBare → ∀ c ∈ rest.head?, c ∉ ['L', 'T', '[']) ∧
        rest.head? ≠ some ':') := by
  unfold typeParameter
  refine (Reads.afterExactly (reads_identifier (by simp)) fun name => afterExpect fun _ =>
    Reads.afterExactly reads_classBound fun classBound =>
      (reads_many_eat reads_reference).map fun interfaceBounds =>
        TypeParameter.mk name classBound interfaceBounds).congr
          fun parameter consumed met rest => ?_
  constructor
  · rintro ⟨name, _, _, valid, rfl, rfl, _, _, rfl, classBound, _, _, fine, rfl, rfl, free,
      interfaceBounds, rfl, others, rfl, rfl, ends, _⟩
    refine ⟨⟨valid, fine, others⟩, ?_, rfl, ?_, ends⟩
    · simp only [TypeParameter.chars, List.append_assoc, List.cons_append]
    · rintro ⟨noClass, noInterface⟩
      obtain rfl : interfaceBounds = [] := noInterface
      exact free noClass
  · rintro ⟨valid, rfl, rfl, free, ends⟩
    obtain ⟨name, classBound, interfaceBounds⟩ := parameter
    refine ⟨name, ':' :: (classBound.elim [] TypeSig.chars ++
      interfaceBounds.flatMap fun bound => ':' :: bound.chars), _, valid.name, ?_,
      rfl, by simp, _, rfl,
      classBound, _, _, valid.classBound, rfl, rfl, fun noClass => ?_, interfaceBounds, rfl,
      valid.interfaceBounds, rfl, rfl, ends, followed_of_trivial⟩
    · simp only [TypeParameter.chars, List.append_assoc, List.cons_append]
    · cases interfaceBounds with
      | nil => exact free ⟨noClass, rfl⟩
      | cons bound others =>
        intro c seen
        cases seen
        decide

/-- The first character of a type parameter. -/
theorem exists_chars_typeParameter {parameter : TypeParameter} (valid : parameter.WellFormed) :
    ∃ c rest, parameter.name.toList = c :: rest ∧ (∃ more, parameter.chars = c :: more) ∧
      c ∉ ['.', ';', '[', '/', '<', '>', ':'] := by
  have named := valid.name
  rw [TypeParameter.chars]
  cases letters : parameter.name.toList with
  | nil =>
    rw [letters] at named
    cases named
  | cons c rest =>
    rw [letters] at named
    have free : ∀ d ∈ c :: rest, d ∉ ['.', ';', '[', '/', '<', '>', ':'] := by
      simpa [isIdentifier] using (Bool.and_eq_true_iff.mp named).2
    exact ⟨c, rest, rfl, ⟨_, rfl⟩, free c List.mem_cons_self⟩

/-- Type parameters are read as they are exactly if none is taken for a bound of the one before. -/
theorem followed_typeParameters_iff {parameters : List TypeParameter} (rest : List Char)
    (each : ∀ parameter ∈ parameters, parameter.WellFormed) :
    Followed TypeParameter.chars (fun parameter rest =>
        (parameter.IsBare → ∀ c ∈ rest.head?, c ∉ ['L', 'T', '[']) ∧ rest.head? ≠ some ':')
        ('>' :: rest) parameters ↔ parameters.IsChain TypeParameter.Separable := by
  induction parameters with
  | nil => exact ⟨fun _ => .nil, fun _ => trivial⟩
  | cons first others ih =>
    have later := ih fun parameter member => each parameter (List.mem_cons_of_mem _ member)
    cases others with
    | nil =>
      refine ⟨fun _ => .singleton _, fun _ => ⟨⟨fun _ c seen => ?_, by simp⟩, trivial⟩⟩
      cases seen
      decide
    | cons second more =>
      obtain ⟨c, letters, named, ⟨written, start⟩, free⟩ :=
        exists_chars_typeParameter (each second (List.mem_cons_of_mem _ List.mem_cons_self))
      rw [List.isChain_cons_cons, ← later, Followed]
      refine and_congr_left fun _ => ?_
      rw [List.flatMap_cons, start, TypeParameter.Separable, named]
      simp only [List.cons_append, List.head?_cons, Option.mem_def, Option.some.injEq, forall_eq',
        List.mem_cons, List.not_mem_nil, or_false, not_or, ne_eq] at free ⊢
      constructor
      · rintro ⟨behind, _⟩ bare
        exact ⟨(behind bare).1, (behind bare).2.1⟩
      · intro behind
        exact ⟨fun bare => ⟨(behind bare).1, (behind bare).2, free.2.2.1⟩, free.2.2.2.2.2.2⟩

theorem reads_typeParameters :
    Reads typeParameters (Exactly TypeParameter.ListWellFormed
      (fun parameters => bracketed (parameters.flatMap TypeParameter.chars))
      (fun parameters => parameters.flatMap TypeParameter.names)
      fun parameters rest => parameters = [] → rest.head? ≠ some '<') := by
  have begins : ∀ {parameter : TypeParameter}, parameter.WellFormed →
      ∃ first more, parameter.chars = first :: more ∧ first ≠ '>' := by
    intro parameter valid
    obtain ⟨c, _, _, ⟨more, written⟩, free⟩ := exists_chars_typeParameter valid
    refine ⟨c, more, written, ?_⟩
    rintro rfl
    revert free
    decide
  refine (reads_inBrackets reads_typeParameter begins .emptyParameters).congr
    fun parameters consumed met rest => ?_
  constructor
  · rintro ⟨each, rfl, rfl, free, followed⟩
    exact ⟨⟨each, (followed_typeParameters_iff rest each).mp followed⟩, rfl, rfl, free⟩
  · rintro ⟨valid, rfl, rfl, free⟩
    exact ⟨valid.each, rfl, rfl, free,
      (followed_typeParameters_iff rest valid.each).mpr valid.separable⟩

/-! ### Signatures of classes -/

theorem reads_whole_classType :
    Reads (classType reference) (Exactly ClassType.IsWhole ClassType.chars ClassType.names
      fun _ _ => True) :=
  reads_classType reads_reference TypeSig.exists_chars_reference

theorem exists_chars_classType (type : ClassType) : ∃ rest, type.chars = 'L' :: rest := by
  obtain ⟨rest, written⟩ := type.exists_charsOpen
  rw [ClassType.chars, written]
  exact ⟨_, rfl⟩

theorem reads_more :
    Reads more fun found consumed met rest => found = !rest.isEmpty ∧ consumed = [] ∧ met = [] := by
  unfold more
  refine (Reads.afterLook reads_remaining fun left => reads_pure (!left.isEmpty)).congr
    fun found consumed met rest => ?_
  constructor
  · rintro ⟨rfl, rfl, rfl⟩
    exact ⟨rfl, rfl, rfl⟩
  · rintro ⟨rfl, rfl, rfl⟩
    exact ⟨rfl, rfl, rfl⟩

/-- Interfaces are read to the end of the text. -/
theorem reads_interfaces :
    Reads (many more (classType reference)) (Exactly (fun types => ∀ type ∈ types, type.IsWhole)
      (fun types => types.flatMap ClassType.chars) (fun types => types.flatMap ClassType.names)
      fun _ rest => rest = []) := by
  refine (reads_many reads_more reads_whole_classType ?_).congr fun types consumed met rest => ?_
  · rintro type _ _ _ _ _ _ ⟨_, rfl, _⟩ empty
    obtain ⟨more, written⟩ := exists_chars_classType type
    rw [written] at empty
    cases (List.append_eq_nil_iff.mp empty).2
  · refine (series_iff [] (fun rest => rest ≠ []) ?_ ?_).trans ?_
    · intro asked met rest
      cases rest with
      | nil => simp
      | cons c more => simp
    · intro type rest _
      obtain ⟨more, written⟩ := exists_chars_classType type
      rw [written]
      exact List.cons_ne_nil _ _
    · constructor
      · rintro ⟨fine, stop, stopMet, ⟨ended, rfl, rfl⟩, rfl, rfl, _⟩
        have nothing : rest = [] := by
          cases rest with
          | nil => rfl
          | cons c more => cases ended
        exact ⟨fine, List.append_nil _, List.append_nil _, nothing⟩
      · rintro ⟨fine, rfl, rfl, rfl⟩
        exact ⟨fine, [], [], ⟨rfl, rfl, rfl⟩, (List.append_nil _).symm, (List.append_nil _).symm,
          followed_of_trivial⟩

theorem reads_classSig :
    Reads classSig (Exactly ClassSig.WellFormed ClassSig.chars ClassSig.names
      fun _ rest => rest = []) := by
  unfold classSig
  refine (Reads.afterExactly reads_typeParameters fun typeParameters =>
    Reads.afterExactly reads_whole_classType fun superClass =>
      reads_interfaces.map fun interfaces =>
        ClassSig.mk typeParameters superClass interfaces).congr
          fun signature consumed met rest => ?_
  constructor
  · rintro ⟨typeParameters, _, _, valid, rfl, rfl, _, superClass, _, _, fine, rfl, rfl,
      _, interfaces, rfl, others, rfl, rfl, ends⟩
    refine ⟨⟨valid, fine, others⟩, ?_, ?_, ends⟩
    · simp only [ClassSig.chars, List.append_assoc]
    · simp only [ClassSig.names, List.append_assoc]
  · rintro ⟨valid, rfl, rfl, ends⟩
    obtain ⟨typeParameters, superClass, interfaces⟩ := signature
    refine ⟨typeParameters, superClass.chars ++ interfaces.flatMap ClassType.chars, _,
      valid.typeParameters, ?_, ?_, ?_, superClass, _, _, valid.superClass, rfl, rfl, trivial,
      interfaces, rfl, valid.interfaces, rfl, rfl, ends⟩
    · simp only [ClassSig.chars, List.append_assoc]
    · simp only [ClassSig.names, List.append_assoc]
    · obtain ⟨more, written⟩ := exists_chars_classType superClass
      intro _
      rw [written]
      simp

/-! ### Signatures of methods -/

theorem reads_whole_javaType :
    Reads (javaType reference) (Exactly (TypeSig.IsType (TypeSig.IsReference maxNesting))
      TypeSig.chars TypeSig.names fun _ _ => True) :=
  reads_javaType reads_reference TypeSig.exists_chars_reference

/-- The first character of a type. -/
theorem exists_chars_javaType {type : TypeSig}
    (valid : type.IsType (TypeSig.IsReference maxNesting)) :
    ∃ c rest, type.chars = c :: rest ∧
      c ∈ ['L', 'T', '[', 'B', 'C', 'D', 'F', 'I', 'J', 'S', 'Z'] := by
  rcases valid with ⟨base, rfl⟩ | reference
  · refine ⟨base.letter, [], by rw [TypeSig.chars], ?_⟩
    cases base <;> decide
  · obtain ⟨c, rest, written, letter⟩ := TypeSig.exists_chars_reference reference
    exact ⟨c, rest, written, List.mem_append_left _ letter⟩

theorem reads_parameterType :
    Reads parameterType (Exactly (TypeSig.IsType (TypeSig.IsReference maxNesting))
      TypeSig.chars TypeSig.names fun _ _ => True) := by
  refine reads_unless_ended reads_whole_javaType fun valid empty => ?_
  obtain ⟨c, more, written, _⟩ := exists_chars_javaType valid
  rw [written] at empty
  cases empty

theorem reads_resultType :
    Reads resultType (Exactly
      (fun result => ∀ type ∈ result, type.IsType (TypeSig.IsReference maxNesting))
      (fun result => result.elim ['V'] TypeSig.chars) (fun result => result.elim [] TypeSig.names)
      fun _ _ => True) := by
  refine reads_none_or_some reads_whole_javaType fun valid => ?_
  exact exists_first_ne (exists_chars_javaType valid) (by decide)

/-- A thrown type without its mark. -/
def thrownChars : ThrownType → List Char
  | .var name => 'T' :: name.toList ++ [';']
  | .object type => type.chars

theorem chars_thrownType (type : ThrownType) : type.chars = '^' :: thrownChars type := by
  cases type <;> rfl

theorem reads_thrownType :
    Reads thrownType (Exactly ThrownType.WellFormed thrownChars ThrownType.names
      fun _ _ => True) := by
  unfold thrownType
  refine Reads.congr (Reads.afterPeek (fun seen type consumed met rest =>
    (seen = some 'T' ↔ ∃ name, type = .var name) ∧ Exactly ThrownType.WellFormed thrownChars
      ThrownType.names (fun _ _ => True) type consumed met rest) fun seen => ?_)
    fun type consumed met rest => ?_
  · split
    case h_1 =>
      refine (reads_typeVariable.map ThrownType.var).congr fun type consumed met rest => ?_
      constructor
      · rintro ⟨name, rfl, valid, rfl, rfl, _⟩
        exact ⟨⟨fun _ => ⟨name, rfl⟩, fun _ => rfl⟩, valid, rfl, rfl, trivial⟩
      · rintro ⟨shown, valid, rfl, rfl, _⟩
        obtain ⟨name, rfl⟩ := shown.mp rfl
        exact ⟨name, rfl, valid, rfl, rfl, trivial⟩
    case h_2 noVariable =>
      refine (reads_whole_classType.map ThrownType.object).congr fun type consumed met rest => ?_
      constructor
      · rintro ⟨object, rfl, valid, rfl, rfl, _⟩
        refine ⟨⟨fun seen => absurd seen noVariable, ?_⟩, valid, rfl, rfl, trivial⟩
        rintro ⟨name, same⟩
        cases same
      · rintro ⟨shown, valid, rfl, rfl, _⟩
        cases type with
        | var name => exact absurd (shown.mpr ⟨name, rfl⟩) noVariable
        | object type => exact ⟨type, rfl, valid, rfl, rfl, trivial⟩
  · refine and_iff_right_of_imp ?_
    rintro ⟨valid, rfl, _⟩
    cases type with
    | var name => exact ⟨fun _ => ⟨name, rfl⟩, fun _ => rfl⟩
    | object type =>
      obtain ⟨more, written⟩ := exists_chars_classType type
      rw [thrownChars, written]
      simp

/-- The thrown types behind their marks. -/
theorem flatMap_chars_thrownType (types : List ThrownType) :
    types.flatMap ThrownType.chars = types.flatMap fun type => '^' :: thrownChars type := by
  congr 1
  exact funext chars_thrownType

theorem reads_methodSig :
    Reads methodSig (Exactly MethodSig.WellFormed MethodSig.chars MethodSig.names
      fun _ rest => rest.head? ≠ some '^') := by
  have begins : ∀ {type : TypeSig}, type.IsType (TypeSig.IsReference maxNesting) →
      ∃ first more, type.chars = first :: more ∧ first ≠ ')' :=
    fun valid => exists_first_ne (exists_chars_javaType valid) (by decide)
  unfold methodSig
  refine (Reads.afterExactly reads_typeParameters fun typeParameters => afterExpect fun _ =>
    Reads.afterExactly (reads_many_notYet reads_parameterType begins) fun parameters =>
      Reads.afterExactly reads_resultType fun result =>
        (reads_many_eat reads_thrownType).map fun thrown =>
          MethodSig.mk typeParameters parameters result thrown).congr
    fun signature consumed met rest => ?_
  constructor
  · rintro ⟨typeParameters, _, _, valid, rfl, rfl, _, _, rfl, parameters, _, _, fine, rfl, rfl, _,
      result, _, _, given, rfl, rfl, _, thrown, rfl, others, rfl, rfl, ends, _⟩
    refine ⟨⟨valid, fine, given, others⟩, ?_, ?_, ends⟩
    · simp only [MethodSig.chars, flatMap_chars_thrownType, List.append_assoc, List.cons_append]
    · simp only [MethodSig.names, List.append_assoc]
  · rintro ⟨valid, rfl, rfl, ends⟩
    obtain ⟨typeParameters, parameters, result, thrown⟩ := signature
    refine ⟨typeParameters, '(' :: (parameters.flatMap TypeSig.chars ++ [')'] ++
      (result.elim ['V'] TypeSig.chars ++ thrown.flatMap fun type => '^' :: thrownChars type)), _,
      valid.typeParameters, ?_, ?_, by simp, _, rfl, parameters, _, _, valid.parameters, rfl, rfl,
      followed_of_trivial, result, _, _, valid.result, rfl, rfl, trivial, thrown, rfl, valid.thrown,
      rfl, rfl, ends, followed_of_trivial⟩
    · simp only [MethodSig.chars, flatMap_chars_thrownType, List.append_assoc, List.cons_append]
    · simp only [MethodSig.names, List.append_assoc]

/-- Reading a signature to its end. -/
theorem read_eq_iff {τ : Type} {scan : Scan τ} {good : τ → Prop} {chars : τ → List Char}
    {names : τ → List ClassName} {follow : τ → List Char → Prop}
    (reads : Reads scan (Exactly good chars names follow))
    (ends : ∀ {tree}, good tree → follow tree [])
    {text : String} {asked : List ClassName} {tree : τ} :
    read scan text = ⟨asked, .ok tree⟩ ↔
      good tree ∧ asked = names tree ∧ String.ofList (chars tree) = text := by
  refine reading_eq_iff reads ends .leftover (fun done => ?_) (fun failed => ?_)
  · rw [read, done]
  · rw [read, failed]
    exact ⟨_, rfl⟩

end Signature

/-! ### Renaming -/

theorem TypeArg.renameAll_eq_map (renamed : ClassName → Option ClassName)
    (arguments : List TypeArg) : renameAll renamed arguments = arguments.map (rename renamed) := by
  induction arguments with
  | nil => rw [renameAll, List.map_nil]
  | cons argument rest ih => rw [renameAll, List.map_cons, ih]

/-- The class that a well-formed class type is about has a name for signatures. -/
theorem ClassType.WellFormed.isSignatureName_name {IsReference : TypeSig → Prop} :
    {type : ClassType} → type.WellFormed IsReference → isSignatureName type.name.text.toList = true
  | .outer _ _, valid => valid.1
  | .nested _ _ _, ⟨around, identifier, _⟩ =>
    ClassName.isSignatureName_nested around.isSignatureName_name identifier

section Rename

variable {renamed : ClassName → Option ClassName}
  (admits : ∀ old new : ClassName, isSignatureName old.text.toList = true →
    renamed old = some new → isSignatureName new.text.toList = true)

include admits

/-- What is written behind the dot stays an identifier. -/
theorem ClassType.WellFormed.isIdentifier_newPart {IsReference : TypeSig → Prop}
    {around : ClassType} {part : String} (valid : around.WellFormed IsReference)
    (identifier : isIdentifier part.toList = true) :
    isIdentifier (around.newPart renamed part).toList = true := by
  rw [newPart]
  split
  case h_1 name found =>
    have old := ClassName.isSignatureName_nested valid.isSignatureName_name identifier
    exact ClassName.isIdentifier_partOf _ (admits _ name old found)
  case h_2 => exact identifier

section Level

variable {IsReference : TypeSig → Prop}
  (kept : ∀ type, IsReference type → IsReference (type.rename renamed))

include kept

omit admits in
theorem TypeArg.wellFormed_renameAll {arguments : List TypeArg}
    (valid : ∀ argument ∈ arguments, TypeArg.WellFormed IsReference argument) :
    ∀ argument ∈ renameAll renamed arguments, TypeArg.WellFormed IsReference argument := by
  rw [renameAll_eq_map]
  intro argument member
  obtain ⟨old, present, rfl⟩ := List.mem_map.mp member
  cases old with
  | any => trivial
  | bounded bound type => exact kept type (valid _ present)

theorem ClassType.WellFormed.rename : {type : ClassType} → type.WellFormed IsReference →
    (type.rename renamed).WellFormed IsReference
  | .outer name arguments, ⟨named, valid⟩ => by
    rw [ClassType.rename]
    refine ⟨?_, TypeArg.wellFormed_renameAll kept valid⟩
    cases found : renamed name with
    | none => exact named
    | some new => exact admits name new named found
  | .nested around part arguments, ⟨outside, identifier, valid⟩ => by
    rw [ClassType.rename]
    exact ⟨outside.rename, outside.isIdentifier_newPart admits identifier,
      TypeArg.wellFormed_renameAll kept valid⟩

omit admits in
theorem TypeSig.IsType.rename {type : TypeSig} (valid : type.IsType IsReference) :
    (type.rename renamed).IsType IsReference := by
  rcases valid with ⟨base, rfl⟩ | reference
  · exact Or.inl ⟨base, by rw [TypeSig.rename]⟩
  · exact Or.inr (kept type reference)

end Level

/-- Renaming nests types no deeper. -/
theorem TypeSig.isReference_rename (levels : Nat) :
    ∀ type : TypeSig, type.IsReference levels → (type.rename renamed).IsReference levels := by
  induction levels with
  | zero => exact fun _ valid => valid.elim
  | succ levels kept =>
    intro type valid
    cases type with
    | base type => exact valid.elim
    | var name =>
      rw [TypeSig.rename]
      exact valid
    | array element =>
      rw [TypeSig.rename]
      exact TypeSig.IsType.rename kept valid
    | object type =>
      rw [TypeSig.rename]
      exact ClassType.WellFormed.rename admits kept valid

theorem ClassType.IsWhole.rename {type : ClassType} (valid : type.IsWhole) :
    (type.rename renamed).IsWhole :=
  ClassType.WellFormed.rename admits (TypeSig.isReference_rename admits maxNesting) valid

theorem TypeParameter.ListWellFormed.rename {parameters : List TypeParameter}
    (valid : ListWellFormed parameters) :
    ListWellFormed (parameters.map (TypeParameter.rename renamed)) := by
  constructor
  · intro parameter member
    obtain ⟨old, present, rfl⟩ := List.mem_map.mp member
    obtain ⟨name, classBound, interfaceBounds⟩ := valid.each old present
    refine ⟨name, fun bound found => ?_, fun bound found => ?_⟩
    · obtain ⟨before, same, rfl⟩ := Option.map_eq_some_iff.mp found
      exact TypeSig.isReference_rename admits _ _ (classBound before same)
    · obtain ⟨before, same, rfl⟩ := List.mem_map.mp found
      exact TypeSig.isReference_rename admits _ _ (interfaceBounds before same)
  · rw [List.isChain_map]
    refine valid.separable.imp fun first second separable bare => separable ?_
    exact ⟨Option.map_eq_none_iff.mp bare.1, List.map_eq_nil_iff.mp bare.2⟩

theorem ClassSig.WellFormed.rename {signature : ClassSig} (valid : signature.WellFormed) :
    (signature.rename renamed).WellFormed := by
  refine ⟨valid.typeParameters.rename admits, valid.superClass.rename admits, fun type member => ?_⟩
  obtain ⟨old, present, rfl⟩ := List.mem_map.mp member
  exact (valid.interfaces old present).rename admits

theorem MethodSig.WellFormed.rename {signature : MethodSig} (valid : signature.WellFormed) :
    (signature.rename renamed).WellFormed := by
  have types : ∀ {type : TypeSig}, type.IsType (TypeSig.IsReference maxNesting) →
      (type.rename renamed).IsType (TypeSig.IsReference maxNesting) :=
    TypeSig.IsType.rename (TypeSig.isReference_rename admits maxNesting)
  refine ⟨valid.typeParameters.rename admits, fun type member => ?_, fun type found => ?_,
    fun type member => ?_⟩
  · obtain ⟨old, present, rfl⟩ := List.mem_map.mp member
    exact types (valid.parameters old present)
  · obtain ⟨old, present, rfl⟩ := Option.map_eq_some_iff.mp found
    exact types (valid.result old present)
  · obtain ⟨old, present, rfl⟩ := List.mem_map.mp member
    have fine := valid.thrown old present
    cases old with
    | var name => exact fine
    | object type => exact ClassType.IsWhole.rename admits fine

end Rename

instance : LawfulGrammar TypeSig where
  WellFormed := TypeSig.IsReference maxNesting
  names := TypeSig.names
  Admits name := isSignatureName name.text.toList = true
  read_eq_iff := Signature.read_eq_iff Signature.reads_reference fun _ => trivial
  wellFormed_rename admits valid := TypeSig.isReference_rename admits _ _ valid

instance : LawfulGrammar ClassSig where
  WellFormed := ClassSig.WellFormed
  names := ClassSig.names
  Admits name := isSignatureName name.text.toList = true
  read_eq_iff := Signature.read_eq_iff Signature.reads_classSig fun _ => rfl
  wellFormed_rename admits valid := ClassSig.WellFormed.rename admits valid

instance : LawfulGrammar MethodSig where
  WellFormed := MethodSig.WellFormed
  names := MethodSig.names
  Admits name := isSignatureName name.text.toList = true
  read_eq_iff := Signature.read_eq_iff Signature.reads_methodSig fun _ => by simp
  wellFormed_rename admits valid := MethodSig.WellFormed.rename admits valid

end Renaming

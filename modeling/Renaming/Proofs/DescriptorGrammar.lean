import Renaming.Proofs.ClassNames
import Renaming.Proofs.Reading

/-!
# The grammar of descriptors

Which texts are descriptors, and that reading a descriptor and writing its type are inverse to each
other: the scanners of descriptors read exactly the written forms of well-formed types. A type is
well-formed if it is no array or has at least one array dimension and no more than allowed, and if
its class names are those of objects.
-/

namespace Renaming

/-- The class name of an element type is that of an object. -/
def ElementType.WellFormed : ElementType → Prop
  | .base _ => True
  | .object name => isObjectName name.text.toList = true

/-- A type within the limits of descriptors. An array has dimensions. -/
def FieldType.WellFormed : FieldType → Prop
  | .plain element => element.WellFormed
  | .array dimensions element => 0 < dimensions ∧ dimensions ≤ maxDimensions ∧ element.WellFormed

/-! ### Types behind brackets -/

namespace FieldType

section

variable (brackets : Nat) (element : ElementType)

theorem chars_ofBrackets :
    (ofBrackets brackets element).chars = List.replicate brackets '[' ++ element.chars := by
  cases brackets <;> rfl

theorem className?_ofBrackets : (ofBrackets brackets element).className? = element.className? := by
  cases brackets <;> rfl

theorem wellFormed_ofBrackets_iff :
    (ofBrackets brackets element).WellFormed ↔ brackets ≤ maxDimensions ∧ element.WellFormed := by
  cases brackets with
  | zero => exact ⟨fun valid => ⟨Nat.zero_le _, valid⟩, fun valid => valid.2⟩
  | succ brackets => exact ⟨fun valid => valid.2, fun valid => ⟨Nat.succ_pos _, valid⟩⟩

end

/-- A well-formed type can be told from its written form. -/
theorem WellFormed.exists_eq_ofBrackets {type : FieldType} (valid : type.WellFormed) :
    ∃ brackets element, type = ofBrackets brackets element := by
  cases type with
  | plain element => exact ⟨0, element, rfl⟩
  | array dimensions element => exact ⟨dimensions, element, (if_neg (Nat.ne_of_gt valid.1)).symm⟩

end FieldType

/-- Parameter types and a result type within the limits of descriptors. -/
structure MethodType.WellFormed (type : MethodType) : Prop where
  parameters : ∀ parameter ∈ type.parameters, parameter.WellFormed
  result : ∀ result ∈ type.result, result.WellFormed

namespace Descriptor

open Scanner

theorem reads_className :
    Reads className (Exactly (fun name => isObjectName name.text.toList = true)
      (fun name => name.text.toList ++ [';']) (fun name => [name]) fun _ _ => True) := by
  unfold className
  refine (Reads.afterTaking (reads_takeUntil [';']) fun name => Reads.afterEat fun found =>
    Reads.require (Reads.require (Reads.afterMeet fun _ => reads_pure _))).congr
    fun value consumed met rest => ?_
  constructor
  · rintro ⟨name, _, rfl, _, _, ⟨_, rfl, _, valid, _, rfl, rfl, rfl, rfl⟩ | ⟨_, impossible, _⟩⟩
    · refine ⟨?_, ?_, rfl, trivial⟩
      · show isObjectName (String.ofList name).toList = true
        rw [String.toList_ofList]
        exact valid
      · show name ++ [';'] = (String.ofList name).toList ++ [';']
        rw [String.toList_ofList]
    · cases impossible
  · rintro ⟨valid, rfl, rfl, _⟩
    have free := (isObjectName_iff.mp valid).2
    refine ⟨value.text.toList, [';'], rfl, fun c member => ?_, ?_,
      Or.inl ⟨[], rfl, rfl, valid, [], ?_, ?_, rfl, rfl⟩⟩
    · have other := free c member
      simp only [List.mem_cons, not_or] at other ⊢
      exact ⟨other.2.1, List.not_mem_nil⟩
    · simp
    · rw [String.ofList_toList]
    · rw [String.ofList_toList]

theorem reads_elementTypeFrom (c : Char) :
    Reads (elementTypeFrom c) fun type consumed met _ =>
      type.WellFormed ∧ c :: consumed = type.chars ∧ met = type.className?.toList := by
  unfold elementTypeFrom
  split
  case isTrue object =>
    refine (reads_className.map ElementType.object).congr fun type consumed met rest => ?_
    subst object
    constructor
    · rintro ⟨name, rfl, valid, rfl, rfl, _⟩
      exact ⟨valid, rfl, rfl⟩
    · rintro ⟨valid, written, rfl⟩
      cases type with
      | base type => cases type <;> cases written
      | object name => exact ⟨name, rfl, valid, (List.cons.inj written).2, rfl, trivial⟩
  case isFalse other =>
    cases found : BaseType.ofLetter? c with
    | none =>
      refine (reads_throw _).congr fun type consumed met rest => ?_
      refine ⟨False.elim, ?_⟩
      rintro ⟨_, written, _⟩
      cases type with
      | base type =>
        rw [(List.cons.inj written).1, BaseType.ofLetter?_letter] at found
        cases found
      | object name => exact other (List.cons.inj written).1
    | some base =>
      refine (reads_pure _).congr fun type consumed met rest => ?_
      rw [BaseType.letter_of_ofLetter? found] at other ⊢
      constructor
      · rintro ⟨rfl, rfl, rfl⟩
        exact ⟨trivial, rfl, rfl⟩
      · rintro ⟨_, written, rfl⟩
        cases type with
        | base type =>
          obtain ⟨letter, rfl⟩ := List.cons.inj written
          have same := BaseType.ofLetter?_letter base
          rw [letter, BaseType.ofLetter?_letter] at same
          cases same
          exact ⟨rfl, rfl, rfl⟩
        | object name => exact absurd (List.cons.inj written).1 other

theorem reads_elementType :
    Reads elementType (Exactly ElementType.WellFormed ElementType.chars
      (fun type => type.className?.toList) fun _ _ => True) := by
  unfold elementType
  refine Reads.congr (Reads.afterNext reads_elementTypeFrom (reads_throw _))
    fun type consumed met rest => ?_
  constructor
  · rintro ⟨c, after, rfl, valid, written, rfl⟩
    exact ⟨valid, written, rfl, trivial⟩
  · rintro ⟨valid, rfl, rfl, _⟩
    cases type with
    | base type => exact ⟨_, _, rfl, valid, rfl, rfl⟩
    | object name => exact ⟨_, _, rfl, valid, rfl, rfl⟩

/-- The first letter of an element type. -/
theorem exists_chars_elementType (type : ElementType) :
    ∃ c rest, type.chars = c :: rest ∧ c ∈ ['B', 'C', 'D', 'F', 'I', 'J', 'S', 'Z', 'L'] := by
  cases type with
  | base type => cases type <;> exact ⟨_, _, rfl, by decide⟩
  | object name => exact ⟨_, _, rfl, by decide⟩

/-- The first letter of a type. -/
theorem exists_chars_fieldType (type : FieldType) :
    ∃ c rest, type.chars = c :: rest ∧ c ∈ ['[', 'B', 'C', 'D', 'F', 'I', 'J', 'S', 'Z', 'L'] := by
  have plain : ∀ element : ElementType, ∃ c rest, element.chars = c :: rest ∧
      c ∈ ['[', 'B', 'C', 'D', 'F', 'I', 'J', 'S', 'Z', 'L'] := by
    intro element
    obtain ⟨c, rest, written, letter⟩ := exists_chars_elementType element
    exact ⟨c, rest, written, List.mem_cons_of_mem _ letter⟩
  cases type with
  | plain element => exact plain element
  | array dimensions element =>
    cases dimensions with
    | zero => exact plain element
    | succ dimensions => exact ⟨'[', _, rfl, List.mem_cons_self⟩

theorem reads_fieldType :
    Reads fieldType (Exactly FieldType.WellFormed FieldType.chars
      (fun type => type.className?.toList) fun _ _ => True) := by
  unfold fieldType
  refine (Reads.afterTaking (reads_takeAll '[') fun taken => Reads.refuse
    (reads_elementType.map fun element => FieldType.ofBrackets taken.length element)).congr
    fun type consumed met rest => ?_
  constructor
  · rintro ⟨taken, _, rfl, brackets, _, small, element, rfl, valid, rfl, rfl, _⟩
    refine ⟨?_, ?_, ?_, trivial⟩
    · exact (FieldType.wellFormed_ofBrackets_iff _ _).mpr ⟨Nat.le_of_not_lt small, valid⟩
    · rw [FieldType.chars_ofBrackets, ← List.eq_replicate_iff.mpr ⟨rfl, brackets⟩]
    · exact congrArg Option.toList (FieldType.className?_ofBrackets _ _).symm
  · rintro ⟨valid, rfl, rfl, _⟩
    obtain ⟨brackets, element, rfl⟩ := valid.exists_eq_ofBrackets
    obtain ⟨few, object⟩ := (FieldType.wellFormed_ofBrackets_iff _ _).mp valid
    refine ⟨List.replicate brackets '[', element.chars, FieldType.chars_ofBrackets _ _,
      fun c member => (List.mem_replicate.mp member).2, ?_, ?_, element, ?_, object, rfl, ?_,
      trivial⟩
    · obtain ⟨c, rest, written, letter⟩ := exists_chars_elementType element
      rw [written]
      rintro d found rfl
      cases found
      revert letter
      decide
    · rw [List.length_replicate]
      exact Nat.not_lt_of_le few
    · rw [List.length_replicate]
    · exact congrArg Option.toList (FieldType.className?_ofBrackets _ _)

theorem reads_parameterType :
    Reads parameterType (Exactly FieldType.WellFormed FieldType.chars
      (fun type => type.className?.toList) fun _ _ => True) := by
  refine reads_unless_ended reads_fieldType fun {type} _ empty => ?_
  obtain ⟨c, more, written, _⟩ := exists_chars_fieldType type
  rw [written] at empty
  cases empty

theorem reads_resultType :
    Reads resultType (Exactly (fun result => ∀ type ∈ result, type.WellFormed)
      (fun result => result.elim ['V'] FieldType.chars)
      (fun result => result.elim [] fun type => type.className?.toList) fun _ _ => True) := by
  refine reads_none_or_some reads_fieldType fun {type} _ => ?_
  exact exists_first_ne (exists_chars_fieldType type) (by decide)

theorem reads_methodType :
    Reads methodType (Exactly MethodType.WellFormed MethodType.chars MethodType.classNames
      fun _ _ => True) := by
  have begins : ∀ {type : FieldType}, type.WellFormed →
      ∃ first more, type.chars = first :: more ∧ first ≠ ')' :=
    fun {type} _ => exists_first_ne (exists_chars_fieldType type) (by decide)
  have names : ∀ type : MethodType, type.classNames =
      (type.parameters.flatMap fun type => type.className?.toList) ++
        type.result.elim [] fun type => type.className?.toList := by
    intro type
    rw [MethodType.classNames, List.filterMap_eq_flatMap_toList, List.flatMap_append]
    cases type.result with
    | none => rfl
    | some result => exact congrArg _ (List.append_nil _)
  unfold methodType
  refine (Reads.afterEat fun found => Reads.require (Reads.afterExactly
    (reads_many_notYet reads_parameterType begins) fun parameters =>
      reads_resultType.map fun result => MethodType.mk parameters result)).congr
    fun type consumed met rest => ?_
  constructor
  · rintro (⟨_, rfl, _, parameters, _, _, fine, rfl, rfl, _, result, rfl, valid, rfl, rfl, _⟩ |
      ⟨_, impossible, _⟩)
    · refine ⟨⟨fine, valid⟩, ?_, (names ⟨parameters, result⟩).symm, trivial⟩
      simp only [MethodType.chars, List.cons_append, List.append_assoc]
    · cases impossible
  · rintro ⟨valid, rfl, rfl, _⟩
    refine Or.inl ⟨type.parameters.flatMap FieldType.chars ++ [')'] ++
      type.result.elim ['V'] FieldType.chars, ?_, rfl, type.parameters, _, _, valid.parameters,
      rfl, names _, followed_of_trivial, type.result, rfl, valid.result, rfl, rfl, trivial⟩
    simp only [MethodType.chars, List.cons_append, List.append_assoc]

/-- Reading a descriptor to its end. -/
theorem read_eq_iff {τ : Type} {scan : Scan τ} {good : τ → Prop} {chars : τ → List Char}
    {names : τ → List ClassName} (reads : Reads scan (Exactly good chars names fun _ _ => True))
    {text : String} {asked : List ClassName} {tree : τ} :
    read scan text = ⟨asked, .ok tree⟩ ↔
      good tree ∧ asked = names tree ∧ String.ofList (chars tree) = text := by
  refine reading_eq_iff reads (fun _ => trivial) .leftover (fun done => ?_) (fun failed => ?_)
  · rw [read, done]
  · rw [read, failed]
    exact ⟨_, rfl⟩

end Descriptor

/-- A name between `L` and `;` is read as it stands, so it has to be that of an object class. -/
theorem FieldType.isObjectName_of_chars {type : FieldType} {name : List Char}
    (valid : type.WellFormed) (written : type.chars = 'L' :: (name ++ [';'])) :
    isObjectName name = true := by
  cases type with
  | array dimensions element =>
    cases dimensions with
    | zero => exact absurd valid.1 (Nat.lt_irrefl 0)
    | succ dimensions => cases (List.cons.inj written).1
  | plain element =>
    cases element with
    | base type => cases type <;> cases (List.cons.inj written).1
    | object inner =>
      have same : inner.text.toList = name := List.append_cancel_right (List.cons.inj written).2
      rw [← same]
      exact valid

/-! ### Renaming -/

section Rename

variable {renamed : ClassName → Option ClassName}
  (admits : ∀ old new : ClassName, isObjectName old.text.toList = true → renamed old = some new →
    isObjectName new.text.toList = true)

include admits

theorem ElementType.WellFormed.rename {type : ElementType} (valid : type.WellFormed) :
    (type.rename renamed).WellFormed := by
  cases type with
  | base type => trivial
  | object name =>
    show isObjectName ((renamed name).getD name).text.toList = true
    cases found : renamed name with
    | none => exact valid
    | some new => exact admits name new valid found

theorem FieldType.WellFormed.rename {type : FieldType} (valid : type.WellFormed) :
    (type.rename renamed).WellFormed := by
  cases type with
  | plain element => exact ElementType.WellFormed.rename admits valid
  | array dimensions element =>
    exact ⟨valid.1, valid.2.1, ElementType.WellFormed.rename admits valid.2.2⟩

theorem MethodType.WellFormed.rename {type : MethodType} (valid : type.WellFormed) :
    (type.rename renamed).WellFormed := by
  constructor
  · intro parameter member
    obtain ⟨old, present, rfl⟩ := List.mem_map.mp member
    exact FieldType.WellFormed.rename admits (valid.parameters old present)
  · intro result found
    obtain ⟨old, present, rfl⟩ := Option.map_eq_some_iff.mp found
    exact FieldType.WellFormed.rename admits (valid.result old present)

end Rename

instance : LawfulGrammar FieldType where
  WellFormed := FieldType.WellFormed
  names type := type.className?.toList
  Admits name := isObjectName name.text.toList = true
  read_eq_iff := Descriptor.read_eq_iff Descriptor.reads_fieldType
  wellFormed_rename admits valid := FieldType.WellFormed.rename admits valid

instance : LawfulGrammar MethodType where
  WellFormed := MethodType.WellFormed
  names := MethodType.classNames
  Admits name := isObjectName name.text.toList = true
  read_eq_iff := Descriptor.read_eq_iff Descriptor.reads_methodType
  wellFormed_rename admits valid := MethodType.WellFormed.rename admits valid

end Renaming

import Renaming.Proofs.ClassNames
import Renaming.Proofs.Reading

/-!
# The grammar of reference types

Reference types are the part of signatures that nests. The well-formed trees mirror the scanners:
what a tree of one level may hold is given by the predicate for the next level, as the scanners of
the parts take the scanner of the next level. `reads_referenceType` goes from level to level: the
scanner reads exactly the written forms of the reference types that nest no deeper than it may go.

A class type is read by a loop, from the outermost class inwards, while its tree has the innermost
class at the root. `Extends` connects the two.
-/

namespace Renaming

/-! ### Names in the order of reading -/

mutual

def TypeSig.names : TypeSig → List ClassName
  | .base _ => []
  | .var _ => []
  | .array element => element.names
  | .object type => type.names

def ClassType.names : ClassType → List ClassName
  | .outer name arguments => name :: TypeArg.namesAll arguments
  | .nested around part arguments =>
    around.names ++ around.name.nested part :: TypeArg.namesAll arguments

def TypeArg.names : TypeArg → List ClassName
  | .any => []
  | .bounded _ type => type.names

def TypeArg.namesAll : List TypeArg → List ClassName
  | [] => []
  | argument :: rest => argument.names ++ TypeArg.namesAll rest

end

theorem TypeArg.charsAll_eq_flatMap (arguments : List TypeArg) :
    charsAll arguments = arguments.flatMap chars := by
  induction arguments with
  | nil => rw [charsAll, List.flatMap_nil]
  | cons argument rest ih => rw [charsAll, List.flatMap_cons, ih]

theorem TypeArg.namesAll_eq_flatMap (arguments : List TypeArg) :
    namesAll arguments = arguments.flatMap names := by
  induction arguments with
  | nil => rw [namesAll, List.flatMap_nil]
  | cons argument rest ih => rw [namesAll, List.flatMap_cons, ih]

/-! ### Well-formed trees -/

section WellFormed

variable (IsReference : TypeSig → Prop)

/-- A type argument that may stand where references are as given. -/
def TypeArg.WellFormed : TypeArg → Prop
  | .any => True
  | .bounded _ type => IsReference type

/-- A class type with well-formed names and arguments. -/
def ClassType.WellFormed : ClassType → Prop
  | .outer name arguments =>
    isSignatureName name.text.toList = true ∧
      ∀ argument ∈ arguments, TypeArg.WellFormed IsReference argument
  | .nested around part arguments =>
    around.WellFormed ∧ isIdentifier part.toList = true ∧
      ∀ argument ∈ arguments, TypeArg.WellFormed IsReference argument

/-- A base type or a reference. -/
def TypeSig.IsType (type : TypeSig) : Prop := (∃ base, type = .base base) ∨ IsReference type

end WellFormed

/-- A reference type that nests at most the given number of levels, itself included. -/
def TypeSig.IsReference : Nat → TypeSig → Prop
  | 0, _ => False
  | _ + 1, .base _ => False
  | _ + 1, .var name => isIdentifier name.toList = true
  | levels + 1, .array element => element.IsType (IsReference levels)
  | levels + 1, .object type => type.WellFormed (IsReference levels)

theorem ClassType.exists_charsOpen : (type : ClassType) → ∃ rest, type.charsOpen = 'L' :: rest
  | .outer _ _ => ⟨_, by rw [charsOpen]; rfl⟩
  | .nested around _ _ => by
    obtain ⟨rest, written⟩ := around.exists_charsOpen
    exact ⟨_, by rw [charsOpen, written]; rfl⟩

/-- The character that shows what kind of type follows. -/
def TypeSig.leader : TypeSig → Option Char
  | .base type => some type.letter
  | .var _ => some 'T'
  | .array _ => some '['
  | .object _ => some 'L'

theorem TypeSig.head?_chars_append (type : TypeSig) (rest : List Char) :
    (type.chars ++ rest).head? = type.leader := by
  cases type with
  | base type => rw [chars]; rfl
  | var name => rw [chars]; rfl
  | array element => rw [chars]; rfl
  | object type =>
    obtain ⟨more, written⟩ := type.exists_charsOpen
    rw [chars, written]
    rfl

/-- The first character of a reference type. -/
theorem TypeSig.exists_chars_reference {levels : Nat} {type : TypeSig}
    (reference : type.IsReference levels) :
    ∃ c rest, type.chars = c :: rest ∧ c ∈ ['L', 'T', '['] := by
  cases levels with
  | zero => exact reference.elim
  | succ levels =>
    cases type with
    | base type => exact reference.elim
    | var name => exact ⟨'T', _, by rw [chars]; rfl, by decide⟩
    | array element => exact ⟨'[', _, by rw [chars], by decide⟩
    | object type =>
      obtain ⟨rest, written⟩ := type.exists_charsOpen
      exact ⟨'L', _, by rw [chars, written]; rfl, by decide⟩

namespace Signature

open Scanner

/-! ### Characters and identifiers -/

theorem reads_expect (c : Char) :
    Reads (expect c) fun _ consumed met _ => consumed = [c] ∧ met = [] := by
  unfold expect
  refine Reads.congr (Reads.afterEat fun found => Reads.branch found (reads_pure ())
    (reads_of_fails fun start value cursor done => ?_)) fun value consumed met rest => ?_
  · cases done
  · constructor
    · rintro (⟨_, rfl, _, rfl, rfl⟩ | ⟨_, impossible⟩)
      · exact ⟨rfl, rfl⟩
      · exact impossible.elim
    · rintro ⟨rfl, rfl⟩
      exact Or.inl ⟨[], rfl, rfl, rfl, rfl⟩

theorem afterExpect {c : Char} {β : Type} {next : Unit → Scan β} {specs : Unit → Spec β}
    (readsNext : ∀ done, Reads (next done) (specs done)) :
    Reads (expect c >>= next) fun value consumed met rest =>
      ∃ after, consumed = c :: after ∧ specs () value after met rest := by
  refine ((reads_expect c).bind readsNext).congr fun value consumed met rest => ?_
  constructor
  · rintro ⟨_, _, _, after, _, rfl, rfl, ⟨rfl, rfl⟩, holds⟩
    exact ⟨after, rfl, holds⟩
  · rintro ⟨after, rfl, holds⟩
    exact ⟨(), [c], [], after, met, rfl, rfl, ⟨rfl, rfl⟩, holds⟩

/-- An identifier is read up to one of the stops, none of which may occur in it. -/
theorem reads_identifier {stops : List Char}
    (structural : ∀ c ∈ stops, c ∈ ['.', ';', '[', '/', '<', '>', ':']) :
    Reads (identifier stops) (Exactly (fun name => isIdentifier name.toList = true) String.toList
      (fun _ => []) fun _ rest => ∀ c ∈ rest.head?, c ∈ stops) := by
  unfold identifier
  refine (Reads.afterTaking (reads_takeUntil stops) fun name =>
    Reads.require (reads_pure (String.ofList name))).congr fun value consumed met rest => ?_
  constructor
  · rintro ⟨name, _, rfl, _, stopped, valid, rfl, rfl, rfl⟩
    rw [List.append_nil]
    refine ⟨?_, ?_, rfl, stopped⟩
    · show isIdentifier (String.ofList name).toList = true
      rw [String.toList_ofList]
      exact valid
    · rw [String.toList_ofList]
  · rintro ⟨valid, rfl, rfl, stopped⟩
    refine ⟨value.toList, [], (List.append_nil _).symm, fun c member stop => ?_, stopped, valid,
      (String.ofList_toList).symm, rfl, rfl⟩
    have free : ∀ c ∈ value.toList, c ∉ ['.', ';', '[', '/', '<', '>', ':'] := by
      simpa [isIdentifier] using (Bool.and_eq_true_iff.mp valid).2
    exact free c member (structural c stop)

theorem reads_typeVariable :
    Reads typeVariable (Exactly (fun name => isIdentifier name.toList = true)
      (fun name => 'T' :: name.toList ++ [';']) (fun _ => []) fun _ _ => True) := by
  unfold typeVariable
  refine (afterExpect fun _ => Reads.afterExactly (reads_identifier (by simp)) fun name =>
    afterExpect fun _ => reads_pure name).congr fun value consumed met rest => ?_
  constructor
  · rintro ⟨_, rfl, name, _, _, valid, rfl, rfl, _, _, rfl, rfl, rfl, rfl⟩
    exact ⟨valid, rfl, rfl, trivial⟩
  · rintro ⟨valid, rfl, rfl, _⟩
    exact ⟨_, rfl, value, [';'], [], valid, rfl, rfl, by simp, [], rfl, rfl, rfl, rfl⟩

/-! ### Lists in brackets -/

/-- A list in brackets is read whole: behind a list that is left out there is no bracket. -/
theorem reads_inBrackets {α : Type} {item : Scan α} {good : α → Prop} {chars : α → List Char}
    {names : α → List ClassName} {follow : α → List Char → Prop}
    (readsItem : Reads item (Exactly good chars names follow))
    (begins : ∀ {value}, good value → ∃ first more, chars value = first :: more ∧ first ≠ '>')
    (onEmpty : SignatureFlaw) :
    Reads (inBrackets onEmpty item) (Exactly (fun items => ∀ value ∈ items, good value)
      (fun items => bracketed (items.flatMap chars)) (fun items => items.flatMap names)
      fun items rest => (items = [] → rest.head? ≠ some '<') ∧
        Followed chars follow ('>' :: rest) items) := by
  unfold inBrackets
  refine Reads.congr (Reads.afterEat fun found => Reads.branch found
    (Reads.afterLook reads_peek fun seen => Reads.refuse (reads_many_notYet readsItem begins))
    (reads_pure [])) fun items consumed met rest => ?_
  have written : ∀ value others, good value →
      ∃ first more, (value :: others).flatMap chars = first :: more ∧ first ≠ '>' := by
    intro value others fine
    obtain ⟨first, more, start, other⟩ := begins fine
    rw [List.flatMap_cons, start]
    exact ⟨first, _, rfl, other⟩
  constructor
  · rintro (⟨_, rfl, occupied, fine, rfl, rfl, followed⟩ | ⟨other, rfl, rfl, rfl⟩)
    · cases items with
      | nil => exact absurd rfl occupied
      | cons value others =>
        obtain ⟨first, more, start, _⟩ := written value others (fine value List.mem_cons_self)
        refine ⟨fine, ?_, rfl, fun empty => (nomatch empty), followed⟩
        show '<' :: ((value :: others).flatMap chars ++ ['>']) =
          bracketed ((value :: others).flatMap chars)
        rw [start]
        rfl
    · exact ⟨fun _ absent => absurd absent List.not_mem_nil, rfl, rfl, fun _ => other, trivial⟩
  · rintro ⟨fine, rfl, rfl, free, followed⟩
    cases items with
    | nil => exact Or.inr ⟨free rfl, rfl, rfl, rfl⟩
    | cons value others =>
      obtain ⟨first, more, start, other⟩ := written value others (fine value List.mem_cons_self)
      refine Or.inl ⟨(value :: others).flatMap chars ++ ['>'], ?_, ?_, fine, rfl, rfl, followed⟩
      · show bracketed ((value :: others).flatMap chars) =
          '<' :: ((value :: others).flatMap chars ++ ['>'])
        rw [start]
        rfl
      · rw [start]
        intro same
        cases same
        exact other rfl

/-! ### The parts of a reference type -/

/-- The kind of type argument that the next character announces. -/
def Announces (seen : Option Char) : TypeArg → Prop
  | .any => seen = some '*'
  | .bounded .extending _ => seen = some '+'
  | .bounded .superOf _ => seen = some '-'
  | .bounded .exactly _ => seen ≠ some '*' ∧ seen ≠ some '+' ∧ seen ≠ some '-'

/-- The mark of a bound announces a type with that bound. -/
theorem announces_mark_iff {mark : Char} {bound : Bound} (marked : bound.chars = [mark])
    {argument : TypeArg} :
    Announces (some mark) argument ↔ ∃ type, argument = .bounded bound type := by
  cases bound with
  | exactly => cases marked
  | extending =>
    cases marked
    cases argument with
    | any => simp [Announces]
    | bounded bound type => cases bound <;> simp [Announces]
  | superOf =>
    cases marked
    cases argument with
    | any => simp [Announces]
    | bounded bound type => cases bound <;> simp [Announces]

section Parts

variable {reference : Scan TypeSig} {IsReference : TypeSig → Prop}
  (readsReference : Reads reference
    (Exactly IsReference TypeSig.chars TypeSig.names fun _ _ => True))
  (begins : ∀ {type}, IsReference type → ∃ c rest, type.chars = c :: rest ∧ c ∈ ['L', 'T', '['])

include readsReference

/-- A reference as a type argument, behind the mark of its bound if it has one. -/
theorem reads_bounded (bound : Bound) :
    Reads (do return TypeArg.bounded bound (← reference)) fun argument consumed met _ =>
      (∃ type, argument = .bounded bound type) ∧ TypeArg.WellFormed IsReference argument ∧
        bound.chars ++ consumed = argument.chars ∧ met = argument.names := by
  refine (readsReference.map (TypeArg.bounded bound)).congr fun argument consumed met rest => ?_
  constructor
  · rintro ⟨type, rfl, fine, rfl, rfl, _⟩
    exact ⟨⟨type, rfl⟩, fine, by rw [TypeArg.chars], by rw [TypeArg.names]⟩
  · rintro ⟨⟨type, rfl⟩, fine, written, rfl⟩
    rw [TypeArg.chars] at written
    exact ⟨type, rfl, fine, List.append_cancel_left written, by rw [TypeArg.names], trivial⟩

theorem reads_marked {mark : Char} {bound : Bound} (marked : bound.chars = [mark]) :
    Reads (do expect mark; return TypeArg.bounded bound (← reference))
      fun argument consumed met rest => Announces (some mark) argument ∧
        Exactly (TypeArg.WellFormed IsReference) TypeArg.chars TypeArg.names (fun _ _ => True)
          argument consumed met rest := by
  refine (afterExpect fun _ => reads_bounded readsReference bound).congr
    fun argument consumed met rest => ?_
  rw [announces_mark_iff marked]
  rw [marked]
  constructor
  · rintro ⟨_, rfl, isBounded, fine, written, rfl⟩
    exact ⟨isBounded, fine, written, rfl, trivial⟩
  · rintro ⟨⟨type, rfl⟩, fine, rfl, rfl, _⟩
    rw [TypeArg.chars, marked]
    exact ⟨_, rfl, ⟨type, rfl⟩, fine, rfl, rfl⟩

include begins

/-- The base type that the next character stands for, or else a reference. -/
theorem reads_javaType :
    Reads (javaType reference) (Exactly (TypeSig.IsType IsReference) TypeSig.chars TypeSig.names
      fun _ _ => True) := by
  unfold javaType
  refine Reads.congr (Reads.afterPeek (fun seen type consumed met rest =>
    (seen.bind BaseType.ofLetter?).elim
      (Exactly IsReference TypeSig.chars TypeSig.names (fun _ _ => True) type consumed met rest)
      fun base => type = .base base ∧ met = [] ∧
        ((∃ c, consumed = [c]) ∨ consumed = [] ∧ rest = []))
    fun seen => ?_) fun type consumed met rest => ?_
  · cases seen.bind BaseType.ofLetter? with
    | none => exact readsReference
    | some base =>
      refine (reads_next.map fun _ => TypeSig.base base).congr fun type consumed met rest => ?_
      constructor
      · rintro ⟨_, rfl, rfl, ⟨c, _, rfl⟩ | ⟨_, rfl, rfl⟩⟩
        · exact ⟨rfl, rfl, Or.inl ⟨c, rfl⟩⟩
        · exact ⟨rfl, rfl, Or.inr ⟨rfl, rfl⟩⟩
      · rintro ⟨rfl, rfl, ⟨c, rfl⟩ | ⟨rfl, rfl⟩⟩
        · exact ⟨some c, rfl, rfl, Or.inl ⟨c, rfl, rfl⟩⟩
        · exact ⟨none, rfl, rfl, Or.inr ⟨rfl, rfl, rfl⟩⟩
  · constructor
    · intro holds
      cases found : (consumed ++ rest).head?.bind BaseType.ofLetter? with
      | some base =>
        rw [found] at holds
        obtain ⟨rfl, rfl, ⟨c, rfl⟩ | ⟨rfl, rfl⟩⟩ := holds
        · refine ⟨Or.inl ⟨base, rfl⟩, ?_, by rw [TypeSig.names], trivial⟩
          rw [TypeSig.chars, ← BaseType.letter_of_ofLetter? found]
        · cases found
      | none =>
        rw [found] at holds
        obtain ⟨fine, rfl, rfl, _⟩ := holds
        exact ⟨Or.inr fine, rfl, rfl, trivial⟩
    · rintro ⟨⟨base, rfl⟩ | fine, rfl, rfl, _⟩
      · rw [TypeSig.chars, TypeSig.names, List.singleton_append, List.head?_cons, Option.bind_some,
          BaseType.ofLetter?_letter]
        exact ⟨rfl, rfl, Or.inl ⟨_, rfl⟩⟩
      · obtain ⟨c, more, written, letter⟩ := begins fine
        have noBase : ∀ c ∈ ['L', 'T', '['], BaseType.ofLetter? c = none := by
          simp [BaseType.ofLetter?]
        have seen : (type.chars ++ rest).head?.bind BaseType.ofLetter? = none := by
          rw [written]
          exact noBase c letter
        rw [seen]
        exact ⟨fine, rfl, rfl, trivial⟩

theorem reads_typeArgument :
    Reads (typeArgument reference) (Exactly (TypeArg.WellFormed IsReference) TypeArg.chars
      TypeArg.names fun _ _ => True) := by
  unfold typeArgument
  refine Reads.congr (Reads.afterPeek (fun seen argument consumed met rest =>
    Announces seen argument ∧ Exactly (TypeArg.WellFormed IsReference) TypeArg.chars TypeArg.names
      (fun _ _ => True) argument consumed met rest) fun seen => ?_)
    fun argument consumed met rest => ?_
  · split
    case h_1 =>
      refine (afterExpect fun _ => reads_pure TypeArg.any).congr
        fun argument consumed met rest => ?_
      constructor
      · rintro ⟨_, rfl, rfl, rfl, rfl⟩
        exact ⟨rfl, trivial, by rw [TypeArg.chars], by rw [TypeArg.names], trivial⟩
      · rintro ⟨announced, _, rfl, rfl, _⟩
        cases argument with
        | any => exact ⟨[], by rw [TypeArg.chars], rfl, rfl, by rw [TypeArg.names]⟩
        | bounded bound type => cases bound <;> simp [Announces] at announced
    case h_2 => exact reads_marked readsReference rfl
    case h_3 => exact reads_marked readsReference rfl
    case h_4 notAny notExtending notSuper =>
      refine (reads_bounded readsReference .exactly).congr fun argument consumed met rest => ?_
      constructor
      · rintro ⟨⟨type, rfl⟩, fine, written, rfl⟩
        exact ⟨⟨notAny, notExtending, notSuper⟩, fine, written, rfl, trivial⟩
      · rintro ⟨announced, fine, rfl, rfl, _⟩
        cases argument with
        | any => exact absurd announced notAny
        | bounded bound type =>
          cases bound with
          | exactly => exact ⟨⟨type, rfl⟩, fine, rfl, rfl⟩
          | extending => exact absurd announced notExtending
          | superOf => exact absurd announced notSuper
  · refine and_iff_right_of_imp ?_
    rintro ⟨fine, rfl, _⟩
    cases argument with
    | any => rw [TypeArg.chars]; rfl
    | bounded bound type =>
      rw [TypeArg.chars]
      cases bound with
      | extending => rfl
      | superOf => rfl
      | exactly =>
        obtain ⟨c, more, written, letter⟩ := begins fine
        have marks : ∀ c ∈ ['L', 'T', '['], c ≠ '*' ∧ c ≠ '+' ∧ c ≠ '-' := by simp
        obtain ⟨any, extending, superOf⟩ := marks c letter
        rw [Bound.chars, List.nil_append, written]
        simp [Announces, any, extending, superOf]

omit readsReference in
/-- A type argument does not start like the end of a list. -/
theorem exists_chars_typeArgument {argument : TypeArg} (fine : argument.WellFormed IsReference) :
    ∃ c rest, argument.chars = c :: rest ∧ c ≠ '>' := by
  cases argument with
  | any => exact ⟨'*', [], by rw [TypeArg.chars], by decide⟩
  | bounded bound type =>
    obtain ⟨c, more, written, letter⟩ := begins fine
    have other : ∀ c ∈ ['L', 'T', '['], c ≠ '>' := by simp
    rw [TypeArg.chars, written]
    cases bound with
    | exactly => exact ⟨c, more, rfl, other c letter⟩
    | extending => exact ⟨'+', c :: more, rfl, by decide⟩
    | superOf => exact ⟨'-', c :: more, rfl, by decide⟩

theorem reads_typeArguments :
    Reads (typeArguments reference)
      (Exactly (fun arguments => ∀ argument ∈ arguments, TypeArg.WellFormed IsReference argument)
        (fun arguments => bracketed (TypeArg.charsAll arguments)) TypeArg.namesAll
        fun arguments rest => arguments = [] → rest.head? ≠ some '<') := by
  refine (reads_inBrackets (reads_typeArgument readsReference begins)
    (exists_chars_typeArgument begins) .emptyArguments).congr fun arguments consumed met rest => ?_
  simp only [Exactly, TypeArg.charsAll_eq_flatMap, TypeArg.namesAll_eq_flatMap, followed_of_trivial,
    and_true]

/-- What is read of a class nested in another one, behind the dot. -/
def NestedSpec (IsReference : TypeSig → Prop) (around : ClassType) : Spec ClassType :=
  fun type consumed met rest => ∃ part arguments, type = .nested around part arguments ∧
    isIdentifier part.toList = true ∧
    (∀ argument ∈ arguments, TypeArg.WellFormed IsReference argument) ∧
    consumed = part.toList ++ bracketed (TypeArg.charsAll arguments) ∧
    met = around.name.nested part :: TypeArg.namesAll arguments ∧
    (∀ c ∈ (bracketed (TypeArg.charsAll arguments) ++ rest).head?, c ∈ ['<', '.', ';']) ∧
    (arguments = [] → rest.head? ≠ some '<')

theorem reads_nestedClass (around : ClassType) :
    Reads (nestedClass reference around) (NestedSpec IsReference around) := by
  unfold nestedClass
  refine (Reads.afterExactly (reads_identifier (by simp)) fun part => Reads.afterMeet fun _ =>
    (reads_typeArguments readsReference begins).map fun arguments =>
      ClassType.nested around part arguments).congr fun type consumed met rest => ?_
  constructor
  · rintro ⟨part, _, _, valid, rfl, rfl, stopped, _, rfl, arguments, rfl, fine, rfl, rfl, free⟩
    exact ⟨part, arguments, rfl, valid, fine, rfl, rfl, stopped, free⟩
  · rintro ⟨part, arguments, rfl, valid, fine, rfl, rfl, stopped, free⟩
    exact ⟨part, _, _, valid, rfl, rfl, stopped, _, rfl, arguments, rfl, fine, rfl, rfl, free⟩

end Parts

/-! ### Nested class types

A class type is read from the outside inwards, as a loop that nests what it has in one more class.
The loop is described from its start, the tree from its end; `Extends` is what both have in
common. -/

/-- The second class type comes from the first by nesting, with what this reads and meets. -/
inductive Extends (IsReference : TypeSig → Prop) (start : ClassType) :
    ClassType → List Char → List ClassName → Prop
  | refl : Extends IsReference start start [] []
  | nest {around : ClassType} {consumed : List Char} {met : List ClassName} {part : String}
      {arguments : List TypeArg} :
      Extends IsReference start around consumed met → isIdentifier part.toList = true →
      (∀ argument ∈ arguments, TypeArg.WellFormed IsReference argument) →
      Extends IsReference start (.nested around part arguments)
        (consumed ++ ('.' :: part.toList ++ bracketed (TypeArg.charsAll arguments)))
        (met ++ around.name.nested part :: TypeArg.namesAll arguments)

/-- Whether a dot follows, which is then read. -/
abbrev DotSpec : Spec Bool := fun found consumed met rest =>
  met = [] ∧ (found = true ∧ consumed = ['.'] ∨ found = false ∧ consumed = [] ∧
    rest.head? ≠ some '.')

variable {IsReference : TypeSig → Prop}

theorem extends_of_runs {origin start last : ClassType} {before consumed rest : List Char}
    {beforeMet met : List ClassName}
    (runs : Runs DotSpec (NestedSpec IsReference) start last consumed met rest)
    (first : Extends IsReference origin start before beforeMet) :
    Extends IsReference origin last (before ++ consumed) (beforeMet ++ met) := by
  induction runs generalizing before beforeMet with
  | stop asks =>
    obtain ⟨rfl, ⟨impossible, _⟩ | ⟨_, rfl, _⟩⟩ := asks
    · cases impossible
    · rw [List.append_nil, List.append_nil]
      exact first
  | round asks steps _ ih =>
    obtain ⟨rfl, ⟨_, rfl⟩ | ⟨impossible, _⟩⟩ := asks
    · obtain ⟨part, arguments, rfl, valid, fine, rfl, rfl, _, _⟩ := steps
      have further := ih (.nest first valid fine)
      simp only [List.append_assoc, List.cons_append, List.nil_append] at further ⊢
      exact further
    · cases impossible

/-- Behind each class in the loop stands a dot or the end of the type. -/
theorem head?_of_runs {start last : ClassType} {consumed rest : List Char} {met : List ClassName}
    (runs : Runs DotSpec (NestedSpec IsReference) start last consumed met (';' :: rest)) :
    (consumed ++ ';' :: rest).head? = some '.' ∨ (consumed ++ ';' :: rest).head? = some ';' := by
  cases runs with
  | stop asks =>
    obtain ⟨rfl, ⟨impossible, _⟩ | ⟨_, rfl, _⟩⟩ := asks
    · cases impossible
    · exact Or.inr rfl
  | round asks =>
    obtain ⟨rfl, ⟨_, rfl⟩ | ⟨impossible, _⟩⟩ := asks
    · exact Or.inl rfl
    · cases impossible

/-- A name ends before its type arguments, and a list of them that is left out before a dot or the
end of the type. -/
theorem stopped_of_head? (arguments : List TypeArg) {rest : List Char}
    (behind : rest.head? = some '.' ∨ rest.head? = some ';') :
    (∀ c ∈ (bracketed (TypeArg.charsAll arguments) ++ rest).head?, c ∈ ['<', '.', ';']) ∧
      (arguments = [] → rest.head? ≠ some '<') := by
  constructor
  · unfold bracketed
    split
    · rcases behind with dot | last
      · rw [List.nil_append, dot]
        simp
      · rw [List.nil_append, last]
        simp
    · simp
  · rintro - bracket
    rw [bracket] at behind
    rcases behind with dot | last
    · cases dot
    · cases last

theorem runs_of_extends {start middle last : ClassType} {before consumed rest : List Char}
    {beforeMet met : List ClassName} (first : Extends IsReference start middle before beforeMet)
    (runs : Runs DotSpec (NestedSpec IsReference) middle last consumed met (';' :: rest)) :
    Runs DotSpec (NestedSpec IsReference) start last (before ++ consumed) (beforeMet ++ met)
      (';' :: rest) := by
  induction first generalizing consumed met with
  | refl => exact runs
  | @nest around _ _ part arguments _ valid fine ih =>
    obtain ⟨stopped, free⟩ := stopped_of_head? arguments (head?_of_runs runs)
    have further := ih (.round ⟨rfl, Or.inl ⟨rfl, rfl⟩⟩
      ⟨part, arguments, rfl, valid, fine, rfl, rfl, stopped, free⟩ runs)
    simp only [List.append_assoc, List.cons_append, List.nil_append] at further ⊢
    exact further

theorem charsOpen_of_extends {start last : ClassType} {consumed : List Char} {met : List ClassName}
    (nested : Extends IsReference start last consumed met) :
    last.charsOpen = start.charsOpen ++ consumed ∧ last.names = start.names ++ met := by
  induction nested with
  | refl => exact ⟨(List.append_nil _).symm, (List.append_nil _).symm⟩
  | nest _ _ _ ih =>
    rw [ClassType.charsOpen, ClassType.names, ih.1, ih.2]
    simp only [List.append_assoc, List.cons_append, and_self]

theorem wellFormed_of_extends {start last : ClassType} {consumed : List Char} {met : List ClassName}
    (nested : Extends IsReference start last consumed met) (fine : start.WellFormed IsReference) :
    last.WellFormed IsReference := by
  induction nested with
  | refl => exact fine
  | nest _ valid arguments ih => exact ⟨ih, valid, arguments⟩

/-- Every well-formed class type comes from its outermost class. -/
theorem exists_extends : {type : ClassType} → type.WellFormed IsReference →
    ∃ name arguments consumed met, (ClassType.outer name arguments).WellFormed IsReference ∧
      Extends IsReference (.outer name arguments) type consumed met
  | .outer name arguments, fine => ⟨name, arguments, [], [], fine, .refl⟩
  | .nested _ _ _, fine => by
    obtain ⟨name, arguments, consumed, met, outer, nested⟩ := exists_extends fine.1
    exact ⟨name, arguments, _, _, outer, .nest nested fine.2.1 fine.2.2⟩

/-- The names that are read behind an `L` are those of signatures. -/
theorem isSignatureName_iff_isClassTypeName {name : List Char} :
    isSignatureName name = true ↔ isClassTypeName name = true ∧ '<' ∉ name := by
  rw [isSignatureName_iff, isClassTypeName, Bool.and_eq_true, List.all_eq_true, and_assoc]
  refine and_congr_right fun _ => ?_
  constructor
  · intro free
    refine ⟨fun c member => ?_, fun bracket => ?_⟩
    · have other := free c member
      simp only [List.mem_cons, not_or] at other
      simp [other]
    · exact free '<' bracket List.mem_cons_self
  · rintro ⟨free, noBracket⟩ c member bad
    have other := free c member
    simp only [List.mem_cons, List.not_mem_nil, or_false, decide_eq_true_eq, not_or] at other bad
    rcases bad with rfl | rfl | rfl
    · exact noBracket member
    · exact other.2 rfl
    · exact other.1 rfl

section ClassTypes

variable {reference : Scan TypeSig}
  (readsReference : Reads reference
    (Exactly IsReference TypeSig.chars TypeSig.names fun _ _ => True))
  (begins : ∀ {type}, IsReference type → ∃ c rest, type.chars = c :: rest ∧ c ∈ ['L', 'T', '['])

include readsReference begins

theorem reads_classType :
    Reads (classType reference) (Exactly (ClassType.WellFormed IsReference) ClassType.chars
      ClassType.names fun _ _ => True) := by
  have progress : ∀ {state middle asked askedMet read readMet rest},
      DotSpec true asked askedMet (read ++ rest) →
        NestedSpec IsReference state middle read readMet rest → asked ++ read ≠ [] := by
    rintro _ _ _ _ _ _ _ ⟨_, ⟨_, rfl⟩ | ⟨impossible, _⟩⟩ _ empty
    · cases empty
    · cases impossible
  unfold classType
  refine (afterExpect fun _ => Reads.afterTaking (reads_takeUntil ['<', '.', ';']) fun name =>
    Reads.require (Reads.afterMeet fun _ => Reads.afterExactly
      (reads_typeArguments readsReference begins) fun arguments =>
        (reads_repeatFrom (reads_eat '.') (reads_nestedClass readsReference begins) progress
          (.outer ⟨String.ofList name⟩ arguments)).bind fun type =>
          afterExpect fun _ => reads_pure type)).congr fun type consumed met rest => ?_
  constructor
  · rintro ⟨_, rfl, name, _, rfl, free, _, valid, _, rfl, arguments, _, _, fine, rfl, rfl, _, last,
      between, betweenMet, _, _, rfl, rfl, runs, _, rfl, rfl, rfl, rfl⟩
    have nested := extends_of_runs runs .refl
    rw [List.nil_append, List.nil_append] at nested
    have noBracket : '<' ∉ name := fun bracket => free '<' bracket List.mem_cons_self
    have outer : (ClassType.outer ⟨String.ofList name⟩ arguments).WellFormed IsReference := by
      refine ⟨?_, fine⟩
      rw [String.toList_ofList]
      exact isSignatureName_iff_isClassTypeName.mpr ⟨valid, noBracket⟩
    obtain ⟨chars, names⟩ := charsOpen_of_extends nested
    refine ⟨wellFormed_of_extends nested outer, ?_, ?_, trivial⟩
    · rw [ClassType.chars, chars, ClassType.charsOpen, String.toList_ofList]
      simp only [List.append_assoc, List.cons_append]
    · rw [names, ClassType.names]
      simp only [List.append_nil, List.cons_append]
  · rintro ⟨valid, rfl, rfl, _⟩
    obtain ⟨name, arguments, between, betweenMet, ⟨signature, fine⟩, nested⟩ := exists_extends valid
    obtain ⟨chars, names⟩ := charsOpen_of_extends nested
    obtain ⟨accepted, noBracket⟩ := isSignatureName_iff_isClassTypeName.mp signature
    have runs : Runs DotSpec (NestedSpec IsReference) (.outer name arguments)
        type between betweenMet (';' :: rest) := by
      have stop : Runs DotSpec (NestedSpec IsReference) type type [] [] (';' :: rest) :=
        .stop ⟨rfl, Or.inr ⟨rfl, rfl, by simp⟩⟩
      have whole := runs_of_extends nested stop
      rw [List.append_nil, List.append_nil] at whole
      exact whole
    obtain ⟨stopped, free⟩ := stopped_of_head? arguments (head?_of_runs runs)
    refine ⟨name.text.toList ++ (bracketed (TypeArg.charsAll arguments) ++ (between ++ [';'])), ?_,
      name.text.toList, bracketed (TypeArg.charsAll arguments) ++ (between ++ [';']), rfl,
      fun c member stop => ?_, ?_, accepted, TypeArg.namesAll arguments ++ betweenMet, ?_,
      arguments, between ++ [';'], betweenMet, fine, rfl, rfl, ?_, type, between, betweenMet, [';'],
      [], rfl, (List.append_nil _).symm, ?_, [], rfl, rfl, rfl, rfl⟩
    · rw [ClassType.chars, chars, ClassType.charsOpen]
      simp only [List.append_assoc, List.cons_append]
    · simp only [List.mem_cons, List.not_mem_nil, or_false] at stop
      have object := (isObjectName_iff.mp (isObjectName_of_isSignatureName signature)).2 c member
      simp only [List.mem_cons, List.not_mem_nil, or_false, not_or] at object
      rcases stop with rfl | rfl | rfl
      · exact noBracket member
      · exact object.1 rfl
      · exact object.2.1 rfl
    · rw [List.append_assoc, List.append_assoc]
      exact stopped
    · rw [names, ClassType.names, String.ofList_toList, List.cons_append]
    · rw [List.append_assoc]
      exact free
    · rw [String.ofList_toList]
      exact runs

end ClassTypes

/-! ### Reference types -/

/-- **Reading reference types, level by level.** -/
theorem reads_referenceType (levels : Nat) :
    Reads (referenceType levels) (Exactly (TypeSig.IsReference levels) TypeSig.chars TypeSig.names
      fun _ _ => True) := by
  induction levels with
  | zero =>
    unfold referenceType
    refine (reads_of_fails fun start value cursor done => ?_).congr fun type consumed met rest => ?_
    · cases done
    · exact ⟨False.elim, fun holds => holds.1⟩
  | succ levels ih =>
    have readsJava := reads_javaType ih TypeSig.exists_chars_reference
    have readsClass := reads_classType ih TypeSig.exists_chars_reference
    unfold referenceType
    refine Reads.congr (Reads.afterPeek (fun seen type consumed met rest =>
      type.leader = seen ∧ Exactly (TypeSig.IsReference (levels + 1)) TypeSig.chars TypeSig.names
        (fun _ _ => True) type consumed met rest) fun seen => ?_) fun type consumed met rest => ?_
    · split
      case h_1 =>
        refine (readsClass.map TypeSig.object).congr fun type consumed met rest => ?_
        constructor
        · rintro ⟨object, rfl, fine, rfl, rfl, _⟩
          exact ⟨rfl, fine, by rw [TypeSig.chars]; rfl, by rw [TypeSig.names], trivial⟩
        · rintro ⟨leads, fine, rfl, rfl, _⟩
          cases type with
          | base type => exact fine.elim
          | var name => cases leads
          | array element => cases leads
          | object type =>
            exact ⟨type, rfl, fine, by rw [TypeSig.chars]; rfl, by rw [TypeSig.names], trivial⟩
      case h_2 =>
        refine (reads_typeVariable.map TypeSig.var).congr fun type consumed met rest => ?_
        constructor
        · rintro ⟨name, rfl, valid, rfl, rfl, _⟩
          exact ⟨rfl, valid, by rw [TypeSig.chars], by rw [TypeSig.names], trivial⟩
        · rintro ⟨leads, fine, rfl, rfl, _⟩
          cases type with
          | base type => exact fine.elim
          | var name =>
            exact ⟨name, rfl, fine, by rw [TypeSig.chars], by rw [TypeSig.names], trivial⟩
          | array element => cases leads
          | object type => cases leads
      case h_3 =>
        refine (afterExpect fun _ => readsJava.map TypeSig.array).congr
          fun type consumed met rest => ?_
        constructor
        · rintro ⟨_, rfl, element, rfl, valid, rfl, rfl, _⟩
          exact ⟨rfl, valid, by rw [TypeSig.chars], by rw [TypeSig.names], trivial⟩
        · rintro ⟨leads, fine, rfl, rfl, _⟩
          cases type with
          | base type => exact fine.elim
          | var name => cases leads
          | array element =>
            exact ⟨_, by rw [TypeSig.chars], element, rfl, fine,
              rfl, by rw [TypeSig.names], trivial⟩
          | object type => cases leads
      case h_4 c noObject noVariable noArray =>
        refine (reads_of_fails fun start value cursor done => ?_).congr
          fun type consumed met rest => ⟨False.elim, ?_⟩
        · cases done
        · rintro ⟨leads, fine, _⟩
          cases type with
          | base type => exact fine.elim
          | var name => exact noVariable (Option.some.inj leads).symm
          | array element => exact noArray (Option.some.inj leads).symm
          | object type => exact noObject (Option.some.inj leads).symm
      case h_5 =>
        refine (reads_throw _).congr fun type consumed met rest => ⟨False.elim, ?_⟩
        rintro ⟨leads, _⟩
        cases type <;> cases leads
    · refine and_iff_right_of_imp ?_
      rintro ⟨_, rfl, _⟩
      exact (type.head?_chars_append rest).symm

theorem reads_reference :
    Reads reference (Exactly (TypeSig.IsReference maxNesting) TypeSig.chars TypeSig.names
      fun _ _ => True) :=
  reads_referenceType maxNesting

end Signature

/-! ### Names in front of an argument list -/

/-- Every reference type is written with one of two marks, the class names in it apart. -/
theorem TypeSig.exists_mark_mem_chars {levels : Nat} {type : TypeSig}
    (reference : type.IsReference levels) : ∃ c ∈ type.chars, c ∈ [';', '['] := by
  cases levels with
  | zero => exact reference.elim
  | succ levels =>
    cases type with
    | base type => exact reference.elim
    | var name => exact ⟨';', by rw [chars]; simp, by decide⟩
    | array element => exact ⟨'[', by rw [chars]; exact List.mem_cons_self, by decide⟩
    | object type => exact ⟨';', by rw [chars]; simp, by decide⟩

/-- Arguments that are written without those marks are all unbounded. -/
theorem TypeArg.charsAll_eq_replicate {levels : Nat} {arguments : List TypeArg}
    (valid : ∀ argument ∈ arguments, TypeArg.WellFormed (TypeSig.IsReference levels) argument)
    (free : ∀ c ∈ charsAll arguments, c ∉ [';', '[']) :
    charsAll arguments = List.replicate arguments.length '*' := by
  induction arguments with
  | nil => rw [charsAll]; rfl
  | cons argument rest ih =>
    rw [charsAll] at free ⊢
    have later := ih (fun other member => valid other (List.mem_cons_of_mem _ member))
      fun c member => free c (List.mem_append_right _ member)
    cases argument with
    | any => rw [chars, later]; rfl
    | bounded bound type =>
      obtain ⟨c, written, mark⟩ := TypeSig.exists_mark_mem_chars (valid _ List.mem_cons_self)
      refine absurd mark (free c (List.mem_append_left _ ?_))
      rw [chars]
      exact List.mem_append_right _ written

theorem mem_bracketed {items : List Char} {c : Char} (member : c ∈ items) :
    c ∈ bracketed items := by
  have some : items.isEmpty = false := List.isEmpty_eq_false_iff.mpr (List.ne_nil_of_mem member)
  rw [bracketed, some, if_neg Bool.false_ne_true]
  exact List.mem_append_left _ (List.mem_cons_of_mem _ member)

private theorem eq_of_append_stars {first second : List Char} {count : Nat}
    (same : first ++ '<' :: List.replicate (count + 1) '*' ++ ['>'] = second ++ ['<', '*', '>']) :
    first = second := by
  have opening : first ++ '<' :: List.replicate count '*' = second ++ ['<'] := by
    rw [List.replicate_succ'] at same
    have ending : (first ++ '<' :: List.replicate count '*') ++ ['*', '>'] =
        (second ++ ['<']) ++ ['*', '>'] := by
      simpa only [List.append_assoc, List.cons_append, List.nil_append] using same
    exact List.append_cancel_right ending
  cases count with
  | zero => exact List.append_cancel_right opening
  | succ count =>
    rw [List.replicate_succ', ← List.cons_append, ← List.append_assoc] at opening
    exact absurd (List.append_inj_right' opening rfl) (by decide)

/-- A name in front of an argument list is read as it stands, so it has to be a name for
signatures. -/
theorem TypeSig.isSignatureName_of_chars {levels : Nat} {type : TypeSig} {name : List Char}
    (reference : type.IsReference levels) (free : ∀ c ∈ name, c ∉ ['.', ';', '['])
    (written : type.chars = 'L' :: (name ++ ['<', '*', '>', ';'])) :
    isSignatureName name = true := by
  cases levels with
  | zero => exact reference.elim
  | succ levels =>
    have leads := type.head?_chars_append []
    rw [written] at leads
    cases type with
    | base type => exact reference.elim
    | var => cases leads
    | array => cases leads
    | object type =>
      have opened : type.charsOpen = 'L' :: (name ++ ['<', '*', '>']) := by
        rw [chars] at written
        refine List.append_cancel_right (written.trans ?_)
        simp only [List.cons_append, List.append_assoc, List.nil_append]
      have unmarked : ∀ c ∈ type.charsOpen, c ∉ ['.', ';', '['] := by
        rw [opened]
        intro c member
        simp only [List.mem_cons, List.mem_append, List.not_mem_nil, or_false] at member
        rcases member with rfl | inside | rfl | rfl | rfl
        · decide
        · exact free c inside
        · decide
        · decide
        · decide
      cases type with
      | nested around part arguments =>
        rw [ClassType.charsOpen] at unmarked
        exact absurd (by decide) (unmarked '.' (by simp))
      | outer outer arguments =>
        obtain ⟨named, valid⟩ := reference
        rw [ClassType.charsOpen] at opened unmarked
        have stars := TypeArg.charsAll_eq_replicate valid fun c member mark =>
          unmarked c (List.mem_append_right _ (mem_bracketed member)) (List.mem_cons_of_mem _ mark)
        rw [stars] at opened
        cases arguments with
        | nil =>
          have whole : outer.text.toList = name ++ ['<', '*', '>'] :=
            (List.append_nil _).symm.trans (List.cons.inj opened).2
          obtain ⟨_, plain⟩ := isSignatureName_iff.mp named
          exact absurd (by decide) (plain '<' (by simp [whole]))
        | cons argument rest =>
          have same : outer.text.toList ++ '<' :: List.replicate (rest.length + 1) '*' ++ ['>'] =
              name ++ ['<', '*', '>'] := by
            rw [← (List.cons.inj opened).2]
            simp [bracketed, List.replicate_succ]
          rw [← eq_of_append_stars same]
          exact named

end Renaming

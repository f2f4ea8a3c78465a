import Renaming.Proofs.SignatureGrammar

/-!
# Signatures as a language

The grammar of signatures, written down production by production as equations between languages: `*`
puts one text behind another, `+` leaves a choice, and `∗` repeats. Reference types hold reference
types, so `reference` is a sequence of languages, of which each allows one level of nesting more
than the one before.

The trees are a way to speak of derivations. The texts of the well-formed trees of one kind are the
language of one symbol of the grammar, which is shown from the inside out, and reading a text
succeeds exactly if it is the text of a well-formed tree.
-/

open Computability

namespace Renaming.SignatureLanguage

/-! ### The productions -/

/-- The text that is one character. -/
def char (c : Char) : Language Char := {[c]}

/-- What may be left out. -/
def optional (language : Language Char) : Language Char := 1 + language

/-- Identifiers have none of the characters that structure signatures. -/
def identifier : Language Char :=
  {text | text ≠ [] ∧ ∀ c ∈ text, c ∉ ['.', ';', '[', '/', '<', '>', ':']}

def baseType : Language Char := {text | ∃ c ∈ ['B', 'C', 'D', 'F', 'I', 'J', 'S', 'Z'], text = [c]}

def typeVariable : Language Char := char 'T' * identifier * char ';'

def packageSpecifier : Language Char := identifier * char '/' * (identifier * char '/')∗

section Parts

variable (reference : Language Char)

def javaType : Language Char := baseType + reference

def wildcardIndicator : Language Char := char '+' + char '-'

def typeArgument : Language Char := optional wildcardIndicator * reference + char '*'

def typeArguments : Language Char :=
  char '<' * (typeArgument reference * (typeArgument reference)∗) * char '>'

def simpleClassType : Language Char := identifier * optional (typeArguments reference)

def classType : Language Char :=
  char 'L' * optional packageSpecifier * simpleClassType reference *
    (char '.' * simpleClassType reference)∗ * char ';'

def bareTypeParameter : Language Char := identifier * char ':'

def typeParameter : Language Char :=
  identifier * (char ':' * optional reference) * (char ':' * reference)∗

/-- Behind a type parameter without bounds, the next one does not start like a bound. -/
def Separated (first second : List Char) : Prop :=
  first ∈ bareTypeParameter → ∀ c ∈ second.head?, c ∉ ['L', 'T']

/-- One type parameter or more. -/
def typeParameters : Language Char :=
  {text | ∃ parameters : List (List Char), parameters ≠ [] ∧
    (∀ parameter ∈ parameters, parameter ∈ typeParameter reference) ∧
      parameters.IsChain Separated ∧ '<' :: parameters.flatten ++ ['>'] = text}

def throwsClause : Language Char := char '^' * (typeVariable + classType reference)

end Parts

/-- Reference types that nest at most the given number of levels, themselves included. -/
def reference : Nat → Language Char
  | 0 => 0
  | levels + 1 =>
    typeVariable + char '[' * javaType (reference levels) + classType (reference levels)

def fieldSignature : Language Char := reference 256

def classSignature : Language Char :=
  optional (typeParameters (reference 256)) * classType (reference 256) *
    (classType (reference 256))∗

def methodSignature : Language Char :=
  optional (typeParameters (reference 256)) * (char '(' * (javaType (reference 256))∗) * char ')' *
    (char 'V' + javaType (reference 256)) * (throwsClause (reference 256))∗

theorem le_of_forall_mem {first second : Language Char} (each : ∀ text ∈ first, text ∈ second) :
    first ≤ second :=
  each

/-! ### The texts of trees -/

section Written

variable {τ : Type} {good : τ → Prop} {chars : τ → List Char}

/-- The texts of the trees that are as given. -/
def written (good : τ → Prop) (chars : τ → List Char) : Language Char :=
  {text | ∃ tree, good tree ∧ chars tree = text}

theorem written_cons (c : Char) :
    written good (fun tree => c :: chars tree) = char c * written good chars := by
  ext text
  constructor
  · rintro ⟨tree, fine, made⟩
    exact ⟨[c], rfl, chars tree, ⟨tree, fine, rfl⟩, made⟩
  · rintro ⟨_, rfl, _, ⟨tree, fine, rfl⟩, made⟩
    exact ⟨tree, fine, made⟩

/-- Texts of trees are the texts of a list of trees. -/
theorem exists_map_eq {texts : List (List Char)}
    (each : ∀ text ∈ texts, text ∈ written good chars) :
    ∃ trees : List τ, (∀ tree ∈ trees, good tree) ∧ trees.map chars = texts := by
  induction texts with
  | nil => exact ⟨[], fun _ => nofun, rfl⟩
  | cons text rest ih =>
    obtain ⟨tree, fine, made⟩ := each text List.mem_cons_self
    obtain ⟨trees, others, same⟩ :=
      ih fun other member => each other (List.mem_cons_of_mem _ member)
    refine ⟨tree :: trees, List.forall_mem_cons.mpr ⟨fine, others⟩, ?_⟩
    rw [List.map_cons, made, same]

theorem mem_written_of_mem_map {trees : List τ} (each : ∀ tree ∈ trees, good tree) :
    ∀ text ∈ trees.map chars, text ∈ written good chars := by
  intro text member
  obtain ⟨tree, present, made⟩ := List.mem_map.mp member
  exact ⟨tree, each tree present, made⟩

theorem written_list :
    written (fun trees : List τ => ∀ tree ∈ trees, good tree) (fun trees => trees.flatMap chars) =
      (written good chars)∗ := by
  ext text
  rw [Language.mem_kstar]
  constructor
  · rintro ⟨trees, each, made⟩
    exact ⟨trees.map chars, made.symm, mem_written_of_mem_map each⟩
  · rintro ⟨texts, made, each⟩
    obtain ⟨trees, fine, same⟩ := exists_map_eq each
    exact ⟨trees, fine, by rw [made, ← same]; rfl⟩

theorem written_elim (absent : List Char) :
    written (fun tree : Option τ => ∀ present ∈ tree, good present)
      (fun tree => tree.elim absent chars) = {absent} + written good chars := by
  ext text
  constructor
  · rintro ⟨tree, fine, made⟩
    cases tree with
    | none => exact Or.inl made.symm
    | some tree => exact Or.inr ⟨tree, fine tree rfl, made⟩
  · intro member
    obtain made | ⟨tree, fine, made⟩ := member
    · exact ⟨none, fun _ => nofun, made.symm⟩
    · refine ⟨some tree, fun present same => ?_, made⟩
      cases same
      exact fine

/-- A list of items is written in brackets. -/
theorem bracketed_flatMap {trees : List τ} (some : trees ≠ [])
    (full : ∀ tree ∈ trees, chars tree ≠ []) :
    bracketed (trees.flatMap chars) = '<' :: trees.flatMap chars ++ ['>'] := by
  have shown : ¬ (trees.flatMap chars).isEmpty = true := by
    rw [List.isEmpty_iff, List.flatMap_eq_nil_iff]
    intro empty
    obtain ⟨tree, present⟩ := List.exists_mem_of_ne_nil trees some
    exact full tree present (empty tree present)
  rw [bracketed, if_neg shown]

/-- A list in brackets is left out or has one item or more. -/
theorem written_bracketed (full : ∀ tree, good tree → chars tree ≠ []) :
    written (fun trees : List τ => ∀ tree ∈ trees, good tree)
        (fun trees => bracketed (trees.flatMap chars)) =
      optional (char '<' * (written good chars * (written good chars)∗) * char '>') := by
  have shown : ∀ {tree trees}, (∀ item ∈ tree :: trees, good item) →
      bracketed ((tree :: trees).flatMap chars) = '<' :: (tree :: trees).flatMap chars ++ ['>'] :=
    fun each => bracketed_flatMap (List.cons_ne_nil _ _) fun item member =>
      full item (each item member)
  rw [← written_list]
  ext text
  constructor
  · rintro ⟨trees, each, made⟩
    cases trees with
    | nil => exact Or.inl made.symm
    | cons tree trees =>
      obtain ⟨fine, others⟩ := List.forall_mem_cons.mp each
      exact Or.inr ⟨_, ⟨['<'], rfl, _, ⟨_, ⟨tree, fine, rfl⟩, _, ⟨trees, others, rfl⟩, rfl⟩, rfl⟩,
        ['>'], rfl, (shown each).symm.trans made⟩
  · intro member
    obtain empty | ⟨_, ⟨_, rfl, _, ⟨_, ⟨tree, fine, rfl⟩, _, ⟨trees, others, rfl⟩, rfl⟩, rfl⟩, _,
      rfl, made⟩ := member
    · exact ⟨[], fun _ => nofun, empty.symm⟩
    · have each := List.forall_mem_cons.mpr ⟨fine, others⟩
      exact ⟨tree :: trees, each, (shown each).trans made⟩

end Written

/-! ### Names -/

theorem written_identifier :
    written (fun name : String => isIdentifier name.toList = true) String.toList = identifier := by
  ext text
  constructor
  · rintro ⟨name, fine, made⟩
    rw [← made]
    exact isIdentifier_iff.mp fine
  · intro member
    refine ⟨String.ofList text, ?_, String.toList_ofList⟩
    show isIdentifier (String.ofList text).toList = true
    rw [String.toList_ofList]
    exact isIdentifier_iff.mpr member

theorem optional_packageSpecifier : optional packageSpecifier = (identifier * char '/')∗ :=
  Language.one_add_self_mul_kstar_eq_kstar (identifier * char '/')

theorem slash_not_mem {name : List Char} (member : name ∈ identifier) : '/' ∉ name :=
  fun slash => member.2 '/' slash (by decide)

/-- Identifiers with slashes between them are a package and a name. -/
theorem intercalate_mem {pieces : List (List Char)} (some : pieces ≠ [])
    (each : ∀ piece ∈ pieces, piece ∈ identifier) :
    ['/'].intercalate pieces ∈ (identifier * char '/')∗ * identifier := by
  induction pieces with
  | nil => exact absurd rfl some
  | cons piece rest ih =>
    obtain ⟨here, others⟩ := List.forall_mem_cons.mp each
    cases rest with
    | nil =>
      rw [List.intercalate_singleton]
      exact ⟨[], Language.nil_mem_kstar _, piece, here, rfl⟩
    | cons next more =>
      have behind := ih (List.cons_ne_nil next more) others
      have step : identifier * char '/' * ((identifier * char '/')∗ * identifier) ≤
          (identifier * char '/')∗ * identifier := by
        rw [← mul_assoc]
        gcongr
        exact mul_kstar_le_kstar
      apply step
      exact ⟨piece ++ ['/'], ⟨piece, here, ['/'], rfl, rfl⟩, _, behind, by simp [List.intercalate]⟩

/-- The name of a class is an identifier, behind a package if it is in one. -/
theorem written_className :
    written (fun name : ClassName => isSignatureName name.text.toList = true)
      (fun name => name.text.toList) = optional packageSpecifier * identifier := by
  rw [optional_packageSpecifier]
  apply le_antisymm
  · apply le_of_forall_mem
    rintro text ⟨name, fine, made⟩
    have pieces : ∀ piece ∈ Text.parts '/' name.text.toList, piece ∈ identifier :=
      fun piece member => isIdentifier_iff.mp (List.all_eq_true.mp fine piece member)
    have joined := intercalate_mem (Text.parts_ne_nil '/' name.text.toList) pieces
    rw [Text.join_parts] at joined
    rw [← made]
    exact joined
  · have named : ∀ text, isSignatureName text = true → text ∈ written
        (fun name : ClassName => isSignatureName name.text.toList = true)
          (fun name => name.text.toList) := by
      intro text fine
      refine ⟨⟨String.ofList text⟩, ?_, String.toList_ofList⟩
      show isSignatureName (String.ofList text).toList = true
      rw [String.toList_ofList]
      exact fine
    -- An identifier is such a name, and it is one with another identifier and a slash before it.
    apply kstar_mul_le
    · apply le_of_forall_mem
      intro text member
      apply named
      rw [isSignatureName, Text.parts_of_not_mem (slash_not_mem member)]
      exact List.all_eq_true.mpr (List.forall_mem_singleton.mpr (isIdentifier_iff.mpr member))
    · apply le_of_forall_mem
      rintro text ⟨_, ⟨piece, member, _, rfl, rfl⟩, _, ⟨name, fine, rfl⟩, made⟩
      apply named
      rw [← made]
      show isSignatureName (piece ++ ['/'] ++ name.text.toList) = true
      rw [List.append_assoc, List.singleton_append, isSignatureName,
        Text.parts_append_separator (slash_not_mem member), List.all_cons,
        isIdentifier_iff.mpr member]
      exact fine

theorem written_typeVariable :
    written (fun name : String => isIdentifier name.toList = true)
      (fun name => 'T' :: name.toList ++ [';']) = typeVariable := by
  rw [typeVariable, ← written_identifier]
  ext text
  constructor
  · rintro ⟨name, fine, made⟩
    exact ⟨_, ⟨['T'], rfl, _, ⟨name, fine, rfl⟩, rfl⟩, [';'], rfl, made⟩
  · rintro ⟨_, ⟨_, rfl, _, ⟨name, fine, rfl⟩, rfl⟩, _, rfl, made⟩
    exact ⟨name, fine, made⟩

/-! ### Reference types, one level -/

theorem mem_baseType_iff {text : List Char} :
    text ∈ baseType ↔ ∃ base : BaseType, [base.letter] = text := by
  constructor
  · rintro ⟨c, letter, made⟩
    have known : ∀ c ∈ ['B', 'C', 'D', 'F', 'I', 'J', 'S', 'Z'], (BaseType.ofLetter? c).isSome := by
      simp [BaseType.ofLetter?]
    obtain ⟨base, found⟩ := Option.isSome_iff_exists.mp (known c letter)
    exact ⟨base, by rw [made, BaseType.letter_of_ofLetter? found]⟩
  · rintro ⟨base, made⟩
    refine ⟨base.letter, ?_, made.symm⟩
    cases base <;> decide

theorem mem_optional_wildcardIndicator_iff {text : List Char} :
    text ∈ optional wildcardIndicator ↔ ∃ bound : Bound, bound.chars = text := by
  constructor
  · intro member
    obtain empty | extending | superOf := member
    · exact ⟨.exactly, empty.symm⟩
    · exact ⟨.extending, extending.symm⟩
    · exact ⟨.superOf, superOf.symm⟩
  · rintro ⟨bound, made⟩
    cases bound with
    | exactly => exact Or.inl made.symm
    | extending => exact Or.inr (Or.inl made.symm)
    | superOf => exact Or.inr (Or.inr made.symm)

theorem chars_ne_nil (type : TypeSig) : type.chars ≠ [] := by
  intro empty
  have leads := type.head?_chars_append []
  rw [empty] at leads
  cases type <;> cases leads

theorem argument_chars_ne_nil (argument : TypeArg) : argument.chars ≠ [] := by
  cases argument with
  | any =>
    rw [TypeArg.chars]
    exact List.cons_ne_nil _ _
  | bounded bound type =>
    rw [TypeArg.chars]
    exact List.append_ne_nil_of_right_ne_nil _ (chars_ne_nil type)

section Level

variable (IsReference : TypeSig → Prop)

theorem written_javaType :
    written (TypeSig.IsType IsReference) TypeSig.chars =
      javaType (written IsReference TypeSig.chars) := by
  ext text
  constructor
  · rintro ⟨type, fine, made⟩
    obtain ⟨base, rfl⟩ | fine := fine
    · rw [TypeSig.chars] at made
      exact Or.inl (mem_baseType_iff.mpr ⟨base, made⟩)
    · exact Or.inr ⟨type, fine, made⟩
  · intro member
    obtain base | ⟨type, fine, made⟩ := member
    · obtain ⟨base, made⟩ := mem_baseType_iff.mp base
      refine ⟨.base base, Or.inl ⟨base, rfl⟩, ?_⟩
      rw [TypeSig.chars]
      exact made
    · exact ⟨type, Or.inr fine, made⟩

theorem written_typeArgument :
    written (TypeArg.WellFormed IsReference) TypeArg.chars =
      typeArgument (written IsReference TypeSig.chars) := by
  ext text
  constructor
  · rintro ⟨argument, fine, made⟩
    cases argument with
    | any =>
      rw [TypeArg.chars] at made
      exact Or.inr made.symm
    | bounded bound type =>
      rw [TypeArg.chars] at made
      exact Or.inl ⟨bound.chars, mem_optional_wildcardIndicator_iff.mpr ⟨bound, rfl⟩, type.chars,
        ⟨type, fine, rfl⟩, made⟩
  · intro member
    obtain ⟨mark, marked, _, ⟨type, fine, rfl⟩, made⟩ | star := member
    · obtain ⟨bound, rfl⟩ := mem_optional_wildcardIndicator_iff.mp marked
      refine ⟨.bounded bound type, fine, ?_⟩
      rw [TypeArg.chars]
      exact made
    · refine ⟨.any, trivial, ?_⟩
      rw [TypeArg.chars]
      exact star.symm

theorem written_typeArguments :
    written (fun arguments => ∀ argument ∈ arguments, TypeArg.WellFormed IsReference argument)
        (fun arguments => bracketed (TypeArg.charsAll arguments)) =
      optional (typeArguments (written IsReference TypeSig.chars)) := by
  have full : ∀ argument, TypeArg.WellFormed IsReference argument → argument.chars ≠ [] :=
    fun argument _ => argument_chars_ne_nil argument
  have all := written_bracketed full
  rw [written_typeArgument] at all
  simp only [TypeArg.charsAll_eq_flatMap]
  exact all

/-- A class type without the character that ends it. -/
def openClassType (reference : Language Char) : Language Char :=
  char 'L' * optional packageSpecifier * simpleClassType reference *
    (char '.' * simpleClassType reference)∗

theorem openClassType_mul_le (reference : Language Char) :
    openClassType reference * (char '.' * simpleClassType reference) ≤ openClassType reference := by
  rw [openClassType, mul_assoc _ _∗]
  gcongr
  exact kstar_mul_le_kstar

variable {IsReference}

theorem mem_simpleClassType {name : List Char} {arguments : List TypeArg}
    (named : name ∈ identifier)
    (valid : ∀ argument ∈ arguments, TypeArg.WellFormed IsReference argument) :
    name ++ bracketed (TypeArg.charsAll arguments) ∈
      simpleClassType (written IsReference TypeSig.chars) := by
  rw [simpleClassType, ← written_typeArguments]
  exact ⟨name, named, _, ⟨arguments, valid, rfl⟩, rfl⟩

theorem charsOpen_mem_openClassType : {type : ClassType} → type.WellFormed IsReference →
    type.charsOpen ∈ openClassType (written IsReference TypeSig.chars)
  | .outer name arguments, ⟨named, valid⟩ => by
    have split : name.text.toList ∈ optional packageSpecifier * identifier := by
      rw [← written_className]
      exact ⟨name, named, rfl⟩
    obtain ⟨package, packaged, simple, isName, made⟩ := split
    rw [ClassType.charsOpen]
    refine ⟨_, ⟨_, ⟨['L'], rfl, package, packaged, rfl⟩, _, mem_simpleClassType isName valid, rfl⟩,
      [], Language.nil_mem_kstar _, ?_⟩
    rw [← made]
    simp
  | .nested around part arguments, ⟨outside, named, valid⟩ => by
    apply openClassType_mul_le
    rw [ClassType.charsOpen]
    have inner := mem_simpleClassType (isIdentifier_iff.mp named) valid
    refine ⟨around.charsOpen, charsOpen_mem_openClassType outside, _,
      ⟨['.'], rfl, _, inner, rfl⟩, ?_⟩
    simp

/-- A class type is its outermost class, and then one nested class behind the other. -/
theorem written_charsOpen :
    written (ClassType.WellFormed IsReference) ClassType.charsOpen =
      openClassType (written IsReference TypeSig.chars) := by
  apply le_antisymm
  · apply le_of_forall_mem
    rintro text ⟨type, fine, made⟩
    rw [← made]
    exact charsOpen_mem_openClassType fine
  · rw [openClassType, simpleClassType, ← written_typeArguments]
    apply mul_kstar_le
    · rw [mul_assoc (char 'L'), ← mul_assoc _ identifier, ← written_className]
      apply le_of_forall_mem
      rintro text ⟨_, rfl, _, ⟨_, ⟨name, named, rfl⟩, _, ⟨arguments, valid, rfl⟩, rfl⟩, made⟩
      refine ⟨.outer name arguments, ⟨named, valid⟩, ?_⟩
      rw [ClassType.charsOpen]
      exact made
    · rw [← written_identifier]
      apply le_of_forall_mem
      rintro text ⟨_, ⟨around, outside, rfl⟩, _, ⟨_, rfl, _, ⟨_, ⟨part, named, rfl⟩, _,
        ⟨arguments, valid, rfl⟩, rfl⟩, rfl⟩, made⟩
      refine ⟨.nested around part arguments, ⟨outside, named, valid⟩, ?_⟩
      rw [ClassType.charsOpen, List.append_assoc]
      exact made

theorem written_classType :
    written (ClassType.WellFormed IsReference) ClassType.chars =
      classType (written IsReference TypeSig.chars) := by
  have opened : classType (written IsReference TypeSig.chars) =
      written (ClassType.WellFormed IsReference) ClassType.charsOpen * char ';' := by
    rw [written_charsOpen]
    rfl
  rw [opened]
  ext text
  constructor
  · rintro ⟨type, fine, made⟩
    exact ⟨_, ⟨type, fine, rfl⟩, [';'], rfl, made⟩
  · rintro ⟨_, ⟨type, fine, rfl⟩, _, rfl, made⟩
    exact ⟨type, fine, made⟩

end Level

/-! ### Reference types, level by level -/

/-- **The texts of the reference types of a level are the language of that level.** -/
theorem written_reference (levels : Nat) :
    written (TypeSig.IsReference levels) TypeSig.chars = reference levels := by
  induction levels with
  | zero =>
    ext text
    exact ⟨fun ⟨_, impossible, _⟩ => impossible.elim, nofun⟩
  | succ levels ih =>
    rw [reference, ← ih, ← written_javaType, ← written_classType, ← written_typeVariable]
    ext text
    constructor
    · rintro ⟨type, fine, made⟩
      cases type with
      | base type => exact fine.elim
      | var name =>
        rw [TypeSig.chars] at made
        exact Or.inl (Or.inl ⟨name, fine, made⟩)
      | array element =>
        rw [TypeSig.chars] at made
        exact Or.inl (Or.inr ⟨['['], rfl, _, ⟨element, fine, rfl⟩, made⟩)
      | object type =>
        rw [TypeSig.chars] at made
        exact Or.inr ⟨type, fine, made⟩
    · intro member
      obtain (⟨name, fine, made⟩ | ⟨_, rfl, _, ⟨element, fine, rfl⟩, made⟩) | ⟨type, fine, made⟩ :=
        member
      · refine ⟨.var name, fine, ?_⟩
        rw [TypeSig.chars]
        exact made
      · refine ⟨.array element, fine, ?_⟩
        rw [TypeSig.chars]
        exact made
      · refine ⟨.object type, fine, ?_⟩
        rw [TypeSig.chars]
        exact made

/-- The types that stand in signatures hold the deepest references that there are. -/
theorem written_deepest : written (TypeSig.IsReference maxNesting) TypeSig.chars = reference 256 :=
  written_reference maxNesting

/-! ### Type parameters -/

theorem written_typeParameter :
    written TypeParameter.WellFormed TypeParameter.chars = typeParameter (reference 256) := by
  have bounds : optional (reference 256) =
      written (fun bound : Option TypeSig => ∀ type ∈ bound, type.IsReference maxNesting)
        (fun bound => bound.elim [] TypeSig.chars) := by
    rw [written_elim, written_deepest]
    rfl
  have others : (char ':' * reference 256)∗ =
      written (fun types : List TypeSig => ∀ type ∈ types, type.IsReference maxNesting)
        (fun types => types.flatMap fun type => ':' :: type.chars) := by
    rw [written_list, written_cons, written_deepest]
  rw [typeParameter, bounds, others, ← written_identifier]
  ext text
  constructor
  · rintro ⟨⟨name, classBound, interfaceBounds⟩, valid, made⟩
    exact ⟨_, ⟨_, ⟨name, valid.name, rfl⟩, _,
      ⟨[':'], rfl, _, ⟨classBound, valid.classBound, rfl⟩, rfl⟩, rfl⟩, _,
      ⟨interfaceBounds, valid.interfaceBounds, rfl⟩, made⟩
  · rintro ⟨_, ⟨_, ⟨name, named, rfl⟩, _, ⟨_, rfl, _, ⟨classBound, fine, rfl⟩, rfl⟩, rfl⟩, _,
      ⟨interfaceBounds, others, rfl⟩, made⟩
    exact ⟨⟨name, classBound, interfaceBounds⟩, ⟨named, fine, others⟩, made⟩

/-- A text that ends with its only colon has nothing behind it. -/
theorem eq_nil_of_append_colon {first second rest : List Char} (free : ':' ∉ first)
    (same : first ++ [':'] = second ++ ':' :: rest) : rest = [] := by
  obtain ⟨between, _, ending⟩ | ⟨between, whole, ending⟩ := List.append_eq_append_iff.mp same
  · have lengths := congrArg List.length ending
    simp only [List.length_append, List.length_cons, List.length_nil] at lengths
    apply List.eq_nil_of_length_eq_zero
    omega
  · cases between with
    | nil => exact (List.cons.inj ending).2
    | cons c more =>
      obtain ⟨colon, _⟩ := List.cons.inj ending
      rw [whole, ← colon] at free
      exact absurd (List.mem_append_right _ List.mem_cons_self) free

/-- The type parameters without bounds are those that end with their colon. -/
theorem mem_bareTypeParameter_iff {parameter : TypeParameter} (valid : parameter.WellFormed) :
    parameter.chars ∈ bareTypeParameter ↔ parameter.IsBare := by
  obtain ⟨name, classBound, interfaceBounds⟩ := parameter
  constructor
  · rintro ⟨text, ⟨_, free⟩, _, rfl, made⟩
    have noColon : ':' ∉ text := fun colon => free ':' colon (by decide)
    have spelled : text ++ [':'] = name.toList ++ ':' :: (classBound.elim [] TypeSig.chars ++
        interfaceBounds.flatMap fun bound => ':' :: bound.chars) := by
      refine made.trans ?_
      rw [TypeParameter.chars, List.append_assoc, List.cons_append]
    obtain ⟨noClass, noInterface⟩ :=
      List.append_eq_nil_iff.mp (eq_nil_of_append_colon noColon spelled)
    constructor
    · cases classBound with
      | none => rfl
      | some type => exact absurd noClass (chars_ne_nil type)
    · cases interfaceBounds with
      | nil => rfl
      | cons type more => cases noInterface
  · rintro ⟨noClass, noInterface⟩
    have bare : classBound = none := noClass
    have alone : interfaceBounds = [] := noInterface
    rw [bare, alone]
    exact ⟨name.toList, isIdentifier_iff.mp valid.name, [':'], rfl, (List.append_nil _).symm⟩

theorem separated_iff {first second : TypeParameter} (valid : first.WellFormed)
    (nextValid : second.WellFormed) :
    Separated first.chars second.chars ↔ first.Separable second := by
  obtain ⟨c, rest, named, ⟨more, spelled⟩, _⟩ := Signature.exists_chars_typeParameter nextValid
  rw [Separated, TypeParameter.Separable, mem_bareTypeParameter_iff valid, named, spelled]
  rfl

theorem written_typeParameters :
    written TypeParameter.ListWellFormed
        (fun parameters => bracketed (parameters.flatMap TypeParameter.chars)) =
      optional (typeParameters (reference 256)) := by
  have chain : ∀ {parameters : List TypeParameter},
      (∀ parameter ∈ parameters, parameter.WellFormed) →
      ((parameters.map TypeParameter.chars).IsChain Separated ↔
        parameters.IsChain TypeParameter.Separable) := by
    intro parameters each
    rw [List.isChain_map]
    exact List.IsChain.iff_of_mem_imp fun first second here there =>
      separated_iff (each first here) (each second there)
  have shown : ∀ {parameters : List TypeParameter}, parameters ≠ [] →
      (∀ parameter ∈ parameters, parameter.WellFormed) →
        bracketed (parameters.flatMap TypeParameter.chars) =
          '<' :: (parameters.map TypeParameter.chars).flatten ++ ['>'] := by
    intro parameters some each
    apply bracketed_flatMap some
    intro parameter present
    obtain ⟨c, _, _, ⟨more, spelled⟩, _⟩ :=
      Signature.exists_chars_typeParameter (each parameter present)
    rw [spelled]
    exact List.cons_ne_nil c more
  ext text
  constructor
  · rintro ⟨parameters, valid, made⟩
    by_cases none : parameters = []
    · rw [none] at made
      exact Or.inl made.symm
    · refine Or.inr ⟨parameters.map TypeParameter.chars, ?_, ?_,
        (chain valid.each).mpr valid.separable, (shown none valid.each).symm.trans made⟩
      · rw [ne_eq, List.map_eq_nil_iff]
        exact none
      · rw [← written_typeParameter]
        exact mem_written_of_mem_map valid.each
  · intro member
    obtain empty | ⟨texts, some, each, apart, made⟩ := member
    · exact ⟨[], ⟨fun _ => nofun, .nil⟩, empty.symm⟩
    · rw [← written_typeParameter] at each
      obtain ⟨parameters, fine, same⟩ := exists_map_eq each
      rw [← same, ne_eq, List.map_eq_nil_iff] at some
      rw [← same] at apart made
      exact ⟨parameters, ⟨fine, (chain fine).mp apart⟩, (shown some fine).trans made⟩

/-! ### Signatures -/

theorem written_wholeClassType :
    written ClassType.IsWhole ClassType.chars = classType (reference 256) := by
  rw [← written_deepest]
  exact written_classType

theorem written_classSig : written ClassSig.WellFormed ClassSig.chars = classSignature := by
  rw [classSignature, ← written_typeParameters, ← written_wholeClassType, ← written_list]
  ext text
  constructor
  · rintro ⟨⟨parameters, superClass, interfaces⟩, valid, made⟩
    exact ⟨_, ⟨_, ⟨parameters, valid.typeParameters, rfl⟩, _,
      ⟨superClass, valid.superClass, rfl⟩, rfl⟩, _, ⟨interfaces, valid.interfaces, rfl⟩, made⟩
  · rintro ⟨_, ⟨_, ⟨parameters, separate, rfl⟩, _, ⟨superClass, fine, rfl⟩, rfl⟩, _,
      ⟨interfaces, others, rfl⟩, made⟩
    exact ⟨⟨parameters, superClass, interfaces⟩, ⟨separate, fine, others⟩, made⟩

theorem written_thrownType :
    written ThrownType.WellFormed ThrownType.chars = throwsClause (reference 256) := by
  rw [throwsClause, ← written_typeVariable, ← written_wholeClassType]
  ext text
  constructor
  · rintro ⟨type, fine, made⟩
    cases type with
    | var name => exact ⟨['^'], rfl, _, Or.inl ⟨name, fine, rfl⟩, made⟩
    | object type => exact ⟨['^'], rfl, _, Or.inr ⟨type, fine, rfl⟩, made⟩
  · rintro ⟨_, rfl, _, member, made⟩
    obtain ⟨name, fine, rfl⟩ | ⟨type, fine, rfl⟩ := member
    · exact ⟨.var name, fine, made⟩
    · exact ⟨.object type, fine, made⟩

theorem written_methodSig : written MethodSig.WellFormed MethodSig.chars = methodSignature := by
  have types : javaType (reference 256) =
      written (TypeSig.IsType (TypeSig.IsReference maxNesting)) TypeSig.chars := by
    rw [← written_deepest, written_javaType]
  have results : char 'V' + javaType (reference 256) =
      written (fun result : Option TypeSig =>
          ∀ type ∈ result, type.IsType (TypeSig.IsReference maxNesting))
        (fun result => result.elim ['V'] TypeSig.chars) := by
    rw [written_elim, types]
    rfl
  rw [methodSignature, results, types, ← written_typeParameters, ← written_thrownType,
    ← written_list, ← written_list]
  ext text
  constructor
  · rintro ⟨⟨typeParameters, parameters, result, thrown⟩, valid, made⟩
    exact ⟨_, ⟨_, ⟨_, ⟨_, ⟨typeParameters, valid.typeParameters, rfl⟩, _, ⟨['('], rfl, _,
      ⟨parameters, valid.parameters, rfl⟩, rfl⟩, rfl⟩, [')'], rfl, rfl⟩, _,
      ⟨result, valid.result, rfl⟩, rfl⟩, _, ⟨thrown, valid.thrown, rfl⟩, made⟩
  · rintro ⟨_, ⟨_, ⟨_, ⟨_, ⟨typeParameters, separate, rfl⟩, _, ⟨_, rfl, _,
      ⟨parameters, fine, rfl⟩, rfl⟩, rfl⟩, _, rfl, rfl⟩, _, ⟨result, given, rfl⟩, rfl⟩, _,
      ⟨thrown, others, rfl⟩, made⟩
    exact ⟨⟨typeParameters, parameters, result, thrown⟩, ⟨separate, fine, given, others⟩, made⟩

/-- A text passes the check if it is that of a well-formed tree. -/
theorem check_iff_mem_written {τ : Type} [Grammar τ] [LawfulGrammar τ] {chars : τ → List Char}
    (spells : ∀ tree : τ, Grammar.write tree = String.ofList (chars tree)) (text : String) :
    Grammar.check τ text = .ok () ↔
      text.toList ∈ written (LawfulGrammar.WellFormed (τ := τ)) chars := by
  rw [Grammar.check_eq_ok_iff]
  refine exists_congr fun tree => and_congr_right fun _ => ?_
  rw [spells]
  constructor
  · intro same
    rw [← same, String.toList_ofList]
  · intro same
    rw [same, String.ofList_toList]

/-- **The signatures that pass their checks are those that the grammar derives.** -/
theorem checked_iff_derived (text : String) :
    (Grammar.check ClassSig text = .ok () ↔ text.toList ∈ classSignature) ∧
      (Grammar.check MethodSig text = .ok () ↔ text.toList ∈ methodSignature) ∧
      (Grammar.check TypeSig text = .ok () ↔ text.toList ∈ fieldSignature) := by
  refine ⟨?_, ?_, ?_⟩
  · rw [← written_classSig]
    exact check_iff_mem_written (fun _ => rfl) text
  · rw [← written_methodSig]
    exact check_iff_mem_written (fun _ => rfl) text
  · rw [fieldSignature, ← written_deepest]
    exact check_iff_mem_written (fun _ => rfl) text

end Renaming.SignatureLanguage

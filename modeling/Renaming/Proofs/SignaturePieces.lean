import Renaming.Proofs.OnePass

/-!
# The pieces of a signature

A signature is made of pieces: the name of a class behind an `L`, the part that names a nested class
behind a dot, and for the rest single characters, called marks. Renaming goes through the pieces one
by one and leaves every mark as it is, so a renamed signature has the same pieces but for the names.

What renaming does to the pieces depends on what it does to a part behind a dot, which is cut out of
the new name of the nested class. `RenamesPieces` says what is known of a single piece, and what is
known of all pieces follows (`PiecedGrammar.forall₂_pieces`).
-/

namespace Renaming

/-! ### Pieces -/

/-- A piece of a signature: a character that stands for itself, the name of a class with the `L`
before it, or the part that names a nested class with the dot before it. The class around is not
written there. -/
inductive Piece where
  | mark (c : Char)
  | outer (name : ClassName)
  | nested (around : ClassName) (part : String)
deriving DecidableEq

namespace Piece

def chars : Piece → List Char
  | .mark c => [c]
  | .outer name => 'L' :: name.text.toList
  | .nested _ part => '.' :: part.toList

/-- The class that the piece names. -/
def className? : Piece → Option ClassName
  | .mark _ => none
  | .outer name => some name
  | .nested around part => some (around.nested part)

/-- What renaming makes of a piece. A mark stays, a name behind an `L` becomes the new name, and a
part behind a dot is cut out of the new name of the nested class, if it has one. -/
inductive Becomes (renamed : ClassName → Option ClassName) : Piece → Piece → Prop
  | mark (c : Char) : Becomes renamed (.mark c) (.mark c)
  | outer (name : ClassName) : Becomes renamed (.outer name) (.outer (newName renamed name))
  | nested (around newAround context : ClassName) (part : String) :
      Becomes renamed (.nested around part)
        (.nested newAround ((renamed (around.nested part)).elim part (·.partOf context)))

/-- The text that the pieces make up. -/
def spell (pieces : List Piece) : List Char := pieces.flatMap chars

/-- The classes that the pieces name. -/
def classNames (pieces : List Piece) : List ClassName := pieces.filterMap className?

/-- A list between angle brackets; an empty list is not written. -/
def bracket (pieces : List Piece) : List Piece :=
  if pieces.isEmpty then [] else .mark '<' :: pieces ++ [.mark '>']

@[simp] theorem spell_nil : spell [] = [] := rfl

@[simp] theorem spell_cons (piece : Piece) (rest : List Piece) :
    spell (piece :: rest) = piece.chars ++ spell rest := List.flatMap_cons

@[simp] theorem spell_append (pieces more : List Piece) :
    spell (pieces ++ more) = spell pieces ++ spell more := List.flatMap_append

/-- Marks spell the characters that they stand for. -/
@[simp] theorem spell_map_mark (text : List Char) : spell (text.map .mark) = text := by
  induction text with
  | nil => rfl
  | cons c rest ih => rw [List.map_cons, spell_cons, ih, chars, List.singleton_append]

@[simp] theorem classNames_nil : classNames [] = [] := rfl

@[simp] theorem classNames_mark (c : Char) (rest : List Piece) :
    classNames (.mark c :: rest) = classNames rest := rfl

@[simp] theorem classNames_outer (name : ClassName) (rest : List Piece) :
    classNames (.outer name :: rest) = name :: classNames rest := rfl

@[simp] theorem classNames_nested (around : ClassName) (part : String) (rest : List Piece) :
    classNames (.nested around part :: rest) = around.nested part :: classNames rest := rfl

@[simp] theorem classNames_append (pieces more : List Piece) :
    classNames (pieces ++ more) = classNames pieces ++ classNames more := List.filterMap_append

@[simp] theorem classNames_map_mark (text : List Char) : classNames (text.map .mark) = [] := by
  induction text with
  | nil => rfl
  | cons c rest ih => rw [List.map_cons, classNames_mark, ih]

/-- No piece is without text, so an empty text has no pieces. -/
theorem spell_eq_nil_iff {pieces : List Piece} : spell pieces = [] ↔ pieces = [] := by
  cases pieces with
  | nil => simp
  | cons piece rest => cases piece <;> simp [chars]

/-- An empty list is left out together with its brackets, among pieces as in the text. -/
@[simp] theorem spell_bracket (pieces : List Piece) :
    spell (bracket pieces) = bracketed (spell pieces) := by
  rw [bracket, bracketed]
  by_cases empty : pieces = []
  · simp [empty]
  · have written : spell pieces ≠ [] := mt spell_eq_nil_iff.mp empty
    simp [empty, written, chars]

@[simp] theorem classNames_bracket (pieces : List Piece) :
    classNames (bracket pieces) = classNames pieces := by
  rw [bracket]
  by_cases empty : pieces = [] <;> simp [empty]

theorem mem_bracket {piece : Piece} {pieces : List Piece} (member : piece ∈ pieces) :
    piece ∈ bracket pieces := by
  have some : ¬ pieces.isEmpty = true := by simpa using List.ne_nil_of_mem member
  rw [bracket, if_neg some]
  exact List.mem_append_left _ (List.mem_cons_of_mem _ member)

/-- Pieces of items, one item after the other, spell the texts of the items. -/
theorem spell_flatMap {α : Type} {pieces : α → List Piece} {chars : α → List Char} {items : List α}
    (each : ∀ item, spell (pieces item) = chars item) :
    spell (items.flatMap pieces) = items.flatMap chars := by
  rw [spell, List.flatMap_assoc]
  exact congrArg (List.flatMap · items) (funext each)

theorem classNames_flatMap {α : Type} {pieces : α → List Piece} {names : α → List ClassName}
    {items : List α} (each : ∀ item, classNames (pieces item) = names item) :
    classNames (items.flatMap pieces) = items.flatMap names := by
  rw [classNames, List.filterMap_flatMap]
  exact congrArg (List.flatMap · items) (funext each)

end Piece

open Piece (spell classNames bracket)

mutual

def TypeSig.pieces : TypeSig → List Piece
  | .base type => [.mark type.letter]
  | .var name => .mark 'T' :: name.toList.map .mark ++ [.mark ';']
  | .array element => .mark '[' :: element.pieces
  | .object type => type.pieces ++ [.mark ';']

/-- The pieces of a class type without the `;` that ends it. -/
def ClassType.pieces : ClassType → List Piece
  | .outer name arguments => .outer name :: bracket (TypeArg.piecesAll arguments)
  | .nested around part arguments =>
    around.pieces ++ .nested around.name part :: bracket (TypeArg.piecesAll arguments)

def TypeArg.pieces : TypeArg → List Piece
  | .any => [.mark '*']
  | .bounded bound type => bound.chars.map .mark ++ type.pieces

def TypeArg.piecesAll : List TypeArg → List Piece
  | [] => []
  | argument :: rest => argument.pieces ++ TypeArg.piecesAll rest

end

def ClassType.wholePieces (type : ClassType) : List Piece := type.pieces ++ [.mark ';']

def TypeParameter.pieces (parameter : TypeParameter) : List Piece :=
  parameter.name.toList.map .mark ++ .mark ':' :: (parameter.classBound.elim [] TypeSig.pieces) ++
    parameter.interfaceBounds.flatMap fun bound => .mark ':' :: bound.pieces

def ThrownType.pieces : ThrownType → List Piece
  | .var name => .mark '^' :: .mark 'T' :: name.toList.map .mark ++ [.mark ';']
  | .object type => .mark '^' :: type.wholePieces

def ClassSig.pieces (signature : ClassSig) : List Piece :=
  bracket (signature.typeParameters.flatMap TypeParameter.pieces) ++
    signature.superClass.wholePieces ++ signature.interfaces.flatMap ClassType.wholePieces

def MethodSig.pieces (signature : MethodSig) : List Piece :=
  bracket (signature.typeParameters.flatMap TypeParameter.pieces) ++
    .mark '(' :: signature.parameters.flatMap TypeSig.pieces ++ [.mark ')'] ++
    signature.result.elim [.mark 'V'] TypeSig.pieces ++ signature.thrown.flatMap ThrownType.pieces

/-! ### What the pieces make up -/

mutual

/-- **The pieces of a type spell its text.** Types, class types and arguments are gone through
together, as they are written. -/
theorem TypeSig.spell_pieces : (type : TypeSig) → spell type.pieces = type.chars
  | .base type => by simp [TypeSig.pieces, TypeSig.chars, Piece.chars]
  | .var name => by simp [TypeSig.pieces, TypeSig.chars, Piece.chars]
  | .array element => by simp [TypeSig.pieces, TypeSig.chars, Piece.chars, element.spell_pieces]
  | .object type => by simp [TypeSig.pieces, TypeSig.chars, Piece.chars, type.spell_pieces]

/-- The `;` is left out, since a nested class may come next. -/
theorem ClassType.spell_pieces : (type : ClassType) → spell type.pieces = type.charsOpen
  | .outer name arguments => by
    simp [ClassType.pieces, ClassType.charsOpen, Piece.chars, TypeArg.spell_piecesAll arguments]
  | .nested around part arguments => by
    simp [ClassType.pieces, ClassType.charsOpen, Piece.chars, around.spell_pieces,
      TypeArg.spell_piecesAll arguments]

theorem TypeArg.spell_pieces : (argument : TypeArg) → spell argument.pieces = argument.chars
  | .any => by simp [TypeArg.pieces, TypeArg.chars, Piece.chars]
  | .bounded bound type => by simp [TypeArg.pieces, TypeArg.chars, type.spell_pieces]

theorem TypeArg.spell_piecesAll : (arguments : List TypeArg) →
    spell (TypeArg.piecesAll arguments) = TypeArg.charsAll arguments
  | [] => by simp [TypeArg.piecesAll, TypeArg.charsAll]
  | argument :: rest => by
    simp [TypeArg.piecesAll, TypeArg.charsAll, argument.spell_pieces, TypeArg.spell_piecesAll rest]

end

mutual

/-- **The pieces of a type name its classes**, in the order in which they are asked for. -/
theorem TypeSig.classNames_pieces : (type : TypeSig) → classNames type.pieces = type.names
  | .base type => by simp [TypeSig.pieces, TypeSig.names]
  | .var name => by simp [TypeSig.pieces, TypeSig.names]
  | .array element => by simp [TypeSig.pieces, TypeSig.names, element.classNames_pieces]
  | .object type => by simp [TypeSig.pieces, TypeSig.names, type.classNames_pieces]

/-- A nested class is named behind the class around it and the arguments of that class. -/
theorem ClassType.classNames_pieces : (type : ClassType) → classNames type.pieces = type.names
  | .outer name arguments => by
    simp [ClassType.pieces, ClassType.names, TypeArg.classNames_piecesAll arguments]
  | .nested around part arguments => by
    simp [ClassType.pieces, ClassType.names, around.classNames_pieces,
      TypeArg.classNames_piecesAll arguments]

theorem TypeArg.classNames_pieces :
    (argument : TypeArg) → classNames argument.pieces = argument.names
  | .any => by simp [TypeArg.pieces, TypeArg.names]
  | .bounded bound type => by simp [TypeArg.pieces, TypeArg.names, type.classNames_pieces]

theorem TypeArg.classNames_piecesAll : (arguments : List TypeArg) →
    classNames (TypeArg.piecesAll arguments) = TypeArg.namesAll arguments
  | [] => by simp [TypeArg.piecesAll, TypeArg.namesAll]
  | argument :: rest => by
    simp [TypeArg.piecesAll, TypeArg.namesAll, argument.classNames_pieces,
      TypeArg.classNames_piecesAll rest]

end

theorem ClassType.spell_wholePieces (type : ClassType) : spell type.wholePieces = type.chars := by
  simp [wholePieces, chars, Piece.chars, type.spell_pieces]

theorem ClassType.classNames_wholePieces (type : ClassType) :
    classNames type.wholePieces = type.names := by
  simp [wholePieces, type.classNames_pieces]

/-- The first colon is written whether there is a class bound behind it or not. -/
theorem TypeParameter.spell_pieces (parameter : TypeParameter) :
    spell parameter.pieces = parameter.chars := by
  have others : spell (parameter.interfaceBounds.flatMap fun bound => .mark ':' :: bound.pieces) =
      parameter.interfaceBounds.flatMap fun bound => ':' :: bound.chars :=
    Piece.spell_flatMap fun bound => by simp [Piece.chars, bound.spell_pieces]
  cases bound : parameter.classBound with
  | none => simp [pieces, chars, Piece.chars, bound, others]
  | some type => simp [pieces, chars, Piece.chars, bound, others, type.spell_pieces]

theorem TypeParameter.classNames_pieces (parameter : TypeParameter) :
    classNames parameter.pieces = parameter.names := by
  have others : classNames
      (parameter.interfaceBounds.flatMap fun bound => .mark ':' :: bound.pieces) =
      parameter.interfaceBounds.flatMap TypeSig.names :=
    Piece.classNames_flatMap fun bound => by simp [bound.classNames_pieces]
  cases bound : parameter.classBound with
  | none => simp [pieces, names, bound, others]
  | some type => simp [pieces, names, bound, others, type.classNames_pieces]

theorem ThrownType.spell_pieces (type : ThrownType) : spell type.pieces = type.chars := by
  cases type with
  | var name => simp [pieces, chars, Piece.chars]
  | object type => simp [pieces, chars, Piece.chars, type.spell_wholePieces]

theorem ThrownType.classNames_pieces (type : ThrownType) : classNames type.pieces = type.names := by
  cases type with
  | var name => simp [pieces, names]
  | object type => simp [pieces, names, type.classNames_wholePieces]

theorem ClassSig.spell_pieces (signature : ClassSig) :
    spell signature.pieces = signature.chars := by
  simp [pieces, chars, Piece.spell_flatMap TypeParameter.spell_pieces,
    signature.superClass.spell_wholePieces, Piece.spell_flatMap ClassType.spell_wholePieces]

theorem ClassSig.classNames_pieces (signature : ClassSig) :
    classNames signature.pieces = signature.names := by
  simp [pieces, names, Piece.classNames_flatMap TypeParameter.classNames_pieces,
    signature.superClass.classNames_wholePieces,
    Piece.classNames_flatMap ClassType.classNames_wholePieces]

/-- A method without a result has a `V` in its place, which is a mark. -/
theorem MethodSig.spell_pieces (signature : MethodSig) :
    spell signature.pieces = signature.chars := by
  have result : spell (signature.result.elim [.mark 'V'] TypeSig.pieces) =
      signature.result.elim ['V'] TypeSig.chars := by
    cases signature.result with
    | none => rfl
    | some type => exact type.spell_pieces
  simp [pieces, chars, Piece.chars, Piece.spell_flatMap TypeParameter.spell_pieces,
    Piece.spell_flatMap TypeSig.spell_pieces, Piece.spell_flatMap ThrownType.spell_pieces, result]

theorem MethodSig.classNames_pieces (signature : MethodSig) :
    classNames signature.pieces = signature.names := by
  have result : classNames (signature.result.elim [.mark 'V'] TypeSig.pieces) =
      signature.result.elim [] TypeSig.names := by
    cases signature.result with
    | none => rfl
    | some type => exact type.classNames_pieces
  simp [pieces, names, Piece.classNames_flatMap TypeParameter.classNames_pieces,
    Piece.classNames_flatMap TypeSig.classNames_pieces,
    Piece.classNames_flatMap ThrownType.classNames_pieces, result]

/-! ### What renaming does to the pieces -/

/-- What is written behind a dot depends on the new names of the nested class and of the class
around, and on the part itself only if there is no new name. -/
theorem ClassType.newPart_eq_elim (renamed : ClassName → Option ClassName) (around : ClassType)
    (part : String) : around.newPart renamed part =
      (renamed (around.name.nested part)).elim part (·.partOf (around.newName renamed)) := by
  rw [newPart]
  cases renamed (around.name.nested part) <;> rfl

/-- Renaming turns pieces into pieces that are related to them: marks into themselves, the name of a
class into its new name, and a part behind a dot into what is written in its place. Of a nested
class something may be known, and of all pieces before it. -/
structure RenamesPieces (renamed : ClassName → Option ClassName) (known : Piece → Prop)
    (related : Piece → Piece → Prop) : Prop where
  mark : ∀ c, related (.mark c) (.mark c)
  outer : ∀ name, related (.outer name) (.outer (newName renamed name))
  nested : ∀ (around : ClassType) (part : String), (∀ piece ∈ around.pieces, known piece) →
    known (.nested around.name part) →
      related (.nested around.name part)
        (.nested (around.rename renamed).name (around.newPart renamed part))

section Rename

variable {renamed : ClassName → Option ClassName} {known : Piece → Prop}
  {related : Piece → Piece → Prop}

/-- What is spelled by marks alone is related to itself. -/
theorem RenamesPieces.marks (rules : RenamesPieces renamed known related) (text : List Char) :
    List.Forall₂ related (text.map .mark) (text.map .mark) := by
  induction text with
  | nil => exact .nil
  | cons c rest ih => exact .cons (rules.mark c) ih

/-- Related lists are both empty or both not, so the brackets are left out on both sides or on
none. -/
theorem RenamesPieces.bracket (rules : RenamesPieces renamed known related)
    {pieces others : List Piece} (inside : List.Forall₂ related pieces others) :
    List.Forall₂ related (Piece.bracket pieces) (Piece.bracket others) := by
  cases inside with
  | nil => exact .nil
  | cons first rest =>
    exact .cons (rules.mark '<') (List.rel_append (.cons first rest) (.cons (rules.mark '>') .nil))

mutual

/-- **Renaming a type relates its pieces one by one.** -/
theorem TypeSig.forall₂_pieces (rules : RenamesPieces renamed known related) : (type : TypeSig) →
    (∀ piece ∈ type.pieces, known piece) →
      List.Forall₂ related type.pieces (type.rename renamed).pieces
  | .base type, _ => by
    rw [TypeSig.rename, TypeSig.pieces]
    exact .cons (rules.mark _) .nil
  | .var name, _ => by
    rw [TypeSig.rename, TypeSig.pieces]
    exact .cons (rules.mark 'T') (List.rel_append (rules.marks _) (.cons (rules.mark ';') .nil))
  | .array element, all => by
    rw [TypeSig.pieces, List.forall_mem_cons] at all
    rw [TypeSig.rename, TypeSig.pieces, TypeSig.pieces]
    exact .cons (rules.mark '[') (TypeSig.forall₂_pieces rules element all.2)
  | .object type, all => by
    rw [TypeSig.pieces, List.forall_mem_append] at all
    rw [TypeSig.rename, TypeSig.pieces, TypeSig.pieces]
    exact List.rel_append (ClassType.forall₂_pieces rules type all.1) (.cons (rules.mark ';') .nil)

/-- Of all cases, only the nested class makes use of what is known: of its own piece, and of the
pieces of the class around. -/
theorem ClassType.forall₂_pieces (rules : RenamesPieces renamed known related) :
    (type : ClassType) → (∀ piece ∈ type.pieces, known piece) →
      List.Forall₂ related type.pieces (type.rename renamed).pieces
  | .outer name arguments, all => by
    rw [ClassType.pieces, List.forall_mem_cons] at all
    have inside := TypeArg.forall₂_piecesAll rules arguments fun piece member =>
      all.2 piece (Piece.mem_bracket member)
    rw [ClassType.rename, ClassType.pieces, ClassType.pieces]
    exact .cons (rules.outer name) (rules.bracket inside)
  | .nested around part arguments, all => by
    rw [ClassType.pieces, List.forall_mem_append, List.forall_mem_cons] at all
    obtain ⟨outside, here, inner⟩ := all
    have inside := TypeArg.forall₂_piecesAll rules arguments fun piece member =>
      inner piece (Piece.mem_bracket member)
    rw [ClassType.rename, ClassType.pieces, ClassType.pieces]
    exact List.rel_append (ClassType.forall₂_pieces rules around outside)
      (.cons (rules.nested around part outside here) (rules.bracket inside))

theorem TypeArg.forall₂_pieces (rules : RenamesPieces renamed known related) :
    (argument : TypeArg) → (∀ piece ∈ argument.pieces, known piece) →
      List.Forall₂ related argument.pieces (argument.rename renamed).pieces
  | .any, _ => by
    rw [TypeArg.rename, TypeArg.pieces]
    exact .cons (rules.mark '*') .nil
  | .bounded bound type, all => by
    rw [TypeArg.pieces, List.forall_mem_append] at all
    rw [TypeArg.rename, TypeArg.pieces, TypeArg.pieces]
    exact List.rel_append (rules.marks _) (TypeSig.forall₂_pieces rules type all.2)

theorem TypeArg.forall₂_piecesAll (rules : RenamesPieces renamed known related) :
    (arguments : List TypeArg) → (∀ piece ∈ TypeArg.piecesAll arguments, known piece) →
      List.Forall₂ related (TypeArg.piecesAll arguments)
        (TypeArg.piecesAll (TypeArg.renameAll renamed arguments))
  | [], _ => by
    rw [TypeArg.renameAll, TypeArg.piecesAll]
    exact .nil
  | argument :: rest, all => by
    rw [TypeArg.piecesAll, List.forall_mem_append] at all
    rw [TypeArg.renameAll, TypeArg.piecesAll, TypeArg.piecesAll]
    exact List.rel_append (TypeArg.forall₂_pieces rules argument all.1)
      (TypeArg.forall₂_piecesAll rules rest all.2)

end

variable (rules : RenamesPieces renamed known related)

include rules

omit rules in
/-- If the pieces of every item become related pieces, so do those of all items. -/
theorem forall₂_flatMap_pieces {α : Type} {pieces : α → List Piece} {rename : α → α}
    (each : ∀ item, (∀ piece ∈ pieces item, known piece) →
      List.Forall₂ related (pieces item) (pieces (rename item)))
    {items : List α} (all : ∀ piece ∈ items.flatMap pieces, known piece) :
    List.Forall₂ related (items.flatMap pieces) ((items.map rename).flatMap pieces) := by
  induction items with
  | nil => exact .nil
  | cons item rest ih =>
    rw [List.flatMap_cons, List.forall_mem_append] at all
    rw [List.map_cons, List.flatMap_cons, List.flatMap_cons]
    exact List.rel_append (each item all.1) (ih all.2)

/-- The same of a type that may be absent. -/
theorem forall₂_elim_pieces (absent : List Char) {type : Option TypeSig}
    (all : ∀ piece ∈ type.elim (absent.map .mark) TypeSig.pieces, known piece) :
    List.Forall₂ related (type.elim (absent.map .mark) TypeSig.pieces)
      ((type.map (TypeSig.rename renamed)).elim (absent.map .mark) TypeSig.pieces) := by
  cases type with
  | none => exact rules.marks absent
  | some type => exact TypeSig.forall₂_pieces rules type all

theorem ClassType.forall₂_wholePieces (type : ClassType)
    (all : ∀ piece ∈ type.wholePieces, known piece) :
    List.Forall₂ related type.wholePieces (type.rename renamed).wholePieces := by
  rw [wholePieces, List.forall_mem_append] at all
  exact List.rel_append (ClassType.forall₂_pieces rules type all.1) (.cons (rules.mark ';') .nil)

theorem TypeParameter.forall₂_pieces (parameter : TypeParameter)
    (all : ∀ piece ∈ parameter.pieces, known piece) :
    List.Forall₂ related parameter.pieces (parameter.rename renamed).pieces := by
  simp only [pieces, List.forall_mem_append, List.forall_mem_cons] at all
  obtain ⟨⟨_, _, ofClass⟩, ofInterfaces⟩ := all
  have bound : List.Forall₂ related (parameter.classBound.elim [] TypeSig.pieces)
      ((parameter.rename renamed).classBound.elim [] TypeSig.pieces) :=
    forall₂_elim_pieces rules [] ofClass
  have others : List.Forall₂ related
      (parameter.interfaceBounds.flatMap fun bound => .mark ':' :: bound.pieces)
      ((parameter.rename renamed).interfaceBounds.flatMap
        fun bound => .mark ':' :: bound.pieces) := by
    refine forall₂_flatMap_pieces (fun type inside => ?_) ofInterfaces
    rw [List.forall_mem_cons] at inside
    exact .cons (rules.mark ':') (TypeSig.forall₂_pieces rules type inside.2)
  exact List.rel_append (List.rel_append (rules.marks _) (.cons (rules.mark ':') bound)) others

theorem ThrownType.forall₂_pieces (type : ThrownType) (all : ∀ piece ∈ type.pieces, known piece) :
    List.Forall₂ related type.pieces (type.rename renamed).pieces := by
  cases type with
  | var name =>
    exact .cons (rules.mark '^') (.cons (rules.mark 'T')
      (List.rel_append (rules.marks _) (.cons (rules.mark ';') .nil)))
  | object type =>
    rw [pieces, List.forall_mem_cons] at all
    exact .cons (rules.mark '^') (ClassType.forall₂_wholePieces rules type all.2)

theorem ClassSig.forall₂_pieces (signature : ClassSig)
    (all : ∀ piece ∈ signature.pieces, known piece) :
    List.Forall₂ related signature.pieces (signature.rename renamed).pieces := by
  simp only [pieces, List.forall_mem_append] at all
  obtain ⟨⟨ofParameters, ofSuperClass⟩, ofInterfaces⟩ := all
  have parameters := forall₂_flatMap_pieces (TypeParameter.forall₂_pieces rules) fun piece member =>
    ofParameters piece (Piece.mem_bracket member)
  have above := ClassType.forall₂_wholePieces rules signature.superClass ofSuperClass
  have others := forall₂_flatMap_pieces (ClassType.forall₂_wholePieces rules) ofInterfaces
  exact List.rel_append (List.rel_append (rules.bracket parameters) above) others

/-- A signature has the same pieces after renaming, but for what `related` lets them differ in. -/
theorem MethodSig.forall₂_pieces (signature : MethodSig)
    (all : ∀ piece ∈ signature.pieces, known piece) :
    List.Forall₂ related signature.pieces (signature.rename renamed).pieces := by
  simp only [pieces, List.forall_mem_append, List.forall_mem_cons] at all
  obtain ⟨⟨⟨⟨ofBounds, _, ofParameters⟩, _⟩, ofResult⟩, ofThrown⟩ := all
  have bounds := forall₂_flatMap_pieces (TypeParameter.forall₂_pieces rules) fun piece member =>
    ofBounds piece (Piece.mem_bracket member)
  have types := forall₂_flatMap_pieces (TypeSig.forall₂_pieces rules) ofParameters
  have given : List.Forall₂ related (signature.result.elim [.mark 'V'] TypeSig.pieces)
      ((signature.rename renamed).result.elim [.mark 'V'] TypeSig.pieces) :=
    forall₂_elim_pieces rules ['V'] ofResult
  have failures := forall₂_flatMap_pieces (ThrownType.forall₂_pieces rules) ofThrown
  refine List.rel_append
    (List.rel_append (List.rel_append ?_ (.cons (rules.mark ')') .nil)) given) failures
  exact List.rel_append (rules.bracket bounds) (.cons (rules.mark '(') types)

end Rename

/-! ### Nested classes and the classes around them -/

/-- A part behind a dot is an identifier, and the class around is named too. -/
def Piece.Consistent (pieces : List Piece) : Prop :=
  ∀ around part, .nested around part ∈ pieces →
    around ∈ classNames pieces ∧ isIdentifier part.toList = true

namespace Piece

/-- A class around that is named in one of the lists is named in both together. -/
theorem Consistent.append {pieces more : List Piece} (first : Consistent pieces)
    (second : Consistent more) : Consistent (pieces ++ more) := by
  intro around part member
  rw [classNames_append]
  obtain early | late := List.mem_append.mp member
  · exact (first around part early).imp_left (List.mem_append_left _)
  · exact (second around part late).imp_left (List.mem_append_right _)

theorem consistent_marks (text : List Char) : Consistent (text.map .mark) := by
  intro around part member
  obtain ⟨c, _, impossible⟩ := List.mem_map.mp member
  cases impossible

/-- A name behind an `L` asks for no class around it. -/
theorem consistent_outer (name : ClassName) : Consistent [.outer name] := by
  intro around part member
  cases List.mem_singleton.mp member

theorem Consistent.bracket {pieces : List Piece} (inside : Consistent pieces) :
    Consistent (bracket pieces) := by
  rw [Piece.bracket]
  split
  · exact consistent_marks []
  · exact ((consistent_marks ['<']).append inside).append (consistent_marks ['>'])

theorem consistent_flatMap {α : Type} {pieces : α → List Piece} {items : List α}
    (each : ∀ item ∈ items, Consistent (pieces item)) : Consistent (items.flatMap pieces) := by
  induction items with
  | nil => exact consistent_marks []
  | cons item rest ih =>
    rw [List.forall_mem_cons] at each
    rw [List.flatMap_cons]
    exact each.1.append (ih each.2)

end Piece

open Piece (Consistent consistent_marks consistent_outer consistent_flatMap)

/-- A class type names its own class, also if that is nested. -/
theorem ClassType.name_mem_names (type : ClassType) : type.name ∈ type.names := by
  cases type with
  | outer name arguments =>
    rw [names]
    exact List.mem_cons_self
  | nested around part arguments =>
    rw [names]
    exact List.mem_append_right _ List.mem_cons_self

section Level

variable {IsReference : TypeSig → Prop} (each : ∀ type, IsReference type → Consistent type.pieces)

include each

/-- Arguments bring no dots but those of their types. -/
theorem TypeArg.consistent_piecesAll {arguments : List TypeArg}
    (valid : ∀ argument ∈ arguments, TypeArg.WellFormed IsReference argument) :
    Consistent (piecesAll arguments) := by
  induction arguments with
  | nil =>
    rw [piecesAll]
    exact consistent_marks []
  | cons argument rest ih =>
    rw [List.forall_mem_cons] at valid
    rw [piecesAll]
    refine Consistent.append ?_ (ih valid.2)
    cases argument with
    | any =>
      rw [pieces]
      exact consistent_marks ['*']
    | bounded bound type =>
      rw [pieces]
      exact (consistent_marks _).append (each type valid.1)

/-- A nested class stands behind the pieces of the class around, which name that class. -/
theorem ClassType.WellFormed.consistent_pieces : {type : ClassType} → type.WellFormed IsReference →
    Consistent type.pieces
  | .outer name arguments, ⟨_, valid⟩ => by
    rw [ClassType.pieces]
    exact (consistent_outer name).append (TypeArg.consistent_piecesAll each valid).bracket
  | .nested around part arguments, ⟨outside, identifier, valid⟩ => by
    have before := outside.consistent_pieces
    have inside := (TypeArg.consistent_piecesAll each valid).bracket
    -- the class around is the one that the pieces before the dot end with
    have here : Consistent (around.pieces ++ [.nested around.name part]) := by
      intro other otherPart member
      rw [Piece.classNames_append]
      obtain early | late := List.mem_append.mp member
      · exact (before other otherPart early).imp_left (List.mem_append_left _)
      · cases List.mem_singleton.mp late
        rw [around.classNames_pieces]
        exact ⟨List.mem_append_left _ around.name_mem_names, identifier⟩
    rw [ClassType.pieces, List.append_cons]
    exact here.append inside

theorem TypeSig.IsType.consistent_pieces {type : TypeSig} (valid : type.IsType IsReference) :
    Consistent type.pieces := by
  obtain ⟨base, rfl⟩ | reference := valid
  · rw [TypeSig.pieces]
    exact consistent_marks [base.letter]
  · exact each type reference

end Level

/-- The induction is on the levels, since the arguments of a class type are types of one level
less. -/
theorem TypeSig.consistent_pieces (levels : Nat) :
    ∀ type : TypeSig, type.IsReference levels → Consistent type.pieces := by
  induction levels with
  | zero => exact fun _ valid => valid.elim
  | succ levels each =>
    intro type valid
    cases type with
    | base type => exact valid.elim
    | var name =>
      rw [pieces]
      exact ((consistent_marks ['T']).append (consistent_marks _)).append (consistent_marks [';'])
    | array element =>
      rw [pieces]
      exact (consistent_marks ['[']).append (TypeSig.IsType.consistent_pieces each valid)
    | object type =>
      rw [pieces]
      exact (ClassType.WellFormed.consistent_pieces each valid).append (consistent_marks [';'])

theorem ClassType.IsWhole.consistent_wholePieces {type : ClassType} (valid : type.IsWhole) :
    Consistent type.wholePieces :=
  (ClassType.WellFormed.consistent_pieces (TypeSig.consistent_pieces maxNesting) valid).append
    (consistent_marks [';'])

theorem consistent_elim_pieces (absent : List Char) {type : Option TypeSig}
    (valid : ∀ present ∈ type, Consistent present.pieces) :
    Consistent (type.elim (absent.map .mark) TypeSig.pieces) := by
  cases type with
  | none => exact consistent_marks absent
  | some type => exact valid type rfl

theorem TypeParameter.WellFormed.consistent_pieces {parameter : TypeParameter}
    (valid : parameter.WellFormed) : Consistent parameter.pieces := by
  have bound : Consistent (parameter.classBound.elim [] TypeSig.pieces) :=
    consistent_elim_pieces [] fun type found =>
      type.consistent_pieces maxNesting (valid.classBound type found)
  have others : Consistent
      (parameter.interfaceBounds.flatMap fun bound => .mark ':' :: bound.pieces) :=
    consistent_flatMap fun type member =>
      (consistent_marks [':']).append
        (type.consistent_pieces maxNesting (valid.interfaceBounds type member))
  exact ((consistent_marks _).append ((consistent_marks [':']).append bound)).append others

theorem TypeParameter.ListWellFormed.consistent_pieces {parameters : List TypeParameter}
    (valid : ListWellFormed parameters) :
    Consistent (bracket (parameters.flatMap TypeParameter.pieces)) :=
  (consistent_flatMap fun parameter member =>
    (valid.each parameter member).consistent_pieces).bracket

theorem ThrownType.WellFormed.consistent_pieces {type : ThrownType} (valid : type.WellFormed) :
    Consistent type.pieces := by
  cases type with
  | var name =>
    exact ((consistent_marks ['^', 'T']).append (consistent_marks _)).append
      (consistent_marks [';'])
  | object type =>
    exact (consistent_marks ['^']).append (ClassType.IsWhole.consistent_wholePieces valid)

theorem ClassSig.WellFormed.consistent_pieces {signature : ClassSig}
    (valid : signature.WellFormed) : Consistent signature.pieces := by
  refine (valid.typeParameters.consistent_pieces.append
    valid.superClass.consistent_wholePieces).append ?_
  exact consistent_flatMap fun type member => (valid.interfaces type member).consistent_wholePieces

/-- **The pieces of a well-formed signature are consistent**, those of a method as those of a
class. -/
theorem MethodSig.WellFormed.consistent_pieces {signature : MethodSig}
    (valid : signature.WellFormed) : Consistent signature.pieces := by
  have types : ∀ {type : TypeSig}, type.IsType (TypeSig.IsReference maxNesting) →
      Consistent type.pieces :=
    TypeSig.IsType.consistent_pieces (TypeSig.consistent_pieces maxNesting)
  have parameters : Consistent (signature.parameters.flatMap TypeSig.pieces) :=
    consistent_flatMap fun type member => types (valid.parameters type member)
  have result : Consistent (signature.result.elim [.mark 'V'] TypeSig.pieces) :=
    consistent_elim_pieces ['V'] fun type found => types (valid.result type found)
  have thrown : Consistent (signature.thrown.flatMap ThrownType.pieces) :=
    consistent_flatMap fun type member => (valid.thrown type member).consistent_pieces
  have opening := valid.typeParameters.consistent_pieces.append
      ((consistent_marks ['(']).append parameters)
  exact ((opening.append (consistent_marks [')'])).append result).append thrown

/-! ### Texts -/

/-- A grammar of texts that are made of pieces, which renaming goes through one by one. -/
class PiecedGrammar (τ : Type) [Grammar τ] [LawfulGrammar τ] where
  pieces : τ → List Piece
  spell_pieces : ∀ tree, String.ofList (spell (pieces tree)) = Grammar.write tree
  classNames_pieces : ∀ tree, classNames (pieces tree) = LawfulGrammar.names tree
  consistent_pieces : ∀ {tree}, LawfulGrammar.WellFormed tree → Consistent (pieces tree)
  forall₂_pieces : ∀ {renamed : ClassName → Option ClassName} {known : Piece → Prop}
    {related : Piece → Piece → Prop}, RenamesPieces renamed known related → ∀ tree,
      (∀ piece ∈ pieces tree, known piece) →
        List.Forall₂ related (pieces tree) (pieces (Grammar.rename renamed tree))

instance : PiecedGrammar ClassSig where
  pieces := ClassSig.pieces
  spell_pieces signature := congrArg String.ofList signature.spell_pieces
  classNames_pieces := ClassSig.classNames_pieces
  consistent_pieces valid := ClassSig.WellFormed.consistent_pieces valid
  forall₂_pieces := ClassSig.forall₂_pieces

instance : PiecedGrammar MethodSig where
  pieces := MethodSig.pieces
  spell_pieces signature := congrArg String.ofList signature.spell_pieces
  classNames_pieces := MethodSig.classNames_pieces
  consistent_pieces valid := MethodSig.WellFormed.consistent_pieces valid
  forall₂_pieces := MethodSig.forall₂_pieces

instance : PiecedGrammar TypeSig where
  pieces := TypeSig.pieces
  spell_pieces type := congrArg String.ofList type.spell_pieces
  classNames_pieces := TypeSig.classNames_pieces
  consistent_pieces valid := TypeSig.consistent_pieces maxNesting _ valid
  forall₂_pieces := TypeSig.forall₂_pieces

namespace Grammar

variable (τ : Type) [Grammar τ] [LawfulGrammar τ] [PiecedGrammar τ]

/-- The pieces of a text; a malformed one has none. -/
def piecesIn (text : String) : List Piece :=
  match (read text : Reading τ).result with
  | .ok tree => PiecedGrammar.pieces tree
  | .error _ => []

theorem piecesIn_write {tree : τ} (fine : LawfulGrammar.WellFormed tree) :
    piecesIn τ (write tree) = PiecedGrammar.pieces tree := by
  rw [piecesIn, LawfulGrammar.read_eq_iff.mpr ⟨fine, rfl, rfl⟩]

theorem spell_piecesIn {text : String} (passes : check τ text = .ok ()) :
    spell (piecesIn τ text) = text.toList := by
  obtain ⟨tree, fine, rfl⟩ := (check_eq_ok_iff τ).mp passes
  rw [piecesIn_write τ fine, ← PiecedGrammar.spell_pieces, String.toList_ofList]

/-- The text with new names is in the grammar and has the pieces of the text, renamed one by one. -/
theorem exists_renamed_of_check {renamed : ClassName → Option ClassName}
    (admits : ∀ old new, LawfulGrammar.Admits τ old → renamed old = some new →
      LawfulGrammar.Admits τ new)
    {text : String} (passes : check τ text = .ok ()) :
    ∃ result, renameAsking τ (.total renamed) text = ⟨namesIn τ text, .ok result⟩ ∧
      check τ result = .ok () ∧
      spell (piecesIn τ text) = text.toList ∧
      spell (piecesIn τ result) = result.toList ∧
      List.Forall₂ (Piece.Becomes renamed) (piecesIn τ text) (piecesIn τ result) := by
  obtain ⟨tree, fine, rfl⟩ := (check_eq_ok_iff τ).mp passes
  have fineAgain : LawfulGrammar.WellFormed (rename renamed tree) :=
    LawfulGrammar.wellFormed_rename admits fine
  have passesAgain : check τ (write (rename renamed tree)) = .ok () :=
    (check_eq_ok_iff τ).mpr ⟨_, fineAgain, rfl⟩
  have rules : RenamesPieces renamed (fun _ => True) (Piece.Becomes renamed) :=
    ⟨.mark, .outer, fun around part _ _ => around.newPart_eq_elim renamed part ▸ .nested _ _ _ _⟩
  refine ⟨write (rename renamed tree), ?_, passesAgain, spell_piecesIn τ passes,
    spell_piecesIn τ passesAgain, ?_⟩
  · rw [renameAsking_write τ renamed fine, namesIn_write τ fine]
  · rw [piecesIn_write τ fine, piecesIn_write τ fineAgain]
    exact PiecedGrammar.forall₂_pieces rules tree fun _ _ => trivial

end Grammar

/-- The pieces of a signature; a malformed one has none. -/
def SignatureKind.pieces : SignatureKind → String → List Piece
  | .ofClass => Grammar.piecesIn ClassSig
  | .ofMethod => Grammar.piecesIn MethodSig
  | .ofField => Grammar.piecesIn TypeSig

/-- The names of object classes without the characters that structure signatures can stand in
signatures. -/
theorem admits_of_names {renamed : ClassName → Option ClassName}
    (names : ∀ old new, renamed old = some new →
      isObjectName new.text.toList = true ∧ new.IsPlain)
    (old new : ClassName) (_ : isSignatureName old.text.toList = true)
    (found : renamed old = some new) : isSignatureName new.text.toList = true :=
  isSignatureName_iff.mpr (names old new found)

/-- **A renamed signature is a signature, and it differs only in its names.** Let the new names be
those of object classes, without the characters that structure signatures. A signature of any kind
is then renamed, what comes out is a signature of the same kind, and the pieces of both make up
their texts and are the same, one by one, but for the names behind an `L` and the parts behind a
dot. -/
theorem renamed_signature_differs_in_names {renamed : ClassName → Option ClassName}
    (names : ∀ old new, renamed old = some new →
      isObjectName new.text.toList = true ∧ new.IsPlain)
    (kind : SignatureKind) {text : String} (accepted : kind.check text = .ok ()) :
    ∃ result, kind.renameAsking (.total renamed) text = ⟨kind.names text, .ok result⟩ ∧
      kind.check result = .ok () ∧
      Piece.spell (kind.pieces text) = text.toList ∧
      Piece.spell (kind.pieces result) = result.toList ∧
      List.Forall₂ (Piece.Becomes renamed) (kind.pieces text) (kind.pieces result) := by
  have admits := admits_of_names names
  cases kind with
  | ofClass => exact Grammar.exists_renamed_of_check ClassSig admits accepted
  | ofMethod => exact Grammar.exists_renamed_of_check MethodSig admits accepted
  | ofField => exact Grammar.exists_renamed_of_check TypeSig admits accepted

/-- The renaming that a list of old and new names gives. -/
def listedNames (pairs : List (ClassName × ClassName)) (name : ClassName) : Option ClassName :=
  pairs.lookup name

theorem names_of_listedNames {pairs : List (ClassName × ClassName)}
    (all : ∀ pair ∈ pairs, isObjectName pair.2.text.toList = true ∧ pair.2.IsPlain)
    (old new : ClassName) (found : listedNames pairs old = some new) :
    isObjectName new.text.toList = true ∧ new.IsPlain := by
  obtain ⟨before, after, split, _⟩ := List.lookup_eq_some_iff.mp found
  have listed : (old, new) ∈ pairs := by simp [split]
  exact all _ listed

namespace CrookedNames

/-- New names with a dollar sign at either end and in another package. -/
def pairs : List (ClassName × ClassName) :=
  [(⟨"a"⟩, ⟨"p/$"⟩), (⟨"a$b"⟩, ⟨"q/r$$"⟩), (⟨"a$b$c"⟩, ⟨"p/$x$"⟩)]

def text : String := "<T::La;>(TT;[La.b<+TT;>.c;)V^TT;"

def result : String := "<T::Lp/$;>(TT;[Lp/$.r$$<+TT;>.$x$;)V^TT;"

end CrookedNames

open CrookedNames in
theorem crooked_names_stay_in_grammar :
    SignatureKind.ofMethod.check text = .ok () ∧
      (SignatureKind.ofMethod.renameAsking (.total (listedNames pairs)) text).result = .ok result ∧
      SignatureKind.ofMethod.check result = .ok () ∧
      List.Forall₂ (Piece.Becomes (listedNames pairs)) (SignatureKind.ofMethod.pieces text)
        (SignatureKind.ofMethod.pieces result) := by
  have names : ∀ pair ∈ pairs, isObjectName pair.2.text.toList = true ∧ pair.2.IsPlain := by
    intro pair listed
    simp only [pairs, List.mem_cons, List.not_mem_nil, or_false] at listed
    obtain rfl | rfl | rfl := listed <;> exact ⟨by decide, by simp [ClassName.IsPlain]⟩
  have accepted : SignatureKind.ofMethod.check text = .ok () := by cbv
  have done : (SignatureKind.ofMethod.renameAsking (.total (listedNames pairs)) text).result =
      .ok result := by cbv
  obtain ⟨out, written, passes, _, _, alike⟩ :=
    renamed_signature_differs_in_names (names_of_listedNames names) .ofMethod accepted
  obtain rfl : out = result := Except.ok.inj ((congrArg Recorded.result written).symm.trans done)
  exact ⟨accepted, done, passes, alike⟩

end Renaming

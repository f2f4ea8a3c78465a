import Renaming.Proofs.KeptNames
import Renaming.Proofs.SignaturePieces

/-!
# Renamings that keep the nesting of the classes

A signature does not write the name of a nested class: it writes the part behind the dot, and a
reader puts the name together from the class around and the part. So if a nested class is moved out
of the class around it, the new signature names a class that the renaming never gave. A renaming
that keeps the nesting gives every nested class a name inside the new name of the class around it.
Under such a renaming the new signature names exactly the new classes, and a renaming that takes the
new names back restores the text.

The part may hold dollar signs. It is recovered because the class around is known: it is cut off
first, and only what does not start with it is cut at the last dollar sign.
-/

namespace Renaming

open Piece (classNames Consistent)

variable {renamed : ClassName → Option ClassName}

/-! ### Nested classes -/

theorem newName_of_some {name new : ClassName} (found : renamed name = some new) :
    newName renamed name = new := by
  rw [newName, found, Option.getD_some]

theorem newName_of_none {name : ClassName} (absent : renamed name = none) :
    newName renamed name = name := by
  rw [newName, absent, Option.getD_none]

/-- The nested class is kept with the class around it, or it gets a name inside the new name of that
class. -/
def KeepsNestedClass (renamed : ClassName → Option ClassName) (around : ClassName)
    (part : String) : Prop :=
  (newName renamed around = around ∧ newName renamed (around.nested part) = around.nested part) ∨
    ∃ new : String, isIdentifier new.toList = true ∧
      renamed (around.nested part) = some ((newName renamed around).nested new)

/-- Every nested class that is named is kept inside the class around it. -/
def KeepsNesting (renamed : ClassName → Option ClassName) (pieces : List Piece) : Prop :=
  ∀ around part, .nested around part ∈ pieces → KeepsNestedClass renamed around part

/-- What is known of a single piece: a nested class has a part that can be written, and it is kept
inside the class around it. -/
def Piece.StaysNested (renamed : ClassName → Option ClassName) (piece : Piece) : Prop :=
  ∀ around part, piece = .nested around part →
    isIdentifier part.toList = true ∧ KeepsNestedClass renamed around part

theorem KeepsNesting.staysNested {pieces : List Piece} (keeps : KeepsNesting renamed pieces)
    (consistent : Consistent pieces) : ∀ piece ∈ pieces, piece.StaysNested renamed := by
  rintro _ member around part rfl
  exact ⟨(consistent around part member).2, keeps around part member⟩

/-- The new name of a nested class is made from that of the class around it. A nested class without
a new name of its own is in a class that keeps its name. -/
theorem KeepsNestedClass.exists_part {around : ClassName} {part : String}
    (identifier : isIdentifier part.toList = true) (keeps : KeepsNestedClass renamed around part) :
    ∃ new, isIdentifier new.toList = true ∧
      newName renamed (around.nested part) = (newName renamed around).nested new ∧
      (renamed (around.nested part) = none → newName renamed around = around) := by
  obtain ⟨outer, inner⟩ | ⟨new, valid, found⟩ := keeps
  · exact ⟨part, identifier, by rw [inner, outer], fun _ => outer⟩
  · exact ⟨new, valid, newName_of_some found, fun absent => by simp [found] at absent⟩

/-- The part that is cut out of the new name gives the new name again. -/
theorem KeepsNestedClass.nested_partOf {around : ClassName} {part : String}
    (identifier : isIdentifier part.toList = true) (keeps : KeepsNestedClass renamed around part) :
    (newName renamed around).nested
        ((newName renamed (around.nested part)).partOf (newName renamed around)) =
      newName renamed (around.nested part) := by
  obtain ⟨new, valid, inside, _⟩ := keeps.exists_part identifier
  rw [inside, ClassName.partOf_nested _ valid]

/-! ### Pieces -/

namespace Piece

/-- The piece with the new names. -/
def rename (renamed : ClassName → Option ClassName) : Piece → Piece
  | .mark c => .mark c
  | .outer name => .outer (newName renamed name)
  | .nested around part => .nested (newName renamed around)
      ((newName renamed (around.nested part)).partOf (newName renamed around))

theorem className?_rename {piece : Piece} (stays : piece.StaysNested renamed) :
    (piece.rename renamed).className? = piece.className?.map (newName renamed) := by
  cases piece with
  | mark c => rfl
  | outer name => rfl
  | nested around part =>
    obtain ⟨identifier, keeps⟩ := stays around part rfl
    exact congrArg some (keeps.nested_partOf identifier)

/-- The renamed pieces name the renamed classes. -/
theorem classNames_map_rename {pieces : List Piece}
    (stay : ∀ piece ∈ pieces, piece.StaysNested renamed) :
    classNames (pieces.map (rename renamed)) = (classNames pieces).map (newName renamed) := by
  rw [classNames, classNames, List.filterMap_map, List.map_filterMap]
  exact List.filterMap_congr fun piece member => className?_rename (stay piece member)

/-- A renaming that takes the new names back restores the pieces. -/
theorem map_rename_rename {first second : ClassName → Option ClassName} {pieces : List Piece}
    (consistent : Consistent pieces) (stay : ∀ piece ∈ pieces, piece.StaysNested first)
    (back : ∀ name ∈ classNames pieces, newName second (newName first name) = name) :
    (pieces.map (rename first)).map (rename second) = pieces := by
  rw [List.map_map]
  conv_rhs => rw [← List.map_id pieces]
  refine List.map_congr_left fun piece member => ?_
  have named (name : ClassName) (names : piece.className? = some name) :
      newName second (newName first name) = name :=
    back name (List.mem_filterMap.mpr ⟨piece, member, names⟩)
  cases piece with
  | mark c => rfl
  | outer name => exact congrArg Piece.outer (named name rfl)
  | nested around part =>
    obtain ⟨identifier, keeps⟩ := stay _ member around part rfl
    have outside : newName second (newName first around) = around :=
      back around (consistent around part member).1
    -- both classes have their old names back, and the part is cut out of these
    rw [Function.comp_apply, rename, rename, keeps.nested_partOf identifier, named _ rfl, outside,
      around.partOf_nested identifier]
    rfl

end Piece

/-! ### Trees -/

/-- The part that is written behind the dot is the one cut out of the new names of the two
classes. -/
theorem ClassType.newPart_of_keepsNestedClass {around : ClassType} {part : String}
    (identifier : isIdentifier part.toList = true)
    (keeps : KeepsNestedClass renamed around.name part)
    (outside : around.newName renamed = Renaming.newName renamed around.name) :
    around.newPart renamed part = (Renaming.newName renamed (around.name.nested part)).partOf
      (Renaming.newName renamed around.name) := by
  obtain ⟨_, _, _, unnamed⟩ := keeps.exists_part identifier
  rw [newPart, outside]
  cases found : renamed (around.name.nested part) with
  | some new => rw [newName_of_some found]
  | none =>
    -- the part is copied, which is right only since the class around keeps its name
    rw [newName_of_none found, unnamed found]
    exact (around.name.partOf_nested identifier).symm

theorem ClassType.newName_of_keepsNestedClass {around : ClassType} {part : String}
    (arguments : List TypeArg) (identifier : isIdentifier part.toList = true)
    (keeps : KeepsNestedClass renamed around.name part)
    (outside : around.newName renamed = Renaming.newName renamed around.name) :
    (ClassType.nested around part arguments).newName renamed =
      Renaming.newName renamed (around.name.nested part) := by
  obtain ⟨_, _, _, unnamed⟩ := keeps.exists_part identifier
  rw [newName, name, outside]
  cases found : renamed (around.name.nested part) with
  | some new => exact (newName_of_some found).symm
  | none => rw [unnamed found, newName_of_none found]

/-- The new name of a class type, and the name that is read off the renamed type, are both the new
name of the class. -/
theorem ClassType.newNames_of_staysNested : (type : ClassType) →
    (∀ piece ∈ type.pieces, piece.StaysNested renamed) →
      type.newName renamed = Renaming.newName renamed type.name ∧
        (type.rename renamed).name = Renaming.newName renamed type.name
  | .outer name arguments, _ => by
    rw [ClassType.rename]
    exact ⟨rfl, rfl⟩
  | .nested around part arguments, stay => by
    rw [ClassType.pieces, List.forall_mem_append, List.forall_mem_cons] at stay
    obtain ⟨outside, here, _⟩ := stay
    obtain ⟨identifier, keeps⟩ := here around.name part rfl
    obtain ⟨sameNew, sameName⟩ := around.newNames_of_staysNested outside
    refine ⟨ClassType.newName_of_keepsNestedClass arguments identifier keeps sameNew, ?_⟩
    rw [ClassType.rename, ClassType.name, ClassType.name, sameName,
      ClassType.newPart_of_keepsNestedClass identifier keeps sameNew]
    exact keeps.nested_partOf identifier

theorem renamesPieces_of_staysNested :
    RenamesPieces renamed (Piece.StaysNested renamed)
      fun piece other => other = piece.rename renamed where
  mark _ := rfl
  outer _ := rfl
  nested around part outside here := by
    obtain ⟨identifier, keeps⟩ := here around.name part rfl
    obtain ⟨sameNew, sameName⟩ := around.newNames_of_staysNested outside
    rw [sameName, ClassType.newPart_of_keepsNestedClass identifier keeps sameNew]
    rfl

/-! ### Texts -/

section Grammar

variable (τ : Type) [Grammar τ] [LawfulGrammar τ] [PiecedGrammar τ]

theorem PiecedGrammar.pieces_rename {tree : τ} (fine : LawfulGrammar.WellFormed tree)
    (keeps : KeepsNesting renamed (PiecedGrammar.pieces tree)) :
    PiecedGrammar.pieces (Grammar.rename renamed tree) =
      (PiecedGrammar.pieces tree).map (Piece.rename renamed) := by
  have nested := keeps.staysNested (PiecedGrammar.consistent_pieces fine)
  rw [← List.forall₂_eq_eq_eq, List.forall₂_map_right_iff]
  exact (PiecedGrammar.forall₂_pieces renamesPieces_of_staysNested tree nested).flip

/-- The renamed tree names the renamed classes. -/
theorem PiecedGrammar.names_rename {tree : τ} (fine : LawfulGrammar.WellFormed tree)
    (keeps : KeepsNesting renamed (PiecedGrammar.pieces tree)) :
    LawfulGrammar.names (Grammar.rename renamed tree) =
      (LawfulGrammar.names tree).map (newName renamed) := by
  rw [← PiecedGrammar.classNames_pieces, ← PiecedGrammar.classNames_pieces,
    pieces_rename τ fine keeps]
  exact Piece.classNames_map_rename (keeps.staysNested (PiecedGrammar.consistent_pieces fine))

/-- Renaming there and back writes the text again. -/
theorem PiecedGrammar.write_rename_rename {first second : ClassName → Option ClassName} {tree : τ}
    (fine : LawfulGrammar.WellFormed tree) (keeps : KeepsNesting first (PiecedGrammar.pieces tree))
    (fineAgain : LawfulGrammar.WellFormed (Grammar.rename first tree))
    (keepsAgain : KeepsNesting second (PiecedGrammar.pieces (Grammar.rename first tree)))
    (back : ∀ name ∈ LawfulGrammar.names tree, newName second (newName first name) = name) :
    Grammar.write (Grammar.rename second (Grammar.rename first tree)) = Grammar.write tree := by
  have consistent := PiecedGrammar.consistent_pieces fine
  rw [← PiecedGrammar.classNames_pieces] at back
  rw [← PiecedGrammar.spell_pieces, ← PiecedGrammar.spell_pieces,
    pieces_rename τ fineAgain keepsAgain, pieces_rename τ fine keeps,
    Piece.map_rename_rename consistent (keeps.staysNested consistent) back]

namespace Grammar

theorem exists_faithful_of_check {first : ClassName → Option ClassName}
    (admits : ∀ old new, LawfulGrammar.Admits τ old → first old = some new →
      LawfulGrammar.Admits τ new)
    {text : String} (passes : check τ text = .ok ())
    (keeps : KeepsNesting first (piecesIn τ text)) :
    ∃ result, renameAsking τ (.total first) text = ⟨namesIn τ text, .ok result⟩ ∧
      check τ result = .ok () ∧
      (∀ second, (renameAsking τ (.total second) result).record =
        (namesIn τ text).map (newName first)) ∧
      ∀ second, KeepsNesting second (piecesIn τ result) →
        (∀ name ∈ namesIn τ text, newName second (newName first name) = name) →
          (renameAsking τ (.total second) result).result = .ok text := by
  obtain ⟨tree, fine, rfl⟩ := (check_eq_ok_iff τ).mp passes
  have fineAgain : LawfulGrammar.WellFormed (rename first tree) :=
    LawfulGrammar.wellFormed_rename admits fine
  rw [piecesIn_write τ fine] at keeps
  rw [namesIn_write τ fine]
  refine ⟨write (rename first tree), renameAsking_write τ first fine,
    (check_eq_ok_iff τ).mpr ⟨_, fineAgain, rfl⟩, fun second => ?_, fun second keepsAgain back => ?_⟩
  · rw [renameAsking_write τ second fineAgain]
    exact PiecedGrammar.names_rename τ fine keeps
  · rw [piecesIn_write τ fineAgain] at keepsAgain
    rw [renameAsking_write τ second fineAgain]
    exact congrArg Except.ok
      (PiecedGrammar.write_rename_rename τ fine keeps fineAgain keepsAgain back)

end Grammar

end Grammar

/-- **Renaming signatures is faithful to nesting.** Let the new names be those of object classes,
without the characters that structure signatures, and let every nested class of a signature be kept
inside the class around it. Then renaming the new signature asks about exactly the new names of the
classes, in the same order; and if another renaming keeps the nesting of the new signature and takes
the new names back, it gives the signature again. -/
theorem nesting_renames_are_faithful {first : ClassName → Option ClassName}
    (names : ∀ old new, first old = some new → isObjectName new.text.toList = true ∧ new.IsPlain)
    (kind : SignatureKind) {text : String} (accepted : kind.check text = .ok ())
    (keeps : KeepsNesting first (kind.pieces text)) :
    ∃ result, kind.renameAsking (.total first) text = ⟨kind.names text, .ok result⟩ ∧
      kind.check result = .ok () ∧
      (∀ second, (kind.renameAsking (.total second) result).record =
        (kind.names text).map (newName first)) ∧
      ∀ second, KeepsNesting second (kind.pieces result) →
        (∀ name ∈ kind.names text, newName second (newName first name) = name) →
          (kind.renameAsking (.total second) result).result = .ok text := by
  have admits := admits_of_names names
  cases kind with
  | ofClass => exact Grammar.exists_faithful_of_check ClassSig admits accepted keeps
  | ofMethod => exact Grammar.exists_faithful_of_check MethodSig admits accepted keeps
  | ofField => exact Grammar.exists_faithful_of_check TypeSig admits accepted keeps

namespace DollarParts

/-- The new parts hold dollar signs. -/
def there : List (ClassName × ClassName) :=
  [(⟨"a"⟩, ⟨"p/x"⟩), (⟨"a$b"⟩, ⟨"p/x$d$e"⟩), (⟨"a$b$c"⟩, ⟨"p/x$d$e$$f$"⟩)]

def back : List (ClassName × ClassName) := there.map Prod.swap

/-- Beside the renamed classes stands a nested class that is kept. -/
def text : String := "La.b<La;Lk.m;>.c;"

def result : String := "Lp/x.d$e<Lp/x;Lk.m;>.$f$;"

def run (pairs : List (ClassName × ClassName)) : String → Inquiry String :=
  SignatureKind.ofField.renameAsking (.total (listedNames pairs))

end DollarParts

open DollarParts in
theorem dollar_parts_are_recovered :
    SignatureKind.ofField.check text = .ok () ∧
      KeepsNesting (listedNames there) (SignatureKind.ofField.pieces text) ∧
      KeepsNesting (listedNames back) (SignatureKind.ofField.pieces result) ∧
      (run there text).result = .ok result ∧
      (run back result).record =
        [⟨"p/x"⟩, ⟨"p/x$d$e"⟩, ⟨"p/x"⟩, ⟨"k"⟩, ⟨"k$m"⟩, ⟨"p/x$d$e$$f$"⟩] ∧
      (run back result).result = .ok text := by
  have names : ∀ pair ∈ there, isObjectName pair.2.text.toList = true ∧ pair.2.IsPlain := by
    intro pair listed
    simp only [there, List.mem_cons, List.not_mem_nil, or_false] at listed
    obtain rfl | rfl | rfl := listed <;> exact ⟨by decide, by simp [ClassName.IsPlain]⟩
  have accepted : SignatureKind.ofField.check text = .ok () := by cbv
  have done : (run there text).result = .ok result := by cbv
  have asked : SignatureKind.ofField.names text =
      [⟨"a"⟩, ⟨"a$b"⟩, ⟨"a"⟩, ⟨"k"⟩, ⟨"k$m"⟩, ⟨"a$b$c"⟩] := by cbv
  have keeps : KeepsNesting (listedNames there) (SignatureKind.ofField.pieces text) := by
    have pieces : SignatureKind.ofField.pieces text =
        [.outer ⟨"a"⟩, .nested ⟨"a"⟩ "b", .mark '<', .outer ⟨"a"⟩, .mark ';', .outer ⟨"k"⟩,
          .nested ⟨"k"⟩ "m", .mark ';', .mark '>', .nested ⟨"a$b"⟩ "c", .mark ';'] := by cbv
    intro around part member
    simp only [pieces, List.mem_cons, Piece.nested.injEq, reduceCtorEq, List.not_mem_nil, false_or,
      or_false] at member
    obtain ⟨rfl, rfl⟩ | ⟨rfl, rfl⟩ | ⟨rfl, rfl⟩ := member
    · exact .inr ⟨"d$e", by decide, by decide⟩
    · exact .inl ⟨by decide, by decide⟩
    · exact .inr ⟨"$f$", by decide, by decide⟩
  have keepsAgain : KeepsNesting (listedNames back) (SignatureKind.ofField.pieces result) := by
    have pieces : SignatureKind.ofField.pieces result =
        [.outer ⟨"p/x"⟩, .nested ⟨"p/x"⟩ "d$e", .mark '<', .outer ⟨"p/x"⟩, .mark ';', .outer ⟨"k"⟩,
          .nested ⟨"k"⟩ "m", .mark ';', .mark '>', .nested ⟨"p/x$d$e"⟩ "$f$", .mark ';'] := by cbv
    intro around part member
    simp only [pieces, List.mem_cons, Piece.nested.injEq, reduceCtorEq, List.not_mem_nil, false_or,
      or_false] at member
    obtain ⟨rfl, rfl⟩ | ⟨rfl, rfl⟩ | ⟨rfl, rfl⟩ := member
    · exact .inr ⟨"b", by decide, by decide⟩
    · exact .inl ⟨by decide, by decide⟩
    · exact .inr ⟨"c", by decide, by decide⟩
  obtain ⟨out, written, _, questions, restores⟩ :=
    nesting_renames_are_faithful (names_of_listedNames names) .ofField accepted keeps
  obtain rfl : out = result := Except.ok.inj ((congrArg Recorded.result written).symm.trans done)
  have images : (SignatureKind.ofField.names text).map (newName (listedNames there)) =
      [⟨"p/x"⟩, ⟨"p/x$d$e"⟩, ⟨"p/x"⟩, ⟨"k"⟩, ⟨"k$m"⟩, ⟨"p/x$d$e$$f$"⟩] := by
    rw [asked]
    decide
  have inverse : ∀ name ∈ SignatureKind.ofField.names text,
      newName (listedNames back) (newName (listedNames there) name) = name := by
    rw [asked]
    simp only [List.forall_mem_cons]
    decide
  exact ⟨accepted, keeps, keepsAgain, done, (questions _).trans images,
    restores _ keepsAgain inverse⟩

end Renaming

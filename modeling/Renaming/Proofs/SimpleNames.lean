import Renaming.Proofs.KeepingValidity

/-!
# The simple names of nested classes

The simple name of a nested class is derived from its full name in two places: behind the dot of a
signature, and in the list of nested classes of a class. Both cut it off behind the name of the
class around it and a `$`, and both fall back on the innermost part of the name. But a signature
takes only an identifier for the simple name, while the list takes whatever is not empty. So the two
differ if what is cut off goes on to another package, or if it is no identifier and has a `$` in it.

* `ClassName.innermostName_nested_eq_iff`: when the innermost part is all that is cut off.
* `ClassName.partOf_eq_nestedSimpleName_iff`: when the two simple names are the same.
-/

namespace Renaming

/-! ### Cutting at the last separator -/

namespace Text

variable {separator : Char}

theorem not_mem_of_mem_parts {text piece : List Char} (member : piece ∈ parts separator text) :
    separator ∉ piece := by
  have free : ∀ piece ∈ parts separator text, ∀ c ∈ piece, c ≠ separator :=
    (forall_mem_parts text).mpr fun _ _ other => other
  exact fun inside => free piece member separator inside rfl

theorem not_mem_of_splitLast_eq_none {text : List Char} (uncut : splitLast separator text = none) :
    separator ∉ text := by
  have member : text ∈ parts separator text := by
    rw [parts_of_splitLast_eq_none uncut]
    exact List.mem_cons_self
  exact not_mem_of_mem_parts member

theorem not_mem_of_splitLast_eq_some {text before after : List Char}
    (cut : splitLast separator text = some (before, after)) : separator ∉ after := by
  have member : after ∈ parts separator text := by
    rw [parts_of_splitLast_eq_some cut]
    exact List.mem_append_right _ List.mem_cons_self
  exact not_mem_of_mem_parts member

theorem splitLast_of_not_mem {text : List Char} (free : separator ∉ text) :
    splitLast separator text = none := by
  induction text with
  | nil => rfl
  | cons c rest ih =>
    rw [List.mem_cons, not_or] at free
    rw [splitLast, ih free.2]
    exact if_neg (Ne.symm free.1)

theorem splitLast_append {after : List Char} (free : separator ∉ after) (before : List Char) :
    splitLast separator (before ++ separator :: after) = some (before, after) := by
  induction before with
  | nil =>
    rw [List.nil_append, splitLast, splitLast_of_not_mem free]
    exact if_pos rfl
  | cons c rest ih => rw [List.cons_append, splitLast, ih]

end Text

namespace ClassName

theorem nested_injective (outer : ClassName) : Function.Injective outer.nested := by
  intro first second same
  have letters := congrArg (fun name : ClassName => name.text.toList) same
  simp only [toList_nested] at letters
  exact String.toList_inj.mp (List.cons.inj (List.append_cancel_left letters)).2

theorem partWithin?_eq_some_iff {name outer : ClassName} {part : List Char} :
    name.partWithin? outer = some part ↔ name = outer.nested (String.ofList part) := by
  rw [partWithin?, List.isPrefixOf?_eq_some_iff_append_eq, List.append_assoc, List.singleton_append]
  constructor
  · intro same
    apply Symbol.ext_text
    rw [← String.toList_inj, toList_nested, String.toList_ofList, same]
  · rintro rfl
    rw [toList_nested, String.toList_ofList]

/-! ### The innermost part of a name -/

/-- What is nested in a class without going on to another package has the package of the class. -/
theorem simpleName_nested (outer : ClassName) {part : String} (free : '/' ∉ part.toList) :
    (outer.nested part).simpleName.toList = outer.simpleName.toList ++ '$' :: part.toList := by
  have tail : ∀ simple : List Char, '/' ∉ simple → '/' ∉ simple ++ '$' :: part.toList := by
    intro simple plain
    simp [plain, free]
  rw [simpleName, simpleName, toList_nested]
  cases cut : Text.splitLast '/' outer.text.toList with
  | none =>
    rw [Text.splitLast_of_not_mem (tail _ (Text.not_mem_of_splitLast_eq_none cut))]
    exact outer.toList_nested part
  | some pieces =>
    obtain ⟨before, simple⟩ := pieces
    rw [Text.eq_of_splitLast_eq_some cut, List.append_assoc, List.cons_append,
      Text.splitLast_append (tail simple (Text.not_mem_of_splitLast_eq_some cut))]
    simp only [String.toList_ofList]

/-- The innermost part is the whole simple name, or what stands behind the last `$` in it. -/
theorem innermostName_cases (name : ClassName) :
    name.innermostName = name.simpleName ∨
      ∃ before inner, name.simpleName.toList = before ++ '$' :: inner ∧ '$' ∉ inner ∧
        name.innermostName = String.ofList inner := by
  rw [innermostName]
  split
  case h_1 before inner cut =>
    split
    case isTrue => exact Or.inl rfl
    case isFalse =>
      exact Or.inr ⟨before, inner, Text.eq_of_splitLast_eq_some cut,
        Text.not_mem_of_splitLast_eq_some cut, rfl⟩
  case h_2 => exact Or.inl rfl

theorem slash_not_mem_innermostName (name : ClassName) : '/' ∉ name.innermostName.toList := by
  have plain : '/' ∉ name.simpleName.toList := Text.not_mem_of_mem_parts name.simpleName_mem_parts
  obtain whole | ⟨before, inner, simple, _, innermost⟩ := name.innermostName_cases
  · rw [whole]
    exact plain
  · rw [simple] at plain
    rw [innermost, String.toList_ofList]
    exact fun slash => plain (List.mem_append_right _ (List.mem_cons_of_mem _ slash))

/-- **What is nested in a class is its innermost part**, unless it goes on to another package or to
a class nested deeper. -/
theorem innermostName_nested_eq_iff {outer : ClassName} {part : String}
    (object : isObjectName outer.text.toList = true) (some : part.toList ≠ []) :
    (outer.nested part).innermostName = part ↔ '/' ∉ part.toList ∧ '$' ∉ part.toList := by
  constructor
  · intro same
    have plain : '/' ∉ part.toList := by
      rw [← same]
      exact slash_not_mem_innermostName _
    refine ⟨plain, fun dollar => ?_⟩
    have simple := outer.simpleName_nested plain
    obtain whole | ⟨before, inner, _, free, innermost⟩ := (outer.nested part).innermostName_cases
    · -- the simple name is longer than its last part
      rw [← whole, same] at simple
      have lengths := congrArg List.length simple
      simp only [List.length_append, List.length_cons] at lengths
      omega
    · rw [same] at innermost
      rw [innermost, String.toList_ofList] at dollar
      exact free dollar
  · intro ⟨noSlash, noDollar⟩
    have named : outer.simpleName.toList ≠ [] :=
      (isObjectName_iff.mp object).1 _ outer.simpleName_mem_parts
    rw [innermostName, outer.simpleName_nested noSlash, Text.splitLast_append noDollar]
    simp only [List.isEmpty_iff, named, some, Bool.or_eq_true, or_self, if_false,
      String.ofList_toList]

/-! ### The two simple names -/

/-- What follows a class and a `$` goes on to another package, or it is no identifier and is nested
deeper. -/
def Branches (rest : List Char) : Prop :=
  '/' ∈ rest ∨ '$' ∈ rest ∧ ∃ c ∈ rest, c ∈ ['<', '>', ':']

/-- A piece of an object name is an identifier but for slashes and the characters that structure
signatures. -/
theorem exists_structural_of_not_isIdentifier {rest : List Char} (some : rest ≠ [])
    (free : ∀ c ∈ rest, c ∉ ['.', ';', '[']) (other : ¬ isIdentifier rest = true) :
    '/' ∈ rest ∨ ∃ c ∈ rest, c ∈ ['<', '>', ':'] := by
  by_contra neither
  rw [not_or] at neither
  refine other (isIdentifier_iff.mpr ⟨some, fun c member bad => ?_⟩)
  have cases : c ∈ ['.', ';', '['] ∨ c = '/' ∨ c ∈ ['<', '>', ':'] := by
    simp only [List.mem_cons, List.not_mem_nil, or_false] at bad ⊢
    rcases bad with h | h | h | h | h | h | h <;> simp [h]
  obtain banned | slash | structural := cases
  · exact free c member banned
  · exact neither.1 (slash ▸ member)
  · exact neither.2 ⟨c, member, structural⟩

/-- Where the part is no identifier, the innermost part is written in its place. -/
theorem innermostName_eq_iff_not_branches {outer : ClassName} {part : String}
    (object : isObjectName (outer.nested part).text.toList = true)
    (outerObject : isObjectName outer.text.toList = true) (some : part.toList ≠ [])
    (other : ¬ isIdentifier part.toList = true) :
    (outer.nested part).innermostName = part ↔ ¬ Branches part.toList := by
  have free : ∀ c ∈ part.toList, c ∉ ['.', ';', '['] := by
    intro c member
    refine (isObjectName_iff.mp object).2 c ?_
    rw [toList_nested]
    exact List.mem_append_right _ (List.mem_cons_of_mem _ member)
  rw [innermostName_nested_eq_iff outerObject some, Branches, not_or]
  refine and_congr_right fun noSlash => not_congr ?_
  refine (and_iff_left ?_).symm
  exact (exists_structural_of_not_isIdentifier some free other).resolve_left noSlash

/-- **Where the two simple names are the same**: unless what follows the class around branches. -/
theorem partOf_eq_nestedSimpleName_iff {name outer : ClassName}
    (object : isObjectName name.text.toList = true)
    (outerObject : isObjectName outer.text.toList = true) :
    name.partOf outer = Pass.nestedSimpleName name (some outer) ↔
      ∀ rest, name = outer.nested rest → ¬ Branches rest.toList := by
  rw [partOf, Pass.nestedSimpleName, Option.bind_some]
  cases within : name.partWithin? outer with
  | none =>
    refine iff_of_true rfl fun rest same => ?_
    have found : name.partWithin? outer = some rest.toList := by
      rw [partWithin?_eq_some_iff, String.ofList_toList]
      exact same
    rw [within] at found
    cases found
  | some letters =>
    have nested := partWithin?_eq_some_iff.mp within
    obtain ⟨rest, rfl⟩ : ∃ rest : String, letters = rest.toList :=
      ⟨String.ofList letters, String.toList_ofList.symm⟩
    rw [String.ofList_toList] at nested
    subst nested
    have only : (∀ other, outer.nested rest = outer.nested other → ¬ Branches other.toList) ↔
        ¬ Branches rest.toList := by
      refine ⟨fun all => all rest rfl, fun here other same => ?_⟩
      rw [← outer.nested_injective same]
      exact here
    rw [only, Option.filter_some, Option.filter_some]
    by_cases identifier : isIdentifier rest.toList = true
    · obtain ⟨some, free⟩ := isIdentifier_iff.mp identifier
      have shown : (!rest.toList.isEmpty) = true := by simpa using some
      rw [if_pos identifier, if_pos shown]
      refine iff_of_true rfl ?_
      rintro (slash | ⟨_, c, member, structural⟩)
      · exact free '/' slash (by decide)
      · exact free c member (List.mem_append_right ['.', ';', '[', '/'] structural)
    · rw [if_neg identifier]
      by_cases some : rest.toList = []
      · rw [some]
        exact iff_of_true rfl (by simp [Branches])
      · have shown : (!rest.toList.isEmpty) = true := by simpa using some
        rw [if_pos shown]
        show (outer.nested rest).innermostName = String.ofList rest.toList ↔ _
        rw [String.ofList_toList]
        exact innermostName_eq_iff_not_branches object outerObject some identifier

end ClassName

/-! ### In signatures and in lists of nested classes -/

/-- The signature of a field whose type is a nested class, written behind the class around it. -/
def FieldSignature.ofNested (outer : ClassName) (part : String) : FieldSignature :=
  ⟨"L" ++ outer.text ++ "." ++ part ++ ";"⟩

theorem FieldSignature.ofNested_eq_write (outer : ClassName) (part : String) :
    ofNested outer part = ⟨Grammar.write (TypeSig.object (.nested (.outer outer []) part []))⟩ := by
  apply Symbol.ext_text
  rw [← String.toList_inj]
  show _ = (String.ofList (TypeSig.chars _)).toList
  rw [String.toList_ofList]
  simp [ofNested, TypeSig.chars, ClassType.charsOpen, TypeArg.charsAll, bracketed]

/-- What is written for a nested class that has a new name. -/
theorem Mappings.fieldSignature_ofNested (mappings : Mappings) {outer inner : ClassName}
    {part : String}
    (fine : isSignatureName outer.text.toList = true) (identifier : isIdentifier part.toList = true)
    (renamed : mappings.className? (outer.nested part) = some inner) :
    mappings.fieldSignature (.ofNested outer part) =
      .ok (.ofNested (mappings.className outer) (inner.partOf (mappings.className outer))) := by
  have valid : (TypeSig.object (.nested (.outer outer []) part [])).IsReference maxNesting :=
    ⟨⟨fine, by simp⟩, identifier, by simp⟩
  rw [FieldSignature.ofNested_eq_write, mappings.fieldSignature_write valid,
    FieldSignature.ofNested_eq_write]
  have newPart : (ClassType.outer outer []).newPart mappings.className? part =
      inner.partOf (mappings.className outer) := by
    rw [ClassType.newPart, ClassType.name, renamed]
    rfl
  show Except.ok (Symbol.mk (Grammar.write (TypeSig.rename mappings.className? _))) = _
  simp only [TypeSig.rename, ClassType.rename, newPart, TypeArg.renameAll]
  rfl

/-- What a nested class that has a new name is listed as. -/
theorem Pass.nestedClass_of_renamed (pass : Pass) {outer inner : ClassName} {part : String}
    (object : outer.isArray = false)
    (renamed : pass.mappings.className? (outer.nested part) = some inner)
    (changed : inner ≠ outer.nested part) (old : String) (flags : Access .nestedType) :
    (pass.nestedClass ⟨outer.nested part, some outer, some old, flags⟩).result =
      .ok ⟨inner, some (pass.mappings.className outer),
        some (nestedSimpleName inner (some (pass.mappings.className outer))), flags⟩ := by
  have found : pass.mappings.className (outer.nested part) = inner := by
    rw [Mappings.className, renamed, Option.getD_some]
  have around : pass.mappings.classNameAny outer = .ok (pass.mappings.className outer) := by
    rw [Mappings.classNameAny, object]
    rfl
  simp only [nestedClass, found, Option.mapM_some, around, Option.map_some, if_neg changed]
  rfl

/-- **The simple name behind the dot of a signature and the one in a list of nested classes** are
both derived from the new name of the nested class, if it has another one. They are the same unless
that name is the new name of the class around it, a `$`, and a rest that goes on to another package,
or that is no identifier and has a `$` in it. -/
theorem nested_simple_names_agree_iff (pass : Pass) {outer inner : ClassName} {part : String}
    (object : isObjectName outer.text.toList = true) (plain : outer.IsPlain)
    (identifier : isIdentifier part.toList = true)
    (renamed : pass.mappings.className? (outer.nested part) = some inner)
    (changed : inner ≠ outer.nested part) (innerObject : isObjectName inner.text.toList = true)
    (outerObject : isObjectName (pass.mappings.className outer).text.toList = true)
    (old : String) (flags : Access .nestedType) :
    ∃ written listed : String,
      pass.mappings.fieldSignature (.ofNested outer part) =
        .ok (.ofNested (pass.mappings.className outer) written) ∧
      (pass.nestedClass ⟨outer.nested part, some outer, some old, flags⟩).result =
        .ok ⟨inner, some (pass.mappings.className outer), some listed, flags⟩ ∧
      (written = listed ↔ ∀ rest, inner = (pass.mappings.className outer).nested rest →
        ¬ ClassName.Branches rest.toList) := by
  have fine : isSignatureName outer.text.toList = true := isSignatureName_iff.mpr ⟨object, plain⟩
  have noArray := ClassName.not_isArray_of_isObjectName object
  exact ⟨_, _, pass.mappings.fieldSignature_ofNested fine identifier renamed,
    pass.nestedClass_of_renamed noArray renamed changed old flags,
    ClassName.partOf_eq_nestedSimpleName_iff innerObject outerObject⟩

/-- Mappings that move a nested class into a package that starts like the class around it. -/
def movedClass : Mappings := ((∅ : Mappings).addClass ⟨"a"⟩ ⟨"p"⟩).addClass ⟨"a$b"⟩ ⟨"p$q/r"⟩

/-- The mappings come from checked parts, but a signature and a list of nested classes give the
moved class different simple names. -/
theorem moved_class_has_two_simple_names :
    let pass : Pass := ⟨⟨movedClass, ∅⟩, ∅, {}⟩
    movedClass.Built ∧
      (∃ written listed : String,
        movedClass.fieldSignature (.ofNested ⟨"a"⟩ "b") = .ok (.ofNested ⟨"p"⟩ written) ∧
        (pass.nestedClass ⟨⟨"a$b"⟩, some ⟨"a"⟩, some "b", .none⟩).result =
          .ok ⟨⟨"p$q/r"⟩, some ⟨"p"⟩, some listed, .none⟩ ∧ written ≠ listed) ∧
      movedClass.fieldSignature ⟨"La.b;"⟩ = .ok ⟨"Lp.r;"⟩ ∧
      (pass.nestedClass ⟨⟨"a$b"⟩, some ⟨"a"⟩, some "b", .none⟩).result =
        .ok ⟨⟨"p$q/r"⟩, some ⟨"p"⟩, some "q/r", .none⟩ := by
  intro pass
  have first : (∅ : Mappings).addClassText "a" "p" = .ok ((∅ : Mappings).addClass ⟨"a"⟩ ⟨"p"⟩) := by
    cbv
  have second : ((∅ : Mappings).addClass ⟨"a"⟩ ⟨"p"⟩).addClassText "a$b" "p$q/r" =
      .ok movedClass := by
    cbv
  have plain : ClassName.IsPlain ⟨"a"⟩ := by simp [ClassName.IsPlain]
  obtain ⟨written, listed, inSignature, inList, agree⟩ := nested_simple_names_agree_iff pass
    (by decide : isObjectName "a".toList = true) plain (by decide : isIdentifier "b".toList = true)
    (by decide : movedClass.className? ⟨"a$b"⟩ = some ⟨"p$q/r"⟩) (by decide) (by decide) (by decide)
    "b" .none
  have differ : written ≠ listed := by
    intro same
    exact agree.mp same "q/r" (by decide) (Or.inl (by decide))
  refine ⟨.addClass (.addClass .empty first) second,
    ⟨written, listed, inSignature, inList, differ⟩, ?_, ?_⟩
  · cbv
  · cbv

end Renaming

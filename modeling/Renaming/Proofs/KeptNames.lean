import Renaming.Proofs.DescriptorRenaming
import Renaming.Proofs.SignatureGrammar

/-!
# Texts whose names are kept

A renaming may keep a name in two ways: it has no new name for it, or the new name is the old one.
For a class nested in a generic class these are two different ways to write the part behind the dot.
Without a new name the part is copied; with one it is cut out of the new name, behind the new name
of the class around it and a `$`. In a tree that was read both give the same part, since it is an
identifier. So a text stays as it is when all its names are kept, in whichever way each of them is.
-/

namespace Renaming

/-- The renaming gives none of the names another one. -/
def KeepsNames (renamed : ClassName → Option ClassName) (names : List ClassName) : Prop :=
  ∀ name ∈ names, newName renamed name = name

theorem keepsNames_append_iff {renamed : ClassName → Option ClassName}
    {names more : List ClassName} :
    KeepsNames renamed (names ++ more) ↔ KeepsNames renamed names ∧ KeepsNames renamed more :=
  List.forall_mem_append

theorem keepsNames_cons_iff {renamed : ClassName → Option ClassName} {name : ClassName}
    {more : List ClassName} :
    KeepsNames renamed (name :: more) ↔ newName renamed name = name ∧ KeepsNames renamed more :=
  List.forall_mem_cons

/-- A grammar whose trees stay as they are when their names are kept. -/
class KeepingGrammar (τ : Type) [Grammar τ] [LawfulGrammar τ] : Prop where
  rename_of_keeps : ∀ {renamed : ClassName → Option ClassName} {tree : τ},
    LawfulGrammar.WellFormed tree → KeepsNames renamed (LawfulGrammar.names tree) →
      Grammar.rename renamed tree = tree

/-- Where renaming follows the names, keeping them is renaming nothing. -/
instance {τ : Type} [Grammar τ] [LawfulGrammar τ] [FunctorialGrammar τ] : KeepingGrammar τ where
  rename_of_keeps {renamed tree} _ kept := by
    have twice : Grammar.rename renamed (Grammar.rename (fun _ => none) tree) =
        Grammar.rename (fun _ => none) tree :=
      FunctorialGrammar.rename_rename kept
    rw [FunctorialGrammar.rename_none] at twice
    exact twice

/-- **A text whose names are kept stays as it is.** -/
theorem Grammar.renameText_of_keeps (τ : Type) [Grammar τ] [LawfulGrammar τ] [KeepingGrammar τ]
    {renamed : ClassName → Option ClassName} {text result : String}
    (kept : KeepsNames renamed (namesIn τ text)) (done : renameText τ renamed text = .ok result) :
    result = text := by
  obtain ⟨tree, fine, rfl, rfl⟩ := exists_tree_of_renameText τ done
  rw [namesIn_write τ fine] at kept
  rw [KeepingGrammar.rename_of_keeps fine kept]

/-! ### Nested classes -/

/-- The part that names a nested class is what is cut out of its name. -/
theorem ClassName.partOf_nested (around : ClassName) {part : String}
    (identifier : isIdentifier part.toList = true) : (around.nested part).partOf around = part := by
  have within : (around.nested part).partWithin? around = some part.toList := by
    rw [partWithin?, List.isPrefixOf?_eq_some_iff_append_eq, nested, String.toList_append,
      String.toList_append]
    rfl
  rw [partOf, within, Option.filter_some, if_pos identifier]
  exact String.ofList_toList

section Kept

variable {renamed : ClassName → Option ClassName}

/-- If a name is kept, a new name for it is the old one. -/
theorem eq_of_renamed_of_newName {name new : ClassName} (kept : newName renamed name = name)
    (found : renamed name = some new) : new = name := by
  rw [newName, found] at kept
  exact kept

theorem ClassType.newName_of_keeps : (type : ClassType) → KeepsNames renamed type.names →
    type.newName renamed = type.name
  | .outer name arguments, kept => by
    rw [ClassType.names, keepsNames_cons_iff] at kept
    exact kept.1
  | .nested around part arguments, kept => by
    rw [ClassType.names, keepsNames_append_iff, keepsNames_cons_iff] at kept
    obtain ⟨outside, here, _⟩ := kept
    rw [ClassType.newName, ClassType.name]
    split
    case h_1 new found => exact eq_of_renamed_of_newName here found
    case h_2 => rw [around.newName_of_keeps outside]

/-- Behind the dot the part is copied or cut out of the name; both give the part, as the class
around is kept, too. -/
theorem ClassType.newPart_of_keeps {around : ClassType} {part : String}
    (identifier : isIdentifier part.toList = true) (outside : KeepsNames renamed around.names)
    (here : Renaming.newName renamed (around.name.nested part) = around.name.nested part) :
    around.newPart renamed part = part := by
  rw [newPart]
  split
  case h_1 new found =>
    -- the part is cut out of the new name, which is that of the class around, a dollar and the part
    rw [eq_of_renamed_of_newName here found, around.newName_of_keeps outside]
    exact around.name.partOf_nested identifier
  case h_2 => rfl

/-! ### Lists of trees -/

theorem map_of_keeps {α : Type} {good : α → Prop} {names : α → List ClassName} {rename : α → α}
    (each : ∀ item, good item → KeepsNames renamed (names item) → rename item = item)
    {items : List α} (fine : ∀ item ∈ items, good item)
    (kept : KeepsNames renamed (items.flatMap names)) : items.map rename = items := by
  conv_rhs => rw [← List.map_id items]
  refine List.map_congr_left fun item member => each item (fine item member) fun name occurs => ?_
  exact kept name (List.mem_flatMap.mpr ⟨item, member, occurs⟩)

theorem option_map_of_keeps {good : TypeSig → Prop}
    (each : ∀ type, good type → KeepsNames renamed type.names → type.rename renamed = type)
    {type : Option TypeSig} (fine : ∀ present ∈ type, good present)
    (kept : KeepsNames renamed (type.elim [] TypeSig.names)) :
    type.map (TypeSig.rename renamed) = type := by
  cases type with
  | none => rfl
  | some type => exact congrArg some (each type (fine type rfl) kept)

/-! ### Reference types -/

section Level

variable {IsReference : TypeSig → Prop}
  (each : ∀ type, IsReference type → KeepsNames renamed type.names → type.rename renamed = type)

include each

theorem TypeArg.renameAll_of_keeps {arguments : List TypeArg}
    (valid : ∀ argument ∈ arguments, TypeArg.WellFormed IsReference argument)
    (kept : KeepsNames renamed (TypeArg.namesAll arguments)) :
    TypeArg.renameAll renamed arguments = arguments := by
  rw [TypeArg.namesAll_eq_flatMap] at kept
  rw [TypeArg.renameAll_eq_map]
  refine map_of_keeps (fun argument fine kept => ?_) valid kept
  cases argument with
  | any => rw [TypeArg.rename]
  | bounded bound type =>
    rw [TypeArg.names] at kept
    rw [TypeArg.rename, each type fine kept]

/-- The recursion goes to the class around. Its arguments are types of one level less, which `each`
is about. -/
theorem ClassType.rename_of_keeps : (type : ClassType) → type.WellFormed IsReference →
    KeepsNames renamed type.names → type.rename renamed = type
  | .outer name arguments, ⟨_, valid⟩, kept => by
    rw [ClassType.names, keepsNames_cons_iff] at kept
    rw [ClassType.rename, TypeArg.renameAll_of_keeps each valid kept.2]
    exact congrArg (ClassType.outer · arguments) kept.1
  | .nested around part arguments, ⟨outside, identifier, valid⟩, kept => by
    rw [ClassType.names, keepsNames_append_iff, keepsNames_cons_iff] at kept
    rw [ClassType.rename, around.rename_of_keeps outside kept.1,
      ClassType.newPart_of_keeps identifier kept.1 kept.2.1,
      TypeArg.renameAll_of_keeps each valid kept.2.2]

theorem TypeSig.rename_of_keeps_of_isType (type : TypeSig) (valid : type.IsType IsReference)
    (kept : KeepsNames renamed type.names) : type.rename renamed = type := by
  rcases valid with ⟨base, rfl⟩ | reference
  · rw [TypeSig.rename]
  · exact each type reference kept

end Level

/-- The types within a type are those of one level less. -/
theorem TypeSig.rename_of_keeps (levels : Nat) : ∀ type : TypeSig, type.IsReference levels →
    KeepsNames renamed type.names → type.rename renamed = type := by
  induction levels with
  | zero => exact fun _ valid => valid.elim
  | succ levels each =>
    intro type valid kept
    cases type with
    | base type => exact valid.elim
    | var name => rw [TypeSig.rename]
    | array element =>
      rw [TypeSig.names] at kept
      rw [TypeSig.rename, TypeSig.rename_of_keeps_of_isType each element valid kept]
    | object type =>
      rw [TypeSig.names] at kept
      rw [TypeSig.rename, ClassType.rename_of_keeps each type valid kept]

/-! ### Signatures -/

theorem TypeParameter.rename_of_keeps (parameter : TypeParameter) (valid : parameter.WellFormed)
    (kept : KeepsNames renamed parameter.names) : parameter.rename renamed = parameter := by
  obtain ⟨name, classBound, interfaceBounds⟩ := parameter
  rw [names, keepsNames_append_iff] at kept
  have others := map_of_keeps (TypeSig.rename_of_keeps maxNesting) valid.interfaceBounds kept.2
  have bound := option_map_of_keeps (TypeSig.rename_of_keeps maxNesting) valid.classBound kept.1
  show TypeParameter.mk name (classBound.map _) (interfaceBounds.map _) = _
  rw [bound, others]

theorem ClassType.rename_of_keeps_of_isWhole (type : ClassType) (valid : type.IsWhole)
    (kept : KeepsNames renamed type.names) : type.rename renamed = type :=
  ClassType.rename_of_keeps (TypeSig.rename_of_keeps maxNesting) type valid kept

theorem ThrownType.rename_of_keeps (type : ThrownType) (valid : type.WellFormed)
    (kept : KeepsNames renamed type.names) : type.rename renamed = type := by
  cases type with
  | var name => rfl
  | object type => exact congrArg ThrownType.object (type.rename_of_keeps_of_isWhole valid kept)

theorem ClassSig.rename_of_keeps (signature : ClassSig) (valid : signature.WellFormed)
    (kept : KeepsNames renamed signature.names) : signature.rename renamed = signature := by
  obtain ⟨typeParameters, superClass, interfaces⟩ := signature
  simp only [names, keepsNames_append_iff] at kept
  obtain ⟨⟨ofBounds, ofSuperClass⟩, ofInterfaces⟩ := kept
  have bounds := map_of_keeps TypeParameter.rename_of_keeps valid.typeParameters.each ofBounds
  have above := superClass.rename_of_keeps_of_isWhole valid.superClass ofSuperClass
  have others := map_of_keeps ClassType.rename_of_keeps_of_isWhole valid.interfaces ofInterfaces
  show ClassSig.mk (typeParameters.map _) (superClass.rename renamed) (interfaces.map _) = _
  rw [bounds, above, others]

theorem MethodSig.rename_of_keeps (signature : MethodSig) (valid : signature.WellFormed)
    (kept : KeepsNames renamed signature.names) : signature.rename renamed = signature := by
  obtain ⟨typeParameters, parameters, result, thrown⟩ := signature
  simp only [names, keepsNames_append_iff] at kept
  obtain ⟨⟨⟨ofBounds, ofParameters⟩, ofResult⟩, ofThrown⟩ := kept
  have each : ∀ type : TypeSig, type.IsType (TypeSig.IsReference maxNesting) →
      KeepsNames renamed type.names → type.rename renamed = type :=
    TypeSig.rename_of_keeps_of_isType (TypeSig.rename_of_keeps maxNesting)
  have bounds := map_of_keeps TypeParameter.rename_of_keeps valid.typeParameters.each ofBounds
  have types := map_of_keeps each valid.parameters ofParameters
  have given := option_map_of_keeps each valid.result ofResult
  have failures := map_of_keeps ThrownType.rename_of_keeps valid.thrown ofThrown
  show MethodSig.mk (typeParameters.map _) (parameters.map _) (result.map _) (thrown.map _) = _
  rw [bounds, types, given, failures]

end Kept

instance : KeepingGrammar TypeSig := ⟨fun {_ type} => type.rename_of_keeps maxNesting⟩

instance : KeepingGrammar ClassSig := ⟨fun {_ signature} => signature.rename_of_keeps⟩

instance : KeepingGrammar MethodSig := ⟨fun {_ signature} => signature.rename_of_keeps⟩

end Renaming

import Renaming.Proofs.DescriptorRenaming
import Renaming.Proofs.SignatureGrammar

/-!
# Signatures without nested classes

What is written behind the dot of a nested class is cut out of its new name, so renaming a signature
is not renaming the names it holds, and it cannot be undone in general. In a signature without a dot
every class stands with its full name. Such a signature is led back by a renaming that leads back
these names.
-/

namespace Renaming

/-- A grammar whose trees are led back by leading back their names, if there is no dot in their
texts. -/
class UndottedGrammar (τ : Type) [Grammar τ] [LawfulGrammar τ] : Prop where
  rename_rename : ∀ {first second : ClassName → Option ClassName} {tree : τ},
    '.' ∉ (Grammar.write tree).toList →
      (∀ name ∈ LawfulGrammar.names tree, newName second (newName first name) = name) →
        Grammar.rename second (Grammar.rename first tree) = tree

/-! ### Reference types -/

section Undone

variable {first second : ClassName → Option ClassName}

mutual

theorem TypeSig.rename_rename : (type : TypeSig) → '.' ∉ type.chars →
    (∀ name ∈ type.names, newName second (newName first name) = name) →
      (type.rename first).rename second = type
  | .base _, _, _ => by rw [TypeSig.rename, TypeSig.rename]
  | .var _, _, _ => by rw [TypeSig.rename, TypeSig.rename]
  | .array element, undotted, undone => by
    rw [TypeSig.chars, List.mem_cons, not_or] at undotted
    rw [TypeSig.names] at undone
    rw [TypeSig.rename, TypeSig.rename, TypeSig.rename_rename element undotted.2 undone]
  | .object type, undotted, undone => by
    rw [TypeSig.chars, List.mem_append, not_or] at undotted
    rw [TypeSig.names] at undone
    rw [TypeSig.rename, TypeSig.rename, ClassType.rename_rename type undotted.1 undone]

/-- A class type without a dot is an outermost class, which stands with its full name. -/
theorem ClassType.rename_rename : (type : ClassType) → '.' ∉ type.charsOpen →
    (∀ name ∈ type.names, newName second (newName first name) = name) →
      (type.rename first).rename second = type
  | .outer name arguments, undotted, undone => by
    rw [ClassType.charsOpen, List.mem_append, not_or] at undotted
    rw [ClassType.names, List.forall_mem_cons] at undone
    have inner := TypeArg.renameAll_renameAll arguments (mt mem_bracketed undotted.2) undone.2
    rw [ClassType.rename, ClassType.rename, inner]
    show ClassType.outer (newName second (newName first name)) arguments = .outer name arguments
    rw [undone.1]
  | .nested around part arguments, undotted, _ => by
    rw [ClassType.charsOpen] at undotted
    exact absurd (List.mem_append_left _ (List.mem_append_right _ List.mem_cons_self)) undotted

theorem TypeArg.rename_rename : (argument : TypeArg) → '.' ∉ argument.chars →
    (∀ name ∈ argument.names, newName second (newName first name) = name) →
      (argument.rename first).rename second = argument
  | .any, _, _ => by rw [TypeArg.rename, TypeArg.rename]
  | .bounded bound type, undotted, undone => by
    rw [TypeArg.chars, List.mem_append, not_or] at undotted
    rw [TypeArg.names] at undone
    rw [TypeArg.rename, TypeArg.rename, TypeSig.rename_rename type undotted.2 undone]

theorem TypeArg.renameAll_renameAll :
    (arguments : List TypeArg) → '.' ∉ TypeArg.charsAll arguments →
    (∀ name ∈ TypeArg.namesAll arguments, newName second (newName first name) = name) →
      TypeArg.renameAll second (TypeArg.renameAll first arguments) = arguments
  | [], _, _ => by rw [TypeArg.renameAll, TypeArg.renameAll]
  | argument :: rest, undotted, undone => by
    rw [TypeArg.charsAll, List.mem_append, not_or] at undotted
    rw [TypeArg.namesAll, List.forall_mem_append] at undone
    rw [TypeArg.renameAll, TypeArg.renameAll, TypeArg.rename_rename argument undotted.1 undone.1,
      TypeArg.renameAll_renameAll rest undotted.2 undone.2]

end

/-! ### Signatures -/

/-- If an item is led back where it has no dot, so is a list that is written item by item. -/
theorem map_map_of_undotted {α : Type} {chars : α → List Char} {names : α → List ClassName}
    {there back : α → α}
    (each : ∀ item, '.' ∉ chars item →
      (∀ name ∈ names item, newName second (newName first name) = name) → back (there item) = item)
    {items : List α} (undotted : '.' ∉ items.flatMap chars)
    (undone : ∀ name ∈ items.flatMap names, newName second (newName first name) = name) :
    (items.map there).map back = items := by
  refine map_map_eq_self fun item member => each item (fun dot => ?_) fun name occurs => ?_
  · exact undotted (List.mem_flatMap.mpr ⟨item, member, dot⟩)
  · exact undone name (List.mem_flatMap.mpr ⟨item, member, occurs⟩)

/-- The same of a type that may be absent. -/
theorem option_map_map_of_undotted {absent : List Char} {type : Option TypeSig}
    (undotted : '.' ∉ type.elim absent TypeSig.chars)
    (undone : ∀ name ∈ type.elim [] TypeSig.names, newName second (newName first name) = name) :
    (type.map (TypeSig.rename first)).map (TypeSig.rename second) = type := by
  cases type with
  | none => rfl
  | some type => exact congrArg some (type.rename_rename undotted undone)

theorem TypeParameter.rename_rename (parameter : TypeParameter) (undotted : '.' ∉ parameter.chars)
    (undone : ∀ name ∈ parameter.names, newName second (newName first name) = name) :
    (parameter.rename first).rename second = parameter := by
  obtain ⟨name, classBound, interfaceBounds⟩ := parameter
  simp only [chars, List.mem_append, List.mem_cons, not_or] at undotted
  rw [names, List.forall_mem_append] at undone
  have bound := option_map_map_of_undotted undotted.1.2.2 undone.1
  have others : (interfaceBounds.map (TypeSig.rename first)).map (TypeSig.rename second) =
      interfaceBounds := by
    refine map_map_of_undotted (fun type free restored => ?_) undotted.2 undone.2
    exact type.rename_rename (fun dot => free (List.mem_cons_of_mem _ dot)) restored
  show TypeParameter.mk name ((classBound.map _).map _) ((interfaceBounds.map _).map _) = _
  rw [others]
  exact congrArg (TypeParameter.mk name · interfaceBounds) bound

theorem ClassType.rename_rename_of_chars (type : ClassType) (undotted : '.' ∉ type.chars)
    (undone : ∀ name ∈ type.names, Renaming.newName second (Renaming.newName first name) = name) :
    (type.rename first).rename second = type := by
  rw [chars, List.mem_append, not_or] at undotted
  exact type.rename_rename undotted.1 undone

theorem ThrownType.rename_rename (type : ThrownType) (undotted : '.' ∉ type.chars)
    (undone : ∀ name ∈ type.names, newName second (newName first name) = name) :
    (type.rename first).rename second = type := by
  cases type with
  | var name => rfl
  | object type =>
    rw [chars, List.mem_cons, not_or] at undotted
    exact congrArg ThrownType.object (type.rename_rename_of_chars undotted.2 undone)

theorem ClassSig.rename_rename (signature : ClassSig) (undotted : '.' ∉ signature.chars)
    (undone : ∀ name ∈ signature.names, newName second (newName first name) = name) :
    (signature.rename first).rename second = signature := by
  obtain ⟨typeParameters, superClass, interfaces⟩ := signature
  simp only [chars, List.mem_append, not_or] at undotted
  simp only [names, List.forall_mem_append] at undone
  have parameters := map_map_of_undotted TypeParameter.rename_rename
    (mt mem_bracketed undotted.1.1) undone.1.1
  have above := superClass.rename_rename_of_chars undotted.1.2 undone.1.2
  have others := map_map_of_undotted ClassType.rename_rename_of_chars undotted.2 undone.2
  show ClassSig.mk ((typeParameters.map _).map _) _ ((interfaces.map _).map _) = _
  rw [parameters, others]
  exact congrArg (ClassSig.mk typeParameters · interfaces) above

theorem MethodSig.rename_rename (signature : MethodSig) (undotted : '.' ∉ signature.chars)
    (undone : ∀ name ∈ signature.names, newName second (newName first name) = name) :
    (signature.rename first).rename second = signature := by
  obtain ⟨typeParameters, parameters, result, thrown⟩ := signature
  simp only [chars, List.mem_append, List.mem_cons, not_or] at undotted
  simp only [names, List.forall_mem_append] at undone
  obtain ⟨⟨⟨⟨inBounds, _, inParameters⟩, _⟩, inResult⟩, inThrown⟩ := undotted
  obtain ⟨⟨⟨ofBounds, ofParameters⟩, ofResult⟩, ofThrown⟩ := undone
  have bounds := map_map_of_undotted TypeParameter.rename_rename
      (mt mem_bracketed inBounds) ofBounds
  have types := map_map_of_undotted TypeSig.rename_rename inParameters ofParameters
  have given := option_map_map_of_undotted inResult ofResult
  have failures := map_map_of_undotted ThrownType.rename_rename inThrown ofThrown
  show MethodSig.mk ((typeParameters.map _).map _) ((parameters.map _).map _) ((result.map _).map _)
    ((thrown.map _).map _) = _
  rw [bounds, types, failures]
  exact congrArg (MethodSig.mk typeParameters parameters · thrown) given

end Undone

instance : UndottedGrammar TypeSig where
  rename_rename {_ _ type} undotted undone := by
    rw [show Grammar.write type = String.ofList type.chars from rfl,
      String.toList_ofList] at undotted
    exact type.rename_rename undotted undone

instance : UndottedGrammar ClassSig where
  rename_rename {_ _ signature} undotted undone := by
    rw [show Grammar.write signature = String.ofList signature.chars from rfl,
      String.toList_ofList] at undotted
    exact signature.rename_rename undotted undone

instance : UndottedGrammar MethodSig where
  rename_rename {_ _ signature} undotted undone := by
    rw [show Grammar.write signature = String.ofList signature.chars from rfl,
      String.toList_ofList] at undotted
    exact signature.rename_rename undotted undone

/-! ### Texts -/

/-- **A text without a dot is led back by leading back the names in it.** -/
theorem Grammar.renameText_undone (τ : Type) [Grammar τ] [LawfulGrammar τ] [UndottedGrammar τ]
    {first second : ClassName → Option ClassName}
    (admits : ∀ old new, LawfulGrammar.Admits τ old → first old = some new →
      LawfulGrammar.Admits τ new)
    {text : String} (passes : check τ text = .ok ()) (undotted : '.' ∉ text.toList)
    (undone : ∀ name ∈ namesIn τ text, newName second (newName first name) = name) :
    (renameText τ first text >>= renameText τ second) = .ok text := by
  obtain ⟨tree, fine, rfl⟩ := (check_eq_ok_iff τ).mp passes
  rw [namesIn_write τ fine] at undone
  have again : renameText τ second (write (rename first tree)) =
      .ok (write (rename second (rename first tree))) :=
    renameText_write τ second (LawfulGrammar.wellFormed_rename admits fine)
  rw [UndottedGrammar.rename_rename undotted undone] at again
  rw [renameText_write τ first fine]
  exact again

end Renaming

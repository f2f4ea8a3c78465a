import Renaming.Proofs.Entries
import Renaming.Proofs.ValidMappings

/-!
# The classes in descriptors

Descriptors hold class names in fixed places, so renaming them is renaming these names and nothing
else. `FunctorialGrammar` says so of a grammar: renaming twice is renaming once by both, renaming by
nothing changes nothing, and the names of a renamed tree are the renamed names. What holds of trees
is then brought to texts, to descriptors and to class names, which are descriptors if they are those
of arrays.

* `Grammar.renameText_renameText`: renaming a text twice is renaming it once.
* `Grammar.namesIn_of_renameText`: the names in a renamed text.
* `Grammar.renameText_injective`: texts that become equal were equal, if no two names become equal.
-/

namespace Renaming

/-- What a class is called after renaming: the new name, or the old one if there is none. -/
def newName (renamed : ClassName → Option ClassName) (name : ClassName) : ClassName :=
  (renamed name).getD name

/-- A grammar whose trees are renamed by renaming the names they hold. -/
class FunctorialGrammar (τ : Type) [Grammar τ] [LawfulGrammar τ] : Prop where
  rename_rename : ∀ {first second both : ClassName → Option ClassName} {tree : τ},
    (∀ name ∈ LawfulGrammar.names tree, newName second (newName first name) = newName both name) →
      Grammar.rename second (Grammar.rename first tree) = Grammar.rename both tree
  rename_none : ∀ tree : τ, Grammar.rename (fun _ => none) tree = tree
  names_rename : ∀ (renamed : ClassName → Option ClassName) (tree : τ),
    LawfulGrammar.names (Grammar.rename renamed tree) =
      (LawfulGrammar.names tree).map (newName renamed)

/-! ### Types -/

theorem FieldType.className?_rename (renamed : ClassName → Option ClassName) (type : FieldType) :
    (type.rename renamed).className? = type.className?.map (newName renamed) := by
  have each : ∀ element : ElementType, (element.rename renamed).className? =
      element.className?.map (newName renamed) := by
    rintro (_ | _) <;> rfl
  cases type with
  | plain element => exact each element
  | array dimensions element => exact each element

theorem ElementType.rename_none (type : ElementType) : type.rename (fun _ => none) = type := by
  cases type <;> rfl

theorem FieldType.rename_none (type : FieldType) : type.rename (fun _ => none) = type := by
  cases type with
  | plain element => exact congrArg plain element.rename_none
  | array dimensions element => exact congrArg (array dimensions) element.rename_none

section Twice

variable {first second both : ClassName → Option ClassName}

theorem ElementType.rename_rename {type : ElementType}
    (agree : ∀ name ∈ type.className?, newName second (newName first name) = newName both name) :
    (type.rename first).rename second = type.rename both := by
  cases type with
  | base type => rfl
  | object name => exact congrArg object (agree name rfl)

theorem FieldType.rename_rename {type : FieldType}
    (agree : ∀ name ∈ type.className?, newName second (newName first name) = newName both name) :
    (type.rename first).rename second = type.rename both := by
  cases type with
  | plain element => exact congrArg plain (ElementType.rename_rename agree)
  | array dimensions element => exact congrArg (array dimensions) (ElementType.rename_rename agree)

theorem MethodType.mem_classNames_iff {type : MethodType} {name : ClassName} :
    name ∈ type.classNames ↔
      (∃ parameter ∈ type.parameters, parameter.className? = some name) ∨
        ∃ result ∈ type.result, result.className? = some name := by
  simp only [classNames, List.mem_filterMap, List.mem_append, Option.mem_toList, Option.mem_def,
    or_and_right, exists_or]

theorem MethodType.rename_rename {type : MethodType}
    (agree : ∀ name ∈ type.classNames, newName second (newName first name) = newName both name) :
    (type.rename first).rename second = type.rename both := by
  obtain ⟨parameters, result⟩ := type
  have renamedParameters : (parameters.map (FieldType.rename first)).map (FieldType.rename second) =
      parameters.map (FieldType.rename both) := by
    rw [List.map_map]
    refine List.map_congr_left fun parameter member => FieldType.rename_rename fun name found => ?_
    exact agree name (mem_classNames_iff.mpr (Or.inl ⟨parameter, member, found⟩))
  have renamedResult : (result.map (FieldType.rename first)).map (FieldType.rename second) =
      result.map (FieldType.rename both) := by
    cases result with
    | none => rfl
    | some type =>
      refine congrArg some (FieldType.rename_rename fun name found => ?_)
      exact agree name (mem_classNames_iff.mpr (Or.inr ⟨type, rfl, found⟩))
  show MethodType.mk ((parameters.map _).map _) ((result.map _).map _) = ⟨_, _⟩
  rw [renamedParameters, renamedResult]

end Twice

theorem MethodType.classNames_rename (renamed : ClassName → Option ClassName) (type : MethodType) :
    (type.rename renamed).classNames = type.classNames.map (newName renamed) := by
  have types : (type.rename renamed).parameters ++ (type.rename renamed).result.toList =
      (type.parameters ++ type.result.toList).map (FieldType.rename renamed) := by
    rw [List.map_append, ← Option.toList_map]
    rfl
  rw [classNames, classNames, types, List.filterMap_map, List.map_filterMap]
  exact congrArg (List.filterMap · _) (funext fun parameter => parameter.className?_rename renamed)

theorem MethodType.rename_none (type : MethodType) : type.rename (fun _ => none) = type := by
  obtain ⟨parameters, result⟩ := type
  have unchanged : FieldType.rename (fun _ => none) = id := funext FieldType.rename_none
  rw [rename, unchanged, List.map_id, Option.map_id]
  rfl

instance : FunctorialGrammar FieldType where
  rename_rename agree :=
    FieldType.rename_rename fun name found => agree name (Option.mem_toList.mpr found)
  rename_none := FieldType.rename_none
  names_rename renamed type := by
    show (type.rename renamed).className?.toList = type.className?.toList.map (newName renamed)
    rw [FieldType.className?_rename, Option.toList_map]

instance : FunctorialGrammar MethodType where
  rename_rename := MethodType.rename_rename
  rename_none := MethodType.rename_none
  names_rename := MethodType.classNames_rename

/-! ### Texts -/

namespace Grammar

variable (τ : Type) [Grammar τ]

/-- The class names in a text, in the order of reading. -/
def namesIn (text : String) : List ClassName := (read text : Reading τ).names

variable [LawfulGrammar τ]

theorem namesIn_write {tree : τ} (fine : LawfulGrammar.WellFormed tree) :
    namesIn τ (write tree) = LawfulGrammar.names tree := by
  rw [namesIn, LawfulGrammar.read_eq_iff.mpr ⟨fine, rfl, rfl⟩]

/-- A text that is renamed is the written form of a tree. -/
theorem exists_tree_of_renameText {renamed : ClassName → Option ClassName} {text result : String}
    (done : renameText τ renamed text = .ok result) :
    ∃ tree : τ, LawfulGrammar.WellFormed tree ∧ write tree = text ∧
      write (rename renamed tree) = result := by
  rw [renameText_eq] at done
  cases found : (read text : Reading τ).result with
  | error fault =>
    rw [found] at done
    cases done
  | ok tree =>
    rw [found] at done
    obtain ⟨fine, written⟩ := (result_read_eq_ok_iff τ).mp found
    exact ⟨tree, fine, written, Except.ok.inj done⟩

variable [FunctorialGrammar τ]

section Twice

variable {first second both : ClassName → Option ClassName}
  (admits : ∀ old new, LawfulGrammar.Admits τ old → first old = some new →
    LawfulGrammar.Admits τ new)

include admits

/-- **Renaming a text twice is renaming it once**, by what both make of its names. A text that
cannot be read fails in the same way. -/
theorem renameText_renameText {text : String}
    (agree : ∀ name ∈ namesIn τ text, newName second (newName first name) = newName both name) :
    (renameText τ first text >>= renameText τ second) = renameText τ both text := by
  cases found : (read text : Reading τ).result with
  | error fault =>
    rw [renameText_eq, renameText_eq, found]
    rfl
  | ok tree =>
    obtain ⟨fine, rfl⟩ := (result_read_eq_ok_iff τ).mp found
    rw [namesIn_write τ fine] at agree
    rw [renameText_write τ first fine, renameText_write τ both fine,
      ← FunctorialGrammar.rename_rename agree]
    exact renameText_write τ second (LawfulGrammar.wellFormed_rename admits fine)

/-- The names in a renamed text are the renamed names of the text. -/
theorem namesIn_of_renameText {text result : String} (done : renameText τ first text = .ok result) :
    namesIn τ result = (namesIn τ text).map (newName first) := by
  obtain ⟨tree, fine, rfl, rfl⟩ := exists_tree_of_renameText τ done
  rw [namesIn_write τ fine, namesIn_write τ (LawfulGrammar.wellFormed_rename admits fine)]
  exact FunctorialGrammar.names_rename first tree

end Twice

/-- A text in which no name is changed stays as it is. -/
theorem renameText_of_kept {renamed : ClassName → Option ClassName} {text : String}
    (passes : check τ text = .ok ()) (kept : ∀ name ∈ namesIn τ text, newName renamed name = name) :
    renameText τ renamed text = .ok text := by
  obtain ⟨tree, fine, rfl⟩ := (check_eq_ok_iff τ).mp passes
  rw [namesIn_write τ fine] at kept
  have twice : rename renamed (rename (fun _ => none) tree) = rename (fun _ => none) tree :=
    FunctorialGrammar.rename_rename kept
  rw [FunctorialGrammar.rename_none] at twice
  rw [renameText_write τ renamed fine, twice]

/-- **Texts that become equal were equal**, if no two of their names become equal. -/
theorem renameText_injective {renamed : ClassName → Option ClassName} {text other result : String}
    (admits : ∀ old new, LawfulGrammar.Admits τ old → renamed old = some new →
      LawfulGrammar.Admits τ new)
    (injective : Set.InjOn (newName renamed)
      {name | name ∈ namesIn τ text ∨ name ∈ namesIn τ other})
    (done : renameText τ renamed text = .ok result)
    (otherDone : renameText τ renamed other = .ok result) : text = other := by
  have inhabited : Nonempty ClassName := ⟨⟨""⟩⟩
  -- Leading every new name back to the old one undoes the renaming of both texts.
  let back : ClassName → Option ClassName := fun name => some
    (Function.invFunOn (newName renamed)
      {name | name ∈ namesIn τ text ∨ name ∈ namesIn τ other} name)
  have undone : ∀ name, (name ∈ namesIn τ text ∨ name ∈ namesIn τ other) →
      newName back (newName renamed name) = newName (fun _ => none) name :=
    fun name occurs => injective.leftInvOn_invFunOn occurs
  have restore : ∀ {written : String}, renameText τ renamed written = .ok result →
      (∀ name ∈ namesIn τ written, name ∈ namesIn τ text ∨ name ∈ namesIn τ other) →
        renameText τ back result = .ok written := by
    intro written writtenDone within
    obtain ⟨tree, fine, same, _⟩ := exists_tree_of_renameText τ writtenDone
    have twice := renameText_renameText τ admits fun name member => undone name (within name member)
    rw [writtenDone, renameText_of_kept τ ((check_eq_ok_iff τ).mpr ⟨tree, fine, same⟩)
      fun _ _ => rfl] at twice
    exact twice
  have first := restore done fun _ => Or.inl
  have second := restore otherDone fun _ => Or.inr
  exact Except.ok.inj (first.symm.trans second)

section Symbols

variable {kind : SymbolKind}

omit [LawfulGrammar τ] [FunctorialGrammar τ]

theorem renameText_of_map {renamed : ClassName → Option ClassName} {text : String}
    {symbol : Symbol kind} (done : (renameText τ renamed text).map Symbol.mk = .ok symbol) :
    renameText τ renamed text = .ok symbol.text := by
  cases found : renameText τ renamed text with
  | error fault =>
    rw [found] at done
    cases done
  | ok result =>
    rw [found] at done
    cases done
    rfl

theorem map_renameText_bind (first second : ClassName → Option ClassName) (text : String) :
    ((renameText τ first text).map Symbol.mk >>= fun symbol : Symbol kind =>
        (renameText τ second symbol.text).map (Symbol.mk : String → Symbol kind)) =
      (renameText τ first text >>= renameText τ second).map Symbol.mk := by
  cases renameText τ first text <;> rfl

end Symbols

end Grammar

/-! ### Descriptors and class names -/

/-- The class names in a field descriptor; there are none in a malformed one. -/
def FieldDescriptor.classNames (descriptor : FieldDescriptor) : List ClassName :=
  Grammar.namesIn FieldType descriptor.text

/-- The class names in a method descriptor; there are none in a malformed one. -/
def MethodDescriptor.classNames (descriptor : MethodDescriptor) : List ClassName :=
  Grammar.namesIn MethodType descriptor.text

/-- The names of object classes in a class name: those inside the name of an array class, or else
the name itself. -/
def ClassName.objectNames (name : ClassName) : List ClassName :=
  if name.isArray then Grammar.namesIn FieldType name.text else [name]

theorem ClassName.objectNames_of_isArray {name : ClassName} (array : name.isArray = true) :
    name.objectNames = Grammar.namesIn FieldType name.text := if_pos array

theorem ClassName.objectNames_of_not_isArray {name : ClassName} (object : name.isArray = false) :
    name.objectNames = [name] := if_neg (ne_true_of_eq_false object)

/-- The names of object classes in a field reference: in its owner, then in its descriptor. -/
def FieldRef.classNames (ref : FieldRef) : List ClassName :=
  ref.owner.objectNames ++ ref.descriptor.classNames

/-- The names of object classes in a method reference: in its owner, then in its descriptor. -/
def MethodRef.classNames (ref : MethodRef) : List ClassName :=
  ref.owner.objectNames ++ ref.descriptor.classNames

theorem FieldRef.owner_mem_classNames {ref : FieldRef} (object : ref.owner.isArray = false) :
    ref.owner ∈ ref.classNames := by
  rw [FieldRef.classNames, ClassName.objectNames_of_not_isArray object]
  exact List.mem_append_left _ List.mem_cons_self

theorem MethodRef.owner_mem_classNames {ref : MethodRef} (object : ref.owner.isArray = false) :
    ref.owner ∈ ref.classNames := by
  rw [MethodRef.classNames, ClassName.objectNames_of_not_isArray object]
  exact List.mem_append_left _ List.mem_cons_self

/-- The name of an array class becomes that of an array class. -/
theorem ClassName.isArray_of_renameText {name : ClassName} {renamed : ClassName → Option ClassName}
    {result : String} (array : name.isArray = true)
    (done : Grammar.renameText FieldType renamed name.text = .ok result) :
    ClassName.isArray ⟨result⟩ = true := by
  obtain ⟨type, _, written, rfl⟩ := Grammar.exists_tree_of_renameText FieldType done
  obtain ⟨dimensions, element, rfl⟩ := exists_eq_array array written
  exact isArray_write_array dimensions (element.rename renamed)

namespace Mappings

/-- Only classes that are no arrays have entries. -/
def ObjectKeys (mappings : Mappings) : Prop :=
  ∀ name ∈ mappings.classes.keys, isObjectName name.text.toList = true

instance (mappings : Mappings) : Decidable mappings.ObjectKeys :=
  inferInstanceAs (Decidable (∀ name ∈ mappings.classes.keys, isObjectName name.text.toList = true))

/-- The new names of classes are not those of arrays. -/
def ObjectTargets (mappings : Mappings) : Prop :=
  ∀ entry ∈ mappings.classes.entries, isObjectName entry.2.text.toList = true

instance (mappings : Mappings) : Decidable mappings.ObjectTargets :=
  inferInstanceAs
    (Decidable (∀ entry ∈ mappings.classes.entries, isObjectName entry.2.text.toList = true))

section Targets

variable {mappings : Mappings} (targets : mappings.ObjectTargets)

include targets

theorem ObjectTargets.isObjectName {old new : ClassName}
    (found : mappings.className? old = some new) : Renaming.isObjectName new.text.toList = true :=
  targets (old, new) (Table.mem_entries_of_get? found)

theorem ObjectTargets.isArray_className {name : ClassName} (object : name.isArray = false) :
    (mappings.className name).isArray = false := by
  rw [className]
  cases found : mappings.className? name with
  | none => exact object
  | some new => exact ClassName.not_isArray_of_isObjectName (targets.isObjectName found)

/-- The new names may stand in descriptors. -/
theorem ObjectTargets.admits (old new : ClassName) :
    Renaming.isObjectName old.text.toList = true → mappings.className? old = some new →
      Renaming.isObjectName new.text.toList = true :=
  fun _ found => targets.isObjectName found

theorem classNames_of_fieldDescriptor {descriptor renamed : FieldDescriptor}
    (done : mappings.fieldDescriptor descriptor = .ok renamed) :
    renamed.classNames = descriptor.classNames.map mappings.className :=
  Grammar.namesIn_of_renameText FieldType targets.admits (Grammar.renameText_of_map FieldType done)

theorem classNames_of_methodDescriptor {descriptor renamed : MethodDescriptor}
    (done : mappings.methodDescriptor descriptor = .ok renamed) :
    renamed.classNames = descriptor.classNames.map mappings.className :=
  Grammar.namesIn_of_renameText MethodType targets.admits
    (Grammar.renameText_of_map MethodType done)

/-- Arrays stay arrays, and other classes become no arrays. -/
theorem isArray_of_classNameAny {name renamed : ClassName}
    (done : mappings.classNameAny name = .ok renamed) : renamed.isArray = name.isArray := by
  rw [classNameAny] at done
  cases array : name.isArray with
  | true =>
    rw [if_pos array, Descriptor.renameText_of_isArray array] at done
    exact ClassName.isArray_of_renameText array (Grammar.renameText_of_map FieldType done)
  | false =>
    rw [if_neg (ne_true_of_eq_false array)] at done
    cases done
    exact targets.isArray_className array

theorem objectNames_of_classNameAny {name renamed : ClassName}
    (done : mappings.classNameAny name = .ok renamed) :
    renamed.objectNames = name.objectNames.map mappings.className := by
  have kind := isArray_of_classNameAny targets done
  rw [classNameAny] at done
  cases array : name.isArray with
  | true =>
    rw [if_pos array, Descriptor.renameText_of_isArray array] at done
    rw [ClassName.objectNames_of_isArray array, ClassName.objectNames_of_isArray (kind.trans array)]
    exact Grammar.namesIn_of_renameText FieldType targets.admits
      (Grammar.renameText_of_map FieldType done)
  | false =>
    rw [ClassName.objectNames_of_not_isArray array,
      ClassName.objectNames_of_not_isArray (kind.trans array)]
    rw [if_neg (ne_true_of_eq_false array)] at done
    cases done
    rfl

/-- A valid descriptor is renamed to a valid one. -/
theorem exists_valid_methodDescriptor {descriptor : MethodDescriptor} (fine : descriptor.Valid) :
    ∃ new, mappings.methodDescriptor descriptor = .ok new ∧ new.Valid := by
  have admits : True → ∀ old new : ClassName, Renaming.isObjectName old.text.toList = true →
      mappings.className? old = some new → Renaming.isObjectName new.text.toList = true :=
    fun _ => targets.admits
  obtain ⟨new, done, valid⟩ := Symbol.exists_rename MethodType rfl admits fine
  exact ⟨new, done, valid trivial⟩

end Targets

theorem className_of_not_mem {mappings : Mappings} {name : ClassName}
    (absent : name ∉ mappings.classes.keys) : mappings.className name = name := by
  have missing : mappings.className? name = none := by
    rw [← Option.not_isSome_iff_eq_none, className?, Table.isSome_get?_iff]
    exact absent
  rw [className, missing, Option.getD_none]

/-- The name of an array class is no key. -/
theorem ObjectKeys.className_of_isArray {mappings : Mappings} (keys : mappings.ObjectKeys)
    {name : ClassName} (array : name.isArray = true) : mappings.className name = name := by
  refine className_of_not_mem fun member => ?_
  have object := ClassName.not_isArray_of_isObjectName (keys name member)
  exact ne_true_of_eq_false object array

/-! ### Two mappings one after the other -/

section Twice

variable {first second both : Mappings} (targets : first.ObjectTargets)

include targets

theorem fieldDescriptor_bind {descriptor : FieldDescriptor}
    (agree : ∀ name ∈ descriptor.classNames,
      second.className (first.className name) = both.className name) :
    (first.fieldDescriptor descriptor >>= second.fieldDescriptor) =
      both.fieldDescriptor descriptor := by
  have twice := Grammar.renameText_renameText FieldType targets.admits agree
  exact (Grammar.map_renameText_bind FieldType _ _ _).trans (congrArg (Except.map Symbol.mk) twice)

theorem methodDescriptor_bind {descriptor : MethodDescriptor}
    (agree : ∀ name ∈ descriptor.classNames,
      second.className (first.className name) = both.className name) :
    (first.methodDescriptor descriptor >>= second.methodDescriptor) =
      both.methodDescriptor descriptor := by
  have twice := Grammar.renameText_renameText MethodType targets.admits agree
  exact (Grammar.map_renameText_bind MethodType _ _ _).trans (congrArg (Except.map Symbol.mk) twice)

theorem classNameAny_bind {name : ClassName}
    (agree : ∀ part ∈ name.objectNames,
      second.className (first.className part) = both.className part) :
    (first.classNameAny name >>= second.classNameAny) = both.classNameAny name := by
  cases array : name.isArray with
  | true =>
    rw [ClassName.objectNames_of_isArray array] at agree
    have twice := Grammar.renameText_renameText FieldType targets.admits agree
    rw [classNameAny, classNameAny, if_pos array, if_pos array,
      Descriptor.renameText_of_isArray array, Descriptor.renameText_of_isArray array, ← twice]
    cases done : Grammar.renameText FieldType first.className? name.text with
    | error fault => rfl
    | ok result =>
      have still := ClassName.isArray_of_renameText array done
      show second.classNameAny ⟨result⟩ = _
      rw [classNameAny, if_pos still, Descriptor.renameText_of_isArray still]
      rfl
  | false =>
    rw [ClassName.objectNames_of_not_isArray array] at agree
    have object := targets.isArray_className array
    rw [classNameAny, classNameAny, if_neg (ne_true_of_eq_false array),
      if_neg (ne_true_of_eq_false array)]
    show second.classNameAny (first.className name) = _
    rw [classNameAny, if_neg (ne_true_of_eq_false object), agree name List.mem_cons_self]

end Twice

end Mappings

end Renaming

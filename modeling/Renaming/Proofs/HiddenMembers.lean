import Renaming.Proofs.Entries
import Renaming.Proofs.LookupOrder
import Renaming.Proofs.Runs

/-!
# Members that the index leaves out

The index of a pass holds what other classes see of a class: no private members, no constructors and
no class initialisers. Resolving asks for more than that nowhere. A private member never counts,
neither as a candidate nor as a method that is overridden, and constructors and class initialisers
are not resolved. So resolving over an index with all that the classes declare comes to the same, as
long as no class declares a member twice: of two, one hidden and one not, the full index would show
the hidden one first.

* `find?_filter_of_nodup`: among items with distinct keys, leaving some out changes what is found
  only for their own keys.
* `Hierarchy.ShowAlike.lookupOrder`: hierarchies that show the same of every class have the same
  lookup order, so that a search in both comes down to its answers at each class.
* `Resolver.Alike`: resolvers over such hierarchies resolve everything alike, and record the same.
* `showAlike_ofClasses`: an index shows the same as the classes with all that they declare.
-/

namespace Renaming

/-! ### Leaving items out -/

/-- Among items with distinct keys, what is found without those left out is what is found among all,
unless it is left out. -/
theorem find?_filter_of_nodup {α κ : Type} [DecidableEq κ] {key : α → κ} {items : List α}
    (distinct : (items.map key).Nodup) (keep : α → Bool) (goal : κ) :
    (items.filter keep).find? (fun item => key item = goal) =
      (items.find? fun item => key item = goal).filter keep := by
  induction items with
  | nil => rfl
  | cons item rest ih =>
    rw [List.map_cons, List.nodup_cons] at distinct
    obtain ⟨fresh, distinctRest⟩ := distinct
    by_cases same : key item = goal
    · rw [List.find?_cons_of_pos (by simpa using same)]
      by_cases kept : keep item = true
      · rw [List.filter_cons_of_pos kept, List.find?_cons_of_pos (by simpa using same),
          Option.filter_some_pos kept]
      · -- no other item has the key of the one that is left out
        rw [List.filter_cons_of_neg kept, Option.filter_some_neg (Bool.eq_false_iff.mpr kept),
          List.find?_eq_none]
        intro other member found
        have listed : other ∈ rest := (List.mem_filter.mp member).1
        have key_eq : key other = key item := (of_decide_eq_true found).trans same.symm
        exact fresh (key_eq ▸ List.mem_map_of_mem listed)
    · rw [List.find?_cons_of_neg (by simpa using same), ← ih distinctRest]
      by_cases kept : keep item = true
      · rw [List.filter_cons_of_pos kept, List.find?_cons_of_neg (by simpa using same)]
      · rw [List.filter_cons_of_neg kept]

/-- A test that only what is kept can pass does not see what is left out. -/
theorem any_eq_of_filter_eq {α : Type} {keep test : α → Bool} {first second : Option α}
    (needs : ∀ item, test item = true → keep item = true)
    (same : first.filter keep = second.filter keep) : first.any test = second.any test := by
  have within (found : Option α) : (found.filter keep).any test = found.any test := by
    cases found with
    | none => rfl
    | some item =>
      by_cases kept : keep item = true
      · rw [Option.filter_some_pos kept]
      · have fails : test item = false :=
          Bool.eq_false_iff.mpr fun passes => kept (needs item passes)
        rw [Option.filter_some_neg (Bool.eq_false_iff.mpr kept), Option.any_none,
          Option.any_some, fails]
  rw [← within first, same, within]

/-! ### What is shown of a class -/

/-- Both have the same super class and interfaces, and the same members that are not private,
constructors and class initialisers aside. -/
structure ClassInfo.ShowAlike (first second : ClassInfo) : Prop where
  superClass : first.superClass = second.superClass
  interfaces : first.interfaces = second.interfaces
  field : ∀ name descriptor,
    (first.field? name descriptor).filter (fun field => !field.access.isPrivate) =
      (second.field? name descriptor).filter fun field => !field.access.isPrivate
  method : ∀ key : MethodKey, key.name.isSpecial = false →
    (first.method? key).filter (fun method => !method.access.isPrivate) =
      (second.method? key).filter fun method => !method.access.isPrivate

theorem ClassInfo.ShowAlike.refl (info : ClassInfo) : info.ShowAlike info :=
  ⟨rfl, rfl, fun _ _ => rfl, fun _ _ => rfl⟩

namespace ClassFile

/-- All that the class declares, also what other classes do not see. -/
def declared (file : ClassFile) : ClassInfo :=
  { superClass := file.superClass
    interfaces := file.interfaces
    fields := file.fields.map Field.info
    methods := file.methods.map Method.info }

/-- No two fields, and no two methods, have the same name and descriptor. -/
structure DeclaresOnce (file : ClassFile) : Prop where
  fields : (file.fields.map fun field => (field.name, field.descriptor)).Nodup
  methods : (file.methods.map Method.key).Nodup

variable {file : ClassFile} (once : file.DeclaresOnce)

include once

/-- The index has a field of the class unless it is private. -/
theorem field?_info (name : FieldName) (descriptor : FieldDescriptor) :
    file.info.field? name descriptor =
      (file.declared.field? name descriptor).filter fun field => !field.access.isPrivate := by
  have kept : file.info.fields =
      file.declared.fields.filter fun field => !field.access.isPrivate := by
    rw [declared, List.filter_map]
    rfl
  have distinct : (file.declared.fields.map fun field => (field.name, field.descriptor)).Nodup := by
    rw [declared, List.map_map]
    exact once.fields
  have found := find?_filter_of_nodup distinct (fun field => !field.access.isPrivate)
    (name, descriptor)
  simp only [Prod.mk.injEq, Bool.decide_and] at found
  rw [ClassInfo.field?, ClassInfo.field?, kept, found]

/-- The index has a method of the class unless it is private, a constructor or a class
initialiser. -/
theorem method?_info (key : MethodKey) :
    file.info.method? key =
      (file.declared.method? key).filter fun method =>
        !method.access.isPrivate && !method.key.name.isSpecial := by
  have kept : file.info.methods = file.declared.methods.filter fun method =>
      !method.access.isPrivate && !method.key.name.isSpecial := by
    rw [declared, List.filter_map]
    rfl
  have distinct : (file.declared.methods.map MethodInfo.key).Nodup := by
    rw [declared, List.map_map]
    exact once.methods
  rw [ClassInfo.method?, ClassInfo.method?, kept, find?_filter_of_nodup distinct]

/-- What other classes see shows the same as all that is declared. -/
theorem showAlike_info : file.info.ShowAlike file.declared where
  superClass := rfl
  interfaces := rfl
  field name descriptor := by
    rw [field?_info once, Option.filter_filter]
    simp only [Bool.and_self]
  method key ordinary := by
    rw [method?_info once, Option.filter_filter]
    cases found : file.declared.method? key with
    | none => rfl
    | some method =>
      have same : method.key = key := by
        have passes := List.find?_some found
        exact of_decide_eq_true passes
      simp [Option.filter_some, same, ordinary]

end ClassFile

/-! ### Hierarchies that show the same -/

namespace Hierarchy

/-- Both hierarchies know the same classes, and show the same of each. -/
def ShowAlike (first second : Hierarchy) : Prop :=
  ∀ name, Option.Rel ClassInfo.ShowAlike (first.lookup name) (second.lookup name)

/-- Hierarchies in which the same is found show the same. -/
theorem showAlike_of_lookup_eq {first second : Hierarchy}
    (same : ∀ name, first.lookup name = second.lookup name) : first.ShowAlike second := by
  intro name
  rw [same name]
  cases second.lookup name with
  | none => exact .none
  | some info => exact .some (.refl info)

namespace ShowAlike

variable {first second : Hierarchy} (alike : first.ShowAlike second)

include alike

theorem unknown {name : ClassName} (here : first.lookup name = none) :
    second.lookup name = none := by
  have related := alike name
  rw [here] at related
  cases there : second.lookup name with
  | none => rfl
  | some info =>
    rw [there] at related
    cases related

theorem known {name : ClassName} {info : ClassInfo} (here : first.lookup name = some info) :
    ∃ other, second.lookup name = some other ∧ info.ShowAlike other := by
  have related := alike name
  rw [here] at related
  cases there : second.lookup name with
  | none =>
    rw [there] at related
    cases related
  | some other =>
    rw [there] at related
    cases related with
    | some showAlike => exact ⟨other, rfl, showAlike⟩

theorem above (lower : Hierarchy) : (first.above lower).ShowAlike (second.above lower) := by
  intro name
  rw [lookup_above, lookup_above]
  cases here : first.lookup name with
  | none =>
    rw [alike.unknown here, Option.none_or]
    cases lower.lookup name with
    | none => exact .none
    | some info => exact .some (.refl info)
  | some info =>
    obtain ⟨other, there, showAlike⟩ := alike.known here
    rw [there]
    exact .some showAlike

theorem interfacesOf (name : ClassName) : first.interfacesOf name = second.interfacesOf name := by
  rw [Hierarchy.interfacesOf, Hierarchy.interfacesOf]
  cases here : first.lookup name with
  | none => rw [alike.unknown here]
  | some info =>
    obtain ⟨other, there, showAlike⟩ := alike.known here
    rw [there]
    exact showAlike.interfaces

theorem preorder (seen pending : List ClassName) :
    first.preorder seen pending = second.preorder seen pending := by
  induction seen, pending using preorder.induct first with
  | case1 seen => rw [preorder_nil, preorder_nil]
  | case2 seen name rest here ih => rw [preorder_of_mem _ _ here, preorder_of_mem _ _ here, ih]
  | case3 seen name rest fresh below ihBelow ihRest =>
    have belowToo : below = second.preorder (seen ++ [name]) (second.interfacesOf name) := by
      rw [← alike.interfacesOf, ← ihBelow]
    rw [preorder_of_fresh _ _ fresh]
    show name :: below ++ first.preorder (seen ++ name :: below) rest = _
    rw [ihRest, belowToo, preorder_of_fresh _ _ fresh]

theorem levels (seen : List ClassName) (name : ClassName) :
    first.levels seen name = second.levels seen name := by
  induction seen, name using levels.induct first with
  | case1 seen name here => rw [levels_of_mem _ here, levels_of_mem _ here]
  | case2 seen name fresh unknown =>
    rw [levels_of_unknown _ fresh unknown, levels_of_unknown _ fresh (alike.unknown unknown)]
  | case3 seen name fresh info known top =>
    obtain ⟨other, there, showAlike⟩ := alike.known known
    rw [levels_of_known _ fresh known, levels_of_known _ fresh there, ← showAlike.superClass, top,
      ← showAlike.interfaces, alike.preorder]
    rfl
  | case4 seen name fresh info known level superClass up less ih =>
    obtain ⟨other, there, showAlike⟩ := alike.known known
    have levelToo : level = name :: second.preorder (seen ++ [name]) other.interfaces := by
      rw [← showAlike.interfaces, ← alike.preorder]
    rw [levels_of_known _ fresh known, up]
    show level ++ first.levels (seen ++ level) superClass = _
    rw [ih, levels_of_known _ fresh there, ← showAlike.superClass, up, levelToo]
    rfl

/-- **Hierarchies that show the same have the same lookup order,** since it is made of super classes
and interfaces only. -/
theorem lookupOrder (site : ClassName) : first.lookupOrder site = second.lookupOrder site :=
  alike.levels [] site

/-- A search that answers the same at every class finds the same. -/
theorem search {τ : Type} {answer : ClassName → Option ClassInfo → Bool → Option τ}
    (agree : ∀ name isSite,
      answer name (first.lookup name) isSite = answer name (second.lookup name) isSite)
    (site : ClassName) : first.search answer site = second.search answer site := by
  have answers : first.answerAt answer site = second.answerAt answer site :=
    funext fun name => agree name _
  rw [search_eq_findSome?, search_eq_findSome?, alike.lookupOrder, answers]

/-- A test of the member that is found at a class has the same outcome, if it cannot be passed by
members in which classes that show the same may differ. -/
theorem any_bind {α : Type} {find : ClassInfo → Option α} {keep test : α → Bool}
    (shown : ∀ {info other : ClassInfo}, info.ShowAlike other →
      (find info).filter keep = (find other).filter keep)
    (needs : ∀ member, test member = true → keep member = true) (name : ClassName) :
    ((first.lookup name).bind find).any test = ((second.lookup name).bind find).any test := by
  cases here : first.lookup name with
  | none => rw [alike.unknown here]
  | some info =>
    obtain ⟨other, there, showAlike⟩ := alike.known here
    rw [there]
    exact any_eq_of_filter_eq needs (shown showAlike)

end ShowAlike

/-- The hierarchy of the classes with all that they declare; of two with the same name the later one
counts. -/
def ofDeclarations (classes : List ClassFile) : Hierarchy :=
  .ofTable (.ofEntries (classes.map fun file => (file.name, file.declared)))

/-- Of the classes with a name, the last one is found. -/
theorem lookup_ofEntries (view : ClassFile → ClassInfo) (classes : List ClassFile)
    (name : ClassName) :
    (Hierarchy.ofTable (.ofEntries (classes.map fun file => (file.name, view file)))).lookup name =
      (classes.reverse.find? fun file => file.name = name).map view := by
  have found (files : List ClassFile) :
      valueAt? name (files.map fun file => (file.name, view file)) =
        (files.find? fun file => file.name = name).map view := by
    induction files with
    | nil => rfl
    | cons file rest ih =>
      rw [List.map_cons, valueAt?]
      by_cases same : file.name = name
      · rw [if_pos same, List.find?_cons_of_pos (by simpa using same), Option.map_some]
      · rw [if_neg same, ih, List.find?_cons_of_neg (by simpa using same)]
  show (Table.ofEntries _).get? name = _
  rw [Table.get?_ofEntries, ← List.map_reverse, found]

/-- **The index leaves out nothing that is shown.** -/
theorem showAlike_ofClasses {classes : List ClassFile}
    (once : ∀ file ∈ classes, file.DeclaresOnce) :
    (ofClasses classes).ShowAlike (ofDeclarations classes) := by
  intro name
  rw [ofClasses, indexTable, ofDeclarations, lookup_ofEntries, lookup_ofEntries]
  cases found : classes.reverse.find? fun file => file.name = name with
  | none => exact .none
  | some file =>
    have listed : file ∈ classes := List.mem_reverse.mp (List.mem_of_find?_eq_some found)
    exact .some (ClassFile.showAlike_info (once file listed))

end Hierarchy

/-! ### Resolving -/

theorem Resolver.not_isPrivate_of_isVisible {kind : AccessKind} {access : Access kind}
    {isStatic : Bool} (visible : isVisible access isStatic = true) :
    (!access.isPrivate) = true := by
  rw [isVisible, Bool.and_eq_true] at visible
  exact visible.1

theorem MethodInfo.not_isPrivate_of_isInheritable {method : MethodInfo}
    (inheritable : method.isInheritable = true) : (!method.access.isPrivate) = true := by
  rw [isInheritable, Bool.and_eq_true, Bool.and_eq_true] at inheritable
  exact inheritable.1.1

/-- Both resolvers have the same mappings, and hierarchies that show the same. -/
structure Resolver.Alike (first second : Resolver) : Prop where
  mappings : first.mappings = second.mappings
  hierarchy : first.hierarchy.ShowAlike second.hierarchy

namespace Resolver.Alike

variable {first second : Resolver} (alike : first.Alike second)

include alike

theorem field (ref : FieldRef) (isStatic : Bool) :
    first.field ref isStatic = second.field ref isStatic := by
  rw [Resolver.field, Resolver.field, alike.mappings]
  refine alike.hierarchy.search (fun owner isSite => ?_) ref.owner
  have counts : fieldCounts ref isStatic (first.hierarchy.lookup owner) isSite =
      fieldCounts ref isStatic (second.hierarchy.lookup owner) isSite := by
    rw [fieldCounts, fieldCounts,
      alike.hierarchy.any_bind (fun showAlike => showAlike.field ref.name ref.descriptor)
        fun _ => not_isPrivate_of_isVisible]
  rw [counts]

theorem method (ref : MethodRef) (isStatic : Bool) :
    first.method ref isStatic = second.method ref isStatic := by
  cases special : ref.name.isSpecial with
  | true => rw [Resolver.method, Resolver.method, if_pos special, if_pos special]
  | false =>
    rw [Resolver.method, Resolver.method, special, alike.mappings]
    refine alike.hierarchy.search (fun owner isSite => ?_) ref.owner
    have counts : methodCounts ref isStatic (first.hierarchy.lookup owner) isSite =
        methodCounts ref isStatic (second.hierarchy.lookup owner) isSite := by
      rw [methodCounts, methodCounts,
        alike.hierarchy.any_bind (fun showAlike => showAlike.method ref.key special)
          fun _ => not_isPrivate_of_isVisible]
    rw [counts]

theorem overridden {ref : MethodRef} (ordinary : ref.name.isSpecial = false) :
    first.overridden ref = second.overridden ref := by
  rw [Resolver.overridden, Resolver.overridden, alike.mappings]
  refine alike.hierarchy.search (fun owner isSite => ?_) ref.owner
  have counts : isOverridden ref (first.hierarchy.lookup owner) isSite =
      isOverridden ref (second.hierarchy.lookup owner) isSite := by
    rw [isOverridden, isOverridden,
      alike.hierarchy.any_bind (fun showAlike => showAlike.method ref.key ordinary)
        fun _ => MethodInfo.not_isPrivate_of_isInheritable]
  rw [counts]

theorem declaration (ref : MethodRef) (access : MethodAccess) :
    first.declaration ref access = second.declaration ref access := by
  cases special : ref.name.isSpecial with
  | true => rw [Resolver.declaration, Resolver.declaration, if_pos special, if_pos special]
  | false =>
    rw [Resolver.declaration, Resolver.declaration, alike.overridden special, alike.mappings]

/-! What is found is all that is recorded. -/

theorem resolveField (ref : FieldRef) (isStatic : Bool) :
    first.resolveField ref isStatic = second.resolveField ref isStatic := by
  rw [Resolver.resolveField, Resolver.resolveField, alike.field]

theorem resolveMethod (ref : MethodRef) (isStatic : Bool) :
    first.resolveMethod ref isStatic = second.resolveMethod ref isStatic := by
  rw [Resolver.resolveMethod, Resolver.resolveMethod, alike.method]

theorem resolveDeclaration (ref : MethodRef) (access : MethodAccess) :
    first.resolveDeclaration ref access = second.resolveDeclaration ref access := by
  rw [Resolver.resolveDeclaration, Resolver.resolveDeclaration, alike.declaration]

end Resolver.Alike

/-- **The index loses nothing that resolving needs.** Over any classes of which none declares a
field or a method twice, with any mappings and above any other hierarchy, the index leads every
field reference, every method reference and every declared method to the same entry, with the same
records, as an index that keeps all that the classes declare: private members, constructors and
class initialisers too. -/
theorem index_keeps_all_that_resolving_needs (classes : List ClassFile)
    (once : ∀ file ∈ classes, file.DeclaresOnce) (mappings : Mappings) (external : Hierarchy) :
    let indexed : Resolver := ⟨mappings, (Hierarchy.ofClasses classes).above external⟩
    let full : Resolver := ⟨mappings, (Hierarchy.ofDeclarations classes).above external⟩
    (∀ ref isStatic, indexed.resolveField ref isStatic = full.resolveField ref isStatic) ∧
    (∀ ref isStatic, indexed.resolveMethod ref isStatic = full.resolveMethod ref isStatic) ∧
    (∀ ref access, indexed.resolveDeclaration ref access = full.resolveDeclaration ref access) := by
  intro indexed full
  have alike : indexed.Alike full := ⟨rfl, (Hierarchy.showAlike_ofClasses once).above external⟩
  exact ⟨alike.resolveField, alike.resolveMethod, alike.resolveDeclaration⟩

namespace Concealed

/-- A field and a method that two classes declare, privately or not. -/
def field (access : Access .field) : Field := ⟨access, ⟨"f"⟩, ⟨"I"⟩, none⟩

def method (access : MethodAccess) : Method := { Method.bare ⟨"m"⟩ ⟨"()V"⟩ with access }

/-- The class in the middle hides its members, and it has a constructor. -/
def middle : ClassFile :=
  { ClassFile.ofMethods ⟨"B"⟩ (some ⟨"C"⟩) [.bare ⟨"<init>"⟩ ⟨"()V"⟩, method (.ofNat 2)] with
    fields := [field (.ofNat 2)] }

def lower : ClassFile := .ofMethods ⟨"A"⟩ (some ⟨"B"⟩) [method .none]

def classes : List ClassFile := [lower, middle]

/-- The uppermost class is not among those indexed. -/
def external : Hierarchy :=
  ⟨[(⟨"C"⟩, ⟨none, [], [(field .none).info], [(method .none).info]⟩)]⟩

/-- Both classes above have entries for the members. -/
def mappings : Mappings :=
  ((((∅ : Mappings).addField ⟨"B"⟩ ⟨"f"⟩ ⟨"hidden"⟩).addField ⟨"C"⟩ ⟨"f"⟩ ⟨"g"⟩).addMethod ⟨"B"⟩
    (method .none).key ⟨"hidden"⟩).addMethod ⟨"C"⟩ (method .none).key ⟨"n"⟩

def indexed : Resolver := ⟨mappings, (Hierarchy.ofClasses classes).above external⟩

def full : Resolver := ⟨mappings, (Hierarchy.ofDeclarations classes).above external⟩

theorem declaresOnce : ∀ file ∈ classes, file.DeclaresOnce := by
  intro file member
  rcases List.mem_cons.mp member with rfl | later
  · exact ⟨by decide, by decide⟩
  · obtain rfl := List.mem_singleton.mp later
    exact ⟨by decide, by decide⟩

end Concealed

/-- What is private in the middle is passed over, whether it is in the index or not. -/
theorem concealed_members_passed_over :
    (∀ file ∈ Concealed.classes, file.DeclaresOnce) ∧
      Concealed.indexed.hierarchy.lookup ⟨"B"⟩ ≠ Concealed.full.hierarchy.lookup ⟨"B"⟩ ∧
      Concealed.indexed.resolveField ⟨⟨"A"⟩, ⟨"f"⟩, ⟨"I"⟩⟩ false =
        Concealed.full.resolveField ⟨⟨"A"⟩, ⟨"f"⟩, ⟨"I"⟩⟩ false ∧
      Concealed.indexed.field ⟨⟨"A"⟩, ⟨"f"⟩, ⟨"I"⟩⟩ false = some ⟨⟨"C"⟩, ⟨"g"⟩⟩ ∧
      Concealed.indexed.resolveMethod ⟨⟨"A"⟩, ⟨"m"⟩, ⟨"()V"⟩⟩ false =
        Concealed.full.resolveMethod ⟨⟨"A"⟩, ⟨"m"⟩, ⟨"()V"⟩⟩ false ∧
      Concealed.indexed.resolveDeclaration ⟨⟨"A"⟩, ⟨"m"⟩, ⟨"()V"⟩⟩ .none =
        Concealed.full.resolveDeclaration ⟨⟨"A"⟩, ⟨"m"⟩, ⟨"()V"⟩⟩ .none ∧
      Concealed.indexed.declaration ⟨⟨"A"⟩, ⟨"m"⟩, ⟨"()V"⟩⟩ .none = some ⟨⟨"C"⟩, ⟨"n"⟩⟩ := by
  obtain ⟨fields, methods, declarations⟩ := index_keeps_all_that_resolving_needs Concealed.classes
    Concealed.declaresOnce Concealed.mappings Concealed.external
  exact ⟨Concealed.declaresOnce, by decide, fields _ _, by cbv, methods _ _,
    declarations _ _, by cbv⟩

end Renaming

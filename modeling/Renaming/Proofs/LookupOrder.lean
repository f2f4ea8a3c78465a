import Mathlib
import Renaming.Resolver

/-!
# The order of a walk

The walk keeps a stack of pending interfaces. What it is meant to do is recursive: `preorder` visits
a class and then, one after the other, all that lies below each of its interfaces, skipping what was
seen before; `levels` does this for a class, its super class, and so on. `lookupOrder` is the whole
sequence.

* `walkFrom_append`: what is on the stack is gone through as `preorder` goes through it, whatever
  lies underneath. This is the invariant that ties the stack to the recursion.
* `walk_eq_findSomeM?`: a walk asks the classes of `lookupOrder` one after the other, up to the
  first answer. The equation holds in every monad, so the order and the number of the visits are
  those of the list.
* `visited_eq_throughFirst`: the same for the visits themselves; `field_eq_some_iff` and its
  companions say what follows for members.
-/

namespace Renaming.Hierarchy

/-! ### The recursive order -/

section Order

variable (hierarchy : Hierarchy)

/-- The classes that a depth-first traversal of the given ones visits, skipping those seen: each
class comes before what lies below it, and that before the classes next to it. -/
def preorder (seen : List ClassName) : List ClassName → List ClassName
  | [] => []
  | name :: rest =>
    if name ∈ seen then preorder seen rest
    else
      let below := preorder (seen ++ [name]) (hierarchy.interfacesOf name)
      name :: below ++ preorder (seen ++ name :: below) rest
termination_by pending => (hierarchy.unseen seen, pending.length)
decreasing_by
  · exact hierarchy.pass_lt (List.Subset.refl seen) rest.length
  · rename_i fresh
    exact hierarchy.expand_lt fresh (Nat.zero_le rest.length)
  · exact hierarchy.pass_lt (List.subset_append_left seen _) rest.length

/-- The classes visited from a class upwards: the class with what its interfaces lead to, then the
same for its super class. It ends at a class that was seen or is not known, or without a super
class. -/
def levels (seen : List ClassName) (name : ClassName) : List ClassName :=
  if fresh : name ∈ seen then []
  else
    match known : hierarchy.lookup name with
    | none => [name]
    | some info =>
      let level := name :: hierarchy.preorder (seen ++ [name]) info.interfaces
      match info.superClass with
      | none => level
      | some superClass =>
        have := hierarchy.unseen_lt_of_known known fresh
          (List.subset_append_left seen level) (by simp [level])
        level ++ levels (seen ++ level) superClass
termination_by hierarchy.unseen seen

/-- The classes above a site, in the order in which members are looked up. -/
def lookupOrder (site : ClassName) : List ClassName := hierarchy.levels [] site

@[simp] theorem preorder_nil (seen : List ClassName) : hierarchy.preorder seen [] = [] := by
  rw [preorder]

theorem preorder_of_mem {seen : List ClassName} {name : ClassName} (rest : List ClassName)
    (here : name ∈ seen) : hierarchy.preorder seen (name :: rest) =
      hierarchy.preorder seen rest := by
  rw [preorder, if_pos here]

theorem preorder_of_fresh {seen : List ClassName} {name : ClassName} (rest : List ClassName)
    (fresh : name ∉ seen) :
    hierarchy.preorder seen (name :: rest) =
      name :: hierarchy.preorder (seen ++ [name]) (hierarchy.interfacesOf name) ++
        hierarchy.preorder
          (seen ++ name :: hierarchy.preorder (seen ++ [name]) (hierarchy.interfacesOf name))
            rest := by
  rw [preorder, if_neg fresh]

theorem levels_of_mem {seen : List ClassName} {name : ClassName} (here : name ∈ seen) :
    hierarchy.levels seen name = [] := by
  rw [levels, dif_pos here]

theorem levels_of_unknown {seen : List ClassName} {name : ClassName} (fresh : name ∉ seen)
    (unknown : hierarchy.lookup name = none) : hierarchy.levels seen name = [name] := by
  rw [levels, dif_neg fresh]
  split
  · rfl
  · simp_all

theorem levels_of_known {seen : List ClassName} {name : ClassName} {info : ClassInfo}
    (fresh : name ∉ seen) (known : hierarchy.lookup name = some info) :
    hierarchy.levels seen name =
      name :: hierarchy.preorder (seen ++ [name]) info.interfaces ++
        info.superClass.elim []
          (hierarchy.levels (seen ++ name ::
            hierarchy.preorder (seen ++ [name]) info.interfaces)) := by
  rw [levels, dif_neg fresh]
  split
  · simp_all
  · rename_i found same
    obtain rfl : found = info := Option.some.inj (same.symm.trans known)
    cases found.superClass <;> simp

end Order

/-! ### The stack and the recursion -/

section Refinement

variable (hierarchy : Hierarchy) {m : Type → Type} [Monad m] {τ : Type} (visit : Visitor m τ)
  (site : ClassName)

/-- Visits a class on a walk from the site, and goes on if the visit has no answer. -/
def visitThen (name : ClassName) (next : m (Option τ)) : m (Option τ) := do
  match ← visit name (hierarchy.lookup name) (name = site) with
  | some answer => return some answer
  | none => next

/-- Going on from visit to visit is asking the classes one after the other. -/
theorem foldr_visitThen (names : List ClassName) :
    names.foldr (hierarchy.visitThen visit site) (pure none) =
      names.findSomeM? fun name => visit name (hierarchy.lookup name) (name = site) := by
  induction names with
  | nil => rfl
  | cons name rest ih =>
    rw [List.foldr_cons, ih, List.findSomeM?_cons]
    rfl

theorem walkFrom_pending_of_mem {seen : List ClassName} {name : ClassName} (rest : List ClassName)
    (above : Option ClassName) (here : name ∈ seen) :
    hierarchy.walkFrom visit ⟨seen, name :: rest, above⟩ =
      hierarchy.walkFrom visit ⟨seen, rest, above⟩ := by
  rw [walkFrom, if_pos here]

theorem walkFrom_pending_of_fresh {seen : List ClassName} {name : ClassName}
    (rest : List ClassName) (above : Option ClassName) (past : site ∈ seen) (fresh : name ∉ seen) :
    hierarchy.walkFrom visit ⟨seen, name :: rest, above⟩ =
      hierarchy.visitThen visit site name
        (hierarchy.walkFrom visit
          ⟨seen ++ [name], hierarchy.interfacesOf name ++ rest, above⟩) := by
  have notSite : ¬ name = site := fun same => fresh (same ▸ past)
  rw [visitThen, decide_eq_false notSite, walkFrom]
  exact if_neg fresh

/-- **The stack is gone through recursively.** The interfaces on top of the stack are visited in
preorder before what lies underneath. -/
theorem walkFrom_append (pending rest : List ClassName) (above : Option ClassName)
    (seen : List ClassName) (past : site ∈ seen) :
    hierarchy.walkFrom visit ⟨seen, pending ++ rest, above⟩ =
      (hierarchy.preorder seen pending).foldr (hierarchy.visitThen visit site)
        (hierarchy.walkFrom visit ⟨seen ++ hierarchy.preorder seen pending, rest, above⟩) := by
  -- The induction is that of the recursion; `rest` varies, since the interfaces of a class are put
  -- on top of what was pending next to it.
  induction seen, pending using preorder.induct hierarchy generalizing rest with
  | case1 seen => simp
  | case2 seen name more here ih =>
    rw [List.cons_append, walkFrom_pending_of_mem _ _ _ _ here, ih rest past,
      preorder_of_mem _ _ here]
  | case3 seen name more fresh below ihBelow ihNext =>
    have pastName : site ∈ seen ++ [name] := List.mem_append_left _ past
    have pastBelow : site ∈ seen ++ name :: below := List.mem_append_left _ past
    have regroup : seen ++ [name] ++ below = seen ++ name :: below := by simp
    rw [List.cons_append, walkFrom_pending_of_fresh _ _ site _ _ past fresh,
      ihBelow (more ++ rest) pastName, preorder_of_fresh _ _ fresh]
    show hierarchy.visitThen visit site name (below.foldr (hierarchy.visitThen visit site)
      (hierarchy.walkFrom visit ⟨seen ++ [name] ++ below, more ++ rest, above⟩)) = _
    rw [regroup, ihNext rest pastBelow]
    simp only [below, List.cons_append, List.foldr_cons, List.foldr_append, List.append_assoc]

theorem walkFrom_above_of_fresh {seen : List ClassName} {name : ClassName}
    (begins : (seen = [] ∧ name = site) ∨ site ∈ seen) (fresh : name ∉ seen) :
    hierarchy.walkFrom visit ⟨seen, [], some name⟩ =
      hierarchy.visitThen visit site name
        ((hierarchy.lookup name).elim (pure none) fun info =>
          hierarchy.walkFrom visit ⟨seen ++ [name], info.interfaces, info.superClass⟩) := by
  have flag : seen.isEmpty = decide (name = site) := by
    rcases begins with ⟨rfl, rfl⟩ | past
    · simp
    · have notSite : ¬ name = site := fun same => fresh (same ▸ past)
      rw [decide_eq_false notSite, List.isEmpty_eq_false_iff]
      exact List.ne_nil_of_mem past
  rw [walkFrom, if_neg fresh, visitThen, flag]
  congr 1
  funext answer
  cases answer with
  | some value => rfl
  | none =>
    dsimp only
    split <;> simp_all

/-- The interfaces of a class that was just visited are gone through before the walk goes up. -/
theorem walkFrom_level {seen : List ClassName} {name : ClassName} (interfaces : List ClassName)
    (above : Option ClassName) (past : site ∈ seen ++ [name]) :
    hierarchy.walkFrom visit ⟨seen ++ [name], interfaces, above⟩ =
      (hierarchy.preorder (seen ++ [name]) interfaces).foldr (hierarchy.visitThen visit site)
        (hierarchy.walkFrom visit
          ⟨seen ++ name :: hierarchy.preorder (seen ++ [name]) interfaces, [], above⟩) := by
  have stack := walkFrom_append hierarchy visit site interfaces [] above _ past
  rw [List.append_nil] at stack
  rw [stack, List.append_assoc, List.singleton_append]

/-- A walk that is about to go up asks the classes of the levels from there on. -/
theorem walkFrom_above (seen : List ClassName) (name : ClassName)
    (begins : (seen = [] ∧ name = site) ∨ site ∈ seen) :
    hierarchy.walkFrom visit ⟨seen, [], some name⟩ =
      (hierarchy.levels seen name).foldr (hierarchy.visitThen visit site) (pure none) := by
  have past : site ∈ seen ++ [name] := by
    rcases begins with ⟨-, rfl⟩ | before
    · simp
    · exact List.mem_append_left _ before
  induction seen, name using levels.induct hierarchy with
  | case1 seen name here =>
    rw [walkFrom, if_pos here, levels_of_mem _ here]
    rfl
  | case2 seen name fresh unknown =>
    rw [walkFrom_above_of_fresh _ _ site begins fresh, unknown,
      levels_of_unknown _ fresh unknown]
    rfl
  | case3 seen name fresh info known top =>
    rw [walkFrom_above_of_fresh _ _ site begins fresh, known, Option.elim_some,
      walkFrom_level _ _ site _ _ past, top, walkFrom, levels_of_known _ fresh known, top]
    simp
  | case4 seen name fresh info known level superClass up less ih =>
    have pastLevel : site ∈ seen ++ level := by
      rcases List.mem_append.mp past with before | here
      · exact List.mem_append_left _ before
      · exact List.mem_append_right _ (by simp_all [level])
    rw [walkFrom_above_of_fresh _ _ site begins fresh, known, Option.elim_some,
      walkFrom_level _ _ site _ _ past, up,
      ih (Or.inr pastLevel) (List.mem_append_left _ pastLevel),
      levels_of_known _ fresh known, up]
    simp [level]

/-- **A walk asks the classes of the lookup order one after the other,** up to the first answer. -/
theorem walk_eq_findSomeM? :
    hierarchy.walk visit site =
      (hierarchy.lookupOrder site).findSomeM? fun name =>
        visit name (hierarchy.lookup name) (name = site) := by
  rw [walk, Place.start, walkFrom_above hierarchy visit site [] site (Or.inl ⟨rfl, rfl⟩),
    foldr_visitThen, lookupOrder]

end Refinement

/-! ### Answers and visits -/

section Visits

variable (hierarchy : Hierarchy) {τ : Type}
  (answer : ClassName → Option ClassInfo → Bool → Option τ) (site : ClassName)

/-- What a visit to the class answers on a walk from the site. -/
def answerAt (name : ClassName) : Option τ := answer name (hierarchy.lookup name) (name = site)

/-- The first answer on a walk is the first one along the lookup order. -/
theorem search_eq_findSome? :
    hierarchy.search answer site =
      (hierarchy.lookupOrder site).findSome? (hierarchy.answerAt answer site) := by
  rw [search, walk_eq_findSomeM?, List.idRun_findSomeM?]
  rfl

/-- The visitor that notes each class it is called on. -/
def noting : Visitor (Recorded ClassName) τ := fun name info isSite => do
  Recorded.note [name]
  return answer name info isSite

/-- The classes on which the visitor is called during a walk, in order. -/
def visited : List ClassName := (hierarchy.walk (noting answer) site).record

/-- A list up to and with the first item that is found. -/
def throughFirst (found : ClassName → Bool) : List ClassName → List ClassName
  | [] => []
  | name :: rest => if found name then [name] else name :: throughFirst found rest

private theorem record_findSomeM?_noting (names : List ClassName) :
    (names.findSomeM? fun name => noting answer name (hierarchy.lookup name) (name = site)).record =
      throughFirst (fun name => (hierarchy.answerAt answer site name).isSome) names := by
  induction names with
  | nil => rfl
  | cons name rest ih =>
    rw [List.findSomeM?_cons, throughFirst]
    cases found : hierarchy.answerAt answer site name with
    | some value =>
      rw [answerAt] at found
      simp [noting, found, bind, Recorded.andThen, Recorded.note, pure]
    | none =>
      rw [← ih]
      rw [answerAt] at found
      simp [noting, found, bind, Recorded.andThen, Recorded.note, pure]

/-- The visitor is called on the lookup order, through the first class at which it answers. -/
theorem visited_eq_throughFirst :
    hierarchy.visited answer site =
      throughFirst (fun name => (hierarchy.answerAt answer site name).isSome)
        (hierarchy.lookupOrder site) := by
  rw [visited, walk_eq_findSomeM?, record_findSomeM?_noting]

theorem throughFirst_eq_self {found : ClassName → Bool} {names : List ClassName}
    (nowhere : ∀ name ∈ names, found name = false) : throughFirst found names = names := by
  induction names with
  | nil => rfl
  | cons name rest ih =>
    rw [throughFirst, nowhere name List.mem_cons_self,
      ih fun other member => nowhere other (List.mem_cons_of_mem _ member)]
    rfl

theorem throughFirst_sublist (found : ClassName → Bool) (names : List ClassName) :
    (throughFirst found names).Sublist names := by
  induction names with
  | nil => exact List.Sublist.slnil
  | cons name rest ih =>
    rw [throughFirst]
    split
    · exact List.Sublist.cons_cons name (List.nil_sublist rest)
    · exact List.Sublist.cons_cons name ih

/-- A walk without an answer visits the whole lookup order. -/
theorem visited_of_search_eq_none (nothing : hierarchy.search answer site = none) :
    hierarchy.visited answer site = hierarchy.lookupOrder site := by
  rw [search_eq_findSome?, List.findSome?_eq_none_iff] at nothing
  rw [visited_eq_throughFirst]
  refine throughFirst_eq_self fun name member => ?_
  rw [nothing name member]
  rfl

end Visits

end Renaming.Hierarchy

namespace Renaming

/-! ### Members along the order -/

/-- The class declares the field, not privately, and not statically unless the use is static. -/
def Hierarchy.OffersField (hierarchy : Hierarchy) (ref : FieldRef) (isStatic : Bool)
    (owner : ClassName) : Prop :=
  ∃ info field, hierarchy.lookup owner = some info ∧
    info.field? ref.name ref.descriptor = some field ∧
    field.access.isPrivate = false ∧ (isStatic = true ∨ field.access.isStatic = false)

/-- The class declares the method, not privately, and not statically unless the use is static. -/
def Hierarchy.OffersMethod (hierarchy : Hierarchy) (ref : MethodRef) (isStatic : Bool)
    (owner : ClassName) : Prop :=
  ∃ info method, hierarchy.lookup owner = some info ∧ info.method? ref.key = some method ∧
    method.access.isPrivate = false ∧ (isStatic = true ∨ method.access.isStatic = false)

/-- The class declares the method so that subclasses can override it. -/
def Hierarchy.OffersOverriding (hierarchy : Hierarchy) (ref : MethodRef) (owner : ClassName) :
    Prop :=
  ∃ info method, hierarchy.lookup owner = some info ∧ info.method? ref.key = some method ∧
    method.access.isPrivate = false ∧ method.access.isStatic = false ∧
    method.access.isFinal = false

/-- **The entry that is found.** It is filed under a class that counts, and no class that comes
earlier in the order both counts and has an entry. -/
def Resolved.IsFirst {ν : Type} (order : List ClassName) (counts : ClassName → Prop)
    (entry : ClassName → Option ν) (hit : Resolved ν) : Prop :=
  counts hit.owner ∧ entry hit.owner = some hit.name ∧
    ∃ before after, order = before ++ hit.owner :: after ∧
      ∀ other ∈ before, counts other → entry other = none

namespace Resolver

variable {ν : Type}

section Entries

variable {order : List ClassName} {test : ClassName → Bool} {counts : ClassName → Prop}
  (meaning : ∀ owner, test owner = true ↔ counts owner) {entry : ClassName → Option ν}

include meaning

private theorem entryOf_eq_some_iff {other owner : ClassName} {name : ν} :
    (if test other then (entry other).map (Resolved.mk other) else none) = some ⟨owner, name⟩ ↔
      other = owner ∧ counts owner ∧ entry owner = some name := by
  by_cases passes : test other = true
  · rw [if_pos passes, Option.map_eq_some_iff]
    constructor
    · rintro ⟨value, found, same⟩
      obtain ⟨rfl, rfl⟩ := Resolved.mk.inj same
      exact ⟨rfl, (meaning other).mp passes, found⟩
    · rintro ⟨rfl, _, found⟩
      exact ⟨name, found, rfl⟩
  · rw [if_neg passes]
    constructor
    · intro impossible
      cases impossible
    · rintro ⟨rfl, stands, _⟩
      exact absurd ((meaning other).mpr stands) passes

private theorem entryOf_eq_none_iff {other : ClassName} :
    (if test other then (entry other).map (Resolved.mk other) else none) = none ↔
      (counts other → entry other = none) := by
  by_cases passes : test other = true
  · rw [if_pos passes, Option.map_eq_none_iff]
    exact ⟨fun found _ => found, fun holds => holds ((meaning other).mp passes)⟩
  · rw [if_neg passes]
    exact ⟨fun _ stands => absurd ((meaning other).mpr stands) passes, fun _ => rfl⟩

/-- Taking the first entry of a class that counts. -/
theorem findSome?_entry_eq_some_iff {hit : Resolved ν} :
    (order.findSome? fun owner =>
        if test owner then (entry owner).map (Resolved.mk owner) else none) = some hit ↔
      hit.IsFirst order counts entry := by
  rw [List.findSome?_eq_some_iff]
  constructor
  · rintro ⟨before, other, after, split, found, earlier⟩
    obtain ⟨rfl, stands, filed⟩ := (entryOf_eq_some_iff meaning).mp found
    exact ⟨stands, filed, before, after, split,
      fun item member => (entryOf_eq_none_iff meaning).mp (earlier item member)⟩
  · rintro ⟨stands, filed, before, after, split, earlier⟩
    exact ⟨before, hit.owner, after, split, (entryOf_eq_some_iff meaning).mpr ⟨rfl, stands, filed⟩,
      fun item member => (entryOf_eq_none_iff meaning).mpr (earlier item member)⟩

/-- There is nothing to take if no class that counts has an entry. -/
theorem findSome?_entry_eq_none_iff :
    (order.findSome? fun owner =>
        if test owner then (entry owner).map (Resolved.mk owner) else none) = none ↔
      ∀ owner ∈ order, counts owner → entry owner = none := by
  rw [List.findSome?_eq_none_iff]
  exact forall_congr' fun owner => forall_congr' fun _ => entryOf_eq_none_iff meaning

end Entries

/-- What a declaration says about a test of its access, for a class that may not be known. -/
private theorem any_bind_eq_true_iff {α : Type} {info : Option ClassInfo}
    {declared : ClassInfo → Option α} {test : α → Bool} :
    (info.bind declared).any test = true ↔
      ∃ known member, info = some known ∧ declared known = some member ∧ test member = true := by
  rw [Option.any_eq_true]
  constructor
  · rintro ⟨member, found, passes⟩
    obtain ⟨known, same, declares⟩ := Option.bind_eq_some_iff.mp found
    exact ⟨known, member, same, declares, passes⟩
  · rintro ⟨known, member, same, declares, passes⟩
    exact ⟨member, Option.bind_eq_some_iff.mpr ⟨known, same, declares⟩, passes⟩

private theorem isVisible_eq_true_iff {kind : AccessKind} {access : Access kind} {isStatic : Bool} :
    isVisible access isStatic = true ↔
      access.isPrivate = false ∧ (isStatic = true ∨ access.isStatic = false) := by
  simp [isVisible]

variable (resolver : Resolver)

theorem fieldCounts_iff (ref : FieldRef) (isStatic isSite : Bool) (owner : ClassName) :
    fieldCounts ref isStatic (resolver.hierarchy.lookup owner) isSite = true ↔
      isSite = true ∨ resolver.hierarchy.OffersField ref isStatic owner := by
  rw [fieldCounts, Bool.or_eq_true, any_bind_eq_true_iff]
  simp only [isVisible_eq_true_iff, Hierarchy.OffersField]

theorem methodCounts_iff (ref : MethodRef) (isStatic isSite : Bool) (owner : ClassName) :
    methodCounts ref isStatic (resolver.hierarchy.lookup owner) isSite = true ↔
      isSite = true ∨ resolver.hierarchy.OffersMethod ref isStatic owner := by
  rw [methodCounts, Bool.or_eq_true, any_bind_eq_true_iff]
  simp only [isVisible_eq_true_iff, Hierarchy.OffersMethod]

theorem isOverridden_iff (ref : MethodRef) (isSite : Bool) (owner : ClassName) :
    isOverridden ref (resolver.hierarchy.lookup owner) isSite = true ↔
      isSite = false ∧ resolver.hierarchy.OffersOverriding ref owner := by
  rw [isOverridden, Bool.and_eq_true, any_bind_eq_true_iff]
  simp [MethodInfo.isInheritable, Hierarchy.OffersOverriding, and_assoc]

/-- A field reference is resolved to the first entry of the site or of a class that offers the
field. -/
theorem field_eq_some_iff (ref : FieldRef) (isStatic : Bool) (hit : Resolved FieldName) :
    resolver.field ref isStatic = some hit ↔
      hit.IsFirst (resolver.hierarchy.lookupOrder ref.owner)
        (fun owner => owner = ref.owner ∨ resolver.hierarchy.OffersField ref isStatic owner)
        (fun owner => resolver.mappings.fieldName? owner ref.name) := by
  rw [field, Hierarchy.search_eq_findSome?]
  refine findSome?_entry_eq_some_iff fun owner => ?_
  rw [fieldCounts_iff, decide_eq_true_iff]

/-- A method reference is resolved to the first entry of the site or of a class that offers the
method; references to constructors and class initialisers are not resolved. -/
theorem method_eq_some_iff (ref : MethodRef) (isStatic : Bool) (hit : Resolved MethodName) :
    resolver.method ref isStatic = some hit ↔
      ref.name.isSpecial = false ∧
        hit.IsFirst (resolver.hierarchy.lookupOrder ref.owner)
          (fun owner => owner = ref.owner ∨ resolver.hierarchy.OffersMethod ref isStatic owner)
          (fun owner => resolver.mappings.methodName? owner ref.key) := by
  rw [method]
  cases special : ref.name.isSpecial with
  | true => simp
  | false =>
    rw [if_neg Bool.false_ne_true, Hierarchy.search_eq_findSome?, eq_self, true_and]
    refine findSome?_entry_eq_some_iff fun owner => ?_
    rw [methodCounts_iff, decide_eq_true_iff]

/-- A field reference is not resolved if neither the site nor a class that offers the field has an
entry. -/
theorem field_eq_none_iff (ref : FieldRef) (isStatic : Bool) :
    resolver.field ref isStatic = none ↔
      ∀ owner ∈ resolver.hierarchy.lookupOrder ref.owner,
        (owner = ref.owner ∨ resolver.hierarchy.OffersField ref isStatic owner) →
          resolver.mappings.fieldName? owner ref.name = none := by
  rw [field, Hierarchy.search_eq_findSome?]
  refine findSome?_entry_eq_none_iff fun owner => ?_
  rw [fieldCounts_iff, decide_eq_true_iff]

/-- A method reference is not resolved if neither the site nor a class that offers the method has an
entry. -/
theorem method_eq_none_iff (ref : MethodRef) (isStatic : Bool)
    (ordinary : ref.name.isSpecial = false) :
    resolver.method ref isStatic = none ↔
      ∀ owner ∈ resolver.hierarchy.lookupOrder ref.owner,
        (owner = ref.owner ∨ resolver.hierarchy.OffersMethod ref isStatic owner) →
          resolver.mappings.methodName? owner ref.key = none := by
  rw [method, ordinary, if_neg Bool.false_ne_true, Hierarchy.search_eq_findSome?]
  refine findSome?_entry_eq_none_iff fun owner => ?_
  rw [methodCounts_iff, decide_eq_true_iff]

/-- What a declared method overrides is searched for on the classes other than its own. -/
theorem overridden_eq_some_iff (ref : MethodRef) (hit : Resolved MethodName) :
    resolver.overridden ref = some hit ↔
      hit.IsFirst (resolver.hierarchy.lookupOrder ref.owner)
        (fun owner => owner ≠ ref.owner ∧ resolver.hierarchy.OffersOverriding ref owner)
        (fun owner => resolver.mappings.methodName? owner ref.key) := by
  rw [overridden, Hierarchy.search_eq_findSome?]
  refine findSome?_entry_eq_some_iff fun owner => ?_
  rw [isOverridden_iff, decide_eq_false_iff_not]

/-- A declared method takes the name of its own entry, or else, if it can override anything, that of
the first entry for a method that it overrides. -/
theorem declaration_eq_some_iff (ref : MethodRef) (access : MethodAccess)
    (hit : Resolved MethodName) :
    resolver.declaration ref access = some hit ↔
      ref.name.isSpecial = false ∧
        (hit.owner = ref.owner ∧ resolver.mappings.methodName? ref.owner ref.key = some hit.name ∨
          resolver.mappings.methodName? ref.owner ref.key = none ∧
            access.isPrivate = false ∧ access.isStatic = false ∧
            hit.IsFirst (resolver.hierarchy.lookupOrder ref.owner)
              (fun owner => owner ≠ ref.owner ∧ resolver.hierarchy.OffersOverriding ref owner)
              (fun owner => resolver.mappings.methodName? owner ref.key)) := by
  rw [declaration, ← overridden_eq_some_iff]
  obtain ⟨owner, name⟩ := hit
  cases special : ref.name.isSpecial with
  | true => simp
  | false =>
    cases own : resolver.mappings.methodName? ref.owner ref.key with
    | some value =>
      simp only [Bool.false_eq_true, ↓reduceIte, Option.some.injEq, Resolved.mk.injEq, true_and,
        reduceCtorEq, false_and, or_false]
      exact and_congr_left fun _ => eq_comm
    | none => cases access.isPrivate <;> cases access.isStatic <;> simp

end Resolver

/-- **Resolution follows the recursive order.** A walk from a site calls its visitor on the classes
of the lookup order, one after the other and each with what is known of it, through the first one at
which the visitor answers; this holds for every visitor, whatever else its calls do. References and
declared methods are therefore resolved to the first entry along that order under a class that
counts. -/
theorem walk_refines_lookupOrder (hierarchy : Hierarchy) (site : ClassName) :
    (∀ (m : Type → Type) [Monad m] (τ : Type) (visit : Visitor m τ),
      hierarchy.walk visit site =
        (hierarchy.lookupOrder site).findSomeM? fun name =>
          visit name (hierarchy.lookup name) (name = site)) ∧
    (∀ (τ : Type) (answer : ClassName → Option ClassInfo → Bool → Option τ),
      hierarchy.visited answer site =
          Hierarchy.throughFirst (fun name => (hierarchy.answerAt answer site name).isSome)
            (hierarchy.lookupOrder site) ∧
        hierarchy.search answer site =
          (hierarchy.lookupOrder site).findSome? (hierarchy.answerAt answer site)) ∧
    (∀ (mappings : Mappings) (name : FieldName) (descriptor : FieldDescriptor) (isStatic : Bool)
        (hit : Resolved FieldName),
      Resolver.field ⟨mappings, hierarchy⟩ ⟨site, name, descriptor⟩ isStatic = some hit ↔
        hit.IsFirst (hierarchy.lookupOrder site)
          (fun owner => owner = site ∨
            hierarchy.OffersField ⟨site, name, descriptor⟩ isStatic owner)
          (fun owner => mappings.fieldName? owner name)) ∧
    (∀ (mappings : Mappings) (key : MethodKey) (isStatic : Bool) (hit : Resolved MethodName),
      Resolver.method ⟨mappings, hierarchy⟩ (key.on site) isStatic = some hit ↔
        key.name.isSpecial = false ∧
          hit.IsFirst (hierarchy.lookupOrder site)
            (fun owner => owner = site ∨ hierarchy.OffersMethod (key.on site) isStatic owner)
            (fun owner => mappings.methodName? owner key)) ∧
    (∀ (mappings : Mappings) (key : MethodKey) (access : MethodAccess) (hit : Resolved MethodName),
      Resolver.declaration ⟨mappings, hierarchy⟩ (key.on site) access = some hit ↔
        key.name.isSpecial = false ∧
          (hit.owner = site ∧ mappings.methodName? site key = some hit.name ∨
            mappings.methodName? site key = none ∧
              access.isPrivate = false ∧ access.isStatic = false ∧
              hit.IsFirst (hierarchy.lookupOrder site)
                (fun owner => owner ≠ site ∧ hierarchy.OffersOverriding (key.on site) owner)
                (fun owner => mappings.methodName? owner key))) := by
  refine ⟨?_, ?_, ?_, ?_, ?_⟩
  · intro m _ τ visit
    exact hierarchy.walk_eq_findSomeM? visit site
  · intro τ answer
    exact ⟨hierarchy.visited_eq_throughFirst answer site, hierarchy.search_eq_findSome? answer site⟩
  · intro mappings name descriptor isStatic hit
    exact Resolver.field_eq_some_iff ⟨mappings, hierarchy⟩ ⟨site, name, descriptor⟩ isStatic hit
  · intro mappings key isStatic hit
    exact Resolver.method_eq_some_iff ⟨mappings, hierarchy⟩ (key.on site) isStatic hit
  · intro mappings key access hit
    exact Resolver.declaration_eq_some_iff ⟨mappings, hierarchy⟩ (key.on site) access hit

end Renaming

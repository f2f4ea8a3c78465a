import Renaming.Proofs.Reachability

/-!
# Overriding along the super class chain

A method that overrides one of a super class must have its new name. The two names come from two
searches: one starts at the class of the overridden method, the other further down, visits more
classes and visits them in another order. What the first one finds the second one finds as well, but
perhaps behind another entry; so the names are the same as long as the entries that the second one
can meet agree.

* `mem_lookupOrder_of_climbs`: a walk from a class visits what a walk from a class higher up its
  chain visits.
* `overridden_eq_none_iff`: a search for what a method overrides misses no entry of a class that it
  visits.
-/

namespace Renaming

open Relation

namespace Hierarchy

variable {hierarchy : Hierarchy} {lower upper name : ClassName}

/-- What is above a class is above the classes below it in the chain. -/
theorem IsAbove.of_climbs (climbs : ReflTransGen hierarchy.SuperStep lower upper)
    (above : hierarchy.IsAbove upper name) : hierarchy.IsAbove lower name := by
  obtain ⟨level, higher, path⟩ := above
  exact ⟨level, climbs.trans higher, path⟩

/-- **A walk from a class visits what a walk from a class higher up its chain visits,** though
perhaps in another order: an interface of several levels is visited on the lowest of them. -/
theorem mem_lookupOrder_of_climbs (apart : hierarchy.ChainApart lower)
    (climbs : ReflTransGen hierarchy.SuperStep lower upper)
    (visited : name ∈ hierarchy.lookupOrder upper) : name ∈ hierarchy.lookupOrder lower := by
  rw [hierarchy.mem_lookupOrder_iff apart]
  exact (hierarchy.isAbove_of_mem_lookupOrder visited).of_climbs climbs

/-- Steps to interfaces do not leave a closed list, so a chain outside of the list is apart. -/
theorem ChainApart.of_isClosed {site : ClassName} (names : List ClassName)
    (closed : hierarchy.IsClosed names)
    (inside : ∀ name ∈ hierarchy.superChain [] site, hierarchy.interfacesOf name ⊆ names)
    (outside : ∀ name ∈ hierarchy.superChain [] site, name ∉ names) :
    hierarchy.ChainApart site := by
  refine List.pairwise_iff_forall_sublist.mpr fun {lower upper} ordered steps => ?_
  have lowerMember : lower ∈ hierarchy.superChain [] site := ordered.subset (by simp)
  have upperMember : upper ∈ hierarchy.superChain [] site := ordered.subset (by simp)
  obtain ⟨first, step, path⟩ := TransGen.head'_iff.mp steps
  have listed : first ∈ names := inside lower lowerMember (hierarchy.interfaceStep_iff.mp step)
  exact outside upper upperMember (hierarchy.mem_of_isClosed closed listed path)

end Hierarchy

namespace Resolver

variable (resolver : Resolver)

/-- A method overrides nothing that has an entry if no other class above offers it with an entry. -/
theorem overridden_eq_none_iff (ref : MethodRef) :
    resolver.overridden ref = none ↔
      ∀ owner ∈ resolver.hierarchy.lookupOrder ref.owner,
        (owner ≠ ref.owner ∧ resolver.hierarchy.OffersOverriding ref owner) →
          resolver.mappings.methodName? owner ref.key = none := by
  rw [overridden, Hierarchy.search_eq_findSome?]
  refine findSome?_entry_eq_none_iff fun owner => ?_
  rw [isOverridden_iff, decide_eq_false_iff_not]

/-- The entry that names a declared method is filed under a class on the walk from its class that
declares the method so that it can be overridden, if the class itself does. -/
theorem entry_of_declaration {ref : MethodRef} {access : MethodAccess} {hit : Resolved MethodName}
    (offers : resolver.hierarchy.OffersOverriding ref ref.owner)
    (found : resolver.declaration ref access = some hit) :
    hit.owner ∈ resolver.hierarchy.lookupOrder ref.owner ∧
      resolver.hierarchy.OffersOverriding ref hit.owner ∧
      resolver.mappings.methodName? hit.owner ref.key = some hit.name := by
  obtain ⟨_, own | inherited⟩ := (resolver.declaration_eq_some_iff ref access hit).mp found
  · obtain ⟨atHome, filed⟩ := own
    rw [atHome]
    exact ⟨resolver.hierarchy.site_mem_lookupOrder ref.owner, offers, filed⟩
  · obtain ⟨_, _, _, stands, filed, before, after, split, _⟩ := inherited
    refine ⟨?_, stands.2, filed⟩
    rw [split]
    exact List.mem_append_right _ List.mem_cons_self

/-- Where all entries that a method may take its name from agree, and there is one, the method takes
it. -/
theorem declaration_of_agreeing {ref : MethodRef} {access : MethodAccess} {owner : ClassName}
    {name : MethodName} (ordinary : ref.name.isSpecial = false)
    (unnamed : resolver.mappings.methodName? ref.owner ref.key = none)
    (notPrivate : access.isPrivate = false) (notStatic : access.isStatic = false)
    (visited : owner ∈ resolver.hierarchy.lookupOrder ref.owner)
    (offers : resolver.hierarchy.OffersOverriding ref owner)
    (filed : resolver.mappings.methodName? owner ref.key = some name)
    (agree : ∀ other ∈ resolver.hierarchy.lookupOrder ref.owner, other ≠ ref.owner →
      resolver.hierarchy.OffersOverriding ref other →
        ∀ target ∈ resolver.mappings.methodName? other ref.key, target = name) :
    (resolver.declaration ref access).map Resolved.name = some name := by
  have elsewhere : owner ≠ ref.owner := by
    intro same
    rw [same, unnamed] at filed
    cases filed
  have searched : resolver.declaration ref access = resolver.overridden ref := by
    simp [declaration, ordinary, unnamed, notPrivate, notStatic]
  rw [searched]
  cases outcome : resolver.overridden ref with
  | none =>
    have missed := (resolver.overridden_eq_none_iff ref).mp outcome owner visited
      ⟨elsewhere, offers⟩
    rw [missed] at filed
    cases filed
  | some hit =>
    obtain ⟨stands, entry, before, after, split, _⟩ :=
      (resolver.overridden_eq_some_iff ref hit).mp outcome
    have onWalk : hit.owner ∈ resolver.hierarchy.lookupOrder ref.owner := by
      rw [split]
      exact List.mem_append_right _ List.mem_cons_self
    rw [Option.map_some, agree hit.owner onWalk stands.1 stands.2 hit.name entry]

end Resolver

/-! ### The statement -/

/-- **Overriding survives renaming along the super class chain.** Let a class higher up the chain
declare a method so that it can be overridden, and let the pass give it a new name, by an entry of
its own or by that of a method it overrides itself. A method of the lower class with the same key
that has no entry of its own then takes the same name, whatever its other flags are, if all entries
agree that it may take a name from. The chain of the lower class must be apart from the interfaces
of its lower classes; it may even be cyclic. -/
theorem overriding_survives_renaming (hierarchy : Hierarchy) (mappings : Mappings)
    {lower upper : ClassName} (apart : hierarchy.ChainApart lower)
    (climbs : TransGen hierarchy.SuperStep lower upper) {key : MethodKey} {info : ClassInfo}
    {method : MethodInfo} (known : hierarchy.lookup upper = some info)
    (declared : info.method? key = some method) (inheritable : method.isInheritable = true)
    {name : MethodName}
    (named : (Resolver.declaration ⟨mappings, hierarchy⟩ (key.on upper) method.access).map
      Resolved.name = some name)
    (unnamed : mappings.methodName? lower key = none)
    (agree : ∀ owner ∈ hierarchy.lookupOrder lower, owner ≠ lower →
      hierarchy.OffersOverriding (key.on lower) owner →
        ∀ target ∈ mappings.methodName? owner key, target = name)
    (access : MethodAccess) (notPrivate : access.isPrivate = false)
    (notStatic : access.isStatic = false) :
    (Resolver.declaration ⟨mappings, hierarchy⟩ (key.on lower) access).map Resolved.name =
      some name := by
  let resolver : Resolver := ⟨mappings, hierarchy⟩
  obtain ⟨hit, found, rfl⟩ := Option.map_eq_some_iff.mp named
  have offers : hierarchy.OffersOverriding (key.on upper) upper := by
    simp only [MethodInfo.isInheritable, Bool.and_eq_true, Bool.not_eq_true'] at inheritable
    exact ⟨info, method, known, declared, inheritable.1.1, inheritable.1.2, inheritable.2⟩
  obtain ⟨visited, offered, filed⟩ := resolver.entry_of_declaration offers found
  have ordinary : key.name.isSpecial = false :=
    ((resolver.declaration_eq_some_iff (key.on upper) method.access hit).mp found).1
  -- the entry that the upper method takes its name from is also met on the way from the lower class
  refine resolver.declaration_of_agreeing ordinary unnamed notPrivate notStatic ?_
    offered filed agree
  exact Hierarchy.mem_lookupOrder_of_climbs apart climbs.to_reflTransGen visited

namespace Diamond

/-- The method that the classes declare. -/
def key : MethodKey := ⟨⟨"m"⟩, ⟨"()V"⟩⟩

def methods : List MethodInfo := [⟨key, .none⟩]

/-- Three classes, one above the other. The lowest and the highest implement an interface that
extends another one, which the class between them implements as well. -/
def hierarchy : Hierarchy :=
  ⟨[(⟨"D"⟩, ⟨some ⟨"M"⟩, [⟨"J"⟩], [], methods⟩), (⟨"M"⟩, ⟨some ⟨"E"⟩, [⟨"I"⟩], [], []⟩),
    (⟨"E"⟩, ⟨none, [⟨"J"⟩], [], methods⟩), (⟨"J"⟩, ⟨none, [⟨"I"⟩], [], methods⟩),
    (⟨"I"⟩, ⟨none, [], [], methods⟩)]⟩

/-- An entry for the method of the interface that is shared by all three. -/
def mappings : Mappings := Mappings.empty.addMethod ⟨"I"⟩ key ⟨"renamed"⟩

theorem chainApart : hierarchy.ChainApart ⟨"D"⟩ := by
  have chain : hierarchy.superChain [] ⟨"D"⟩ = [⟨"D"⟩, ⟨"M"⟩, ⟨"E"⟩] := by cbv
  refine .of_isClosed [⟨"J"⟩, ⟨"I"⟩] ?_ ?_ ?_
  · show ∀ name ∈ [⟨"J"⟩, ⟨"I"⟩], hierarchy.interfacesOf name ⊆ [⟨"J"⟩, ⟨"I"⟩]
    decide
  · rw [chain]
    decide
  · rw [chain]
    decide

end Diamond

/-- The highest class has the name from the interface, and so has the lowest, which meets it
earlier. -/
theorem diamond_overriding_survives :
    (Resolver.declaration ⟨Diamond.mappings, Diamond.hierarchy⟩ (Diamond.key.on ⟨"E"⟩) .none).map
        Resolved.name = some ⟨"renamed"⟩ ∧
      (Resolver.declaration ⟨Diamond.mappings, Diamond.hierarchy⟩ (Diamond.key.on ⟨"D"⟩) .none).map
        Resolved.name = some ⟨"renamed"⟩ := by
  have named : (Resolver.declaration ⟨Diamond.mappings, Diamond.hierarchy⟩ (Diamond.key.on ⟨"E"⟩)
      .none).map Resolved.name = some ⟨"renamed"⟩ := by cbv
  have order : Diamond.hierarchy.lookupOrder ⟨"D"⟩ = [⟨"D"⟩, ⟨"J"⟩, ⟨"I"⟩, ⟨"M"⟩, ⟨"E"⟩] := by cbv
  have known : Diamond.hierarchy.lookup ⟨"E"⟩ = some ⟨none, [⟨"J"⟩], [], Diamond.methods⟩ := rfl
  have declared : ClassInfo.method? ⟨none, [⟨"J"⟩], [], Diamond.methods⟩ Diamond.key =
      some ⟨Diamond.key, .none⟩ := rfl
  have climbs : TransGen Diamond.hierarchy.SuperStep ⟨"D"⟩ ⟨"E"⟩ :=
    .tail (.single ⟨_, rfl, rfl⟩) ⟨_, rfl, rfl⟩
  have agree : ∀ owner ∈ Diamond.hierarchy.lookupOrder ⟨"D"⟩,
      ∀ target ∈ Diamond.mappings.methodName? owner Diamond.key, target = ⟨"renamed"⟩ := by
    rw [order]
    decide
  exact ⟨named, overriding_survives_renaming Diamond.hierarchy Diamond.mappings
    Diamond.chainApart climbs known declared rfl named rfl
    (fun owner visited _ _ => agree owner visited) .none rfl rfl⟩

end Renaming

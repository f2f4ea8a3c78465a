import Renaming.Proofs.LookupOrder

/-!
# What a walk reaches

A class is *above* a site if it is reached by steps to super classes followed by steps to
interfaces; only known classes have steps. `lookupOrder` lists classes above the site, each once. It
lists all of them unless the walk meets a class of the super class chain too early, as an interface
of a lower class of the chain: then it stops at that class and misses what comes later. `ChainApart`
excludes this.

* `nodup_lookupOrder`, `length_lookupOrder_le`: every walk makes finitely many visits, each to
  another class.
* `isClosed_levels`: a class that is skipped because it was seen on a lower level has all its
  interfaces among the classes seen by then. This is why sharing the classes seen between the levels
  loses nothing.

The last section says what this means for walks, and for members without an entry.
-/

namespace Renaming.Hierarchy

open Relation

variable (hierarchy : Hierarchy)

/-! ### Steps in the hierarchy -/

/-- A step to the super class of a known class. -/
def SuperStep (lower upper : ClassName) : Prop :=
  ∃ info, hierarchy.lookup lower = some info ∧ info.superClass = some upper

/-- A step to an interface that a known class declares. -/
def InterfaceStep (name interface : ClassName) : Prop :=
  ∃ info, hierarchy.lookup name = some info ∧ interface ∈ info.interfaces

/-- The class is reached from the site by steps to super classes and then to interfaces. -/
def IsAbove (site name : ClassName) : Prop :=
  ∃ level, ReflTransGen hierarchy.SuperStep site level ∧
    ReflTransGen hierarchy.InterfaceStep level name

theorem interfaceStep_iff {name interface : ClassName} :
    hierarchy.InterfaceStep name interface ↔ interface ∈ hierarchy.interfacesOf name := by
  rw [interfacesOf]
  cases known : hierarchy.lookup name <;> simp [InterfaceStep, known]

/-! ### Each class once -/

private theorem nodup_concat {seen : List ClassName} {name : ClassName} (distinct : seen.Nodup)
    (fresh : name ∉ seen) : (seen ++ [name]).Nodup := by
  rw [List.nodup_append]
  refine ⟨distinct, by simp, fun other member last here same => fresh ?_⟩
  rw [← List.mem_singleton.mp here, ← same]
  exact member

theorem nodup_append_preorder (seen pending : List ClassName) (distinct : seen.Nodup) :
    (seen ++ hierarchy.preorder seen pending).Nodup := by
  induction seen, pending using preorder.induct hierarchy with
  | case1 seen => simpa using distinct
  | case2 seen name rest here ih =>
    rw [preorder_of_mem _ _ here]
    exact ih distinct
  | case3 seen name rest fresh below ihBelow ihNext =>
    have distinctBelow : (seen ++ name :: below).Nodup := by
      have nodup := ihBelow (nodup_concat distinct fresh)
      rwa [List.append_assoc, List.singleton_append] at nodup
    have nodup := ihNext distinctBelow
    rw [preorder_of_fresh _ _ fresh]
    rwa [List.append_assoc] at nodup

theorem nodup_append_level {seen : List ClassName} {name : ClassName} (interfaces : List ClassName)
    (distinct : seen.Nodup) (fresh : name ∉ seen) :
    (seen ++ name :: hierarchy.preorder (seen ++ [name]) interfaces).Nodup := by
  have nodup := hierarchy.nodup_append_preorder (seen ++ [name]) interfaces
    (nodup_concat distinct fresh)
  rwa [List.append_assoc, List.singleton_append] at nodup

theorem nodup_append_levels (seen : List ClassName) (name : ClassName) (distinct : seen.Nodup) :
    (seen ++ hierarchy.levels seen name).Nodup := by
  induction seen, name using levels.induct hierarchy with
  | case1 seen name here =>
    rw [levels_of_mem _ here, List.append_nil]
    exact distinct
  | case2 seen name fresh unknown =>
    rw [levels_of_unknown _ fresh unknown]
    exact nodup_concat distinct fresh
  | case3 seen name fresh info known top =>
    rw [levels_of_known _ fresh known, top, Option.elim_none, List.append_nil]
    exact hierarchy.nodup_append_level info.interfaces distinct fresh
  | case4 seen name fresh info known level superClass up less ih =>
    have nodup := ih (hierarchy.nodup_append_level info.interfaces distinct fresh)
    rw [levels_of_known _ fresh known, up, Option.elim_some]
    rwa [List.append_assoc] at nodup

/-- No class stands twice in the lookup order. -/
theorem nodup_lookupOrder (site : ClassName) : (hierarchy.lookupOrder site).Nodup :=
  hierarchy.nodup_append_levels [] site List.nodup_nil

/-! ### Only classes above the site -/

theorem reached_of_mem_preorder (seen pending : List ClassName) :
    ∀ name ∈ hierarchy.preorder seen pending,
      ∃ first ∈ pending, ReflTransGen hierarchy.InterfaceStep first name := by
  induction seen, pending using preorder.induct hierarchy with
  | case1 seen => simp
  | case2 seen name rest here ih =>
    rw [preorder_of_mem _ _ here]
    intro other member
    obtain ⟨first, listed, path⟩ := ih other member
    exact ⟨first, List.mem_cons_of_mem _ listed, path⟩
  | case3 seen name rest fresh below ihBelow ihNext =>
    rw [preorder_of_fresh _ _ fresh]
    intro other member
    rcases List.mem_append.mp member with inside | next
    · refine ⟨name, List.mem_cons_self, ?_⟩
      rcases List.mem_cons.mp inside with rfl | under
      · exact ReflTransGen.refl
      · obtain ⟨first, listed, path⟩ := ihBelow other under
        exact ReflTransGen.head (hierarchy.interfaceStep_iff.mpr listed) path
    · obtain ⟨first, listed, path⟩ := ihNext other next
      exact ⟨first, List.mem_cons_of_mem _ listed, path⟩

/-- What a level lists is reached from its class by steps to interfaces. -/
theorem reached_of_mem_level {seen : List ClassName} {name : ClassName} {info : ClassInfo}
    (known : hierarchy.lookup name = some info) :
    ∀ other ∈ name :: hierarchy.preorder (seen ++ [name]) info.interfaces,
      ReflTransGen hierarchy.InterfaceStep name other := by
  intro other member
  rcases List.mem_cons.mp member with rfl | under
  · exact ReflTransGen.refl
  · obtain ⟨first, listed, path⟩ := hierarchy.reached_of_mem_preorder _ _ other under
    exact ReflTransGen.head ⟨info, known, listed⟩ path

theorem isAbove_of_mem_levels (seen : List ClassName) (name : ClassName) :
    ∀ other ∈ hierarchy.levels seen name, hierarchy.IsAbove name other := by
  induction seen, name using levels.induct hierarchy with
  | case1 seen name here => simp [levels_of_mem _ here]
  | case2 seen name fresh unknown =>
    rw [levels_of_unknown _ fresh unknown]
    intro other member
    rw [List.mem_singleton.mp member]
    exact ⟨name, ReflTransGen.refl, ReflTransGen.refl⟩
  | case3 seen name fresh info known top =>
    rw [levels_of_known _ fresh known, top, Option.elim_none, List.append_nil]
    intro other member
    exact ⟨name, ReflTransGen.refl, hierarchy.reached_of_mem_level known other member⟩
  | case4 seen name fresh info known level superClass up less ih =>
    rw [levels_of_known _ fresh known, up, Option.elim_some]
    intro other member
    rcases List.mem_append.mp member with here | higher
    · exact ⟨name, ReflTransGen.refl, hierarchy.reached_of_mem_level known other here⟩
    · obtain ⟨top, climbs, path⟩ := ih other higher
      exact ⟨top, ReflTransGen.head ⟨info, known, up⟩ climbs, path⟩

/-- The lookup order lists classes above the site only. -/
theorem isAbove_of_mem_lookupOrder {site name : ClassName}
    (member : name ∈ hierarchy.lookupOrder site) : hierarchy.IsAbove site name :=
  hierarchy.isAbove_of_mem_levels [] site name member

/-- The classes that are mentioned as a super class or an interface of a known class. -/
def mentioned : List ClassName :=
  hierarchy.known.flatMap fun entry => entry.2.superClass.toList ++ entry.2.interfaces

theorem mem_mentioned_of_superStep {lower upper : ClassName}
    (step : hierarchy.SuperStep lower upper) : upper ∈ hierarchy.mentioned := by
  obtain ⟨info, known, up⟩ := step
  refine List.mem_flatMap.mpr ⟨(lower, info), mem_of_lookup known, List.mem_append_left _ ?_⟩
  simp [up]

theorem mem_mentioned_of_interfaceStep {name interface : ClassName}
    (step : hierarchy.InterfaceStep name interface) : interface ∈ hierarchy.mentioned := by
  obtain ⟨info, known, declared⟩ := step
  exact List.mem_flatMap.mpr ⟨(name, info), mem_of_lookup known, List.mem_append_right _ declared⟩

theorem mem_mentioned_of_isAbove {site name : ClassName} (above : hierarchy.IsAbove site name) :
    name ∈ site :: hierarchy.mentioned := by
  obtain ⟨level, climbs, path⟩ := above
  rcases ReflTransGen.cases_tail path with rfl | ⟨before, _, last⟩
  · rcases ReflTransGen.cases_tail climbs with rfl | ⟨before, _, last⟩
    · exact List.mem_cons_self
    · exact List.mem_cons_of_mem _ (hierarchy.mem_mentioned_of_superStep last)
  · exact List.mem_cons_of_mem _ (hierarchy.mem_mentioned_of_interfaceStep last)

/-- A walk makes at most one visit for the site and one for each class that is mentioned. -/
theorem length_lookupOrder_le (site : ClassName) :
    (hierarchy.lookupOrder site).length ≤ hierarchy.mentioned.length + 1 := by
  have inside : hierarchy.lookupOrder site ⊆ site :: hierarchy.mentioned := fun name member =>
    hierarchy.mem_mentioned_of_isAbove (hierarchy.isAbove_of_mem_lookupOrder member)
  have bound := (hierarchy.nodup_lookupOrder site).length_le_of_subset inside
  rwa [List.length_cons] at bound

/-! ### All interfaces of a class that was seen -/

theorem mem_append_preorder (seen pending : List ClassName) :
    ∀ name ∈ pending, name ∈ seen ++ hierarchy.preorder seen pending := by
  induction seen, pending using preorder.induct hierarchy with
  | case1 seen => simp
  | case2 seen name rest here ih =>
    rw [preorder_of_mem _ _ here]
    intro other member
    rcases List.mem_cons.mp member with rfl | later
    · exact List.mem_append_left _ here
    · exact ih other later
  | case3 seen name rest fresh below ihBelow ihNext =>
    rw [preorder_of_fresh _ _ fresh, ← List.append_assoc]
    intro other member
    rcases List.mem_cons.mp member with rfl | later
    · exact List.mem_append_left _ (List.mem_append_right _ List.mem_cons_self)
    · exact ihNext other later

theorem interfaces_of_mem_preorder (seen pending : List ClassName) :
    ∀ name ∈ hierarchy.preorder seen pending,
      hierarchy.interfacesOf name ⊆ seen ++ hierarchy.preorder seen pending := by
  induction seen, pending using preorder.induct hierarchy with
  | case1 seen => simp
  | case2 seen name rest here ih =>
    rw [preorder_of_mem _ _ here]
    exact ih
  | case3 seen name rest fresh below ihBelow ihNext =>
    rw [preorder_of_fresh _ _ fresh, ← List.append_assoc]
    intro other member
    rcases List.mem_append.mp member with inside | next
    · -- The class itself and what lies below it are complete before the next class is entered.
      have complete : hierarchy.interfacesOf other ⊆ seen ++ [name] ++ below := by
        rcases List.mem_cons.mp inside with rfl | under
        · exact hierarchy.mem_append_preorder _ _
        · exact ihBelow other under
      rw [List.append_assoc, List.singleton_append] at complete
      exact List.Subset.trans complete (List.subset_append_left _ _)
    · exact ihNext other next

/-- All interfaces of the listed classes are listed as well. -/
def IsClosed (names : List ClassName) : Prop :=
  ∀ name ∈ names, hierarchy.interfacesOf name ⊆ names

/-- Going through a level keeps the classes seen closed. -/
theorem isClosed_level {seen : List ClassName} (name : ClassName)
    (closed : hierarchy.IsClosed seen) :
    hierarchy.IsClosed
      (seen ++ name :: hierarchy.preorder (seen ++ [name]) (hierarchy.interfacesOf name)) := by
  have regroup : seen ++ name :: hierarchy.preorder (seen ++ [name]) (hierarchy.interfacesOf name) =
      seen ++ [name] ++ hierarchy.preorder (seen ++ [name]) (hierarchy.interfacesOf name) := by simp
  rw [regroup]
  intro other member
  rcases List.mem_append.mp member with before | under
  · rcases List.mem_append.mp before with old | new
    · refine List.Subset.trans (closed other old) ?_
      exact List.Subset.trans (List.subset_append_left _ _) (List.subset_append_left _ _)
    · rw [List.mem_singleton.mp new]
      exact hierarchy.mem_append_preorder _ _
  · exact hierarchy.interfaces_of_mem_preorder _ _ other under

theorem interfacesOf_of_known {name : ClassName} {info : ClassInfo}
    (known : hierarchy.lookup name = some info) :
    hierarchy.interfacesOf name = info.interfaces := by
  rw [interfacesOf, known, Option.elim_some]

/-- **Sharing the classes seen between the levels loses nothing:** at the end of every level, the
interfaces of each class seen have been seen. -/
theorem isClosed_levels (seen : List ClassName) (name : ClassName)
    (closed : hierarchy.IsClosed seen) :
    hierarchy.IsClosed (seen ++ hierarchy.levels seen name) := by
  induction seen, name using levels.induct hierarchy with
  | case1 seen name here =>
    rw [levels_of_mem _ here, List.append_nil]
    exact closed
  | case2 seen name fresh unknown =>
    have level := hierarchy.isClosed_level name closed
    rw [interfacesOf, unknown, Option.elim_none, preorder_nil] at level
    rw [levels_of_unknown _ fresh unknown]
    exact level
  | case3 seen name fresh info known top =>
    have level := hierarchy.isClosed_level name closed
    rw [hierarchy.interfacesOf_of_known known] at level
    rw [levels_of_known _ fresh known, top, Option.elim_none, List.append_nil]
    exact level
  | case4 seen name fresh info known level superClass up less ih =>
    have here := hierarchy.isClosed_level name closed
    rw [hierarchy.interfacesOf_of_known known] at here
    rw [levels_of_known _ fresh known, up, Option.elim_some, ← List.append_assoc]
    exact ih here

theorem mem_of_isClosed {names : List ClassName} (closed : hierarchy.IsClosed names)
    {first last : ClassName} (member : first ∈ names)
    (path : ReflTransGen hierarchy.InterfaceStep first last) : last ∈ names := by
  induction path with
  | refl => exact member
  | tail _ step ih => exact closed _ ih (hierarchy.interfaceStep_iff.mp step)

/-! ### The super class chain -/

/-- The super class of a class, none if the class is not known. -/
def superOf (name : ClassName) : Option ClassName :=
  (hierarchy.lookup name).bind ClassInfo.superClass

theorem superStep_iff {lower upper : ClassName} :
    hierarchy.SuperStep lower upper ↔ hierarchy.superOf lower = some upper := by
  rw [superOf, Option.bind_eq_some_iff]
  rfl

private theorem unseen_lt_of_superOf {lower : List ClassName} {name superClass : ClassName}
    (fresh : name ∉ lower) (up : hierarchy.superOf name = some superClass) :
    hierarchy.unseen (lower ++ [name]) < hierarchy.unseen lower := by
  obtain ⟨info, known, _⟩ := hierarchy.superStep_iff.mpr up
  exact hierarchy.unseen_lt_of_known known fresh (List.subset_append_left lower [name]) (by simp)

/-- The super class chain from a class upwards, up to the first class that is in the part below. -/
def superChain (lower : List ClassName) (name : ClassName) : List ClassName :=
  if fresh : name ∈ lower then []
  else
    match up : hierarchy.superOf name with
    | none => [name]
    | some superClass =>
      have := hierarchy.unseen_lt_of_superOf fresh up
      name :: superChain (lower ++ [name]) superClass
termination_by hierarchy.unseen lower

/-- **No class of the super class chain is an interface, or an interface of an interface, and so on,
of a class lower in the chain.** -/
def ChainApart (site : ClassName) : Prop :=
  (hierarchy.superChain [] site).Pairwise fun lower upper =>
    ¬ TransGen hierarchy.InterfaceStep lower upper

theorem superChain_of_mem {lower : List ClassName} {name : ClassName} (here : name ∈ lower) :
    hierarchy.superChain lower name = [] := by
  rw [superChain, dif_pos here]

theorem superChain_of_fresh {lower : List ClassName} {name : ClassName} (fresh : name ∉ lower) :
    hierarchy.superChain lower name =
      name :: (hierarchy.superOf name).elim [] (hierarchy.superChain (lower ++ [name])) := by
  rw [superChain, dif_neg fresh]
  split <;> simp_all

/-- The chain is closed under steps to super classes. -/
theorem superStep_mem_superChain (lower : List ClassName) (name : ClassName) :
    ∀ other ∈ hierarchy.superChain lower name, ∀ upper, hierarchy.SuperStep other upper →
      upper ∈ lower ++ hierarchy.superChain lower name := by
  induction lower, name using superChain.induct hierarchy with
  | case1 lower name here => simp [superChain_of_mem _ here]
  | case2 lower name fresh top =>
    rw [superChain_of_fresh _ fresh, top, Option.elim_none]
    intro other member upper step
    rw [List.mem_singleton.mp member, superStep_iff, top] at step
    cases step
  | case3 lower name fresh superClass up less ih =>
    rw [superChain_of_fresh _ fresh, up, Option.elim_some]
    intro other member upper step
    rw [← List.singleton_append, ← List.append_assoc]
    rcases List.mem_cons.mp member with rfl | higher
    · obtain rfl : superClass = upper := by
        rw [superStep_iff, up] at step
        exact Option.some.inj step
      by_cases here : superClass ∈ lower ++ [other]
      · exact List.mem_append_left _ here
      · rw [superChain_of_fresh _ here]
        exact List.mem_append_right _ List.mem_cons_self
    · exact ih other higher upper step

/-- The chain holds what is reached by steps to super classes. -/
theorem mem_superChain_of_climbs {site level : ClassName}
    (climbs : ReflTransGen hierarchy.SuperStep site level) :
    level ∈ hierarchy.superChain [] site := by
  induction climbs with
  | refl =>
    rw [superChain_of_fresh _ List.not_mem_nil]
    exact List.mem_cons_self
  | tail _ step ih => exact hierarchy.superStep_mem_superChain [] site _ ih _ step

/-- While what was seen comes from the interfaces of lower classes of the chain, and the chain is
apart from these, a walk goes through the whole rest of the chain. -/
theorem superChain_subset_levels (seen : List ClassName) (name : ClassName) :
    ∀ lower : List ClassName, (∀ other ∈ lower, other ∈ seen) →
      (∀ other ∈ seen, ∃ first ∈ lower, ReflTransGen hierarchy.InterfaceStep first other) →
      ((lower ++ hierarchy.superChain lower name).Pairwise fun lower upper =>
        ¬ TransGen hierarchy.InterfaceStep lower upper) →
      ∀ other ∈ hierarchy.superChain lower name, other ∈ seen ++ hierarchy.levels seen name := by
  induction seen, name using levels.induct hierarchy with
  | case1 seen name here =>
    intro lower _ origin apart other member
    -- The class was seen too early only if it lies below; then the chain ends.
    have below : name ∈ lower := by
      refine Decidable.byContradiction fun fresh => ?_
      obtain ⟨first, listed, path⟩ := origin name here
      have head : name ∈ hierarchy.superChain lower name := by
        rw [superChain_of_fresh _ fresh]
        exact List.mem_cons_self
      rcases reflTransGen_iff_eq_or_transGen.mp path with same | steps
      · exact fresh (same ▸ listed)
      · exact (List.pairwise_append.mp apart).2.2 first listed name head steps
    rw [superChain_of_mem _ below] at member
    cases member
  | case2 seen name fresh unknown =>
    intro lower inSeen _ _ other member
    have freshLower : name ∉ lower := fun below => fresh (inSeen name below)
    rw [superChain_of_fresh _ freshLower, superOf, unknown] at member
    rw [levels_of_unknown _ fresh unknown]
    exact List.mem_append_right _ member
  | case3 seen name fresh info known top =>
    intro lower inSeen _ _ other member
    have freshLower : name ∉ lower := fun below => fresh (inSeen name below)
    rw [superChain_of_fresh _ freshLower, superOf, known, Option.bind_some, top] at member
    rw [levels_of_known _ fresh known, List.mem_singleton.mp member]
    exact List.mem_append_right _ List.mem_cons_self
  | case4 seen name fresh info known level superClass up less ih =>
    intro lower inSeen origin apart other member
    have freshLower : name ∉ lower := fun below => fresh (inSeen name below)
    have chain : hierarchy.superChain lower name =
        name :: hierarchy.superChain (lower ++ [name]) superClass := by
      rw [superChain_of_fresh _ freshLower, superOf, known, Option.bind_some, up, Option.elim_some]
    rw [chain] at member apart
    rw [levels_of_known _ fresh known, up, Option.elim_some, ← List.append_assoc]
    rcases List.mem_cons.mp member with rfl | higher
    · exact List.mem_append_left _ (List.mem_append_right _ List.mem_cons_self)
    · refine ih (lower ++ [name]) ?_ ?_ ?_ other higher
      · intro item listed
        rcases List.mem_append.mp listed with old | new
        · exact List.mem_append_left _ (inSeen item old)
        · rw [List.mem_singleton.mp new]
          exact List.mem_append_right _ List.mem_cons_self
      · intro item listed
        rcases List.mem_append.mp listed with old | new
        · obtain ⟨first, below, path⟩ := origin item old
          exact ⟨first, List.mem_append_left _ below, path⟩
        · exact ⟨name, List.mem_append_right _ List.mem_cons_self,
            hierarchy.reached_of_mem_level known item new⟩
      · rwa [List.append_assoc, List.singleton_append]

/-- **The lookup order lists exactly the classes above the site,** if the chain is apart from the
interfaces of its lower classes. -/
theorem mem_lookupOrder_iff {site : ClassName} (apart : hierarchy.ChainApart site)
    (name : ClassName) : name ∈ hierarchy.lookupOrder site ↔ hierarchy.IsAbove site name := by
  constructor
  · exact hierarchy.isAbove_of_mem_lookupOrder
  · rintro ⟨level, climbs, path⟩
    have visitedLevel : level ∈ hierarchy.lookupOrder site := by
      have chain := hierarchy.mem_superChain_of_climbs climbs
      exact hierarchy.superChain_subset_levels [] site [] (by simp) (by simp) apart level chain
    have closed : hierarchy.IsClosed (hierarchy.lookupOrder site) :=
      hierarchy.isClosed_levels [] site (by simp [IsClosed])
    exact hierarchy.mem_of_isClosed closed visitedLevel path

/-- The site is above itself. -/
theorem site_mem_lookupOrder (site : ClassName) : site ∈ hierarchy.lookupOrder site := by
  rw [lookupOrder]
  cases known : hierarchy.lookup site with
  | none => simp [levels_of_unknown hierarchy List.not_mem_nil known]
  | some info => simp [levels_of_known hierarchy List.not_mem_nil known]

/-- To say something of the classes that count on a walk is to say it of the site and of the other
classes above it. -/
private theorem forall_mem_lookupOrder_iff {site : ClassName} (apart : hierarchy.ChainApart site)
    {offers holds : ClassName → Prop} :
    (∀ owner ∈ hierarchy.lookupOrder site, (owner = site ∨ offers owner) → holds owner) ↔
      holds site ∧ ∀ owner, owner ≠ site → hierarchy.IsAbove site owner → offers owner →
        holds owner := by
  constructor
  · intro all
    refine ⟨all site (hierarchy.site_mem_lookupOrder site) (Or.inl rfl), ?_⟩
    intro owner _ above offered
    exact all owner ((hierarchy.mem_lookupOrder_iff apart owner).mpr above) (Or.inr offered)
  · rintro ⟨atSite, elsewhere⟩ owner member counts
    by_cases same : owner = site
    · rw [same]
      exact atSite
    · have above := (hierarchy.mem_lookupOrder_iff apart owner).mp member
      rcases counts with isSite | offered
      · exact absurd isSite same
      · exact elsewhere owner same above offered

/-- **A walk ends, visits no class twice and misses nothing.** Every walk makes a bounded number of
visits, each to another class. If the super class chain of the site is apart from the interfaces of
its lower classes, a walk without an answer has visited exactly the classes above the site; so a
reference is left unresolved exactly if the site has no entry for the member and no other class
above it both offers the member and has an entry. -/
theorem walk_visits_all_above (site : ClassName) :
    (∃ order : List ClassName, order.Nodup ∧ order.length ≤ hierarchy.mentioned.length + 1 ∧
      ∀ (m : Type → Type) [Monad m] (τ : Type) (visit : Visitor m τ),
        hierarchy.walk visit site =
          order.findSomeM? fun name => visit name (hierarchy.lookup name) (name = site)) ∧
    (∀ (τ : Type) (answer : ClassName → Option ClassInfo → Bool → Option τ),
      (hierarchy.visited answer site).Nodup) ∧
    (hierarchy.ChainApart site →
      (∀ (τ : Type) (answer : ClassName → Option ClassInfo → Bool → Option τ),
        hierarchy.search answer site = none →
          ∀ name, name ∈ hierarchy.visited answer site ↔ hierarchy.IsAbove site name) ∧
      (∀ (mappings : Mappings) (key : MethodKey) (isStatic : Bool), key.name.isSpecial = false →
        (Resolver.method ⟨mappings, hierarchy⟩ (key.on site) isStatic = none ↔
          mappings.methodName? site key = none ∧
            ∀ owner, owner ≠ site → hierarchy.IsAbove site owner →
              hierarchy.OffersMethod (key.on site) isStatic owner →
                mappings.methodName? owner key = none)) ∧
      (∀ (mappings : Mappings) (name : FieldName) (descriptor : FieldDescriptor) (isStatic : Bool),
        Resolver.field ⟨mappings, hierarchy⟩ ⟨site, name, descriptor⟩ isStatic = none ↔
          mappings.fieldName? site name = none ∧
            ∀ owner, owner ≠ site → hierarchy.IsAbove site owner →
              hierarchy.OffersField ⟨site, name, descriptor⟩ isStatic owner →
                mappings.fieldName? owner name = none)) := by
  refine ⟨?_, ?_, fun apart => ⟨?_, ?_, ?_⟩⟩
  · refine ⟨hierarchy.lookupOrder site, hierarchy.nodup_lookupOrder site,
      hierarchy.length_lookupOrder_le site, ?_⟩
    intro m _ τ visit
    exact hierarchy.walk_eq_findSomeM? visit site
  · intro τ answer
    rw [visited_eq_throughFirst]
    exact (throughFirst_sublist _ _).nodup (hierarchy.nodup_lookupOrder site)
  · intro τ answer nothing name
    rw [hierarchy.visited_of_search_eq_none answer site nothing]
    exact hierarchy.mem_lookupOrder_iff apart name
  · intro mappings key isStatic ordinary
    rw [Resolver.method_eq_none_iff ⟨mappings, hierarchy⟩ (key.on site) isStatic ordinary]
    exact hierarchy.forall_mem_lookupOrder_iff apart
  · intro mappings name descriptor isStatic
    rw [Resolver.field_eq_none_iff]
    exact hierarchy.forall_mem_lookupOrder_iff apart

/-! ### A cyclic hierarchy -/

/-- Two classes that extend each other, with a common interface that extends itself. -/
def entangled : Hierarchy :=
  ⟨[(⟨"A"⟩, ⟨some ⟨"B"⟩, [⟨"I"⟩], [], []⟩), (⟨"B"⟩, ⟨some ⟨"A"⟩, [⟨"I"⟩], [], []⟩),
    (⟨"I"⟩, ⟨none, [⟨"I"⟩], [], []⟩)]⟩

theorem entangled_chainApart : entangled.ChainApart ⟨"A"⟩ := by
  have chain : entangled.superChain [] ⟨"A"⟩ = [⟨"A"⟩, ⟨"B"⟩] := by
    rw [superChain_of_fresh _ (by decide), show entangled.superOf ⟨"A"⟩ = some ⟨"B"⟩ by decide,
      Option.elim_some, superChain_of_fresh _ (by decide),
      show entangled.superOf ⟨"B"⟩ = some ⟨"A"⟩ by decide, Option.elim_some,
      superChain_of_mem _ (by decide)]
  have closed : entangled.IsClosed [⟨"I"⟩] := by
    intro name member
    rw [List.mem_singleton.mp member, show entangled.interfacesOf ⟨"I"⟩ = [⟨"I"⟩] by decide]
    exact List.Subset.refl _
  rw [ChainApart, chain, List.pairwise_pair]
  intro steps
  obtain ⟨first, step, path⟩ := TransGen.head'_iff.mp steps
  have isInterface : first ∈ [(⟨"I"⟩ : ClassName)] := entangled.interfaceStep_iff.mp step
  exact absurd (entangled.mem_of_isClosed closed isInterface path) (by decide)

/-- Also there a walk ends, and visits what is above the class. -/
theorem entangled_visits_all_above :
    entangled.ChainApart ⟨"A"⟩ ∧
      ∀ name, name ∈ entangled.visited (fun _ _ _ => (none : Option Unit)) ⟨"A"⟩ ↔
        entangled.IsAbove ⟨"A"⟩ name := by
  refine ⟨entangled_chainApart, ?_⟩
  refine ((walk_visits_all_above entangled ⟨"A"⟩).2.2 entangled_chainApart).1 Unit _ ?_
  rw [search_eq_findSome?, List.findSome?_eq_none_iff]
  exact fun _ _ => rfl

end Renaming.Hierarchy

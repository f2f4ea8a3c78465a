import Renaming.Hierarchy

/-!
# The walk through the classes above a class

A member that is referred to on a class, the *site*, may be declared further up. A walk visits the
site; its interfaces, depth first and as they are declared; then the super class and its interfaces,
and so on, until a visit answers. No class is visited twice, also in a cyclic hierarchy, and nothing
is above a class that the hierarchy does not know.

The walk is one loop over a `Place`: the classes seen, the interfaces that are still to be gone
through, and the super class that comes after them. It ends because every known class is expanded at
most once: `unseen` counts the known classes that are still to come.
-/

namespace Renaming

/-- What is done at a class of a walk, given what is known of it and whether it is the site. An
answer ends the walk. -/
abbrev Visitor (m : Type → Type) (τ : Type) := ClassName → Option ClassInfo → Bool → m (Option τ)

namespace Hierarchy

variable (hierarchy : Hierarchy)

/-- How many known classes are not among those seen. -/
def unseen (seen : List ClassName) : Nat :=
  hierarchy.known.countP fun entry => entry.1 ∉ seen

/-- The interfaces of a class, none if the class is not known. -/
def interfacesOf (name : ClassName) : List ClassName :=
  (hierarchy.lookup name).elim [] ClassInfo.interfaces

private theorem countP_le_of_subset (entries : List (ClassName × ClassInfo))
    {seen more : List ClassName} (grown : seen ⊆ more) :
    entries.countP (fun entry => entry.1 ∉ more) ≤ entries.countP fun entry => entry.1 ∉ seen :=
  List.countP_mono_left fun entry _ absent => by
    simp only [decide_eq_true_eq] at absent ⊢
    exact fun present => absent (grown present)

private theorem countP_lt_of_mem {entries : List (ClassName × ClassInfo)}
    {seen more : List ClassName} {entry : ClassName × ClassInfo} (listed : entry ∈ entries)
    (fresh : entry.1 ∉ seen) (grown : seen ⊆ more) (now : entry.1 ∈ more) :
    entries.countP (fun entry => entry.1 ∉ more) < entries.countP fun entry => entry.1 ∉ seen := by
  induction entries with
  | nil => simp at listed
  | cons head rest ih =>
    have le := countP_le_of_subset rest grown
    rcases List.mem_cons.mp listed with rfl | later
    · simp only [List.countP_cons, fresh, now, not_true_eq_false, not_false_eq_true, decide_true,
        decide_false, ↓reduceIte, Bool.false_eq_true]
      omega
    · have less := ih later
      by_cases inSeen : head.1 ∈ seen
      · simpa [List.countP_cons, inSeen, grown inSeen] using less
      · by_cases inMore : head.1 ∈ more
        · simp only [List.countP_cons, inSeen, inMore, not_true_eq_false, not_false_eq_true,
            decide_true, decide_false, ↓reduceIte, Bool.false_eq_true]
          omega
        · simpa [List.countP_cons, inSeen, inMore] using less

/-- Seeing more classes leaves no more to come. -/
theorem unseen_le_of_subset {seen more : List ClassName} (grown : seen ⊆ more) :
    hierarchy.unseen more ≤ hierarchy.unseen seen :=
  countP_le_of_subset hierarchy.known grown

/-- Seeing a known class for the first time leaves fewer to come. -/
theorem unseen_lt_of_known {seen more : List ClassName} {name : ClassName} {info : ClassInfo}
    (known : hierarchy.lookup name = some info) (fresh : name ∉ seen) (grown : seen ⊆ more)
    (now : name ∈ more) : hierarchy.unseen more < hierarchy.unseen seen :=
  countP_lt_of_mem (mem_of_lookup known) fresh grown now

/-- Passing over one of the pending classes leaves fewer of them. -/
theorem pass_lt {seen more : List ClassName} (grown : seen ⊆ more) (count : Nat) :
    Prod.Lex (· < ·) (· < ·) (hierarchy.unseen more, count) (hierarchy.unseen seen, count + 1) := by
  rcases Nat.lt_or_eq_of_le (hierarchy.unseen_le_of_subset grown) with less | same
  · exact Prod.Lex.left _ _ less
  · rw [same]
    exact Prod.Lex.right _ (Nat.lt_succ_self count)

/-- Expanding a class that was not seen leaves fewer known classes to come, or nothing new to go
through. -/
theorem expand_lt {seen : List ClassName} {name : ClassName} (fresh : name ∉ seen)
    {count bound : Nat} (le : count ≤ bound) :
    Prod.Lex (· < ·) (· < ·)
      (hierarchy.unseen (seen ++ [name]), (hierarchy.interfacesOf name).length + count)
      (hierarchy.unseen seen, bound + 1) := by
  have grown : seen ⊆ seen ++ [name] := List.subset_append_left seen [name]
  cases known : hierarchy.lookup name with
  | none =>
    rcases Nat.lt_or_eq_of_le (hierarchy.unseen_le_of_subset grown) with less | same
    · exact Prod.Lex.left _ _ less
    · rw [same]
      refine Prod.Lex.right _ ?_
      simp only [interfacesOf, known, Option.elim_none, List.length_nil]
      omega
  | some info =>
    exact Prod.Lex.left _ _ (hierarchy.unseen_lt_of_known known fresh grown (by simp))

end Hierarchy

/-- Where a walk stands. -/
structure Place where
  /-- The classes seen so far, in order. -/
  seen : List ClassName
  /-- The interfaces still to be gone through, the next one first. -/
  pending : List ClassName
  /-- The super class that comes after them. -/
  above : Option ClassName

/-- The place at which a walk starts. -/
def Place.start (site : ClassName) : Place := ⟨[], [], some site⟩

namespace Hierarchy

variable (hierarchy : Hierarchy) {m : Type → Type} [Monad m] {τ : Type}

/-- Goes on with a walk until a visit answers. Only the class that is visited first is the site. -/
def walkFrom (visit : Visitor m τ) : Place → m (Option τ)
  | ⟨seen, name :: rest, above⟩ =>
    if name ∈ seen then walkFrom visit ⟨seen, rest, above⟩
    else do
      match ← visit name (hierarchy.lookup name) false with
      | some answer => return some answer
      | none => walkFrom visit ⟨seen ++ [name], hierarchy.interfacesOf name ++ rest, above⟩
  | ⟨_, [], none⟩ => return none
  | ⟨seen, [], some name⟩ =>
    if name ∈ seen then return none
    else do
      match ← visit name (hierarchy.lookup name) seen.isEmpty with
      | some answer => return some answer
      | none =>
        match _known : hierarchy.lookup name with
        | none => return none
        | some info => walkFrom visit ⟨seen ++ [name], info.interfaces, info.superClass⟩
termination_by place => (hierarchy.unseen place.seen, place.pending.length)
decreasing_by
  · exact hierarchy.pass_lt (List.Subset.refl seen) rest.length
  · rename_i fresh
    rw [List.length_append]
    exact hierarchy.expand_lt fresh (Nat.le_refl rest.length)
  · rename_i fresh
    exact Prod.Lex.left _ _ (hierarchy.unseen_lt_of_known _known fresh
      (List.subset_append_left seen [name]) (by simp))

/-- Visits the classes above the site in order until a visit answers. -/
def walk (visit : Visitor m τ) (site : ClassName) : m (Option τ) :=
  hierarchy.walkFrom visit (.start site)

/-- The first answer on a walk from the site. -/
def search (answer : ClassName → Option ClassInfo → Bool → Option τ) (site : ClassName) :
    Option τ :=
  Id.run (hierarchy.walk (fun name info isSite => pure (answer name info isSite)) site)

end Hierarchy

end Renaming

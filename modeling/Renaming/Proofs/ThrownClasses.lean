import Renaming.Proofs.CanonicalMappings
import Renaming.Proofs.OverridableMethods

/-!
# The classes that renamed methods throw

Three sources list the classes that a method throws: the method itself, the mappings and the
supplement. A pass puts the lists one behind the other, renames the classes, and keeps the first of
equal names. Equal names may come from different classes, if mappings lead these to one name, so
leaving out repetitions before renaming does not make it needless afterwards; but it changes nothing
either (`distinct_map_distinct`).

`throws_lists_are_merged` says what comes of the lists for every method of every class of a run, in
terms of `List.eraseDups`, to which `distinct` comes down (`distinct_eq_eraseDups`).
-/

namespace Renaming

/-! ### Keeping first occurrences -/

section Distinct

variable {α β : Type} [DecidableEq α] [DecidableEq β]

theorem distinct_eq_eraseDups (items : List α) : distinct items = items.eraseDups := by
  rw [distinct, addAllNew_eq_append]
  simp

theorem nodup_eraseDups (items : List α) : items.eraseDups.Nodup := by
  rw [← distinct_eq_eraseDups]
  exact nodup_addAllNew List.nodup_nil items

/-- Adding new items one by one leaves items out and changes no order. -/
theorem sublist_addAllNew (items more : List α) :
    (addAllNew items more).Sublist (items ++ more) := by
  induction more generalizing items with
  | nil => simp [addAllNew]
  | cons item rest ih =>
    have one : (addNew items item).Sublist (items ++ [item]) := by
      unfold addNew
      split
      · exact List.sublist_append_left items [item]
      · exact List.Sublist.refl _
    have regroup : items ++ item :: rest = (items ++ [item]) ++ rest := by simp
    rw [regroup]
    exact (ih (addNew items item)).trans (one.append_right rest)

theorem eraseDups_sublist (items : List α) : items.eraseDups.Sublist items := by
  rw [← distinct_eq_eraseDups]
  exact sublist_addAllNew [] items

/-- **Leaving out repetitions before a change makes no difference afterwards.** -/
theorem distinct_map_distinct (change : α → β) (items : List α) :
    distinct ((distinct items).map change) = distinct (items.map change) := by
  have fromThere (done more : List α) : distinct ((addAllNew done more).map change) =
      addAllNew (distinct (done.map change)) (more.map change) := by
    induction more generalizing done with
    | nil => rfl
    | cons item rest ih =>
      have one : distinct ((addNew done item).map change) =
          addNew (distinct (done.map change)) (change item) := by
        by_cases present : item ∈ done
        · have changed : change item ∈ distinct (done.map change) :=
            mem_distinct.mpr (List.mem_map_of_mem present)
          rw [addNew, if_pos present, addNew, if_pos changed]
        · rw [addNew, if_neg present, List.map_append]
          exact List.foldl_append
      have step : addAllNew done (item :: rest) = addAllNew (addNew done item) rest := rfl
      rw [step, ih, one]
      rfl
  exact fromThere [] items

end Distinct

/-! ### The three sources -/

/-- The classes that the mappings list for a method. -/
def Mappings.thrownBy (mappings : Mappings) (owner : ClassName) (key : MethodKey) :
    List ClassName :=
  (mappings.extra? owner key).elim [] MethodExtra.exceptions

/-- The classes that the supplement lists for a method. -/
def Supplement.thrownBy (supplement : Supplement) (owner : ClassName) (key : MethodKey) :
    List ClassName :=
  (supplement.get? owner key).getD []

namespace Pass

variable (pass : Pass) (owner : ClassName) (method : Method)

/-- All classes that are listed for a method: by itself, by the mappings and by the supplement. -/
def listed : List ClassName :=
  method.exceptions.getD [] ++ pass.mappings.thrownBy owner method.key ++
    pass.supplement.thrownBy owner method.key

theorem exceptions_eq_none_iff :
    pass.exceptions owner method = none ↔
      method.exceptions = none ∧ pass.mappings.thrownBy owner method.key = [] ∧
        pass.supplement.thrownBy owner method.key = [] := by
  unfold exceptions Mappings.thrownBy Supplement.thrownBy
  simp

theorem eq_of_mem_exceptions {thrown : List ClassName}
    (given : pass.exceptions owner method = some thrown) :
    thrown = ((pass.listed owner method).map pass.mappings.className).eraseDups := by
  unfold exceptions at given
  rw [Option.ite_none_left_eq_some] at given
  obtain ⟨_, merged⟩ := given
  rw [← Option.some.inj merged, Mappings.exceptionNames, distinct_eq_eraseDups, listed,
    List.append_assoc]
  rfl

variable {pass owner method}

theorem exceptions_of_method {new : Method} (done : (pass.method owner method).result = .ok new) :
    new.exceptions = pass.exceptions owner method := by
  simp only [Pass.method, Recorded.result_bind_eq_ok_iff, Recorded.result_pure,
    Except.ok.injEq] at done
  obtain ⟨_, _, _, _, _, _, _, _, _, _, rfl⟩ := done
  rfl

/-- Whether a bridge is degraded does not matter for the classes it throws. -/
theorem exceptions_degradedTo (target : Option MethodKey) :
    pass.exceptions owner (method.degradedTo target) = pass.exceptions owner method := by
  have declared : (method.degradedTo target).exceptions = method.exceptions := by
    rw [Method.degradedTo]
    split <;> rfl
  rw [exceptions, exceptions, Method.key_degradedTo, declared]

end Pass

/-! ### All methods of a run -/

/-- **Throws lists are merged without loss, repetition or change of order.** A method of a run ends
without a list of thrown classes if and only if it had none and neither the mappings nor the
supplement list a class for it. Else its list has the new names of the classes that it declares, of
those that the mappings list and of those that the supplement lists, in this order, and each name
only where it first occurs, whether it is there twice because a class is listed twice or because two
classes have the same new name. Leaving out repetitions among the old names first comes to the
same. -/
theorem throws_lists_are_merged {classes renamed : List ClassFile} {mappings : Mappings}
    {hierarchy : Hierarchy} {supplement : Supplement} {options : PassOptions} {report : PassReport}
    (done : (renameClasses classes mappings hierarchy supplement options).result =
      .ok (renamed, report)) :
    List.Forall₂ (fun file new => List.Forall₂ (fun method newMethod =>
        let known := (mappings.extra? file.name method.key).elim [] MethodExtra.exceptions
        let supplied := (supplement.get? file.name method.key).getD []
        let listed := method.exceptions.getD [] ++ known ++ supplied
        (newMethod.exceptions = none ↔ method.exceptions = none ∧ known = [] ∧ supplied = []) ∧
        ∀ thrown, newMethod.exceptions = some thrown →
          thrown = (listed.map mappings.className).eraseDups ∧
          thrown = (listed.eraseDups.map mappings.className).eraseDups ∧
          thrown.Nodup ∧ thrown.Sublist (listed.map mappings.className) ∧
          ∀ name, name ∈ thrown ↔ ∃ old ∈ listed, mappings.className old = name)
      file.methods new.methods) classes renamed := by
  obtain ⟨processed, each, rfl, rfl⟩ := (renameClasses_eq_ok_iff _ _ _ _ _).mp done
  rw [List.forall₂_map_right_iff]
  refine each.imp fun file out processedWell => ?_
  refine (Pass.rewrites_of_process processedWell).methods.imp ?_
  rintro method newMethod ⟨target, declared⟩
  have same := (Pass.exceptions_of_method declared).trans (Pass.exceptions_degradedTo target)
  refine ⟨?_, fun thrown given => ?_⟩
  · rw [same]
    exact Pass.exceptions_eq_none_iff _ _ _
  · rw [same] at given
    have merged := Pass.eq_of_mem_exceptions _ _ _ given
    refine ⟨merged, ?_, ?_, ?_, fun name => ?_⟩
    · rw [merged, ← distinct_eq_eraseDups, ← distinct_eq_eraseDups, ← distinct_eq_eraseDups,
        distinct_map_distinct]
      rfl
    · rw [merged]
      exact nodup_eraseDups _
    · rw [merged]
      exact eraseDups_sublist _
    · rw [merged, List.mem_eraseDups, List.mem_map]
      rfl

namespace Rethrowing

def key : MethodKey := ⟨⟨"m"⟩, ⟨"()V"⟩⟩

/-- The class `c`, whose method `m` throws the classes; its method `k` throws nothing. -/
def file (thrown : List ClassName) : ClassFile :=
  .ofMethods ⟨"c"⟩ none [{ Method.bare key.name key.descriptor with exceptions := some thrown },
    .bare ⟨"k"⟩ ⟨"()V"⟩]

/-- Two classes have the same new name. -/
def mappings : Mappings :=
  (((∅ : Mappings).addClass ⟨"a"⟩ ⟨"x"⟩).addClass ⟨"b"⟩ ⟨"x"⟩).addExceptions ⟨"c"⟩ key
    [⟨"e"⟩, ⟨"b"⟩]

def supplement : Supplement := (∅ : Supplement).insert ⟨"c"⟩ key [⟨"f"⟩, ⟨"a"⟩, ⟨"f"⟩]

/-- What the three sources list for the method `m` that throws `a` and `b`. -/
def listed : List ClassName := [⟨"a"⟩, ⟨"b"⟩, ⟨"e"⟩, ⟨"b"⟩, ⟨"f"⟩, ⟨"a"⟩, ⟨"f"⟩]

def merged : List ClassName := [⟨"x"⟩, ⟨"e"⟩, ⟨"f"⟩]

end Rethrowing

open Rethrowing in
/-- Of seven classes three names are left. -/
theorem seven_classes_merged :
    (∃ report, (renameClasses [file [⟨"a"⟩, ⟨"b"⟩]] mappings ∅ supplement {}).result =
      .ok ([file merged], report)) ∧
    merged = (listed.map mappings.className).eraseDups ∧
    merged = (listed.eraseDups.map mappings.className).eraseDups := by
  have done : (renameClasses [file [⟨"a"⟩, ⟨"b"⟩]] mappings ∅ supplement {}).result =
      .ok ([file merged], ⟨1, []⟩) := by cbv
  obtain ⟨methods, _⟩ := List.forall₂_cons.mp (throws_lists_are_merged done)
  obtain ⟨⟨_, thrown⟩, _⟩ := List.forall₂_cons.mp methods
  obtain ⟨once, twice, _⟩ := thrown merged rfl
  exact ⟨⟨_, done⟩, once, twice⟩

end Renaming

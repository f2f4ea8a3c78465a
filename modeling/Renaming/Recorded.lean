import Renaming.Fault

/-!
# Computations that keep a record

A `Recorded` computation ends with a value or a fault, and in both cases leaves the record of what
it did on the way. Two kinds of records occur in this library: the class names a renaming was asked
for, and the events of a pass over classes.

The record never influences the result: `result_bind` and its companions say that taking the result
commutes with running computations one after the other. What is computed can therefore be studied
without the record.
-/

namespace Renaming

/-- The record of a computation, with the value or the fault it ended with. -/
structure Recorded (ρ α : Type) where
  record : List ρ
  result : Except Fault α

namespace Recorded

variable {ρ α β : Type}

/-- The computation that does nothing but give the result. -/
def ofExcept (result : Except Fault α) : Recorded ρ α := ⟨[], result⟩

/-- The computation that only records. -/
def note (entries : List ρ) : Recorded ρ Unit := ⟨entries, .ok ()⟩

/-- Goes on with the value, if there is one; the records follow each other. -/
def andThen (first : Recorded ρ α) (rest : α → Recorded ρ β) : Recorded ρ β :=
  match first.result with
  | .error fault => ⟨first.record, .error fault⟩
  | .ok value => ⟨first.record ++ (rest value).record, (rest value).result⟩

instance : Monad (Recorded ρ) where
  pure value := ⟨[], .ok value⟩
  bind := andThen

instance : MonadLift (Except Fault) (Recorded ρ) := ⟨ofExcept⟩

/-- The computation with its fault, if any, put into circumstances. -/
def within (circumstances : Fault → Fault) (run : Recorded ρ α) : Recorded ρ α :=
  ⟨run.record, run.result.mapError circumstances⟩

@[ext] theorem ext_parts {first second : Recorded ρ α} (records : first.record = second.record)
    (results : first.result = second.result) : first = second := by
  cases first
  cases second
  simp_all

@[simp] theorem result_pure (value : α) : (pure value : Recorded ρ α).result = .ok value := rfl

@[simp] theorem record_pure (value : α) : (pure value : Recorded ρ α).record = [] := rfl

@[simp] theorem result_bind (first : Recorded ρ α) (rest : α → Recorded ρ β) :
    (first >>= rest).result = first.result >>= fun value => (rest value).result := by
  change (andThen first rest).result = _
  unfold andThen
  cases first.result <;> rfl

theorem except_bind_eq_ok_iff {first : Except Fault α} {rest : α → Except Fault β} {last : β} :
    (first >>= rest) = .ok last ↔ ∃ value, first = .ok value ∧ rest value = .ok last := by
  cases first <;> simp [bind, Except.bind]

/-- Two computations one after the other give a value if the first does and the second then does. -/
theorem result_bind_eq_ok_iff {first : Recorded ρ α} {rest : α → Recorded ρ β} {last : β} :
    (first >>= rest).result = .ok last ↔
      ∃ value, first.result = .ok value ∧ (rest value).result = .ok last := by
  rw [result_bind, except_bind_eq_ok_iff]

@[simp] theorem result_ofExcept (result : Except Fault α) :
    (ofExcept result : Recorded ρ α).result = result := rfl

@[simp] theorem result_monadLift (result : Except Fault α) :
    (liftM result : Recorded ρ α).result = result := rfl

@[simp] theorem result_note (entries : List ρ) : (note entries).result = .ok () := rfl

@[simp] theorem result_within (circumstances : Fault → Fault) (run : Recorded ρ α) :
    (run.within circumstances).result = run.result.mapError circumstances := rfl

theorem result_within_eq_ok_iff {circumstances : Fault → Fault} {run : Recorded ρ α} {value : α} :
    (run.within circumstances).result = .ok value ↔ run.result = .ok value := by
  rw [result_within]
  cases run.result with
  | ok given => exact Iff.rfl
  | error fault =>
    show Except.error (circumstances fault) = .ok value ↔ Except.error fault = .ok value
    simp

private theorem map_id {α : Type} (run : Recorded ρ α) : id <$> run = run := by
  cases run with
  | mk record result => cases result <;> simp [Functor.map, andThen]

private theorem andThen_assoc {α β γ : Type} (first : Recorded ρ α) (second : α → Recorded ρ β)
    (third : β → Recorded ρ γ) :
    first >>= second >>= third = first >>= fun value => second value >>= third := by
  cases first with
  | mk record result =>
    cases result with
    | error fault => simp [bind, andThen]
    | ok value =>
      simp only [bind, andThen]
      cases (second value).result <;> simp

instance : LawfulMonad (Recorded ρ) :=
  LawfulMonad.mk' (Recorded ρ) map_id (fun _ _ => by simp [bind, andThen, pure]) andThen_assoc

/-- Taking results commutes with going through a list. -/
theorem result_mapM (items : List α) (body : α → Recorded ρ β) :
    (items.mapM body).result = items.mapM fun item => (body item).result := by
  induction items with
  | nil => rfl
  | cons item rest ih =>
    rw [List.mapM_cons, List.mapM_cons, result_bind]
    congr 1
    funext value
    rw [result_bind, ih]
    rfl

/-! ### Ending well -/

/-- The computation ends with a value, and of the value the condition holds. -/
def Gives (run : Recorded ρ α) (condition : α → Prop) : Prop :=
  ∃ value, run.result = .ok value ∧ condition value

section Gives

variable {condition : α → Prop} {last : β → Prop}

theorem gives_pure {value : α} (holds : condition value) :
    (pure value : Recorded ρ α).Gives condition :=
  ⟨value, rfl, holds⟩

theorem gives_note (entries : List ρ) : (note entries).Gives fun _ => True := ⟨(), rfl, trivial⟩

theorem gives_lift {result : Except Fault α}
    (gives : ∃ value, result = .ok value ∧ condition value) :
    (liftM result : Recorded ρ α).Gives condition := gives

theorem Gives.bind {run : Recorded ρ α} {next : α → Recorded ρ β} (first : run.Gives condition)
    (rest : ∀ value, condition value → (next value).Gives last) : (run >>= next).Gives last := by
  obtain ⟨value, done, holds⟩ := first
  obtain ⟨result, finished, fine⟩ := rest value holds
  exact ⟨result, result_bind_eq_ok_iff.mpr ⟨value, done, finished⟩, fine⟩

theorem Gives.within {run : Recorded ρ α} (gives : run.Gives condition)
    (circumstances : Fault → Fault) : (run.within circumstances).Gives condition := by
  obtain ⟨value, done, holds⟩ := gives
  exact ⟨value, result_within_eq_ok_iff.mpr done, holds⟩

/-- What a computation gives for each item of a list, the computations one after the other give. -/
theorem gives_mapM {items : List α} {body : α → Recorded ρ β}
    (each : ∀ item ∈ items, (body item).Gives last) :
    (items.mapM body).Gives fun values => ∀ value ∈ values, last value := by
  induction items with
  | nil => exact gives_pure fun _ member => (nomatch member)
  | cons item rest ih =>
    rw [List.mapM_cons]
    refine (each item List.mem_cons_self).bind fun value holds => ?_
    refine (ih fun other member => each other (List.mem_cons_of_mem _ member)).bind
      fun values fine => ?_
    exact gives_pure (List.forall_mem_cons.mpr ⟨holds, fine⟩)

theorem gives_lift_mapM {items : List α} {body : α → Except Fault β}
    (each : ∀ item ∈ items, ∃ value, body item = .ok value ∧ last value) :
    (liftM (items.mapM body) : Recorded ρ (List β)).Gives
      fun values => ∀ value ∈ values, last value := by
  have gives : (items.mapM fun item => (ofExcept (body item) : Recorded ρ β)).Gives
      fun values => ∀ value ∈ values, last value := gives_mapM each
  obtain ⟨values, done, fine⟩ := gives
  rw [result_mapM] at done
  exact ⟨values, done, fine⟩

theorem gives_mapM_option {item : Option α} {body : α → Recorded ρ β}
    (each : ∀ value ∈ item, (body value).Gives last) :
    (item.mapM body).Gives fun result => ∀ value ∈ result, last value := by
  cases item with
  | none => exact gives_pure fun _ member => (nomatch member)
  | some value =>
    refine (each value rfl).bind fun result holds => gives_pure ?_
    rintro other ⟨⟩
    exact holds

end Gives

end Recorded

end Renaming

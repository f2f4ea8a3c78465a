import Mathlib

/-!
# Rules without a bound

A computation that changes a state may succeed, break off or go on forever. Rules of this kind may
call each other without any measure that goes down. What they come to is a limit: in each stage,
calls may be nested so deep and no deeper, and a computation that needs more has no outcome in that
stage. The limit has the outcomes of all stages.

* `Approaches`: the stages keep each outcome once it is there, and the limit has just these
  outcomes.
* `Approaches.bind`: one after the other, stages approach what their limits come to one after the
  other.
* `leastFixed_eq`: **what rules come to is what they say, with what they come to for each call.**
  The rules have to go along with limits (`PreservesLimits`), as all do that are put together from
  calls.
-/

namespace Renaming

/-- A computation with a state that may break off, or go on forever, which is what `none` stands
for. -/
abbrev Endless (ε σ : Type) := ExceptT ε (StateT σ Option)

namespace Endless

variable {ε σ α β : Type}

/-! ### One after the other -/

section Bind

variable {first : Endless ε σ α} {next : α → Endless ε σ β} {state after : σ}

theorem bind_apply_of_ok {value : α} (done : first state = some (.ok value, after)) :
    (first >>= next) state = next value after := by
  simp only [Bind.bind, ExceptT.bind, ExceptT.mk, StateT.bind, done]
  rfl

theorem bind_apply_of_error {stop : ε} (failed : first state = some (.error stop, after)) :
    (first >>= next) state = some (.error stop, after) := by
  simp only [Bind.bind, ExceptT.bind, ExceptT.mk, StateT.bind, failed]
  rfl

theorem bind_apply_of_none (endless : first state = none) : (first >>= next) state = none := by
  simp only [Bind.bind, ExceptT.bind, ExceptT.mk, StateT.bind, endless]
  rfl

/-- An outcome of two computations one after the other is that of the first, which breaks off, or
that of the second. -/
theorem bind_eq_some_iff {outcome : Except ε β × σ} :
    (first >>= next) state = some outcome ↔
      (∃ stop after, first state = some (.error stop, after) ∧ (.error stop, after) = outcome) ∨
        ∃ value after, first state = some (.ok value, after) ∧ next value after = some outcome := by
  cases done : first state with
  | none => simp [bind_apply_of_none done]
  | some reached =>
    obtain ⟨stop | value, after⟩ := reached
    · simp [bind_apply_of_error done]
    · simp [bind_apply_of_ok done]

end Bind

/-! ### Stages and their limits -/

/-- The stages keep each outcome once it is there, and the limit has just the outcomes of the
stages. -/
structure Approaches (stages : Nat → Endless ε σ α) (limit : Endless ε σ α) : Prop where
  stays : ∀ {n m : Nat} {state : σ} {outcome : Except ε α × σ}, n ≤ m →
    stages n state = some outcome → stages m state = some outcome
  reached : ∀ {state : σ} {outcome : Except ε α × σ},
    limit state = some outcome ↔ ∃ n, stages n state = some outcome

namespace Approaches

variable {stages : Nat → Endless ε σ α} {limit other : Endless ε σ α}

/-- What is the same in all stages. -/
theorem const (same : Endless ε σ α) : Approaches (fun _ => same) same :=
  ⟨fun _ done => done, fun {_ _} => ⟨fun done => ⟨0, done⟩, fun ⟨_, done⟩ => done⟩⟩

theorem bind {nexts : Nat → α → Endless ε σ β} {next : α → Endless ε σ β}
    (first : Approaches stages limit)
    (rest : ∀ value, Approaches (fun n => nexts n value) (next value)) :
    Approaches (fun n => stages n >>= nexts n) (limit >>= next) := by
  constructor
  · intro n m state outcome later done
    rcases bind_eq_some_iff.mp done with ⟨stop, after, failed, same⟩ | ⟨value, after, ended, going⟩
    · exact bind_eq_some_iff.mpr (.inl ⟨stop, after, first.stays later failed, same⟩)
    · exact bind_eq_some_iff.mpr
        (.inr ⟨value, after, first.stays later ended, (rest value).stays later going⟩)
  · intro state outcome
    constructor
    · intro done
      rcases bind_eq_some_iff.mp done with
        ⟨stop, after, failed, same⟩ | ⟨value, after, ended, going⟩
      · obtain ⟨n, failed⟩ := first.reached.mp failed
        exact ⟨n, bind_eq_some_iff.mpr (.inl ⟨stop, after, failed, same⟩)⟩
      · obtain ⟨n, ended⟩ := first.reached.mp ended
        obtain ⟨m, going⟩ := (rest value).reached.mp going
        -- both outcomes are there in the later one of the two stages
        exact ⟨max n m, bind_eq_some_iff.mpr (.inr ⟨value, after,
          first.stays (Nat.le_max_left n m) ended,
            (rest value).stays (Nat.le_max_right n m) going⟩)⟩
    · rintro ⟨n, done⟩
      rcases bind_eq_some_iff.mp done with
        ⟨stop, after, failed, same⟩ | ⟨value, after, ended, going⟩
      · exact bind_eq_some_iff.mpr (.inl ⟨stop, after, first.reached.mpr ⟨n, failed⟩, same⟩)
      · exact bind_eq_some_iff.mpr
          (.inr ⟨value, after, first.reached.mpr ⟨n, ended⟩, (rest value).reached.mpr ⟨n, going⟩⟩)

theorem ite {condition : Prop} [Decidable condition] {others : Nat → Endless ε σ α}
    (yes : Approaches stages limit) (no : Approaches others other) :
    Approaches (fun n => if condition then stages n else others n)
      (if condition then limit else other) := by
  split
  · exact yes
  · exact no

theorem unique (approaches : Approaches stages limit) (approachesToo : Approaches stages other) :
    limit = other := by
  funext state
  refine Option.ext fun outcome => ?_
  exact approaches.reached.trans approachesToo.reached.symm

/-- The first stage does not matter. -/
theorem tail (approaches : Approaches stages limit) :
    Approaches (fun n => stages (n + 1)) limit := by
  refine ⟨fun later done => approaches.stays (Nat.succ_le_succ later) done,
    fun {state outcome} => ?_⟩
  rw [approaches.reached]
  constructor
  · rintro ⟨n, done⟩
    exact ⟨n, approaches.stays (Nat.le_succ n) done⟩
  · rintro ⟨n, done⟩
    exact ⟨n + 1, done⟩

end Approaches

open Classical in
/-- The outcome of the stages, if there is one. -/
noncomputable def limit (stages : Nat → Endless ε σ α) : Endless ε σ α := fun state =>
  if reached : ∃ outcome n, stages n state = some outcome then some reached.choose else none

theorem approaches_limit {stages : Nat → Endless ε σ α}
    (stays : ∀ {n m : Nat} {state : σ} {outcome : Except ε α × σ}, n ≤ m →
      stages n state = some outcome → stages m state = some outcome) :
    Approaches stages (limit stages) := by
  refine ⟨stays, fun {state outcome} => ?_⟩
  unfold limit
  by_cases reached : ∃ outcome n, stages n state = some outcome
  · rw [dif_pos reached]
    obtain ⟨n, done⟩ := reached.choose_spec
    constructor
    · intro chosen
      rw [← chosen]
      exact ⟨n, done⟩
    · rintro ⟨m, doneToo⟩
      have later := stays (Nat.le_max_left n m) done
      rw [stays (Nat.le_max_right n m) doneToo] at later
      exact later.symm
  · rw [dif_neg reached]
    exact iff_of_false (Option.some_ne_none outcome).symm fun done => reached ⟨outcome, done⟩

/-! ### Rules that call each other -/

section Rules

variable {ι : Type} {Result : ι → Type}

/-- A computation for each call. -/
abbrev Family (ε σ : Type) (Result : ι → Type) := (call : ι) → Endless ε σ (Result call)

/-- The rules go along with limits: if the calls approach limits, so does what the rules make of
them. -/
def PreservesLimits (rules : Family ε σ Result → Family ε σ Result) : Prop :=
  ∀ (stages : Nat → Family ε σ Result) (limit : Family ε σ Result),
    (∀ call, Approaches (fun n => stages n call) (limit call)) →
      ∀ call, Approaches (fun n => rules (stages n) call) (rules limit call)

/-- What the rules come to if calls may be nested so deep and no deeper. -/
def stage (rules : Family ε σ Result → Family ε σ Result) : Nat → Family ε σ Result
  | 0 => fun _ _ => none
  | n + 1 => rules (stage rules n)

/-- What the rules come to. -/
noncomputable def leastFixed (rules : Family ε σ Result → Family ε σ Result) : Family ε σ Result :=
  fun call => limit fun n => stage rules n call

variable {rules : Family ε σ Result → Family ε σ Result}

theorem PreservesLimits.mono (preserves : PreservesLimits rules) {less more : Family ε σ Result}
    (included : ∀ call state outcome, less call state = some outcome →
      more call state = some outcome)
    (call : ι) (state : σ) (outcome : Except ε (Result call) × σ)
    (done : rules less call state = some outcome) : rules more call state = some outcome := by
  -- two families, one after the other, are stages that approach the second
  let stages : Nat → Family ε σ Result := fun n => if n = 0 then less else more
  have approaches : ∀ call, Approaches (fun n => stages n call) (more call) := by
    intro call
    have below : ∀ n state outcome, stages n call state = some outcome →
        more call state = some outcome := by
      intro n state outcome done
      by_cases first : n = 0
      · rw [show stages n = less from if_pos first] at done
        exact included call state outcome done
      · rwa [show stages n = more from if_neg first] at done
    refine ⟨fun {n m state outcome} later done => ?_,
      fun {state outcome} => ⟨fun done => ⟨1, done⟩, ?_⟩⟩
    · by_cases first : m = 0
      · obtain rfl : n = m := by omega
        exact done
      · rw [show stages m = more from if_neg first]
        exact below n state outcome done
    · rintro ⟨n, done⟩
      exact below n state outcome done
  exact (preserves stages more approaches call).stays (Nat.zero_le 1) done

/-- Calls that may be nested deeper keep the outcomes that they had. -/
theorem stage_stays (preserves : PreservesLimits rules) (call : ι) {n m : Nat} {state : σ}
    {outcome : Except ε (Result call) × σ} (later : n ≤ m)
    (done : stage rules n call state = some outcome) : stage rules m call state = some outcome := by
  have next : ∀ n call state outcome, stage rules n call state = some outcome →
      stage rules (n + 1) call state = some outcome := by
    intro n
    induction n with
    | zero =>
      intro call state outcome done
      cases done
    | succ n ih => exact preserves.mono ih
  induction later with
  | refl => exact done
  | step _ ih => exact next _ call state outcome ih

/-- **What rules come to is what they say, with what they come to for each call.** -/
theorem leastFixed_eq (preserves : PreservesLimits rules) (call : ι) :
    leastFixed rules call = rules (leastFixed rules) call := by
  have approaches : ∀ call, Approaches (fun n => stage rules n call) (leastFixed rules call) :=
    fun call => approaches_limit (stage_stays preserves call)
  exact (approaches call).tail.unique (preserves (stage rules) (leastFixed rules) approaches call)

end Rules

end Endless

end Renaming

import Mathlib
import Renaming.Pass

/-!
# Names for parameters

Mappings may list names for the parameters of a method, whatever entries the method has for them:
none, some or more than there are names. `Pass.withParameterNames` says at once what becomes of the
entries.

The same comes of taking the names one after the other (`nameFrom`), where a round either changes
the entry at its place or puts a new entry behind the last one (`nameAt`). A round does not ask
where the end of the list is. That a new entry comes to stand at the place of its name is due to the
rounds before: they have left no gap below the place. `NamedUpTo` says what the entries are after a
number of rounds, place by place:

* `NamedUpTo.length_eq`: the list reaches as far as the old entries and the names taken do, and no
  further;
* `NamedUpTo.step` and `NamedUpTo.run`: a round, and so the whole loop, goes on from there;
* `NamedUpTo.unique`: no two lists of entries are like that.

`parameter_names_leave_no_gap` puts it together.
-/

namespace Renaming

/-! ### Taking one name after the other -/

/-- The entry at the place takes the name. If the list ends before the place, there is a new entry
at its end. -/
def nameAt (entries : List MethodParameter) (place : Nat) (name : ParameterName) :
    List MethodParameter :=
  match entries[place]? with
  | some entry => entries.set place { entry with name := some name }
  | none => entries ++ [⟨some name, .none⟩]

/-- The names are taken one after the other, the first one for the place. -/
def nameFrom (place : Nat) (entries : List MethodParameter) :
    List ParameterName → List MethodParameter
  | [] => entries
  | name :: rest => nameFrom (place + 1) (nameAt entries place name) rest

/-- The flags at a place; an entry that is not there yet will have none. -/
def flagsAt (entries : List MethodParameter) (place : Nat) : Access .parameter :=
  (entries[place]?).elim .none MethodParameter.flags

/-- A round changes one entry and no flags, provided that there is no gap before its place. -/
theorem getElem?_nameAt {entries : List MethodParameter} {place : Nat}
    (noGap : place ≤ entries.length) (name : ParameterName) (other : Nat) :
    (nameAt entries place name)[other]? =
      if other = place then some ⟨some name, flagsAt entries place⟩ else entries[other]? := by
  unfold nameAt flagsAt
  rcases Nat.lt_or_ge place entries.length with inside | outside
  · rw [List.getElem?_eq_getElem inside]
    by_cases same : other = place
    · subst same
      simp [inside]
    · simp [same, List.getElem?_set_ne (Ne.symm same)]
  · have ending : place = entries.length := by omega
    subst ending
    rw [List.getElem?_eq_none outside]
    rcases Nat.lt_trichotomy other entries.length with before | same | behind
    · simp [Nat.ne_of_lt before, List.getElem?_append_left before]
    · subst same
      simp
    · have nothing : (entries ++ [⟨some name, .none⟩])[other]? = none := by
        rw [List.getElem?_eq_none_iff, List.length_append]
        exact behind
      rw [nothing, if_neg (Nat.ne_of_gt behind), List.getElem?_eq_none (Nat.le_of_lt behind)]

/-! ### The entries after a number of rounds -/

/-- The entries after as many rounds as `done`: below, each has its name and the old flags, or none
if it is new; from there on, each is as it was. -/
def NamedUpTo (old : List MethodParameter) (names : List ParameterName) (done : Nat)
    (entries : List MethodParameter) : Prop :=
  ∀ place, entries[place]? =
    if place < done then some ⟨names[place]?, flagsAt old place⟩ else old[place]?

namespace NamedUpTo

variable {old entries others : List MethodParameter} {names : List ParameterName} {done : Nat}

theorem start (old : List MethodParameter) (names : List ParameterName) :
    NamedUpTo old names 0 old := by
  intro place
  rw [if_neg (Nat.not_lt_zero place)]

/-- There is no gap below the names taken, and no old entry is lost. -/
theorem length_eq (named : NamedUpTo old names done entries) :
    entries.length = max old.length done := by
  have ends : ∀ place, entries.length ≤ place ↔ max old.length done ≤ place := by
    intro place
    rw [← List.getElem?_eq_none_iff, named place, Nat.max_le, ← List.getElem?_eq_none_iff]
    by_cases below : place < done
    · simp [below]
    · simp [below, Nat.le_of_not_lt below]
  exact Nat.le_antisymm ((ends _).mpr (Nat.le_refl _)) ((ends _).mp (Nat.le_refl _))

theorem unique (named : NamedUpTo old names done entries)
    (otherNamed : NamedUpTo old names done others) : entries = others :=
  List.ext_getElem? fun place => (named place).trans (otherNamed place).symm

/-- The entry that the next round is about still has its old flags. -/
theorem flagsAt_eq (named : NamedUpTo old names done entries) :
    flagsAt entries done = flagsAt old done := by
  rw [flagsAt, named done, if_neg (Nat.lt_irrefl done), flagsAt]

/-- One round takes the next name. -/
theorem step (named : NamedUpTo old names done entries) {name : ParameterName}
    (next : names[done]? = some name) :
    NamedUpTo old names (done + 1) (nameAt entries done name) := by
  have noGap : done ≤ entries.length := by
    rw [named.length_eq]
    exact Nat.le_max_right _ _
  intro place
  rw [getElem?_nameAt noGap, named.flagsAt_eq, named place]
  by_cases same : place = done
  · subst same
    rw [if_pos rfl, if_pos (Nat.lt_succ_self place), next]
  · rw [if_neg same]
    have sameSide : place < done + 1 ↔ place < done := by omega
    simp only [sameSide]

/-- The rounds that are left take the names that are left. -/
theorem run {taken rest : List ParameterName}
    (named : NamedUpTo old (taken ++ rest) taken.length entries) :
    NamedUpTo old (taken ++ rest) (taken ++ rest).length (nameFrom taken.length entries rest) := by
  induction rest generalizing taken entries with
  | nil => simpa [nameFrom] using named
  | cons name rest ih =>
    have next : (taken ++ name :: rest)[taken.length]? = some name := by simp
    have regroup : taken ++ name :: rest = (taken ++ [name]) ++ rest := by simp
    have further := named.step next
    have more : taken.length + 1 = (taken ++ [name]).length := by simp
    rw [nameFrom, more, regroup]
    rw [more, regroup] at further
    exact ih further

end NamedUpTo

/-! ### All names at once -/

section AtOnce

variable (parameters : Option (List MethodParameter)) (names : List ParameterName) (count : Nat)

theorem namedUpTo_withParameterNames :
    NamedUpTo (parameters.getD []) (names.take count) (names.take count).length
      (Pass.withParameterNames parameters names count) := by
  intro place
  unfold Pass.withParameterNames
  rw [List.getElem?_append, List.length_mapIdx]
  by_cases below : place < (names.take count).length
  · rw [if_pos below, if_pos below, List.getElem?_mapIdx, List.getElem?_eq_getElem below]
    rfl
  · rw [if_neg below, if_neg below, List.getElem?_drop]
    congr 1
    omega

/-- Taking the names one after the other comes to the same as giving all names at once. -/
theorem withParameterNames_eq_nameFrom :
    Pass.withParameterNames parameters names count =
      nameFrom 0 (parameters.getD []) (names.take count) := by
  have started := NamedUpTo.start (parameters.getD []) ([] ++ names.take count)
  exact (namedUpTo_withParameterNames parameters names count).unique (NamedUpTo.run started)

end AtOnce

/-- **Names for parameters leave no gap and lose nothing.** Of the names, as many are given as there
are parameters to be named. The entries are those that come of taking the names one after the other.
They reach exactly as far as the old entries and the names given do: each entry below has its name,
the old entries from there on have the names that they had, all old entries keep their flags, and
the new ones have none. -/
theorem parameter_names_leave_no_gap (parameters : Option (List MethodParameter))
    (names : List ParameterName) (count : Nat) :
    let old := parameters.getD []
    let given := min names.length count
    let new := Pass.withParameterNames parameters names count
    new = nameFrom 0 old (names.take count) ∧
    new.length = max old.length given ∧
    (∀ place < given, (new[place]?).map MethodParameter.name = some names[place]?) ∧
    (∀ place, given ≤ place → place < old.length →
      (new[place]?).map MethodParameter.name = (old[place]?).map MethodParameter.name) ∧
    (∀ place < old.length,
      (new[place]?).map MethodParameter.flags = (old[place]?).map MethodParameter.flags) ∧
    (∀ place, old.length ≤ place → place < given →
      (new[place]?).map MethodParameter.flags = some .none) := by
  intro old given new
  have named : NamedUpTo old (names.take count) given new := by
    have atOnce := namedUpTo_withParameterNames parameters names count
    rwa [List.length_take, Nat.min_comm] at atOnce
  refine ⟨withParameterNames_eq_nameFrom parameters names count, named.length_eq, ?_, ?_, ?_, ?_⟩
  · intro place below
    have counted : place < count := by omega
    rw [named place, if_pos below, List.getElem?_take_of_lt counted]
    rfl
  · intro place above _
    rw [named place, if_neg (Nat.not_lt.mpr above)]
  · intro place inside
    rw [named place]
    split
    · rw [flagsAt, List.getElem?_eq_getElem inside]
      rfl
    · rfl
  · intro place outside below
    rw [named place, if_pos below, flagsAt, List.getElem?_eq_none outside]
    rfl

namespace Christening

/-- A final parameter with a name, and one without a name that the compiler has made. -/
def old : List MethodParameter := [⟨some ⟨"p"⟩, .ofNat 16⟩, ⟨none, .ofNat 4096⟩]

def names : List ParameterName := [⟨"x"⟩, ⟨"y"⟩, ⟨"z"⟩, ⟨"p"⟩]

end Christening

open Christening in
/-- Of four names, three parameters take three and make an entry, and one parameter takes one and
leaves the other entry as it is. -/
theorem two_entries_christened :
    (Pass.withParameterNames (some old) names 3 =
        [⟨some ⟨"x"⟩, .ofNat 16⟩, ⟨some ⟨"y"⟩, .ofNat 4096⟩, ⟨some ⟨"z"⟩, .none⟩] ∧
      nameFrom 0 old (names.take 3) = Pass.withParameterNames (some old) names 3 ∧
      ((Pass.withParameterNames (some old) names 3)[2]?).map MethodParameter.flags = some .none) ∧
    (Pass.withParameterNames (some old) names 1 =
        [⟨some ⟨"x"⟩, .ofNat 16⟩, ⟨none, .ofNat 4096⟩] ∧
      ((Pass.withParameterNames (some old) names 1)[0]?).map MethodParameter.name = some names[0]? ∧
      ((Pass.withParameterNames (some old) names 1)[1]?).map MethodParameter.name =
        (old[1]?).map MethodParameter.name) := by
  obtain ⟨inTurn, _, _, _, _, created⟩ := parameter_names_leave_no_gap (some old) names 3
  obtain ⟨_, _, given, kept, _, _⟩ := parameter_names_leave_no_gap (some old) names 1
  exact ⟨⟨by decide, inTurn.symm, created 2 (by decide) (by decide)⟩,
    by decide, given 0 (by decide), kept 1 (by decide) (by decide)⟩

end Renaming

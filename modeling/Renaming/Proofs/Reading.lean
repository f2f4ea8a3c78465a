import Mathlib
import Renaming.Symbol.Check

/-!
# What scanners read

`Scanner.Reads scan spec` says exactly when a scanner succeeds and what it then has done: which
value it gives, which characters it has read, which class names it has met, and what it requires of
the text behind. Both directions are in it. A scanner with such a specification accepts nothing
else, and it does accept every text that the specification allows.

* `Reads.bind`: scanners one after the other read one text after the other.
* `reads_repeatFrom`, `reads_many`: a loop whose rounds each read something is never cut short by
  the bound on its rounds, so it reads what `Runs` or `Series` describe, which know no bound.
* `series_iff`: a series of items that are each written in one way is written by writing them one
  after the other.
-/

namespace Renaming

theorem byteCount_append (first second : List Char) :
    byteCount (first ++ second) = byteCount first + byteCount second := by
  induction first with
  | nil => rw [List.nil_append, byteCount, Nat.zero_add]
  | cons c rest ih => rw [List.cons_append, byteCount, byteCount, ih, Nat.add_assoc]

namespace Scanner

variable {flaw α β σ : Type}

/-- A relation between the value that a scanner gives, the characters it has read, the names it has
met, and what is left of the text. -/
abbrev Spec (α : Type) := α → List Char → List ClassName → List Char → Prop

/-- The scanner succeeds exactly as the specification says. -/
def Reads (scan : Scanner flaw α) (spec : Spec α) : Prop :=
  ∀ text offset names value cursor,
    scan ⟨text, offset, names⟩ = .ok value cursor ↔
      ∃ consumed met rest, text = consumed ++ rest ∧
        cursor = ⟨rest, offset + byteCount consumed, names ++ met⟩ ∧ spec value consumed met rest

/-! ### One after the other -/

theorem bind_eq_ok_iff {first : Scanner flaw α} {next : α → Scanner flaw β} {start last : Cursor}
    {value : β} :
    (first >>= next) start = .ok value last ↔
      ∃ middle cursor, first start = .ok middle cursor ∧ next middle cursor = .ok value last := by
  change EStateM.bind first next start = _ ↔ _
  unfold EStateM.bind
  cases first start with
  | error problem cursor => simp
  | ok middle cursor =>
    constructor
    · intro done
      exact ⟨middle, cursor, rfl, done⟩
    · rintro ⟨_, _, same, done⟩
      cases same
      exact done

/-- The specification of one scanner after another. -/
def Spec.andThen (first : Spec α) (next : α → Spec β) : Spec β := fun value consumed met rest =>
  ∃ middle before beforeMet after afterMet, consumed = before ++ after ∧
    met = beforeMet ++ afterMet ∧
    first middle before beforeMet (after ++ rest) ∧ next middle value after afterMet rest

theorem Reads.bind {first : Scanner flaw α} {next : α → Scanner flaw β} {spec : Spec α}
    {specs : α → Spec β} (reads : Reads first spec)
    (readsNext : ∀ middle, Reads (next middle) (specs middle)) :
    Reads (first >>= next) (spec.andThen specs) := by
  intro text offset names value cursor
  rw [bind_eq_ok_iff]
  constructor
  · rintro ⟨middle, state, done, doneNext⟩
    obtain ⟨before, beforeMet, _, rfl, rfl, holds⟩ := (reads _ _ _ _ _).mp done
    obtain ⟨after, afterMet, rest, rfl, rfl, holdsNext⟩ := (readsNext _ _ _ _ _ _).mp doneNext
    refine ⟨before ++ after, beforeMet ++ afterMet, rest, (List.append_assoc _ _ _).symm, ?_,
      middle, before, beforeMet, after, afterMet, rfl, rfl, holds, holdsNext⟩
    rw [byteCount_append, Nat.add_assoc, List.append_assoc]
  · rintro ⟨_, _, rest, rfl, rfl, middle, before, beforeMet, after, afterMet, rfl, rfl, holds,
      holdsNext⟩
    refine ⟨middle, ⟨after ++ rest, offset + byteCount before, names ++ beforeMet⟩,
      (reads _ _ _ _ _).mpr ⟨before, beforeMet, after ++ rest, List.append_assoc _ _ _, rfl, holds⟩,
      (readsNext _ _ _ _ _ _).mpr ⟨after, afterMet, rest, rfl, ?_, holdsNext⟩⟩
    rw [byteCount_append, Nat.add_assoc, List.append_assoc]

/-- A specification may be replaced by an equivalent one. -/
theorem Reads.congr {scan : Scanner flaw α} {spec other : Spec α} (reads : Reads scan spec)
    (same : ∀ value consumed met rest,
      spec value consumed met rest ↔ other value consumed met rest) : Reads scan other := by
  have equal : spec = other := by
    funext value consumed met rest
    exact propext (same value consumed met rest)
  rw [← equal]
  exact reads

/-- A scanner that never succeeds. -/
theorem reads_of_fails {scan : Scanner flaw α}
    (fails : ∀ start value cursor, scan start ≠ .ok value cursor) :
    Reads scan fun _ _ _ _ => False := by
  intro text offset names value cursor
  constructor
  · intro done
    exact absurd done (fails _ _ _)
  · rintro ⟨_, _, _, _, _, impossible⟩
    exact impossible.elim

theorem reads_throw (problem : flaw) :
    Reads (throw problem : Scanner flaw α) fun _ _ _ _ => False :=
  reads_of_fails fun _ _ _ done => nomatch done

theorem reads_throw_bind (problem : flaw) (next : α → Scanner flaw β) :
    Reads (throw problem >>= next) fun _ _ _ _ => False := by
  refine reads_of_fails fun start value cursor done => ?_
  obtain ⟨_, _, impossible, _⟩ := bind_eq_ok_iff.mp done
  cases impossible

/-- A test before the scanner goes on. -/
theorem Reads.require {condition : Prop} [Decidable condition] {problem : flaw}
    {next : Unit → Scanner flaw α} {spec : Spec α} (reads : Reads (next ()) spec) :
    Reads (if condition then next () else throw problem >>= next) fun value consumed met rest =>
      condition ∧ spec value consumed met rest := by
  by_cases holds : condition
  · rw [if_pos holds]
    refine reads.congr fun _ _ _ _ => ?_
    rw [and_iff_right holds]
  · rw [if_neg holds]
    refine (reads_throw_bind problem next).congr fun _ _ _ _ => ?_
    exact ⟨False.elim, fun both => absurd both.1 holds⟩

/-- A test that ends the scanner. -/
theorem Reads.refuse {condition : Prop} [Decidable condition] {problem : flaw}
    {next : Unit → Scanner flaw α} {spec : Spec α} (reads : Reads (next ()) spec) :
    Reads (if condition then throw problem >>= next else next ()) fun value consumed met rest =>
      ¬ condition ∧ spec value consumed met rest := by
  by_cases holds : condition
  · rw [if_pos holds]
    refine (reads_throw_bind problem next).congr fun _ _ _ _ => ?_
    exact ⟨False.elim, fun both => absurd holds both.1⟩
  · rw [if_neg holds]
    refine reads.congr fun _ _ _ _ => ?_
    rw [and_iff_right holds]

/-- Either of two scanners. -/
theorem Reads.branch {first second : Scanner flaw α} {spec other : Spec α} (choice : Bool)
    (reads : Reads first spec) (readsOther : Reads second other) :
    Reads (if choice = true then first else second) (bif choice then spec else other) := by
  cases choice with
  | true => exact reads
  | false => exact readsOther

/-! ### Single steps -/

/-- A scanner that always succeeds and goes on by a number of characters. -/
theorem reads_of_eq {scan : Scanner flaw α} {spec : Spec α} (value : List Char → α)
    (count : List Char → Nat) (met : List ClassName)
    (run : ∀ text offset names, scan ⟨text, offset, names⟩ =
      .ok (value text) ⟨text.drop (count text), offset + byteCount (text.take (count text)),
        names ++ met⟩)
    (meaning : ∀ given consumed noted rest, spec given consumed noted rest ↔
      given = value (consumed ++ rest) ∧
        consumed = (consumed ++ rest).take (count (consumed ++ rest)) ∧ noted = met) :
    Reads scan spec := by
  intro text offset names given cursor
  rw [run]
  have cut : text.take (count text) ++ text.drop (count text) = text := List.take_append_drop _ _
  constructor
  · intro same
    cases same
    refine ⟨_, _, _, cut.symm, rfl, (meaning _ _ _ _).mpr ⟨?_, ?_, rfl⟩⟩
    · rw [cut]
    · rw [cut]
  · rintro ⟨consumed, noted, rest, rfl, rfl, holds⟩
    obtain ⟨rfl, taken, rfl⟩ := (meaning _ _ _ _).mp holds
    rw [← taken] at cut
    rw [← taken, List.append_cancel_left cut]

/-- A scanner that looks at the text without reading it. -/
theorem reads_of_looking {scan : Scanner flaw α} (view : List Char → α)
    (run : ∀ cursor, scan cursor = .ok (view cursor.rest) cursor) :
    Reads scan fun given consumed met rest => given = view rest ∧ consumed = [] ∧ met = [] := by
  refine reads_of_eq view (fun _ => 0) [] (fun text offset names => ?_)
    fun given consumed noted rest => ?_
  · rw [List.drop_zero, List.take_zero, byteCount, Nat.add_zero, List.append_nil]
    exact run _
  · rw [List.take_zero]
    constructor
    · rintro ⟨rfl, rfl, rfl⟩
      exact ⟨rfl, rfl, rfl⟩
    · rintro ⟨rfl, rfl, rfl⟩
      exact ⟨rfl, rfl, rfl⟩

theorem reads_pure (value : α) :
    Reads (pure value : Scanner flaw α) fun given consumed met _ =>
      given = value ∧ consumed = [] ∧ met = [] :=
  reads_of_looking (fun _ => value) fun _ => rfl

theorem reads_peek :
    Reads (peek : Scanner flaw (Option Char)) fun next consumed met rest =>
      next = rest.head? ∧ consumed = [] ∧ met = [] :=
  reads_of_looking List.head? fun _ => rfl

theorem reads_remaining :
    Reads (remaining : Scanner flaw (List Char)) fun left consumed met rest =>
      left = rest ∧ consumed = [] ∧ met = [] :=
  reads_of_looking id fun _ => rfl

theorem reads_meet (name : ClassName) :
    Reads (meet name : Scanner flaw Unit) fun _ consumed met _ => consumed = [] ∧ met = [name] := by
  refine reads_of_eq (fun _ => ()) (fun _ => 0) [name] (fun text offset names => ?_)
    fun given consumed noted rest => ?_
  · rw [List.drop_zero, List.take_zero, byteCount, Nat.add_zero]
    rfl
  · rw [List.take_zero, eq_self, true_and]

theorem reads_next :
    Reads (next : Scanner flaw (Option Char)) fun read consumed met rest =>
      met = [] ∧
        ((∃ c, read = some c ∧ consumed = [c]) ∨ read = none ∧ consumed = [] ∧ rest = []) := by
  refine reads_of_eq List.head? (fun _ => 1) [] (fun text offset names => ?_)
    fun given consumed noted rest => ?_
  · rw [List.append_nil]
    rfl
  · cases consumed with
    | nil => cases rest <;> grind
    | cons c more => grind

theorem reads_eat (c : Char) :
    Reads (eat c : Scanner flaw Bool) fun found consumed met rest =>
      met = [] ∧
        (found = true ∧ consumed = [c] ∨ found = false ∧ consumed = [] ∧ rest.head? ≠ some c) := by
  refine reads_of_eq (fun text => text.head? = some c)
    (fun text => if text.head? = some c then 1 else 0) [] (fun text offset names => ?_)
    fun given consumed noted rest => ?_
  · by_cases here : text.head? = some c
    · simp [eat, here, Cursor.advance]
    · simp [eat, here, byteCount]
  · cases consumed with
    | nil => cases rest <;> grind
    | cons first more => grind

private theorem takeWhile_append_eq_left_iff (test : Char → Bool) (taken rest : List Char) :
    (taken ++ rest).takeWhile test = taken ↔
      (∀ c ∈ taken, test c = true) ∧ ∀ c ∈ rest.head?, test c = false := by
  induction taken with
  | nil =>
    cases rest with
    | nil => simp
    | cons c more => cases passes : test c <;> simp [passes]
  | cons c more ih =>
    cases passes : test c with
    | false => simp [passes]
    | true => simp [passes, ih]

/-- Reading on as long as the characters pass a test. -/
theorem reads_of_takeWhile {scan : Scanner flaw (List Char)} (test : Char → Bool)
    (run : ∀ cursor, scan cursor =
      .ok (cursor.rest.takeWhile test) (cursor.advance (cursor.rest.takeWhile test).length)) :
    Reads scan fun taken consumed met rest =>
      taken = consumed ∧ met = [] ∧ (∀ c ∈ consumed, test c = true) ∧
        ∀ c ∈ rest.head?, test c = false := by
  refine reads_of_eq (fun text => text.takeWhile test) (fun text => (text.takeWhile test).length) []
    (fun text offset names => ?_) fun given consumed noted rest => ?_
  · rw [List.append_nil]
    exact run _
  · rw [← List.prefix_iff_eq_take.mp (List.takeWhile_prefix test)]
    constructor
    · rintro ⟨rfl, rfl, passes⟩
      have taken := (takeWhile_append_eq_left_iff test given rest).mpr passes
      exact ⟨taken.symm, taken.symm, rfl⟩
    · rintro ⟨rfl, taken, rfl⟩
      exact ⟨taken.symm, rfl, (takeWhile_append_eq_left_iff test consumed rest).mp taken.symm⟩

theorem reads_takeUntil (stops : List Char) :
    Reads (takeUntil stops : Scanner flaw (List Char)) fun taken consumed met rest =>
      taken = consumed ∧ met = [] ∧ (∀ c ∈ consumed, c ∉ stops) ∧
        ∀ c ∈ rest.head?, c ∈ stops := by
  refine (reads_of_takeWhile (fun c => c ∉ stops) fun _ => rfl).congr fun _ _ _ _ => ?_
  simp only [decide_eq_true_eq, decide_eq_false_iff_not, Decidable.not_not]

theorem reads_takeAll (c : Char) :
    Reads (takeAll c : Scanner flaw (List Char)) fun taken consumed met rest =>
      taken = consumed ∧ met = [] ∧ (∀ d ∈ consumed, d = c) ∧ ∀ d ∈ rest.head?, d ≠ c := by
  refine (reads_of_takeWhile (fun d => d = c) fun _ => rfl).congr fun _ _ _ _ => ?_
  simp only [decide_eq_true_eq, decide_eq_false_iff_not, ne_eq]

theorem reads_notYet (c : Char) :
    Reads (notYet c : Scanner flaw Bool) fun found consumed met rest =>
      met = [] ∧
        (found = false ∧ consumed = [c] ∨ found = true ∧ consumed = [] ∧ rest.head? ≠ some c) := by
  unfold notYet
  refine ((reads_eat c).bind fun found => reads_pure (!found)).congr
    fun given consumed met rest => ?_
  constructor
  · rintro ⟨_, _, _, _, _, rfl, rfl, ⟨rfl, ⟨rfl, rfl⟩ | ⟨rfl, rfl, other⟩⟩, rfl, rfl, rfl⟩
    · exact ⟨rfl, Or.inl ⟨rfl, rfl⟩⟩
    · exact ⟨rfl, Or.inr ⟨rfl, rfl, other⟩⟩
  · rintro ⟨rfl, ⟨rfl, rfl⟩ | ⟨rfl, rfl, other⟩⟩
    · exact ⟨true, [c], [], [], [], rfl, rfl, ⟨rfl, Or.inl ⟨rfl, rfl⟩⟩, rfl, rfl, rfl⟩
    · exact ⟨false, [], [], [], [], rfl, rfl, ⟨rfl, Or.inr ⟨rfl, rfl, other⟩⟩, rfl, rfl, rfl⟩

/-! ### Single steps, then others

What a scanner reads that starts with one of the steps. The specification of the step is worked into
that of the others, so that only what the step reads is left of it. -/

/-- The specification of something that is written in one way. -/
def Exactly (good : α → Prop) (chars : α → List Char) (names : α → List ClassName)
    (follow : α → List Char → Prop) : Spec α := fun value consumed met rest =>
  good value ∧ consumed = chars value ∧ met = names value ∧ follow value rest

section Steps

variable {next : α → Scanner flaw β} {specs : α → Spec β}

/-- Looking at the text, then going on. -/
theorem Reads.afterLook {scan : Scanner flaw α} {view : List Char → α}
    (reads : Reads scan fun given consumed met rest => given = view rest ∧ consumed = [] ∧ met = [])
    (readsNext : ∀ seen, Reads (next seen) (specs seen)) :
    Reads (scan >>= next) fun value consumed met rest =>
      specs (view (consumed ++ rest)) value consumed met rest := by
  refine (reads.bind readsNext).congr fun value consumed met rest => ?_
  constructor
  · rintro ⟨_, _, _, after, afterMet, rfl, rfl, ⟨rfl, rfl, rfl⟩, holds⟩
    exact holds
  · intro holds
    exact ⟨_, [], [], consumed, met, rfl, rfl, ⟨rfl, rfl, rfl⟩, holds⟩

/-- Looking at the next character, then going on as it says. -/
theorem Reads.afterPeek {next : Option Char → Scanner flaw β} (specs : Option Char → Spec β)
    (readsNext : ∀ seen, Reads (next seen) (specs seen)) :
    Reads (peek >>= next) fun value consumed met rest =>
      specs (consumed ++ rest).head? value consumed met rest :=
  Reads.afterLook reads_peek readsNext

/-- Reading something that is written in one way, then going on. -/
theorem Reads.afterExactly {scan : Scanner flaw α} {good : α → Prop} {chars : α → List Char}
    {names : α → List ClassName} {follow : α → List Char → Prop}
    (reads : Reads scan (Exactly good chars names follow))
    (readsNext : ∀ read, Reads (next read) (specs read)) :
    Reads (scan >>= next) fun value consumed met rest =>
      ∃ read after afterMet, good read ∧ consumed = chars read ++ after ∧
        met = names read ++ afterMet ∧ follow read (after ++ rest) ∧
        specs read value after afterMet rest := by
  refine (reads.bind readsNext).congr fun value consumed met rest => ?_
  constructor
  · rintro ⟨read, _, _, after, afterMet, rfl, rfl, ⟨fine, rfl, rfl, follows⟩, holds⟩
    exact ⟨read, after, afterMet, fine, rfl, rfl, follows, holds⟩
  · rintro ⟨read, after, afterMet, fine, rfl, rfl, follows, holds⟩
    exact ⟨read, chars read, names read, after, afterMet, rfl, rfl,
      ⟨fine, rfl, rfl, follows⟩, holds⟩

/-- Doing something with what was read. -/
theorem Reads.map {scan : Scanner flaw α} {spec : Spec α} (reads : Reads scan spec)
    (change : α → β) :
    Reads (scan >>= fun read => pure (change read)) fun value consumed met rest =>
      ∃ read, value = change read ∧ spec read consumed met rest := by
  refine (reads.bind fun read => reads_pure (change read)).congr fun value consumed met rest => ?_
  constructor
  · rintro ⟨read, before, beforeMet, _, _, rfl, rfl, holds, rfl, rfl, rfl⟩
    rw [List.nil_append] at holds
    rw [List.append_nil, List.append_nil]
    exact ⟨read, rfl, holds⟩
  · rintro ⟨read, rfl, holds⟩
    exact ⟨read, consumed, met, [], [], (List.append_nil _).symm, (List.append_nil _).symm, holds,
      rfl, rfl, rfl⟩

end Steps

theorem Reads.afterMeet {name : ClassName} {next : Unit → Scanner flaw β} {specs : Unit → Spec β}
    (readsNext : ∀ done, Reads (next done) (specs done)) :
    Reads (meet name >>= next) fun value consumed met rest =>
      ∃ afterMet, met = name :: afterMet ∧ specs () value consumed afterMet rest := by
  refine ((reads_meet name).bind readsNext).congr fun value consumed met rest => ?_
  constructor
  · rintro ⟨_, _, _, after, afterMet, rfl, rfl, ⟨rfl, rfl⟩, holds⟩
    exact ⟨afterMet, rfl, holds⟩
  · rintro ⟨afterMet, rfl, holds⟩
    exact ⟨(), [], [name], consumed, afterMet, rfl, rfl, ⟨rfl, rfl⟩, holds⟩

theorem Reads.afterEat {c : Char} {next : Bool → Scanner flaw β} {specs : Bool → Spec β}
    (readsNext : ∀ found, Reads (next found) (specs found)) :
    Reads (eat c >>= next) fun value consumed met rest =>
      (∃ after, consumed = c :: after ∧ specs true value after met rest) ∨
        (consumed ++ rest).head? ≠ some c ∧ specs false value consumed met rest := by
  refine ((reads_eat c).bind readsNext).congr fun value consumed met rest => ?_
  constructor
  · rintro ⟨_, _, _, after, afterMet, rfl, rfl, ⟨rfl, ⟨rfl, rfl⟩ | ⟨rfl, rfl, other⟩⟩, holds⟩
    · exact Or.inl ⟨after, rfl, holds⟩
    · exact Or.inr ⟨other, holds⟩
  · rintro (⟨after, rfl, holds⟩ | ⟨other, holds⟩)
    · exact ⟨true, [c], [], after, met, rfl, rfl, ⟨rfl, Or.inl ⟨rfl, rfl⟩⟩, holds⟩
    · exact ⟨false, [], [], consumed, met, rfl, rfl, ⟨rfl, Or.inr ⟨rfl, rfl, other⟩⟩, holds⟩

/-- Reading a character, without which the scanner fails. -/
theorem Reads.afterNext {next : Option Char → Scanner flaw β} {specs : Char → Spec β}
    (readsNext : ∀ c, Reads (next (some c)) (specs c))
    (fails : Reads (next none) fun _ _ _ _ => False) :
    Reads (Scanner.next >>= next) fun value consumed met rest =>
      ∃ c after, consumed = c :: after ∧ specs c value after met rest := by
  have readsAny : ∀ read, Reads (next read) fun value consumed met rest =>
      ∃ c, read = some c ∧ specs c value consumed met rest := by
    intro read
    cases read with
    | none => exact fails.congr (by simp)
    | some c => exact (readsNext c).congr (by simp)
  refine (reads_next.bind readsAny).congr fun value consumed met rest => ?_
  constructor
  · rintro ⟨_, _, _, after, afterMet, rfl, rfl, ⟨rfl, ⟨c, rfl, rfl⟩ | ⟨rfl, _⟩⟩, d, found, holds⟩
    · cases found
      exact ⟨c, after, rfl, holds⟩
    · cases found
  · rintro ⟨c, after, rfl, holds⟩
    exact ⟨some c, [c], [], after, met, rfl, rfl, ⟨rfl, Or.inl ⟨c, rfl, rfl⟩⟩, c, rfl, holds⟩

/-- Reading as far as something goes, then going on. -/
theorem Reads.afterTaking {scan : Scanner flaw (List Char)} {inside stops : Char → Prop}
    {next : List Char → Scanner flaw β} {specs : List Char → Spec β}
    (reads : Reads scan fun taken consumed met rest =>
      taken = consumed ∧ met = [] ∧ (∀ c ∈ consumed, inside c) ∧ ∀ c ∈ rest.head?, stops c)
    (readsNext : ∀ taken, Reads (next taken) (specs taken)) :
    Reads (scan >>= next) fun value consumed met rest =>
      ∃ taken after, consumed = taken ++ after ∧ (∀ c ∈ taken, inside c) ∧
        (∀ c ∈ (after ++ rest).head?, stops c) ∧ specs taken value after met rest := by
  refine (reads.bind readsNext).congr fun value consumed met rest => ?_
  constructor
  · rintro ⟨taken, _, _, after, afterMet, rfl, rfl, ⟨rfl, rfl, free, stopped⟩, holds⟩
    exact ⟨taken, after, rfl, free, stopped, holds⟩
  · rintro ⟨taken, after, rfl, free, stopped, holds⟩
    exact ⟨taken, taken, [], after, met, rfl, rfl, ⟨rfl, rfl, free, stopped⟩, holds⟩

/-- A text that starts with one of the letters does not start with another character. -/
theorem exists_first_ne {text letters : List Char} {c : Char}
    (begins : ∃ first more, text = first :: more ∧ first ∈ letters) (absent : c ∉ letters) :
    ∃ first more, text = first :: more ∧ first ≠ c := by
  obtain ⟨first, more, written, letter⟩ := begins
  refine ⟨first, more, written, ?_⟩
  rintro rfl
  exact absent letter

section Results

variable {scan : Scanner flaw α} {good : α → Prop} {chars : α → List Char}
  {names : α → List ClassName} (reads : Reads scan (Exactly good chars names fun _ _ => True))

include reads

/-- A character for nothing, or else something that does not start with it. -/
theorem reads_none_or_some {c : Char}
    (begins : ∀ {value}, good value → ∃ first more, chars value = first :: more ∧ first ≠ c) :
    Reads (do if ← eat c then return none else return some (← scan))
      (Exactly (fun result => ∀ value ∈ result, good value) (fun result => result.elim [c] chars)
        (fun result => result.elim [] names) fun _ _ => True) := by
  refine (Reads.afterEat fun found => Reads.branch found (reads_pure none) (reads.map some)).congr
    fun result consumed met rest => ?_
  constructor
  · rintro (⟨_, rfl, rfl, rfl, rfl⟩ | ⟨_, value, rfl, fine, rfl, rfl, _⟩)
    · exact ⟨fun _ absent => (nomatch absent), rfl, rfl, trivial⟩
    · refine ⟨fun other same => ?_, rfl, rfl, trivial⟩
      cases same
      exact fine
  · rintro ⟨fine, rfl, rfl, _⟩
    cases result with
    | none => exact Or.inl ⟨[], rfl, rfl, rfl, rfl⟩
    | some value =>
      refine Or.inr ⟨?_, value, rfl, fine value rfl, rfl, rfl, trivial⟩
      obtain ⟨first, more, written, other⟩ := begins (fine value rfl)
      show (chars value ++ rest).head? ≠ some c
      rw [written]
      intro same
      cases same
      exact other rfl

/-- What takes at least a character needs no test for the end of the text. -/
theorem reads_unless_ended {problem : flaw}
    (nonempty : ∀ {value}, good value → chars value ≠ []) :
    Reads (do
        if (← remaining).isEmpty then throw problem
        scan)
      (Exactly good chars names fun _ _ => True) := by
  refine (Reads.afterLook reads_remaining fun left => Reads.refuse reads).congr
    fun value consumed met rest => ?_
  refine and_iff_right_of_imp ?_
  rintro ⟨fine, rfl, _⟩ empty
  exact nonempty fine (List.append_eq_nil_iff.mp (List.isEmpty_iff.mp empty)).1

end Results

/-! ### Loops -/

/-- What a loop does: it stops, or makes a round and goes on. -/
inductive Runs (more : Spec Bool) (step : σ → Spec σ) : σ → Spec σ
  | stop {state : σ} {consumed rest : List Char} {met : List ClassName} :
      more false consumed met rest → Runs more step state state consumed met rest
  | round {state middle last : σ} {asked read after rest : List Char}
      {askedMet readMet afterMet : List ClassName} :
      more true asked askedMet (read ++ (after ++ rest)) →
      step state middle read readMet (after ++ rest) →
      Runs more step middle last after afterMet rest →
      Runs more step state last (asked ++ (read ++ after)) (askedMet ++ (readMet ++ afterMet)) rest

section Loops

variable {more : Scanner flaw Bool} {moreSpec : Spec Bool} (readsMore : Reads more moreSpec)

include readsMore

/-- With more rounds at hand than characters are left, the bound on the rounds is never met. -/
private theorem rounds_eq_ok_iff {step : σ → Scanner flaw σ} {stepSpec : σ → Spec σ}
    (readsStep : ∀ state, Reads (step state) (stepSpec state))
    (progress : ∀ {state middle asked askedMet read readMet rest},
      moreSpec true asked askedMet (read ++ rest) → stepSpec state middle read readMet rest →
        asked ++ read ≠ [])
    (count : Nat) (state last : σ) (text : List Char) (offset : Nat) (names : List ClassName)
    (cursor : Cursor) (enough : text.length < count) :
    rounds more step count state ⟨text, offset, names⟩ = .ok last cursor ↔
      ∃ consumed met rest, text = consumed ++ rest ∧
        cursor = ⟨rest, offset + byteCount consumed, names ++ met⟩ ∧
        Runs moreSpec stepSpec state last consumed met rest := by
  induction count generalizing state text offset names with
  | zero => exact absurd enough (Nat.not_lt_zero _)
  | succ count ih =>
    rw [rounds, bind_eq_ok_iff]
    constructor
    · rintro ⟨goesOn, between, asked, done⟩
      obtain ⟨front, frontMet, behind, rfl, rfl, asks⟩ := (readsMore _ _ _ _ _).mp asked
      cases goesOn with
      | false =>
        cases done
        exact ⟨front, frontMet, behind, rfl, rfl, .stop asks⟩
      | true =>
        obtain ⟨middle, _, stepped, done⟩ := bind_eq_ok_iff.mp done
        obtain ⟨read, readMet, behind, rfl, rfl, steps⟩ := (readsStep _ _ _ _ _ _).mp stepped
        have nonempty := progress asks steps
        have less : behind.length < count := by
          have positive := List.length_pos_iff.mpr nonempty
          simp only [List.length_append] at enough positive
          omega
        obtain ⟨after, afterMet, rest, rfl, rfl, runs⟩ := (ih _ _ _ _ less).mp done
        refine ⟨front ++ (read ++ after), frontMet ++ (readMet ++ afterMet), rest, ?_, ?_,
          .round asks steps runs⟩
        · simp only [List.append_assoc]
        · simp only [byteCount_append, Nat.add_assoc, List.append_assoc]
    · rintro ⟨_, _, rest, rfl, rfl, runs⟩
      cases runs with
      | stop asks =>
        exact ⟨false, _, (readsMore _ _ _ _ _).mpr ⟨_, _, rest, rfl, rfl, asks⟩, rfl⟩
      | @round _ middle _ front read after _ frontMet readMet afterMet asks steps runs =>
        have nonempty := progress asks steps
        have less : (after ++ rest).length < count := by
          have positive := List.length_pos_iff.mpr nonempty
          simp only [List.length_append] at enough positive ⊢
          omega
        refine ⟨true, _, (readsMore _ _ _ _ _).mpr
          ⟨front, frontMet, read ++ (after ++ rest), by simp only [List.append_assoc], rfl, asks⟩,
          ?_⟩
        refine bind_eq_ok_iff.mpr ⟨middle, _, (readsStep _ _ _ _ _ _).mpr
          ⟨read, readMet, after ++ rest, rfl, rfl, steps⟩, ?_⟩
        refine (ih _ _ _ _ less).mpr ⟨after, afterMet, rest, rfl, ?_, runs⟩
        simp only [byteCount_append, Nat.add_assoc, List.append_assoc]

/-- A loop whose rounds each read something does all that it describes. -/
theorem reads_repeatFrom {step : σ → Scanner flaw σ} {stepSpec : σ → Spec σ}
    (readsStep : ∀ state, Reads (step state) (stepSpec state))
    (progress : ∀ {state middle asked askedMet read readMet rest},
      moreSpec true asked askedMet (read ++ rest) → stepSpec state middle read readMet rest →
        asked ++ read ≠ [])
    (state : σ) :
    Reads (repeatFrom more step state) (Runs moreSpec stepSpec state) :=
  fun text offset names last cursor =>
    rounds_eq_ok_iff readsMore readsStep progress (text.length + 1)
      state last text offset names cursor (Nat.lt_succ_self _)

end Loops

/-! ### Series of items -/

/-- What reading items one after the other does. -/
inductive Series (more : Spec Bool) (item : Spec α) : Spec (List α)
  | stop {consumed rest : List Char} {met : List ClassName} :
      more false consumed met rest → Series more item [] consumed met rest
  | next {first : α} {others : List α} {asked read after rest : List Char}
      {askedMet readMet afterMet : List ClassName} :
      more true asked askedMet (read ++ (after ++ rest)) →
      item first read readMet (after ++ rest) →
      Series more item others after afterMet rest →
      Series more item (first :: others) (asked ++ (read ++ after))
        (askedMet ++ (readMet ++ afterMet)) rest

/-- One round of a loop that gathers items. -/
private theorem reads_gather {item : Scanner flaw α} {itemSpec : Spec α}
    (readsItem : Reads item itemSpec) (done : List α) :
    Reads (do return done ++ [← item]) fun gathered consumed met rest =>
      ∃ value, gathered = done ++ [value] ∧ itemSpec value consumed met rest := by
  exact readsItem.map fun value => done ++ [value]

private theorem runs_gather_iff {moreSpec : Spec Bool} {itemSpec : Spec α} {done gathered : List α}
    {consumed rest : List Char} {met : List ClassName} :
    Runs moreSpec (fun done gathered consumed met rest =>
        ∃ value, gathered = done ++ [value] ∧ itemSpec value consumed met rest)
        done gathered consumed met rest ↔
      ∃ items, gathered = done ++ items ∧ Series moreSpec itemSpec items consumed met rest := by
  constructor
  · intro runs
    induction runs with
    | stop asks => exact ⟨[], (List.append_nil _).symm, .stop asks⟩
    | round asks steps _ ih =>
      obtain ⟨value, rfl, holds⟩ := steps
      obtain ⟨items, rfl, series⟩ := ih
      exact ⟨value :: items, List.append_assoc _ _ _, .next asks holds series⟩
  · rintro ⟨items, rfl, series⟩
    induction series generalizing done with
    | stop asks =>
      rw [List.append_nil]
      exact .stop asks
    | @next value others _ _ _ _ _ _ _ asks holds _ ih =>
      have regroup : done ++ value :: others = done ++ [value] ++ others := by
        rw [List.append_assoc, List.singleton_append]
      rw [regroup]
      exact .round asks ⟨value, rfl, holds⟩ ih

/-- Reading items as long as there are more, if every round takes at least a character. -/
theorem reads_many {more : Scanner flaw Bool} {moreSpec : Spec Bool} {item : Scanner flaw α}
    {itemSpec : Spec α} (readsMore : Reads more moreSpec) (readsItem : Reads item itemSpec)
    (progress : ∀ {value asked askedMet read readMet rest},
      moreSpec true asked askedMet (read ++ rest) → itemSpec value read readMet rest →
        asked ++ read ≠ []) :
    Reads (many more item) (Series moreSpec itemSpec) := by
  refine (reads_repeatFrom readsMore (reads_gather readsItem) ?_ []).congr fun _ _ _ _ => ?_
  · rintro _ _ _ _ _ _ _ asks ⟨_, _, holds⟩
    exact progress asks holds
  · rw [runs_gather_iff]
    simp only [List.nil_append, exists_eq_left']

/-- What each of the items requires of the text behind it. -/
def Followed (chars : α → List Char) (follow : α → List Char → Prop) (rest : List Char) :
    List α → Prop
  | [] => True
  | value :: others =>
    follow value (others.flatMap chars ++ rest) ∧ Followed chars follow rest others

/-- **A series is written item by item.** Each item has the same mark before it, and what ends the
series stands behind the last one. -/
theorem series_iff {more : Spec Bool} {good : α → Prop} {chars : α → List Char}
    {names : α → List ClassName} {follow : α → List Char → Prop} (mark : List Char)
    (goesOn : List Char → Prop)
    (meaning : ∀ {asked met rest}, more true asked met rest ↔ asked = mark ∧ met = [] ∧ goesOn rest)
    (begins : ∀ {value} rest, good value → goesOn (chars value ++ rest))
    {items : List α} {consumed rest : List Char} {met : List ClassName} :
    Series more (Exactly good chars names follow) items consumed met rest ↔
      (∀ value ∈ items, good value) ∧ ∃ stop stopMet, more false stop stopMet rest ∧
        consumed = items.flatMap (fun value => mark ++ chars value) ++ stop ∧
        met = items.flatMap names ++ stopMet ∧
        Followed (fun value => mark ++ chars value) follow (stop ++ rest) items := by
  constructor
  · intro series
    induction series with
    | stop asks =>
      exact ⟨fun _ absent => absurd absent List.not_mem_nil, _, _, asks, rfl, rfl, trivial⟩
    | next asks holds _ ih =>
      obtain ⟨rfl, rfl, _⟩ := meaning.mp asks
      obtain ⟨fine, rfl, rfl, follows⟩ := holds
      obtain ⟨others, stop, stopMet, stops, rfl, rfl, followed⟩ := ih
      refine ⟨List.forall_mem_cons.mpr ⟨fine, others⟩, stop, stopMet, stops, ?_, ?_, ?_, followed⟩
      · simp only [List.flatMap_cons, List.append_assoc]
      · simp only [List.flatMap_cons, List.append_assoc, List.nil_append]
      · rw [← List.append_assoc]
        exact follows
  · rintro ⟨fine, stop, stopMet, stops, rfl, rfl, followed⟩
    induction items with
    | nil => exact .stop stops
    | cons value others ih =>
      obtain ⟨here, later⟩ := List.forall_mem_cons.mp fine
      have written : (value :: others).flatMap (fun value => mark ++ chars value) ++ stop =
          mark ++ (chars value ++ (others.flatMap (fun value => mark ++ chars value) ++ stop)) := by
        simp only [List.flatMap_cons, List.append_assoc]
      have met : (value :: others).flatMap names ++ stopMet =
          [] ++ (names value ++ (others.flatMap names ++ stopMet)) := by
        simp only [List.flatMap_cons, List.append_assoc, List.nil_append]
      rw [written, met]
      refine .next (meaning.mpr ⟨rfl, rfl, begins _ here⟩)
        ⟨here, rfl, rfl, ?_⟩ (ih later followed.2)
      rw [List.append_assoc]
      exact followed.1

theorem followed_of_trivial {chars : α → List Char} {rest : List Char} {items : List α} :
    Followed chars (fun _ _ => True) rest items := by
  induction items with
  | nil => trivial
  | cons value others ih => exact ⟨trivial, ih⟩

section Many

variable {item : Scanner flaw α} {good : α → Prop} {chars : α → List Char}
  {names : α → List ClassName} {follow : α → List Char → Prop}
  (readsItem : Reads item (Exactly good chars names follow))

include readsItem

/-- Items up to a character that none of them starts with. -/
theorem reads_many_notYet {c : Char}
    (begins : ∀ {value}, good value → ∃ first more, chars value = first :: more ∧ first ≠ c) :
    Reads (many (notYet c) item) (Exactly (fun items => ∀ value ∈ items, good value)
      (fun items => items.flatMap chars ++ [c]) (fun items => items.flatMap names)
      fun items rest => Followed chars follow (c :: rest) items) := by
  refine (reads_many (reads_notYet c) readsItem ?_).congr fun items consumed met rest => ?_
  · rintro value asked askedMet read _ _ _ ⟨fine, rfl, _⟩ empty
    obtain ⟨first, more, written, _⟩ := begins fine
    rw [written] at empty
    cases (List.append_eq_nil_iff.mp empty).2
  · refine (series_iff [] (fun rest => rest.head? ≠ some c) ?_ ?_).trans ?_
    · intro asked met rest
      constructor
      · rintro ⟨rfl, ⟨impossible, _⟩ | ⟨_, rfl, other⟩⟩
        · cases impossible
        · exact ⟨rfl, rfl, other⟩
      · rintro ⟨rfl, rfl, other⟩
        exact ⟨rfl, Or.inr ⟨rfl, rfl, other⟩⟩
    · intro value rest fine
      obtain ⟨first, more, written, other⟩ := begins fine
      rw [written]
      intro same
      cases same
      exact other rfl
    · constructor
      · rintro ⟨fine, stop, stopMet, ⟨rfl, ⟨_, rfl⟩ | ⟨impossible, _⟩⟩, rfl, rfl, followed⟩
        · exact ⟨fine, rfl, List.append_nil _, followed⟩
        · cases impossible
      · rintro ⟨fine, rfl, rfl, followed⟩
        exact ⟨fine, [c], [], ⟨rfl, Or.inl ⟨rfl, rfl⟩⟩, rfl, (List.append_nil _).symm, followed⟩

/-- Items with a mark before each. -/
theorem reads_many_eat {c : Char} :
    Reads (many (eat c) item) (Exactly (fun items => ∀ value ∈ items, good value)
      (fun items => items.flatMap fun value => c :: chars value) (fun items => items.flatMap names)
      fun items rest => rest.head? ≠ some c ∧
        Followed (fun value => c :: chars value) follow rest items) := by
  refine (reads_many (reads_eat c) readsItem ?_).congr fun items consumed met rest => ?_
  · rintro value asked askedMet read _ _ ⟨_, ⟨_, rfl⟩ | ⟨impossible, _⟩⟩ _ empty
    · cases empty
    · cases impossible
  · refine (series_iff [c] (fun _ => True) ?_ (fun _ _ => trivial)).trans ?_
    · intro asked met rest
      constructor
      · rintro ⟨rfl, ⟨_, rfl⟩ | ⟨impossible, _⟩⟩
        · exact ⟨rfl, rfl, trivial⟩
        · cases impossible
      · rintro ⟨rfl, rfl, _⟩
        exact ⟨rfl, Or.inl ⟨rfl, rfl⟩⟩
    · constructor
      · rintro ⟨fine, stop, stopMet, ⟨rfl, ⟨impossible, _⟩ | ⟨_, rfl, other⟩⟩, rfl, rfl, followed⟩
        · cases impossible
        · exact ⟨fine, List.append_nil _, List.append_nil _, other, followed⟩
      · rintro ⟨fine, rfl, rfl, other, followed⟩
        exact ⟨fine, [], [], ⟨rfl, Or.inr ⟨rfl, rfl, other⟩⟩, (List.append_nil _).symm,
          (List.append_nil _).symm, followed⟩

end Many

/-! ### Whole texts -/

/-- Reading a text to its end. -/
theorem whole_start_eq_ok_iff {scan : Scanner flaw α} {spec : Spec α} (reads : Reads scan spec)
    (leftover : String → flaw) {text : List Char} {value : α} {cursor : Cursor} :
    whole leftover scan (.start text) = .ok value cursor ↔
      cursor = ⟨[], byteCount text, cursor.names⟩ ∧ spec value text cursor.names [] := by
  have readsWhole : Reads (whole leftover scan) fun value consumed met rest =>
      spec value consumed met rest ∧ rest = [] := by
    unfold whole
    refine (reads.bind fun tree => Reads.afterLook reads_remaining fun left =>
      Reads.require (reads_pure tree)).congr fun value consumed met rest => ?_
    constructor
    · rintro ⟨_, _, _, _, _, rfl, rfl, holds, ended, rfl, rfl, rfl⟩
      have nothing : rest = [] := List.isEmpty_iff.mp ended
      rw [List.nil_append] at holds
      rw [List.append_nil, List.append_nil]
      exact ⟨holds, nothing⟩
    · rintro ⟨holds, rfl⟩
      exact ⟨value, consumed, met, [], [], (List.append_nil _).symm,
        (List.append_nil _).symm, holds, rfl, rfl, rfl, rfl⟩
  rw [Cursor.start, readsWhole]
  constructor
  · rintro ⟨consumed, met, _, rfl, rfl, holds, rfl⟩
    rw [List.append_nil, Nat.zero_add, List.nil_append]
    exact ⟨rfl, holds⟩
  · rintro ⟨same, holds⟩
    refine ⟨text, cursor.names, [], (List.append_nil _).symm, ?_, holds, rfl⟩
    rw [same, Nat.zero_add, List.nil_append]

/-- What is written in one way is read back from its text, if it may stand at the end of a text. -/
theorem reading_eq_iff {scan : Scanner flaw α} {good : α → Prop} {chars : α → List Char}
    {names : α → List ClassName} {follow : α → List Char → Prop} {text : String}
    {reading : Reading α} {asked : List ClassName} {tree : α}
    (reads : Reads scan (Exactly good chars names follow))
    (ends : ∀ {tree}, good tree → follow tree []) (leftover : String → flaw)
    (onTree : ∀ {found cursor}, whole leftover scan (.start text.toList) = .ok found cursor →
      reading = ⟨cursor.names, .ok found⟩)
    (onFlaw : ∀ {problem cursor}, whole leftover scan (.start text.toList) = .error problem cursor →
      ∃ fault, reading.result = .error fault) :
    reading = ⟨asked, .ok tree⟩ ↔
      good tree ∧ asked = names tree ∧ String.ofList (chars tree) = text := by
  constructor
  · rintro rfl
    cases done : whole leftover scan (.start text.toList) with
    | error problem cursor =>
      obtain ⟨fault, failed⟩ := onFlaw done
      cases failed
    | ok found cursor =>
      cases onTree done
      obtain ⟨_, fine, written, met, _⟩ := (whole_start_eq_ok_iff reads leftover).mp done
      refine ⟨fine, met, ?_⟩
      rw [← written, String.ofList_toList]
  · rintro ⟨fine, rfl, written⟩
    have consumed : text.toList = chars tree := by
      rw [← written, String.toList_ofList]
    have done : whole leftover scan (.start text.toList) =
        .ok tree ⟨[], byteCount text.toList, names tree⟩ :=
      (whole_start_eq_ok_iff reads leftover).mpr ⟨rfl, fine, consumed, rfl, ends fine⟩
    exact onTree done

end Scanner

/-! ### Grammars that say what they read -/

/-- A grammar whose reading and writing are inverse to each other on well-formed trees, and whose
trees stay well-formed when names are replaced by names that may stand in a tree. -/
class LawfulGrammar (τ : Type) [Grammar τ] where
  WellFormed : τ → Prop
  /-- The class names in the order in which they are read. -/
  names : τ → List ClassName
  /-- The class names that may stand in a tree. -/
  Admits : ClassName → Prop
  read_eq_iff : ∀ {text : String} {asked : List ClassName} {tree : τ},
    Grammar.read text = ⟨asked, .ok tree⟩ ↔
      WellFormed tree ∧ asked = names tree ∧ Grammar.write tree = text
  wellFormed_rename : ∀ {renamed : ClassName → Option ClassName} {tree : τ},
    (∀ old new, Admits old → renamed old = some new → Admits new) →
      WellFormed tree → WellFormed (Grammar.rename renamed tree)

namespace Grammar

variable (τ : Type) [Grammar τ] [LawfulGrammar τ]

theorem result_read_eq_ok_iff {text : String} {tree : τ} :
    (read text : Reading τ).result = .ok tree ↔
      LawfulGrammar.WellFormed tree ∧ write tree = text := by
  constructor
  · intro done
    have reading : (read text : Reading τ) = ⟨(read text : Reading τ).names, .ok tree⟩ := by
      rw [← done]
    obtain ⟨fine, _, written⟩ := LawfulGrammar.read_eq_iff.mp reading
    exact ⟨fine, written⟩
  · rintro ⟨fine, written⟩
    rw [LawfulGrammar.read_eq_iff.mpr ⟨fine, rfl, written⟩]

/-- **The texts that pass the check are the written forms of well-formed trees.** -/
theorem check_eq_ok_iff {text : String} :
    check τ text = .ok () ↔ ∃ tree : τ, LawfulGrammar.WellFormed tree ∧ write tree = text := by
  unfold check
  constructor
  · intro passes
    cases done : (read text : Reading τ).result with
    | error fault =>
      rw [done] at passes
      cases passes
    | ok tree => exact ⟨tree, (result_read_eq_ok_iff τ).mp done⟩
  · rintro ⟨tree, holds⟩
    rw [(result_read_eq_ok_iff τ).mpr holds]
    rfl

/-- The written form of a well-formed tree is renamed by renaming the tree. -/
theorem renameText_write (renamed : ClassName → Option ClassName) {tree : τ}
    (fine : LawfulGrammar.WellFormed tree) :
    renameText τ renamed (write tree) = .ok (write (rename renamed tree)) := by
  rw [renameText_eq, (result_read_eq_ok_iff τ).mpr ⟨fine, rfl⟩]
  rfl

/-- A text that passes the check can be renamed, and if the new names may stand in a text of the
grammar, the result passes the check too. -/
theorem renameText_of_check (renamed : ClassName → Option ClassName) {text : String}
    (passes : check τ text = .ok ()) :
    ∃ result, renameText τ renamed text = .ok result ∧
      ((∀ old new, LawfulGrammar.Admits τ old → renamed old = some new →
        LawfulGrammar.Admits τ new) → check τ result = .ok ()) := by
  obtain ⟨tree, fine, rfl⟩ := (check_eq_ok_iff τ).mp passes
  refine ⟨_, renameText_write τ renamed fine, fun admits => ?_⟩
  exact (check_eq_ok_iff τ).mpr
    ⟨rename renamed tree, LawfulGrammar.wellFormed_rename admits fine, rfl⟩

end Grammar

end Renaming

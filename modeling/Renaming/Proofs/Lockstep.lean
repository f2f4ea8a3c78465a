import Mathlib
import Renaming.Signature.Scan

/-!
# Scanners that go the same way

Two scanners go the same way if at every place of a text they read the same characters, ask for the
same names, and then both go on or both break off with the same flaw. Only what they make of the
text may differ. `Scanner.Together` says this of scanners that start where certain names have been
asked for, and `Scanner.Alike` of scanners that may start anywhere; both relate the values that the
scanners end with.

* `Together.bind`, `Alike.bind`: scanners one after the other.
* `Alike.keeping`: what was asked for stays asked for.
* `Silent.andThen`: a scanner that asks for nothing may stand before both.
* `together_rounds`: what one round of a loop keeps, any number of rounds keeps.
* `AlikeIf.bind`: scanners whose values are related only if the names asked for in the end meet a
  condition.

`AskedAfter` says which names are asked for in which order, and it is kept on the way. It holds also
of the names before a flaw.
-/

namespace Renaming

/-! ### The names that are asked for -/

/-- More names are asked for after the given ones: names of classes as they stand in the text, and
names of classes nested in one that was asked for. -/
inductive AskedAfter (before : List ClassName) : List ClassName → Prop
  | nothing : AskedAfter before before
  | outer {asked : List ClassName} {name : ClassName} : AskedAfter before asked →
      Signature.isClassTypeName name.text.toList = true → AskedAfter before (asked ++ [name])
  | nested {asked : List ClassName} {around : ClassName} {part : String} : AskedAfter before asked →
      around ∈ asked → isIdentifier part.toList = true →
      AskedAfter before (asked ++ [around.nested part])

namespace AskedAfter

variable {before middle after : List ClassName}

theorem trans (first : AskedAfter before middle) (second : AskedAfter middle after) :
    AskedAfter before after := by
  induction second with
  | nothing => exact first
  | outer _ fine ih => exact .outer ih fine
  | nested _ asked fine ih => exact .nested ih asked fine

theorem mem (asked : AskedAfter before after) {name : ClassName} (earlier : name ∈ before) :
    name ∈ after := by
  induction asked with
  | nothing => exact earlier
  | outer _ _ ih => exact List.mem_append_left _ ih
  | nested _ _ _ ih => exact List.mem_append_left _ ih

/-- What was asked for before is never taken back. -/
theorem isPrefix (asked : AskedAfter before after) : before <+: after := by
  induction asked with
  | nothing => exact List.prefix_rfl
  | outer _ _ ih => exact ih.trans (List.prefix_append _ _)
  | nested _ _ _ ih => exact ih.trans (List.prefix_append _ _)

end AskedAfter

/-! ### Two scanners that go the same way -/

namespace Scanner

variable {flaw α β γ δ σ τ : Type}

/-- How two scanners end that go the same way: at the same place, having asked for the same names,
with related values or with the same flaw. -/
inductive EndAlike (before : List ClassName) (last : α → β → List ClassName → Prop) :
    EStateM.Result flaw Cursor α → EStateM.Result flaw Cursor β → Prop
  | ok {value : α} {other : β} {cursor : Cursor} : AskedAfter before cursor.names →
      last value other cursor.names → EndAlike before last (.ok value cursor) (.ok other cursor)
  | error {problem : flaw} {cursor : Cursor} : AskedAfter before cursor.names →
      EndAlike before last (.error problem cursor) (.error problem cursor)

/-- An end may be seen from an earlier place, as if the names between had been asked for on the
way. -/
theorem EndAlike.after {before middle : List ClassName} {last : α → β → List ClassName → Prop}
    {result : EStateM.Result flaw Cursor α} {other : EStateM.Result flaw Cursor β}
    (alike : EndAlike middle last result other) (asked : AskedAfter before middle) :
    EndAlike before last result other := by
  cases alike with
  | ok more holds => exact .ok (asked.trans more) holds
  | error more => exact .error (asked.trans more)

theorem EndAlike.imp {before : List ClassName} {last last' : α → β → List ClassName → Prop}
    {result : EStateM.Result flaw Cursor α} {other : EStateM.Result flaw Cursor β}
    (alike : EndAlike before last result other)
    (weaker : ∀ value other names, AskedAfter before names → last value other names →
      last' value other names) : EndAlike before last' result other := by
  cases alike with
  | ok asked holds => exact .ok asked (weaker _ _ _ asked holds)
  | error asked => exact .error asked

/-- Wherever the names asked for so far are as given, the scanners end alike. -/
def Together (given : List ClassName → Prop) (scan : Scanner flaw α) (rewrite : Scanner flaw β)
    (last : α → β → List ClassName → Prop) : Prop :=
  ∀ cursor, given cursor.names → EndAlike cursor.names last (scan cursor) (rewrite cursor)

/-- The scanners end alike everywhere. -/
abbrev Alike (scan : Scanner flaw α) (rewrite : Scanner flaw β) (related : α → β → Prop) : Prop :=
  Together (fun _ => True) scan rewrite fun value other _ => related value other

variable {given : List ClassName → Prop} {scan : Scanner flaw α} {rewrite : Scanner flaw β}
  {next : α → Scanner flaw γ} {next' : β → Scanner flaw δ} {related : α → β → Prop}
  {middle : α → β → List ClassName → Prop} {last : γ → δ → List ClassName → Prop}

/-- **One after the other.** What the first scanners end with is given to the second ones, the names
asked for so far included. -/
theorem Together.bind (first : Together given scan rewrite middle)
    (rest : ∀ value other, Together (middle value other) (next value) (next' other) last) :
    Together given (scan >>= next) (rewrite >>= next') last := by
  intro cursor holds
  have start := first cursor holds
  change EndAlike _ _ (EStateM.bind scan next cursor) (EStateM.bind rewrite next' cursor)
  unfold EStateM.bind
  generalize scan cursor = result at start
  generalize rewrite cursor = result' at start
  cases start with
  | ok asked related => exact (rest _ _ _ related).after asked
  | error asked => exact .error asked

/-- What is known of the values holds whatever is asked for later. -/
theorem Together.under {fact : Prop} {last : α → β → List ClassName → Prop}
    (together : fact → Together given scan rewrite last) :
    Together (fun names => fact ∧ given names) scan rewrite last :=
  fun cursor holds => together holds.1 cursor holds.2

theorem Alike.bind (first : Alike scan rewrite related) {last : γ → δ → Prop}
    (rest : ∀ value other, related value other → Alike (next value) (next' other) last) :
    Alike (scan >>= next) (rewrite >>= next') last :=
  Together.bind first fun value other cursor holds => rest value other holds cursor trivial

/-- A name that was asked for stays one. -/
theorem Alike.keeping (alike : Alike scan rewrite related) (name : ClassName) :
    Together (fun names => name ∈ names) scan rewrite fun value other names =>
      related value other ∧ name ∈ names :=
  fun cursor earlier =>
    (alike cursor trivial).imp fun _ _ _ asked holds => ⟨holds, asked.mem earlier⟩

theorem together_pure {value : α} {other : β} {last : α → β → List ClassName → Prop}
    (holds : ∀ names, given names → last value other names) :
    Together given (pure value : Scanner flaw α) (pure other) last :=
  fun cursor given => .ok .nothing (holds cursor.names given)

/-- Where both break off there are no values to relate. -/
theorem alike_throw (problem : flaw) :
    Alike (throw problem : Scanner flaw α) (throw problem : Scanner flaw β) related :=
  fun _ _ => .error .nothing

/-! #### Scanners that ask for nothing -/

/-- The scanner meets no names. -/
def Silent (scan : Scanner flaw α) : Prop :=
  ∀ cursor, ∃ after : Cursor, after.names = cursor.names ∧
    ((∃ value, scan cursor = .ok value after) ∨ ∃ problem, scan cursor = .error problem after)

theorem silent_pure (value : α) : Silent (pure value : Scanner flaw α) :=
  fun cursor => ⟨cursor, rfl, .inl ⟨value, rfl⟩⟩

theorem silent_throw (problem : flaw) : Silent (throw problem : Scanner flaw α) :=
  fun cursor => ⟨cursor, rfl, .inr ⟨problem, rfl⟩⟩

theorem silent_peek : Silent (peek : Scanner flaw _) := fun cursor => ⟨cursor, rfl, .inl ⟨_, rfl⟩⟩

theorem silent_next : Silent (Scanner.next : Scanner flaw _) :=
  fun cursor => ⟨cursor.advance 1, rfl, .inl ⟨_, rfl⟩⟩

theorem silent_remaining : Silent (remaining : Scanner flaw _) :=
  fun cursor => ⟨cursor, rfl, .inl ⟨_, rfl⟩⟩

theorem silent_offset : Silent (offset : Scanner flaw _) :=
  fun cursor => ⟨cursor, rfl, .inl ⟨_, rfl⟩⟩

theorem silent_takeUntil (stops : List Char) : Silent (takeUntil stops : Scanner flaw _) :=
  fun cursor => ⟨cursor.advance _, rfl, .inl ⟨_, rfl⟩⟩

/-- No name is asked for, whether the character is there or not. -/
theorem silent_eat (c : Char) : Silent (eat c : Scanner flaw _) := by
  intro cursor
  unfold eat
  split
  · exact ⟨cursor.advance 1, rfl, .inl ⟨_, rfl⟩⟩
  · exact ⟨cursor, rfl, .inl ⟨_, rfl⟩⟩

theorem Silent.bind (first : Silent scan) (rest : ∀ value, Silent (next value)) :
    Silent (scan >>= next) := by
  intro cursor
  obtain ⟨middle, same, ⟨value, done⟩ | ⟨problem, failed⟩⟩ := first cursor
  · obtain ⟨after, sameAgain, outcome⟩ := rest value middle
    refine ⟨after, sameAgain.trans same, ?_⟩
    change (∃ _, EStateM.bind scan next cursor = _) ∨ ∃ _, EStateM.bind scan next cursor = _
    rw [EStateM.bind, done]
    exact outcome
  · refine ⟨middle, same, .inr ⟨problem, ?_⟩⟩
    change EStateM.bind scan next cursor = _
    rw [EStateM.bind, failed]

theorem silent_notYet (c : Char) : Silent (notYet c : Scanner flaw _) :=
  (silent_eat c).bind fun _ => silent_pure _

/-- Two scanners that start with the same one. -/
theorem Silent.andThen (silent : Silent scan) {next' : α → Scanner flaw δ}
    (rest : ∀ value, Together given (next value) (next' value) last) :
    Together given (scan >>= next) (scan >>= next') last := by
  have same : Together given scan scan fun value other names => value = other ∧ given names := by
    intro cursor holds
    obtain ⟨after, names, ⟨value, done⟩ | ⟨problem, failed⟩⟩ := silent cursor
    · rw [done]
      exact .ok (names ▸ .nothing) ⟨rfl, names ▸ holds⟩
    · rw [failed]
      exact .error (names ▸ .nothing)
  refine same.bind fun value other => .under fun equal => ?_
  rw [equal]
  exact rest other

/-! #### Loops -/

section Loops

variable {more : Scanner flaw Bool} (silent : Silent more) {step : σ → Scanner flaw σ}
  {step' : τ → Scanner flaw τ} {invariant : σ → τ → List ClassName → Prop}
  (round : ∀ state other, Together (invariant state other) (step state) (step' other) invariant)

include silent round

/-- What one round keeps, any number of rounds keeps. -/
theorem together_rounds (count : Nat) (state : σ) (other : τ) :
    Together (invariant state other) (rounds more step count state) (rounds more step' count other)
      invariant := by
  induction count generalizing state other with
  | zero => exact together_pure fun _ holds => holds
  | succ count ih =>
    refine silent.andThen fun found => ?_
    cases found with
    | true => exact (round state other).bind ih
    | false => exact together_pure fun _ holds => holds

/-- How many rounds are allowed depends on the text that is left, which is the same for both. -/
theorem together_repeatFrom (state : σ) (other : τ) :
    Together (invariant state other) (repeatFrom more step state) (repeatFrom more step' other)
      invariant :=
  fun cursor holds => together_rounds silent round _ state other cursor holds

end Loops

/-! #### Values that are related under a condition -/

/-- The scanners end alike everywhere, and their values are related if the names asked for in the
end meet the condition. -/
abbrev AlikeIf (condition : List ClassName → Prop) (scan : Scanner flaw α)
    (rewrite : Scanner flaw β) (related : α → β → Prop) : Prop :=
  Together (fun _ => True) scan rewrite fun value other names =>
    condition names → related value other

theorem alikeIf_true : AlikeIf (fun _ => True) scan rewrite related ↔ Alike scan rewrite related :=
  ⟨fun alike cursor _ => (alike cursor trivial).imp fun _ _ _ _ holds => holds trivial,
    fun alike cursor _ => (alike cursor trivial).imp fun _ _ _ _ holds _ => holds⟩

section Condition

-- if the names asked for in the end meet the condition, so do those asked for on the way
variable {condition : List ClassName → Prop}
  (backward : ∀ before after, AskedAfter before after → condition after → condition before)

include backward

/-- What is known at the start under the condition may be used in the end. -/
theorem AlikeIf.knowing {fact : Prop}
    (alike : AlikeIf condition scan rewrite fun value other => fact → related value other) :
    Together (fun names => condition names → fact) scan rewrite fun value other names =>
      condition names → related value other :=
  fun cursor start => (alike cursor trivial).imp fun _ _ _ asked holds meets =>
    holds meets (start (backward _ _ asked meets))

/-- The condition is on the names asked for in the end. It goes back to earlier ones (`backward`),
so that the values in between are related as well. -/
theorem AlikeIf.bind {last : γ → δ → Prop} (first : AlikeIf condition scan rewrite related)
    (rest : ∀ value other,
      AlikeIf condition (next value) (next' other) fun x y => related value other → last x y) :
    AlikeIf condition (scan >>= next) (rewrite >>= next') last :=
  Together.bind first fun value other => AlikeIf.knowing backward (rest value other)

/-- What is kept from round to round is that the items so far are related, under the condition. -/
theorem alikeIf_many {more : Scanner flaw Bool} (silent : Silent more)
    (item : AlikeIf condition scan rewrite related) :
    AlikeIf condition (many more scan) (many more rewrite) (List.Forall₂ related) := by
  have round (done : List α) (others : List β) :
      AlikeIf condition (do return done ++ [← scan]) (do return others ++ [← rewrite])
        fun values written => List.Forall₂ related done others →
          List.Forall₂ related values written := by
    refine AlikeIf.bind backward item fun value other => together_pure fun _ _ _ single before => ?_
    exact List.rel_append before (.cons single .nil)
  exact fun cursor _ => together_repeatFrom silent
    (fun done others => AlikeIf.knowing backward (round done others)) [] [] cursor fun _ => .nil

end Condition

theorem alike_many {more : Scanner flaw Bool} (silent : Silent more)
    (item : Alike scan rewrite related) :
    Alike (many more scan) (many more rewrite) (List.Forall₂ related) :=
  alikeIf_true.mp (alikeIf_many (fun _ _ _ meets => meets) silent (alikeIf_true.mpr item))

end Scanner

/-! ### Identifiers, and lists in brackets -/

namespace Signature

open Scanner

theorem silent_expect (c : Char) : Silent (expect c) := by
  refine (silent_eat c).bind fun found => ?_
  cases found with
  | true => exact silent_pure ()
  | false => exact silent_offset.bind fun _ => silent_peek.bind fun _ => silent_throw _

/-- An identifier is no name of a class, so nothing is asked for. -/
theorem silent_identifier (stops : List Char) : Silent (identifier stops) := by
  refine (silent_takeUntil stops).bind fun name => ?_
  by_cases valid : isIdentifier name = true
  · rw [if_pos valid]
    exact silent_pure _
  · rw [if_neg valid]
    exact (silent_throw _).bind fun _ => silent_pure _

theorem silent_typeVariable : Silent typeVariable :=
  (silent_expect 'T').bind fun _ => (silent_identifier [';']).bind fun _ =>
    (silent_expect ';').bind fun _ => silent_pure _

theorem silent_more : Silent more := silent_remaining.bind fun _ => silent_pure _

variable {α β γ δ : Type}

/-- Two scanners that start with an identifier. -/
theorem identifier_andThen {stops : List Char} {given : List ClassName → Prop}
    {next : String → Scan γ} {next' : String → Scan δ} {last : γ → δ → List ClassName → Prop}
    (rest : ∀ part, isIdentifier part.toList = true →
      Together given (next part) (next' part) last) :
    Together given (identifier stops >>= next) (identifier stops >>= next') last := by
  unfold identifier
  rw [bind_assoc, bind_assoc]
  refine (silent_takeUntil stops).andThen fun name => ?_
  by_cases valid : isIdentifier name = true
  · rw [if_pos valid]
    refine rest (String.ofList name) ?_
    rw [String.toList_ofList]
    exact valid
  · rw [if_neg valid]
    exact fun cursor _ => .error .nothing

/-- Either both find a list or none does, and an empty one is the same flaw to both. -/
theorem alikeIf_inBrackets {condition : List ClassName → Prop}
    (backward : ∀ before after, AskedAfter before after → condition after → condition before)
    {item : Scan α} {rewrite : Scan β} {related : α → β → Prop}
    (alike : AlikeIf condition item rewrite related) (onEmpty : SignatureFlaw) :
    AlikeIf condition (inBrackets onEmpty item) (inBrackets onEmpty rewrite)
      (List.Forall₂ related) := by
  refine (silent_eat '<').andThen fun found => ?_
  cases found with
  | false => exact together_pure fun _ _ _ => .nil
  | true =>
    refine silent_peek.andThen fun seen => ?_
    by_cases closed : seen = some '>'
    · simp only [closed, reduceIte]
      exact fun _ _ => .error .nothing
    · simp only [closed, reduceIte]
      exact alikeIf_many backward (silent_notYet '>') alike

theorem alike_inBrackets {item : Scan α} {rewrite : Scan β} {related : α → β → Prop}
    (alike : Alike item rewrite related) (onEmpty : SignatureFlaw) :
    Alike (inBrackets onEmpty item) (inBrackets onEmpty rewrite) (List.Forall₂ related) :=
  alikeIf_true.mp (alikeIf_inBrackets (fun _ _ _ meets => meets) (alikeIf_true.mpr alike) onEmpty)

end Signature

end Renaming

import Renaming.Proofs.Limits
import Renaming.Proofs.OnePass
import Renaming.Proofs.Reading

/-!
# Rewriting signatures without a bound

The scanners of signatures have bounds: a loop makes no more rounds than there are characters, and a
type has so many levels left. The rewriters of `Signature.Unbounded` have none. Their loops go on as
long as there is something to go on with, their rules call each other freely, and how deep they are
in types is a count that they raise on the way in and lower on the way out. A question for a name
may also be met by a fault, which breaks the rewriting off. What a call comes to is the limit of
nesting calls deeper and deeper (`run_eq`), and nothing says that it is ever reached.

`Follows` says that a rewriter follows a scanner that writes while it reads. The scanner moves
forward in the text, and the rewriter comes to the same end, with the same count of levels; only if
a question is met by a fault, it breaks off there.

* `Follows.bind`: one after the other.
* `follows_rounds`: **a loop whose rounds each pass a character follows a loop with a bound.**
* `Follows.advances`: a rewriter that follows a scanner ends.
-/

namespace Renaming

/-- How questions for names are met: each by a naming that may depend on all names asked for
before. -/
abbrev Replies := List ClassName → Naming

/-- The answers, where the replies have one to give. -/
def Replies.answers (replies : Replies) : Answers := fun asked => (replies asked).answer

namespace Signature.Unbounded

open Scanner Endless

/-! ### Rewriters -/

variable {α β σ : Type}

/-- Where a rewriter stands: at a place of the text, and so many levels deep in types. -/
structure Position where
  cursor : Cursor
  depth : Nat

/-- Why a rewriter breaks off: the text has a flaw, or a question was met by a fault. -/
inductive Stop where
  | flaw (flaw : SignatureFlaw)
  | fault (fault : Fault)

/-- A rewriter that may go on forever, which is what `none` stands for. It leaves the position where
it ends or breaks off. -/
abbrev Rewriter := Endless Stop Position

/-- Does what a scanner does. -/
def read (scan : Scan α) : Rewriter α := fun position =>
  match scan position.cursor with
  | .ok value cursor => some (.ok value, ⟨cursor, position.depth⟩)
  | .error flaw cursor => some (.error (.flaw flaw), ⟨cursor, position.depth⟩)

/-- One round of a loop. What comes of the rounds after it is given. -/
def round (more : Rewriter Bool) (step loop : σ → Rewriter σ) (state : σ) : Rewriter σ := do
  if ← more then
    loop (← step state)
  else
    return state

/-- Runs `step` as long as `more` says so. -/
noncomputable def loopFrom (more : Rewriter Bool) (step : σ → Rewriter σ) (state : σ) :
    Rewriter σ :=
  leastFixed (round more step) state

theorem loopFrom_eq (more : Rewriter Bool) (step : σ → Rewriter σ) (state : σ) :
    loopFrom more step state = round more step (loopFrom more step) state := by
  refine leastFixed_eq (fun stages limit approaches state => ?_) state
  refine (Approaches.const more).bind fun goesOn => ?_
  cases goesOn with
  | false => exact .const _
  | true => exact (Approaches.const (step state)).bind approaches

/-- The list of what `item` reads as long as `more` says so. -/
noncomputable def collect (more : Rewriter Bool) (item : Rewriter α) : Rewriter (List α) :=
  loopFrom more (fun done => do return done ++ [← item]) []

/-- A list between angle brackets, if there is one; `items` reads it behind the first bracket. -/
def brackets (onEmpty : SignatureFlaw) (items : Rewriter (List α)) : Rewriter (List α) := do
  if ← read (eat '<') then
    if (← read peek) = some '>' then
      throw (.flaw onEmpty)
    items
  else
    return []

variable (replies : Replies)

/-- Asks for a name. -/
def ask (name : ClassName) : Rewriter (Option ClassName) := fun position =>
  let cursor := { position.cursor with names := position.cursor.names ++ [name] }
  match replies position.cursor.names name with
  | .ok answer => some (.ok answer, ⟨cursor, position.depth⟩)
  | .error fault => some (.error (.fault fault), ⟨cursor, position.depth⟩)

/-! ### Rules that call each other -/

/-- Counts a level before the type is read, and takes the level back however the reading ends. -/
def counted (inner : Rewriter (List Char)) : Rewriter (List Char) := (do
  let position ← get
  if position.depth = maxNesting then
    return .error (.flaw (.tooDeep position.cursor.offset))
  else
    set { position with depth := position.depth + 1 }
    let result ← inner.run
    modify fun position => { position with depth := position.depth - 1 }
    return result : StateT Position Option (Except Stop (List Char)))

/-- A call of one of the rules that call each other. -/
inductive Call where
  | javaType
  | referenceType
  | levelType
  | classType
  | nestedClasses (around : OnePass.OpenClass)
  | nestedClass (around : OnePass.OpenClass)
  | typeArguments
  | argumentsFrom (done : List (List Char))
  | typeArgument

/-- What a call hands back. -/
abbrev Call.Result : Call → Type
  | .nestedClasses _ | .nestedClass _ => OnePass.OpenClass
  | .argumentsFrom _ => List (List Char)
  | _ => List Char

/-- What the rules say, given what each call comes to. -/
def rules (calls : (call : Call) → Rewriter call.Result) : (call : Call) → Rewriter call.Result
  | .javaType => do
    match (← read peek).bind BaseType.ofLetter? with
    | some type =>
      let _ ← read next
      return [type.letter]
    | none => calls .referenceType
  | .referenceType => counted (calls .levelType)
  | .levelType => do
    let seen ← read peek
    if seen = some 'L' then
      calls .classType
    else if seen = some 'T' then
      read OnePass.typeVariable
    else if seen = some '[' then
      read (expect '[')
      return '[' :: (← calls .javaType)
    else
      match seen with
      | some c => throw (.flaw (.unexpected c (← read offset)))
      | none => throw (.flaw .abruptEnd)
  | .classType => do
    read (expect 'L')
    let name ← read (takeUntil ['<', '.', ';'])
    unless isClassTypeName name do
      throw (.flaw (.className (String.ofList name)))
    let name : ClassName := ⟨String.ofList name⟩
    let answer ← ask replies name
    let new := answer.getD name
    let arguments ← calls .typeArguments
    let last ← calls (.nestedClasses ⟨name, new, 'L' :: new.text.toList ++ arguments⟩)
    read (expect ';')
    return last.written ++ [';']
  | .nestedClasses around => do
    if ← read (eat '.') then
      calls (.nestedClasses (← calls (.nestedClass around)))
    else
      return around
  | .nestedClass around => do
    let part ← read (identifier ['<', '.', ';'])
    let old := around.old.nested part
    let answer ← ask replies old
    let arguments ← calls .typeArguments
    let (new, newPart) := match answer with
      | some new => (new, new.partOf around.new)
      | none => (around.new.nested part, part)
    return ⟨old, new, around.written ++ '.' :: newPart.toList ++ arguments⟩
  | .typeArguments => do
    return bracketed (← brackets .emptyArguments (calls (.argumentsFrom []))).flatten
  | .argumentsFrom done => do
    if ← read (notYet '>') then
      calls (.argumentsFrom (done ++ [← calls .typeArgument]))
    else
      return done
  | .typeArgument => do
    let seen ← read peek
    if seen = some '*' then
      read (expect '*')
      return ['*']
    else if seen = some '+' then
      read (expect '+')
      return '+' :: (← calls .referenceType)
    else if seen = some '-' then
      read (expect '-')
      return '-' :: (← calls .referenceType)
    else
      calls .referenceType

/-! ### What calls come to -/

/-- What a call comes to. Nothing bounds how deep the calls are nested. -/
noncomputable def run (call : Call) : Rewriter call.Result := leastFixed (rules replies) call

theorem counted_apply_of_eq {depth : Nat} (full : depth = maxNesting) (inner : Rewriter (List Char))
    (cursor : Cursor) :
    counted inner ⟨cursor, depth⟩ =
      some (.error (.flaw (.tooDeep cursor.offset)), ⟨cursor, depth⟩) := by
  unfold counted
  show (if depth = maxNesting then _ else _ : StateT Position Option _) ⟨cursor, depth⟩ = _
  rw [if_pos full]
  rfl

/-- The level that is counted before is taken back afterwards. -/
theorem counted_apply_of_ne {depth : Nat} (room : depth ≠ maxNesting) (inner : Rewriter (List Char))
    (cursor : Cursor) :
    counted inner ⟨cursor, depth⟩ =
      (inner ⟨cursor, depth + 1⟩).map fun (result, position) =>
        (result, ⟨position.cursor, position.depth - 1⟩) := by
  unfold counted
  show (if depth = maxNesting then _ else _ : StateT Position Option _) ⟨cursor, depth⟩ = _
  rw [if_neg room]
  show (inner ⟨cursor, depth + 1⟩).bind _ = _
  cases inner ⟨cursor, depth + 1⟩ <;> rfl

theorem approaches_counted {stages : Nat → Rewriter (List Char)} {limit : Rewriter (List Char)}
    (approaches : Approaches stages limit) :
    Approaches (fun n => counted (stages n)) (counted limit) := by
  constructor
  · rintro n m ⟨cursor, depth⟩ outcome later done
    by_cases full : depth = maxNesting
    · rw [counted_apply_of_eq full] at done ⊢
      exact done
    · rw [counted_apply_of_ne full] at done ⊢
      obtain ⟨inside, ended, same⟩ := Option.map_eq_some_iff.mp done
      exact Option.map_eq_some_iff.mpr ⟨inside, approaches.stays later ended, same⟩
  · rintro ⟨cursor, depth⟩ outcome
    by_cases full : depth = maxNesting
    · simp only [counted_apply_of_eq full, exists_const]
    · simp only [counted_apply_of_ne full, Option.map_eq_some_iff, approaches.reached]
      constructor
      · rintro ⟨inside, ⟨n, ended⟩, same⟩
        exact ⟨n, inside, ended, same⟩
      · rintro ⟨n, inside, ended, same⟩
        exact ⟨inside, ⟨n, ended⟩, same⟩

theorem approaches_brackets {stages : Nat → Rewriter (List α)} {limit : Rewriter (List α)}
    (onEmpty : SignatureFlaw) (items : Approaches stages limit) :
    Approaches (fun n => brackets onEmpty (stages n)) (brackets onEmpty limit) := by
  refine (Approaches.const _).bind fun goesOn => .ite ?_ (.const _)
  refine (Approaches.const _).bind fun seen => ?_
  exact .ite ((Approaches.const _).bind fun _ => items) items

/-- The rules are put together from calls, so they go along with limits. -/
theorem preservesLimits_rules : PreservesLimits (rules replies) := by
  intro stages limit approaches call
  -- what does not call a rule is the same in all stages
  cases call with
  | javaType =>
    refine (Approaches.const _).bind fun seen => ?_
    cases seen.bind BaseType.ofLetter? with
    | none => exact approaches .referenceType
    | some type => exact .const _
  | referenceType => exact approaches_counted (approaches .levelType)
  | levelType =>
    refine (Approaches.const _).bind fun seen => ?_
    refine .ite (approaches .classType) (.ite (.const _) (.ite ?_ ?_))
    · refine (Approaches.const _).bind fun _ => ?_
      exact (approaches .javaType).bind fun _ => .const _
    · exact .const _
  | classType =>
    refine (Approaches.const _).bind fun _ => (Approaches.const _).bind fun name => ?_
    -- what follows a valid name also stands behind the refusal of an invalid one
    refine .ite ?_ ((Approaches.const _).bind fun _ => ?_)
    all_goals
      refine (Approaches.const _).bind fun answer => ?_
      refine (approaches .typeArguments).bind fun arguments => ?_
      exact (approaches (.nestedClasses _)).bind fun last => .const _
  | nestedClasses around =>
    refine (Approaches.const _).bind fun goesOn => .ite ?_ (.const _)
    exact (approaches (.nestedClass around)).bind fun inner => approaches (.nestedClasses inner)
  | nestedClass around =>
    refine (Approaches.const _).bind fun part => (Approaches.const _).bind fun answer => ?_
    exact (approaches .typeArguments).bind fun arguments => .const _
  | typeArguments =>
    exact (approaches_brackets .emptyArguments (approaches (.argumentsFrom []))).bind
      fun _ => .const _
  | argumentsFrom done =>
    refine (Approaches.const _).bind fun goesOn => .ite ?_ (.const _)
    exact (approaches .typeArgument).bind fun item => approaches (.argumentsFrom (done ++ [item]))
  | typeArgument =>
    have marked (c : Char) : Approaches
        (fun n => do read (expect c); return c :: (← stages n .referenceType))
        (do read (expect c); return c :: (← limit .referenceType) : Rewriter (List Char)) :=
      (Approaches.const _).bind fun _ => (approaches .referenceType).bind fun _ => .const _
    refine (Approaches.const _).bind fun seen => ?_
    exact .ite (.const _) (.ite (marked '+') (.ite (marked '-') (approaches .referenceType)))

/-- **What a call comes to is what its rule says**, with what its own calls come to. -/
theorem run_eq (call : Call) : run replies call = rules replies (run replies) call :=
  leastFixed_eq (preservesLimits_rules replies) call

noncomputable def javaType : Rewriter (List Char) := run replies .javaType

noncomputable def referenceType : Rewriter (List Char) := run replies .referenceType

noncomputable def levelType : Rewriter (List Char) := run replies .levelType

noncomputable def classType : Rewriter (List Char) := run replies .classType

/-- Goes on as long as there is a class nested in the one before. -/
noncomputable def nestedClasses (around : OnePass.OpenClass) : Rewriter OnePass.OpenClass :=
  run replies (.nestedClasses around)

noncomputable def nestedClass (around : OnePass.OpenClass) : Rewriter OnePass.OpenClass :=
  run replies (.nestedClass around)

noncomputable def typeArguments : Rewriter (List Char) := run replies .typeArguments

/-- Goes on up to the closing bracket. -/
noncomputable def argumentsFrom (done : List (List Char)) : Rewriter (List (List Char)) :=
  run replies (.argumentsFrom done)

noncomputable def typeArgument : Rewriter (List Char) := run replies .typeArgument

/-! ### Rules outside of types -/

noncomputable def classBound : Rewriter (List Char) := do
  let seen ← read peek
  if seen = some 'L' ∨ seen = some 'T' ∨ seen = some '[' then
    referenceType replies
  else
    return []

noncomputable def typeParameter : Rewriter (List Char) := do
  let name ← read (identifier [':'])
  read (expect ':')
  let classBound ← classBound replies
  let interfaceBounds ← collect (read (eat ':')) (referenceType replies)
  return name.toList ++ ':' :: classBound ++ interfaceBounds.flatMap fun bound => ':' :: bound

noncomputable def typeParameters : Rewriter (List Char) := do
  let parameters ← brackets .emptyParameters (collect (read (notYet '>')) (typeParameter replies))
  return bracketed parameters.flatten

noncomputable def classSig : Rewriter (List Char) := do
  let typeParameters ← typeParameters replies
  let superClass ← classType replies
  let interfaces ← collect (read more) (classType replies)
  return typeParameters ++ superClass ++ interfaces.flatten

noncomputable def parameterType : Rewriter (List Char) := do
  if (← read remaining).isEmpty then
    throw (.flaw .unclosedParameterList)
  javaType replies

noncomputable def resultType : Rewriter (List Char) := do
  if ← read (eat 'V') then
    return ['V']
  else
    javaType replies

noncomputable def thrownType : Rewriter (List Char) := do
  let seen ← read peek
  if seen = some 'T' then
    read OnePass.typeVariable
  else
    classType replies

noncomputable def methodSig : Rewriter (List Char) := do
  let typeParameters ← typeParameters replies
  read (expect '(')
  let parameters ← collect (read (notYet ')')) (parameterType replies)
  let result ← resultType replies
  let thrown ← collect (read (eat '^')) (thrownType replies)
  return typeParameters ++ '(' :: parameters.flatten ++ [')'] ++ result ++
    thrown.flatMap fun type => '^' :: type

/-- Rewrites a whole text from its start. -/
def whole (rewrite : Rewriter α) : Rewriter α := do
  let written ← rewrite
  let rest ← read remaining
  unless rest.isEmpty do
    throw (.flaw (.leftover (String.ofList rest)))
  return written

end Signature.Unbounded

/-! ### Moving forward -/

/-- The cursor behind the passed characters of the text. Which names have been met is left open. -/
structure Cursor.Moves (before : Cursor) (passed : List Char) (after : Cursor) : Prop where
  rest : before.rest = passed ++ after.rest
  offset : after.offset = before.offset + byteCount passed

namespace Cursor

variable {before middle after : Cursor} {passed further : List Char}

theorem Moves.refl (cursor : Cursor) : cursor.Moves [] cursor := ⟨rfl, rfl⟩

theorem Moves.trans (first : before.Moves passed middle) (second : middle.Moves further after) :
    before.Moves (passed ++ further) after := by
  refine ⟨?_, ?_⟩
  · rw [first.rest, second.rest, List.append_assoc]
  · rw [second.offset, first.offset, byteCount_append, Nat.add_assoc]

theorem moves_advance (cursor : Cursor) (count : Nat) :
    cursor.Moves (cursor.rest.take count) (cursor.advance count) :=
  ⟨(List.take_append_drop count cursor.rest).symm, rfl⟩

/-- What has been passed is no longer to come. -/
theorem Moves.length_rest (moves : before.Moves passed after) :
    before.rest.length = passed.length + after.rest.length := by
  rw [moves.rest, List.length_append]

end Cursor

namespace Signature.Unbounded

open Scanner Endless

variable {α β σ : Type}

/-! ### Following a scanner -/

/-- All questions up to the given ones were met by an answer. -/
inductive Answered (replies : Replies) (before : List ClassName) : List ClassName → Prop
  | nothing : Answered replies before before
  | more {asked : List ClassName} {name : ClassName} {answer : Option ClassName} :
      Answered replies before asked → replies asked name = .ok answer →
        Answered replies before (asked ++ [name])

theorem Answered.trans {replies : Replies} {before middle after : List ClassName}
    (first : Answered replies before middle) (second : Answered replies middle after) :
    Answered replies before after := by
  induction second with
  | nothing => exact first
  | more _ reply ih => exact .more ih reply

/-- If replies do not depend on what was asked before, they answer each name. -/
theorem Answered.replied {naming : Naming} {asked : List ClassName}
    (answered : Answered (fun _ => naming) [] asked) :
    ∀ name ∈ asked, ∃ answer, naming name = .ok answer := by
  induction answered with
  | nothing => exact nofun
  | more _ reply ih =>
    exact List.forall_mem_append.mpr ⟨ih, List.forall_mem_singleton.mpr ⟨_, reply⟩⟩

/-- The cursor that a scanner leaves, also when it fails. -/
def left : EStateM.Result SignatureFlaw Cursor α → Cursor
  | .ok _ cursor => cursor
  | .error _ cursor => cursor

/-- The scanner has moved forward and has forgotten no name. If it succeeds, its value is as
required for the characters it has passed. -/
inductive Forward (before : Cursor) (last : α → List Char → Prop) :
    EStateM.Result SignatureFlaw Cursor α → Prop
  | ok {value : α} {passed : List Char} {after : Cursor} : before.Moves passed after →
      before.names <+: after.names → last value passed → Forward before last (.ok value after)
  | error {flaw : SignatureFlaw} {passed : List Char} {after : Cursor} : before.Moves passed after →
      before.names <+: after.names → Forward before last (.error flaw after)

/-- How a rewriter ends that starts with the scanner, the given number of levels deep: where the
scanner ends and as many levels deep if all questions are answered, and else at the first one that
is met by a fault. -/
inductive Ends (replies : Replies) (depth : Nat) (before : Cursor) :
    EStateM.Result SignatureFlaw Cursor α → Option (Except Stop α × Position) → Prop
  | ok {value : α} {after : Cursor} : Answered replies before.names after.names →
      Ends replies depth before (.ok value after) (some (.ok value, ⟨after, depth⟩))
  | flaw {flaw : SignatureFlaw} {after : Cursor} : Answered replies before.names after.names →
      Ends replies depth before (.error flaw after) (some (.error (.flaw flaw), ⟨after, depth⟩))
  | fault {result : EStateM.Result SignatureFlaw Cursor α} {fault : Fault} {passed : List Char}
      {after : Cursor} {asked : List ClassName} {name : ClassName} : before.Moves passed after →
      Answered replies before.names asked → replies asked name = .error fault →
      after.names = asked ++ [name] → after.names <+: (left result).names →
      Ends replies depth before result (some (.error (.fault fault), ⟨after, depth⟩))

/-- From the cursor, the scanner moves forward and the rewriter follows it. -/
structure Follows (replies : Replies) (depth : Nat) (cursor : Cursor) (scan : Scan α)
    (rewrite : Rewriter α) (last : α → List Char → Prop) : Prop where
  forward : Forward cursor last (scan cursor)
  ends : Ends replies depth cursor (scan cursor) (rewrite ⟨cursor, depth⟩)

theorem Forward.imp {before : Cursor} {last last' : α → List Char → Prop}
    {result : EStateM.Result SignatureFlaw Cursor α} (forward : Forward before last result)
    (weaker : ∀ value passed, last value passed → last' value passed) :
    Forward before last' result := by
  cases forward with
  | ok moves names holds => exact .ok moves names (weaker _ _ holds)
  | error moves names => exact .error moves names

theorem Forward.names {before : Cursor} {last : α → List Char → Prop}
    {result : EStateM.Result SignatureFlaw Cursor α} (forward : Forward before last result) :
    before.names <+: (left result).names := by
  cases forward with
  | ok _ names _ => exact names
  | error _ names => exact names

section Composing

variable {replies : Replies} {depth : Nat} {before cursor : Cursor} {passed : List Char}
  {scan : Scan α} {rewrite : Rewriter α} {middle : α → List Char → Prop}
  {next : α → Scan β} {next' : α → Rewriter β} {last : β → List Char → Prop}

theorem Forward.after {result : EStateM.Result SignatureFlaw Cursor β}
    (forward : Forward cursor (fun value further => last value (passed ++ further)) result)
    (moves : before.Moves passed cursor) (names : before.names <+: cursor.names) :
    Forward before last result := by
  cases forward with
  | ok moves' names' holds => exact .ok (moves.trans moves') (names.trans names') holds
  | error moves' names' => exact .error (moves.trans moves') (names.trans names')

/-- An end may be seen from an earlier place, if all questions in between were answered. -/
theorem Ends.after {result : EStateM.Result SignatureFlaw Cursor β}
    {outcome : Option (Except Stop β × Position)} (ends : Ends replies depth cursor result outcome)
    (moves : before.Moves passed cursor) (answered : Answered replies before.names cursor.names) :
    Ends replies depth before result outcome := by
  cases ends with
  | ok answered' => exact .ok (answered.trans answered')
  | flaw answered' => exact .flaw (answered.trans answered')
  | fault moves' answered' reply names within =>
    exact .fault (moves.trans moves') (answered.trans answered') reply names within

/-- **One after the other.** The second rewriter has to follow the second scanner from wherever the
first scanner may have come to. -/
theorem Follows.bind (first : Follows replies depth cursor scan rewrite middle)
    (rest : ∀ value passed after, cursor.Moves passed after → middle value passed →
      Follows replies depth after (next value) (next' value)
        fun value further => last value (passed ++ further)) :
    Follows replies depth cursor (scan >>= next) (rewrite >>= next') last := by
  obtain ⟨forward, ends⟩ := first
  suffices both : Forward cursor last (EStateM.bind scan next cursor) ∧
      Ends replies depth cursor (EStateM.bind scan next cursor)
        ((rewrite >>= next') ⟨cursor, depth⟩) from
    ⟨both.1, both.2⟩
  unfold EStateM.bind
  generalize scan cursor = result at forward ends
  generalize done : rewrite ⟨cursor, depth⟩ = outcome at ends
  cases forward with
  | ok moves names holds =>
    have continued := rest _ _ _ moves holds
    refine ⟨continued.forward.after moves names, ?_⟩
    cases ends with
    | ok answered =>
      rw [bind_apply_of_ok done]
      exact continued.ends.after moves answered
    | fault moves' answered reply asked within =>
      -- The rewriter has broken off, and the scanners read on alone. They forget no name.
      rw [bind_apply_of_error done]
      exact .fault moves' answered reply asked (within.trans continued.forward.names)
  | error moves names =>
    refine ⟨.error moves names, ?_⟩
    cases ends with
    | flaw answered =>
      rw [bind_apply_of_error done]
      exact .flaw answered
    | fault moves' answered reply asked within =>
      rw [bind_apply_of_error done]
      exact .fault moves' answered reply asked within

theorem Follows.imp {last' : α → List Char → Prop}
    (follows : Follows replies depth cursor scan rewrite middle)
    (weaker : ∀ value passed, middle value passed → last' value passed) :
    Follows replies depth cursor scan rewrite last' :=
  ⟨follows.forward.imp weaker, follows.ends⟩

/-- **A rewriter that follows a scanner ends**, further right and as many levels deep as it started.
It does what the scanner does unless a question is met by a fault. -/
theorem Follows.advances (follows : Follows replies depth cursor scan rewrite middle) :
    ∃ result after passed, rewrite ⟨cursor, depth⟩ = some (result, ⟨after, depth⟩) ∧
      cursor.Moves passed after ∧
      (∀ value, result = .ok value → scan cursor = .ok value after ∧ middle value passed) ∧
      (∀ flaw, result = .error (.flaw flaw) → scan cursor = .error flaw after) ∧
      ∀ fault, result = .error (.fault fault) →
        ∃ asked name, after.names = asked ++ [name] ∧ replies asked name = .error fault := by
  obtain ⟨forward, ends⟩ := follows
  generalize scan cursor = result at forward ends
  generalize rewrite ⟨cursor, depth⟩ = outcome at ends
  cases ends with
  | ok _ =>
    cases forward with
    | ok moves _ holds =>
      refine ⟨_, _, _, rfl, moves, fun _ same => ?_, nofun, nofun⟩
      rw [← Except.ok.inj same]
      exact ⟨rfl, holds⟩
  | flaw _ =>
    cases forward with
    | error moves _ =>
      refine ⟨_, _, _, rfl, moves, nofun, fun _ same => ?_, nofun⟩
      rw [Stop.flaw.inj (Except.error.inj same)]
  | fault moves _ refused asked _ =>
    refine ⟨_, _, _, rfl, moves, nofun, nofun, fun _ same => ⟨_, _, asked, ?_⟩⟩
    rw [refused, Stop.fault.inj (Except.error.inj same)]

/-! ### Reading -/

theorem follows_pure {value : β} (holds : last value []) :
    Follows replies depth cursor (pure value) (pure value) last :=
  ⟨.ok (.refl cursor) List.prefix_rfl holds, .ok .nothing⟩

theorem follows_throw (flaw : SignatureFlaw) :
    Follows replies depth cursor (throw flaw) (throw (.flaw flaw)) last :=
  ⟨.error (.refl cursor) List.prefix_rfl, .flaw .nothing⟩

theorem follows_read {value : α} {after : Cursor} (done : scan cursor = .ok value after)
    (moves : cursor.Moves passed after) (names : after.names = cursor.names)
    (holds : middle value passed) : Follows replies depth cursor scan (read scan) middle := by
  refine ⟨?_, ?_⟩
  · rw [done]
    exact .ok moves (names ▸ List.prefix_rfl) holds
  · rw [read, done]
    exact .ok (names ▸ .nothing)

/-- Reading on is reading one after the other. -/
theorem read_bind (scan : Scan α) (next : α → Scan β) :
    read (scan >>= next) = read scan >>= fun value => read (next value) := by
  funext position
  cases done : scan position.cursor with
  | ok value cursor =>
    have first : read scan position = some (.ok value, ⟨cursor, position.depth⟩) := by
      rw [read, done]
    have both : (scan >>= next) position.cursor = next value cursor := by
      show EStateM.bind scan next position.cursor = _
      rw [EStateM.bind, done]
    rw [bind_apply_of_ok first, read, both]
    rfl
  | error flaw cursor =>
    have first : read scan position = some (.error (.flaw flaw), ⟨cursor, position.depth⟩) := by
      rw [read, done]
    have both : (scan >>= next) position.cursor = .error flaw cursor := by
      show EStateM.bind scan next position.cursor = _
      rw [EStateM.bind, done]
    rw [bind_apply_of_error first, read, both]

theorem follows_peek : Follows replies depth cursor peek (read peek) fun seen passed =>
    seen = cursor.rest.head? ∧ passed = [] :=
  follows_read rfl (.refl cursor) rfl ⟨rfl, rfl⟩

theorem follows_offset :
    Follows replies depth cursor offset (read offset) fun _ passed => passed = [] :=
  follows_read rfl (.refl cursor) rfl rfl

theorem follows_remaining :
    Follows replies depth cursor remaining (read remaining) fun rest passed =>
    rest = cursor.rest ∧ passed = [] :=
  follows_read rfl (.refl cursor) rfl ⟨rfl, rfl⟩

theorem follows_next : Follows replies depth cursor Scanner.next (read Scanner.next) fun _ passed =>
    passed = cursor.rest.take 1 :=
  follows_read rfl (cursor.moves_advance 1) rfl rfl

theorem follows_takeUntil (stops : List Char) :
    Follows replies depth cursor (takeUntil stops) (read (takeUntil stops)) fun _ _ => True :=
  follows_read rfl (cursor.moves_advance _) rfl trivial

theorem follows_eat (c : Char) :
    Follows replies depth cursor (eat c) (read (eat c)) fun found passed =>
    (found = true ↔ cursor.rest.head? = some c) ∧ passed = if found then [c] else [] := by
  by_cases found : cursor.rest.head? = some c
  · refine follows_read (if_pos found) (cursor.moves_advance 1) rfl ⟨iff_of_true rfl found, ?_⟩
    rw [if_pos rfl, List.take_one, found]
    rfl
  · exact follows_read (if_neg found) (.refl cursor)
      rfl ⟨iff_of_false Bool.false_ne_true found, rfl⟩

theorem follows_notYet (c : Char) :
    Follows replies depth cursor (notYet c) (read (notYet c)) fun _ _ => True := by
  unfold notYet
  rw [read_bind]
  exact (follows_eat c).bind fun _ _ _ _ _ => follows_pure trivial

theorem follows_more : Follows replies depth cursor more (read more) fun _ _ => True := by
  unfold more
  rw [read_bind]
  exact follows_remaining.bind fun _ _ _ _ _ => follows_pure trivial

theorem follows_expect (c : Char) :
    Follows replies depth cursor (expect c) (read (expect c)) fun _ passed => passed = [c] := by
  unfold expect
  rw [read_bind]
  refine (follows_eat c).bind fun found passed after _ eaten => ?_
  cases found with
  | true =>
    refine follows_pure ?_
    rw [eaten.2, if_pos rfl, List.append_nil]
  | false =>
    show Follows _ _ _ (offset >>= _) (read (offset >>= _)) _
    rw [read_bind]
    refine follows_offset.bind fun _ _ _ _ _ => ?_
    rw [read_bind]
    exact follows_peek.bind fun _ _ _ _ _ => follows_throw _

theorem follows_identifier (stops : List Char) :
    Follows replies depth cursor (identifier stops) (read (identifier stops)) fun _ _ => True := by
  unfold identifier
  rw [read_bind]
  refine (follows_takeUntil stops).bind fun name _ _ _ _ => ?_
  by_cases valid : isIdentifier name = true
  · rw [if_pos valid]
    exact follows_pure trivial
  · rw [if_neg valid]
    exact follows_throw _

theorem follows_typeVariable :
    Follows replies depth cursor OnePass.typeVariable (read OnePass.typeVariable)
    fun _ passed => passed ≠ [] := by
  unfold OnePass.typeVariable Signature.typeVariable
  simp only [bind_assoc, read_bind]
  refine (follows_expect 'T').bind fun _ _ _ _ letter => ?_
  refine (follows_identifier [';']).bind fun name _ _ _ _ => ?_
  refine (follows_expect ';').bind fun _ _ _ _ _ => follows_pure ?_
  rw [letter]
  exact List.cons_ne_nil _ _

/-- The rewriter may break off at a question, where the scanner goes on. -/
theorem follows_ask (name : ClassName) :
    Follows replies depth cursor (OnePass.ask replies.answers name)
    (ask replies name) fun _ passed => passed = [] := by
  have moves : cursor.Moves [] { cursor with names := cursor.names ++ [name] } := ⟨rfl, rfl⟩
  refine ⟨.ok moves (List.prefix_append _ _) rfl, ?_⟩
  unfold ask OnePass.ask Replies.answers Naming.answer
  cases reply : replies cursor.names name with
  | ok answer => exact .ok (.more .nothing reply)
  | error fault => exact .fault moves .nothing reply rfl List.prefix_rfl

end Composing

/-! ### Loops -/

section Loops

variable {replies : Replies} {depth : Nat} {more : Scan Bool} {step : σ → Scan σ}
  {step' loop : σ → Rewriter σ}

/-- From the cursor, a loop either ends or goes on with a round, which passes a character whatever
the state is. -/
def Rounds (replies : Replies) (depth : Nat) (more : Scan Bool) (step : σ → Scan σ)
    (step' : σ → Rewriter σ) (cursor : Cursor) : Prop :=
  Follows replies depth cursor more (read more) fun goesOn passed => goesOn = true →
    ∀ after state, Follows replies depth after (step state) (step' state) fun _ further =>
      passed ++ further ≠ []

theorem rounds_of_eat {c : Char} {cursor : Cursor}
    (each : ∀ after state, Follows replies depth after (step state) (step' state) fun _ _ => True) :
    Rounds replies depth (eat c) step step' cursor := by
  refine (follows_eat c).imp fun found passed eaten goesOn after state => ?_
  refine (each after state).imp fun _ further _ => ?_
  rw [eaten.2, if_pos goesOn]
  exact List.cons_ne_nil _ _

/-- A round that passes a character by itself, whatever `more` has passed. -/
theorem rounds_of_ne_nil {cursor : Cursor}
    (asks : Follows replies depth cursor more (read more) fun _ _ => True)
    (each : ∀ after state, Follows replies depth after (step state) (step' state) fun _ passed =>
      passed ≠ []) : Rounds replies depth more step step' cursor :=
  asks.imp fun _ _ _ _ after state => (each after state).imp fun _ _ nonempty =>
    List.append_ne_nil_of_right_ne_nil _ nonempty

variable (unfolds : ∀ state,
  loop state = do if ← read more then loop (← step' state) else return state)
  (rounds : ∀ cursor, Rounds replies depth more step step' cursor)

include unfolds rounds

/-- **A loop without a bound follows one with a bound that is large enough.** Each round passes a
character, so there are no more rounds than characters. -/
theorem follows_rounds (count : Nat) (state : σ) (cursor : Cursor)
    (enough : cursor.rest.length < count) :
    Follows replies depth cursor (Scanner.rounds more step count state) (loop state)
      fun _ _ => True := by
  induction count generalizing state cursor with
  | zero => exact absurd enough (Nat.not_lt_zero _)
  | succ count ih =>
    rw [unfolds, Scanner.rounds]
    refine (rounds cursor).bind fun goesOn passed after moves going => ?_
    cases goesOn with
    | false => exact follows_pure trivial
    | true =>
      refine (going rfl after state).bind fun next further later moves' nonempty => ih next later ?_
      -- What is left is shorter than before the round, so the bound is still large enough.
      have length := (moves.trans moves').length_rest
      have positive := List.length_pos_iff.mpr nonempty
      omega

theorem follows_repeatFrom (state : σ) (cursor : Cursor) :
    Follows replies depth cursor (repeatFrom more step state) (loop state) fun _ _ => True := by
  obtain ⟨forward, ends⟩ :=
    follows_rounds unfolds rounds (cursor.rest.length + 1) state cursor (Nat.lt_succ_self _)
  exact ⟨forward, ends⟩

end Loops

section Items

variable {replies : Replies} {depth : Nat} {more : Scan Bool} {item : Scan α} {item' : Rewriter α}

theorem follows_collect (rounds : ∀ cursor, Rounds replies depth more
      (fun done => do return done ++ [← item]) (fun done => do return done ++ [← item']) cursor)
    (cursor : Cursor) :
    Follows replies depth cursor (many more item) (collect (read more) item') fun _ _ => True :=
  follows_repeatFrom (fun state => loopFrom_eq _ _ state) rounds [] cursor

/-- What an item passes, adding it to a list passes. -/
theorem Follows.adding {last : List Char → Prop} {cursor : Cursor}
    (follows : Follows replies depth cursor item item' fun _ passed => last passed)
    (done : List α) :
    Follows replies depth cursor (do return done ++ [← item]) (do return done ++ [← item'])
      fun _ passed => last passed := by
  refine follows.bind fun value passed _ _ holds => follows_pure ?_
  rw [List.append_nil]
  exact holds

/-- A list in brackets is left out if and only if there is no bracket. -/
theorem follows_brackets {items : Rewriter (List α)} (onEmpty : SignatureFlaw)
    (all : ∀ cursor, Follows replies depth cursor (many (notYet '>') item) items fun _ _ => True)
    (cursor : Cursor) :
    Follows replies depth cursor (inBrackets onEmpty item) (brackets onEmpty items) fun _ passed =>
      passed = [] ↔ cursor.rest.head? ≠ some '<' := by
  refine (follows_eat '<').bind fun found passed after _ eaten => ?_
  obtain ⟨met, rfl⟩ := eaten
  cases found with
  | false => exact follows_pure (iff_of_true rfl fun opened => Bool.false_ne_true (met.mpr opened))
  | true =>
    refine follows_peek.bind fun seen _ _ _ _ => ?_
    by_cases empty : seen = some '>'
    · rw [if_pos empty, if_pos empty]
      exact follows_throw onEmpty
    · rw [if_neg empty, if_neg empty]
      exact (all _).imp fun _ _ _ =>
        iff_of_false (List.cons_ne_nil _ _) (not_not_intro (met.mp rfl))

end Items

end Signature.Unbounded

end Renaming

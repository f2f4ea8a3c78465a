import Renaming.Proofs.UnboundedRewriting

/-!
# Signatures are read to an end

The rules of signatures call each other, and their loops go on until a certain character comes. They
end on every text, however malformed, since each rule that succeeds has passed at least one
character; only type arguments and type parameters may be left out. This is shown of the rewriters
without a bound (`Signature.Unbounded`), rule by rule, by following the scanners that have one.

* `follows_referenceType`: the count of levels goes up and down with the levels that are left.
* `SignatureKind.rewriteUnbounded_eq`: **without any bound, a signature is renamed as it is after
  reading**, also by a naming that may be at fault.
* `Rule.exists_follows`: at every place and every level, each rule follows its scanner.
-/

namespace Renaming

namespace Signature.Unbounded

open Scanner

/-! ### Each symbol of the grammar -/

section Level

variable {replies : Replies} {depth : Nat} {scan : Scan (List Char)}
  (reference : ∀ cursor, Follows replies depth cursor scan (referenceType replies) fun _ passed =>
    passed ≠ [])

include reference

theorem follows_javaType (cursor : Cursor) :
    Follows replies depth cursor (OnePass.javaType scan) (javaType replies) fun _ passed =>
      passed ≠ [] := by
  rw [javaType, run_eq, rules]
  refine follows_peek.bind fun seen passed after moves looked => ?_
  obtain ⟨rfl, rfl⟩ := looked
  cases base : cursor.rest.head?.bind BaseType.ofLetter? with
  | none => exact reference after
  | some type =>
    refine follows_next.bind fun _ taken _ _ one => follows_pure ?_
    have same : cursor.rest = after.rest := moves.rest
    rw [one, ← same]
    cases text : cursor.rest with
    | nil =>
      rw [text] at base
      cases base
    | cons c rest => exact List.cons_ne_nil _ _

theorem follows_typeArgument (cursor : Cursor) :
    Follows replies depth cursor (OnePass.typeArgument scan) (typeArgument replies) fun _ passed =>
      passed ≠ [] := by
  rw [typeArgument, run_eq, rules]
  refine follows_peek.bind fun seen passed after _ looked => ?_
  have marked (c : Char) : Follows replies depth after (do expect c; return c :: (← scan))
      (do read (expect c); return c :: (← referenceType replies))
      fun _ further => passed ++ further ≠ [] := by
    refine (follows_expect c).bind fun _ mark later _ isMark => ?_
    refine (reference later).bind fun _ _ _ _ nonempty => follows_pure ?_
    simp [isMark]
  by_cases any : seen = some '*'
  · rw [if_pos any, if_pos any]
    refine (follows_expect '*').bind fun _ mark _ _ isMark => follows_pure ?_
    simp [isMark]
  · rw [if_neg any, if_neg any]
    by_cases extending : seen = some '+'
    · rw [if_pos extending, if_pos extending]
      exact marked '+'
    · rw [if_neg extending, if_neg extending]
      by_cases superOf : seen = some '-'
      · rw [if_pos superOf, if_pos superOf]
        exact marked '-'
      · rw [if_neg superOf, if_neg superOf, looked.2]
        exact reference after

theorem follows_argumentsFrom (cursor : Cursor) :
    Follows replies depth cursor (many (notYet '>') (OnePass.typeArgument scan))
      (argumentsFrom replies []) fun _ _ => True := by
  have rounds (cursor : Cursor) : Rounds replies depth (notYet '>')
      (fun done => do return done ++ [← OnePass.typeArgument scan])
      (fun done => do return done ++ [← typeArgument replies]) cursor :=
    rounds_of_ne_nil (follows_notYet '>') fun after done =>
      (follows_typeArgument reference after).adding done
  refine follows_repeatFrom (fun done => ?_) rounds [] cursor
  rw [argumentsFrom, run_eq, rules]
  simp only [bind_assoc, pure_bind]
  rfl

/-- This is the only rule for types that may pass no character. -/
theorem follows_typeArguments (cursor : Cursor) :
    Follows replies depth cursor (OnePass.typeArguments scan) (typeArguments replies)
      fun _ passed => passed = [] ↔ cursor.rest.head? ≠ some '<' := by
  rw [typeArguments, run_eq, rules]
  refine (follows_brackets .emptyArguments (follows_argumentsFrom reference) cursor).bind
    fun _ passed _ _ left => follows_pure ?_
  rw [List.append_nil]
  exact left

theorem follows_nestedClass (around : OnePass.OpenClass) (cursor : Cursor) :
    Follows replies depth cursor (OnePass.nestedClass replies.answers scan around)
      (nestedClass replies around) fun _ _ => True := by
  rw [nestedClass, run_eq, rules]
  refine (follows_identifier ['<', '.', ';']).bind fun part _ _ _ _ => ?_
  refine (follows_ask (around.old.nested part)).bind fun answer _ _ _ _ => ?_
  exact (follows_typeArguments reference _).bind fun arguments _ _ _ _ => follows_pure trivial

/-- Each round passes at least the dot, so the loop ends. -/
theorem follows_nestedClasses (around : OnePass.OpenClass) (cursor : Cursor) :
    Follows replies depth cursor
      (repeatFrom (eat '.') (OnePass.nestedClass replies.answers scan) around)
      (nestedClasses replies around) fun _ _ => True := by
  have rounds (cursor : Cursor) : Rounds replies depth (eat '.')
      (OnePass.nestedClass replies.answers scan) (nestedClass replies) cursor :=
    rounds_of_eat fun after around => follows_nestedClass reference around after
  exact follows_repeatFrom (fun around => run_eq replies (.nestedClasses around))
    rounds around cursor

theorem follows_classType (cursor : Cursor) :
    Follows replies depth cursor (OnePass.classType replies.answers scan) (classType replies)
      fun _ passed => passed ≠ [] := by
  rw [classType, run_eq, rules]
  refine (follows_expect 'L').bind fun _ letter _ _ isLetter => ?_
  refine (follows_takeUntil ['<', '.', ';']).bind fun name _ _ _ _ => ?_
  by_cases valid : isClassTypeName name = true
  · rw [if_pos valid, if_pos valid]
    refine (follows_ask ⟨String.ofList name⟩).bind fun answer _ _ _ _ => ?_
    refine (follows_typeArguments reference _).bind fun arguments _ _ _ _ => ?_
    refine (follows_nestedClasses reference _ _).bind fun last _ _ _ _ => ?_
    refine (follows_expect ';').bind fun _ _ _ _ _ => follows_pure ?_
    rw [isLetter]
    exact List.cons_ne_nil _ _
  · rw [if_neg valid, if_neg valid]
    exact (follows_throw _).bind fun _ _ _ _ impossible => False.elim impossible

end Level

/-! ### Levels -/

section Levels

variable {α : Type} {replies : Replies}

theorem follows_levelType {levels depth : Nat}
    (inner : ∀ cursor, Follows replies depth cursor (OnePass.referenceType replies.answers levels)
      (referenceType replies) fun _ passed => passed ≠ []) (cursor : Cursor) :
    Follows replies depth cursor (OnePass.referenceType replies.answers (levels + 1))
      (levelType replies) fun _ passed => passed ≠ [] := by
  rw [levelType, run_eq, rules, OnePass.referenceType]
  refine follows_peek.bind fun seen passed after _ looked => ?_
  obtain ⟨_, rfl⟩ := looked
  by_cases isClass : seen = some 'L'
  · rw [if_pos isClass, if_pos isClass]
    exact follows_classType inner after
  · rw [if_neg isClass, if_neg isClass]
    by_cases isVariable : seen = some 'T'
    · rw [if_pos isVariable, if_pos isVariable]
      exact follows_typeVariable
    · rw [if_neg isVariable, if_neg isVariable]
      by_cases isArray : seen = some '['
      · rw [if_pos isArray, if_pos isArray]
        refine (follows_expect '[').bind fun _ mark later _ isMark => ?_
        refine (follows_javaType inner later).bind fun _ _ _ _ _ => follows_pure ?_
        simp [isMark]
      · rw [if_neg isArray, if_neg isArray]
        cases seen with
        | some c => exact follows_offset.bind fun _ _ _ _ _ => follows_throw _
        | none => exact follows_throw _

/-- An end one level deeper, with that level taken back. -/
theorem Ends.outward {depth : Nat} {before : Cursor}
    {result : EStateM.Result SignatureFlaw Cursor α}
    {outcome : Option (Except Stop α × Position)}
    (ends : Ends replies (depth + 1) before result outcome) :
    Ends replies depth before result
      (outcome.map fun (result, position) => (result, ⟨position.cursor, position.depth - 1⟩)) := by
  cases ends with
  | ok answered => exact .ok answered
  | flaw answered => exact .flaw answered
  | fault moves answered reply names within => exact .fault moves answered reply names within

/-- **The levels that are counted and the levels that are left add up.** So the rewriter breaks off
where the scanner does, and it comes back with the count it started with. -/
theorem follows_referenceType (levels : Nat) {depth : Nat} (deep : depth + levels = maxNesting)
    (cursor : Cursor) :
    Follows replies depth cursor (OnePass.referenceType replies.answers levels)
      (referenceType replies) fun _ passed => passed ≠ [] := by
  induction levels generalizing depth cursor with
  | zero =>
    refine ⟨.error (.refl cursor) List.prefix_rfl, ?_⟩
    rw [referenceType, run_eq, rules, counted_apply_of_eq (show depth = maxNesting from deep)]
    exact .flaw .nothing
  | succ levels ih =>
    have inner (cursor : Cursor) := ih (Nat.succ_add_eq_add_succ depth levels ▸ deep) cursor
    have level := follows_levelType inner cursor
    refine ⟨level.forward, ?_⟩
    rw [referenceType, run_eq, rules, counted_apply_of_ne (by omega)]
    exact level.ends.outward

end Levels

/-! ### Type parameters

Type parameters stand outside of all types. Their rewriters may still be started at any level, so
the scanners they follow take that of reference types. With all levels left these are the scanners
of `OnePass`. -/

/-- Reads the bound of a type parameter that is a class, if there is one. -/
def classBoundOf (reference : Scan (List Char)) : Scan (List Char) := do
  let seen ← peek
  if seen = some 'L' ∨ seen = some 'T' ∨ seen = some '[' then
    reference
  else
    return []

def typeParameterOf (reference : Scan (List Char)) : Scan (List Char) := do
  let name ← identifier [':']
  expect ':'
  let classBound ← classBoundOf reference
  let interfaceBounds ← many (eat ':') reference
  return name.toList ++ ':' :: classBound ++ interfaceBounds.flatMap fun bound => ':' :: bound

def typeParametersOf (reference : Scan (List Char)) : Scan (List Char) := do
  let parameters ← inBrackets .emptyParameters (typeParameterOf reference)
  return bracketed parameters.flatten

section Parameters

variable {replies : Replies} {depth : Nat} {scan : Scan (List Char)}
  (reference : ∀ cursor, Follows replies depth cursor scan (referenceType replies) fun _ passed =>
    passed ≠ [])

include reference

theorem follows_classBound (cursor : Cursor) :
    Follows replies depth cursor (classBoundOf scan) (classBound replies) fun _ _ => True := by
  refine follows_peek.bind fun seen _ after _ _ => ?_
  by_cases bounded : seen = some 'L' ∨ seen = some 'T' ∨ seen = some '['
  · rw [if_pos bounded, if_pos bounded]
    exact (reference after).imp fun _ _ _ => trivial
  · rw [if_neg bounded, if_neg bounded]
    exact follows_pure trivial

/-- At least the colon behind its name is passed. -/
theorem follows_typeParameter (cursor : Cursor) :
    Follows replies depth cursor (typeParameterOf scan) (typeParameter replies) fun _ passed =>
      passed ≠ [] := by
  refine (follows_identifier [':']).bind fun name _ _ _ _ => ?_
  refine (follows_expect ':').bind fun _ mark _ _ isMark => ?_
  refine (follows_classBound reference _).bind fun bound _ _ _ _ => ?_
  refine (follows_collect (fun cursor => rounds_of_eat fun after done => ?_) _).bind
    fun bounds _ _ _ _ => follows_pure ?_
  · exact ((reference after).imp fun _ _ _ => trivial).adding done
  · simp [isMark]

theorem follows_typeParameters (cursor : Cursor) :
    Follows replies depth cursor (typeParametersOf scan) (typeParameters replies) fun _ passed =>
      passed = [] ↔ cursor.rest.head? ≠ some '<' := by
  have all := follows_collect fun cursor => rounds_of_ne_nil (follows_notYet '>') fun after done =>
    (follows_typeParameter reference after).adding done
  refine (follows_brackets .emptyParameters all cursor).bind fun _ passed _ _ left =>
    follows_pure ?_
  rw [List.append_nil]
  exact left

end Parameters

/-! ### Whole signatures -/

section Signatures

variable {replies : Replies} {scan : Scan (List Char)} {rewrite : Rewriter (List Char)}

theorem follows_reference (cursor : Cursor) :
    Follows replies 0 cursor (OnePass.reference replies.answers) (referenceType replies)
      fun _ passed => passed ≠ [] :=
  follows_referenceType maxNesting (Nat.zero_add maxNesting) cursor

theorem follows_allTypeParameters (cursor : Cursor) :
    Follows replies 0 cursor (OnePass.typeParameters replies.answers) (typeParameters replies)
      fun _ _ => True :=
  (follows_typeParameters follows_reference cursor).imp fun _ _ _ => trivial

theorem follows_allClassType (cursor : Cursor) :
    Follows replies 0 cursor (OnePass.classType replies.answers (OnePass.reference replies.answers))
      (classType replies) fun _ passed => passed ≠ [] :=
  follows_classType follows_reference cursor

theorem follows_classSig (cursor : Cursor) :
    Follows replies 0 cursor (OnePass.classSig replies.answers) (classSig replies)
      fun _ _ => True := by
  refine (follows_allTypeParameters cursor).bind fun parameters _ _ _ _ => ?_
  refine (follows_allClassType _).bind fun superClass _ _ _ _ => ?_
  refine (follows_collect (fun cursor => rounds_of_ne_nil follows_more fun after done => ?_) _).bind
    fun interfaces _ _ _ _ => follows_pure trivial
  exact (follows_allClassType after).adding done

theorem follows_parameterType (cursor : Cursor) :
    Follows replies 0 cursor (OnePass.parameterType replies.answers) (parameterType replies)
      fun _ passed => passed ≠ [] := by
  refine follows_remaining.bind fun rest passed after _ looked => ?_
  by_cases ended : rest.isEmpty = true
  · rw [if_pos ended, if_pos ended]
    exact follows_throw _
  · rw [if_neg ended, if_neg ended, looked.2]
    exact follows_javaType follows_reference after

theorem follows_resultType (cursor : Cursor) :
    Follows replies 0 cursor (OnePass.resultType replies.answers) (resultType replies)
      fun _ _ => True := by
  refine (follows_eat 'V').bind fun found _ after _ _ => ?_
  cases found with
  | true => exact follows_pure trivial
  | false => exact (follows_javaType follows_reference after).imp fun _ _ _ => trivial

theorem follows_thrownType (cursor : Cursor) :
    Follows replies 0 cursor (OnePass.thrownType replies.answers) (thrownType replies)
      fun _ _ => True := by
  refine follows_peek.bind fun seen _ after _ _ => ?_
  by_cases isVariable : seen = some 'T'
  · rw [if_pos isVariable, if_pos isVariable]
    exact follows_typeVariable.imp fun _ _ _ => trivial
  · rw [if_neg isVariable, if_neg isVariable]
    exact (follows_allClassType after).imp fun _ _ _ => trivial

theorem follows_methodSig (cursor : Cursor) :
    Follows replies 0 cursor (OnePass.methodSig replies.answers) (methodSig replies)
      fun _ _ => True := by
  refine (follows_allTypeParameters cursor).bind fun typeParameters _ _ _ _ => ?_
  refine (follows_expect '(').bind fun _ _ _ _ _ => ?_
  refine (follows_collect
    (fun cursor => rounds_of_ne_nil (follows_notYet ')') fun after done => ?_) _).bind
    fun parameters _ _ _ _ => ?_
  · exact (follows_parameterType after).adding done
  refine (follows_resultType _).bind fun result _ _ _ _ => ?_
  refine (follows_collect (fun cursor => rounds_of_eat fun after done => ?_) _).bind
    fun thrown _ _ _ _ => follows_pure trivial
  exact (follows_thrownType after).adding done

theorem follows_whole {cursor : Cursor}
    (follows : Follows replies 0 cursor scan rewrite fun _ _ => True) :
    Follows replies 0 cursor (Scanner.whole .leftover scan) (whole rewrite) fun _ _ => True := by
  refine follows.bind fun written _ _ _ _ => follows_remaining.bind fun rest _ _ _ _ => ?_
  by_cases ended : rest.isEmpty = true
  · rw [if_pos ended, if_pos ended]
    exact follows_pure trivial
  · rw [if_neg ended, if_neg ended]
    exact (follows_throw _).bind fun _ _ _ _ impossible => False.elim impossible

end Signatures

end Signature.Unbounded

/-! ### Namings that may be at fault -/

namespace Naming

variable {naming : Naming} {asked : List ClassName} {name : ClassName} {fault : Fault}

theorem consult_cons (naming : Naming) (name : ClassName) (rest : List ClassName) :
    naming.consult (name :: rest) = match naming name with
      | .ok _ => ⟨name :: (naming.consult rest).record, (naming.consult rest).result⟩
      | .error fault => ⟨[name], .error fault⟩ := by
  rw [consult]
  cases naming name <;> rfl

theorem consult_of_answered (answered : ∀ name ∈ asked, ∃ answer, naming name = .ok answer) :
    naming.consult asked = ⟨asked, .ok ()⟩ := by
  induction asked with
  | nil => rfl
  | cons first others ih =>
    obtain ⟨⟨answer, reply⟩, later⟩ := List.forall_mem_cons.mp answered
    rw [consult_cons, reply, ih later]

/-- The names are asked for up to the first one that is met by a fault. -/
theorem consult_of_fault (answered : ∀ name ∈ asked, ∃ answer, naming name = .ok answer)
    (refused : naming name = .error fault) (rest : List ClassName) :
    naming.consult (asked ++ name :: rest) = ⟨asked ++ [name], .error fault⟩ := by
  induction asked with
  | nil => rw [List.nil_append, List.nil_append, consult_cons, refused]
  | cons first others ih =>
    obtain ⟨⟨answer, reply⟩, later⟩ := List.forall_mem_cons.mp answered
    rw [List.cons_append, List.cons_append, consult_cons, reply, ih later]

end Naming

namespace Grammar

variable {τ : Type} [Grammar τ] {naming : Naming} {text : String}

theorem renameAsking_of_answered
    (answered : ∀ name ∈ (read text : Reading τ).names, ∃ answer, naming name = .ok answer) :
    renameAsking τ naming text = renameAsking τ (.total naming.answer) text := by
  have total : (Naming.total naming.answer).consult (read text : Reading τ).names =
      ⟨(read text : Reading τ).names, .ok ()⟩ :=
    Naming.consult_of_answered fun name _ => ⟨naming.answer name, rfl⟩
  rw [renameAsking, renameAsking, Naming.consult_of_answered answered, total, answer_total]

theorem renameAsking_of_fault {asked rest : List ClassName} {name : ClassName} {fault : Fault}
    (names : (read text : Reading τ).names = asked ++ name :: rest)
    (answered : ∀ name ∈ asked, ∃ answer, naming name = .ok answer)
    (refused : naming name = .error fault) :
    renameAsking τ naming text = ⟨asked ++ [name], .error fault⟩ := by
  rw [renameAsking, names, Naming.consult_of_fault answered refused]
  rfl

end Grammar

namespace SignatureKind

open Signature Signature.Unbounded

/-- The rewriter of signatures of this kind that knows no bound. -/
noncomputable def rewriter (replies : Replies) : SignatureKind → Rewriter (List Char)
  | .ofClass => Unbounded.classSig replies
  | .ofMethod => Unbounded.methodSig replies
  | .ofField => Unbounded.referenceType replies

/-- What is told of a rewriter that has ended. -/
def told (text : String) : Except Stop (List Char) × Position → Inquiry String
  | (.ok written, position) => ⟨position.cursor.names, .ok (String.ofList written)⟩
  | (.error (.flaw flaw), position) => ⟨position.cursor.names, .error (.signature text flaw)⟩
  | (.error (.fault fault), position) => ⟨position.cursor.names, .error fault⟩

/-- Renames a signature while it is read, without any bound. -/
noncomputable def rewriteUnbounded (kind : SignatureKind) (replies : Replies) (text : String) :
    Option (Inquiry String) :=
  (whole (kind.rewriter replies) ⟨.start text.toList, 0⟩).map (told text)

variable (kind : SignatureKind) (text : String)

theorem renameAsking_of_answered {naming : Naming}
    (answered : ∀ name ∈ kind.names text, ∃ answer, naming name = .ok answer) :
    kind.renameAsking naming text = kind.renameAsking (.total naming.answer) text := by
  cases kind with
  | ofClass => exact Grammar.renameAsking_of_answered answered
  | ofMethod => exact Grammar.renameAsking_of_answered answered
  | ofField => exact Grammar.renameAsking_of_answered answered

theorem renameAsking_of_fault {naming : Naming} {asked rest : List ClassName} {name : ClassName}
    {fault : Fault} (names : kind.names text = asked ++ name :: rest)
    (answered : ∀ name ∈ asked, ∃ answer, naming name = .ok answer)
    (refused : naming name = .error fault) :
    kind.renameAsking naming text = ⟨asked ++ [name], .error fault⟩ := by
  cases kind with
  | ofClass => exact Grammar.renameAsking_of_fault names answered refused
  | ofMethod => exact Grammar.renameAsking_of_fault names answered refused
  | ofField => exact Grammar.renameAsking_of_fault names answered refused

/-- The scanner of signatures of this kind that writes while it reads. -/
def scanner (answers : Answers) : SignatureKind → Scan (List Char)
  | .ofClass => OnePass.classSig answers
  | .ofMethod => OnePass.methodSig answers
  | .ofField => OnePass.reference answers

theorem follows_rewriter (replies : Replies) (cursor : Cursor) :
    Follows replies 0 cursor (kind.scanner replies.answers) (kind.rewriter replies)
      fun _ _ => True := by
  cases kind with
  | ofClass => exact follows_classSig cursor
  | ofMethod => exact follows_methodSig cursor
  | ofField => exact (follows_reference cursor).imp fun _ _ _ => trivial

theorem rewriteAsking_eq (answers : Answers) :
    kind.rewriteAsking answers text =
      match Scanner.whole .leftover (kind.scanner answers) (.start text.toList) with
      | .ok written cursor => ⟨cursor.names, .ok (String.ofList written)⟩
      | .error flaw cursor => ⟨cursor.names, .error (.signature text flaw)⟩ := by
  cases kind <;> rfl

/-- The names that reading meets are those that the scanner leaves. -/
theorem names_eq (answers : Answers) :
    kind.names text =
      (left (Scanner.whole .leftover (kind.scanner answers) (.start text.toList))).names := by
  rw [← (kind.rewriteAsking_follows text answers).1, rewriteAsking_eq]
  cases Scanner.whole .leftover (kind.scanner answers) (.start text.toList) <;> rfl

/-- **Without any bound, a signature is renamed as it is after reading.** -/
theorem rewriteUnbounded_eq (naming : Naming) :
    kind.rewriteUnbounded (fun _ => naming) text = some (kind.renameAsking naming text) := by
  have ends := (follows_whole (kind.follows_rewriter (fun _ => naming) (.start text.toList))).ends
  have names := kind.names_eq text (Replies.answers fun _ => naming)
  have same := kind.rewriteAsking_eq_renameAsking text naming.answer
  have answers : (fun _ => naming.answer) = Replies.answers fun _ => naming := rfl
  rw [answers, rewriteAsking_eq] at same
  unfold rewriteUnbounded
  generalize Scanner.whole .leftover (kind.scanner (Replies.answers fun _ => naming))
    (.start text.toList) = result at ends names same
  generalize whole (kind.rewriter fun _ => naming) ⟨.start text.toList, 0⟩ = outcome at ends ⊢
  cases ends with
  | ok answered =>
    -- No fault was met, so the naming is as good as one that is never at fault.
    rw [kind.renameAsking_of_answered text (names ▸ answered.replied), ← same]
    rfl
  | flaw answered =>
    rw [kind.renameAsking_of_answered text (names ▸ answered.replied), ← same]
    rfl
  | fault moves answered refused asked within =>
    obtain ⟨rest, split⟩ := within
    rw [← names, asked, List.append_assoc] at split
    rw [kind.renameAsking_of_fault text split.symm answered.replied refused, ← asked]
    rfl

end SignatureKind

/-! ### Progress -/

/-- The cursor stands in the text: behind whole characters of it, at the number of their bytes. -/
def Cursor.In (text : String) (cursor : Cursor) : Prop :=
  ∃ before, text.toList = before ++ cursor.rest ∧ cursor.offset = byteCount before

/-- A text has as many bytes as are counted for its characters. -/
theorem utf8ByteSize_ofList (chars : List Char) :
    (String.ofList chars).utf8ByteSize = byteCount chars := by
  induction chars with
  | nil => rfl
  | cons c rest ih =>
    rw [String.ofList_cons, String.utf8ByteSize_append, String.utf8ByteSize_singleton,
      ih, byteCount]

/-- A cursor in a text stands on a boundary of characters. -/
theorem Cursor.In.isValid {text : String} {cursor : Cursor} (inside : cursor.In text) :
    (String.Pos.Raw.mk cursor.offset).IsValid text := by
  obtain ⟨before, split, offset⟩ := inside
  refine String.Pos.Raw.isValid_iff_exists_append.mpr
    ⟨String.ofList before, String.ofList cursor.rest, ?_, ?_⟩
  · rw [← String.ofList_append, ← split, String.ofList_toList]
  · rw [offset, ← utf8ByteSize_ofList]
    rfl

theorem Cursor.In.moved {text : String} {cursor after : Cursor} {passed : List Char}
    (inside : cursor.In text) (moves : cursor.Moves passed after) : after.In text := by
  obtain ⟨before, split, offset⟩ := inside
  refine ⟨before ++ passed, ?_, ?_⟩
  · rw [split, moves.rest, List.append_assoc]
  · rw [moves.offset, offset, byteCount_append]

namespace Signature.Unbounded

open Scanner

/-- The rules of the grammar for types, and for what stands in angle brackets. -/
inductive Rule where
  | javaType
  | referenceType
  | classType
  | typeVariable
  | typeArguments
  | typeParameters

namespace Rule

noncomputable def rewrite (replies : Replies) : Rule → Rewriter (List Char)
  | .javaType => Unbounded.javaType replies
  | .referenceType => Unbounded.referenceType replies
  | .classType => Unbounded.classType replies
  | .typeVariable => read OnePass.typeVariable
  | .typeArguments => Unbounded.typeArguments replies
  | .typeParameters => Unbounded.typeParameters replies

/-- What stands in angle brackets may be left out. -/
def isOptional : Rule → Bool
  | .typeArguments | .typeParameters => true
  | _ => false

/-- The scanner of the rule for types that may nest the given number of levels. What it makes of the
text is dropped. -/
def scan (levels : Nat) : Rule → Scan Unit
  | .javaType => discard (Signature.javaType (Signature.referenceType levels))
  | .referenceType => discard (Signature.referenceType levels)
  | .classType => discard (Signature.classType (Signature.referenceType levels))
  | .typeVariable => discard Signature.typeVariable
  | .typeArguments => discard (Signature.typeArguments (Signature.referenceType levels))
  | .typeParameters => discard Signature.typeParameters

end Rule

theorem Follows.required {α : Type} {replies : Replies} {depth : Nat} {cursor : Cursor}
    {scan : Scan α} {rewrite : Rewriter α} {absent : Prop}
    (follows : Follows replies depth cursor scan rewrite fun _ passed => passed ≠ []) :
    Follows replies depth cursor scan rewrite fun _ passed => passed = [] ↔ false = true ∧ absent :=
  follows.imp fun _ _ nonempty => iff_of_false nonempty fun both => Bool.false_ne_true both.1

theorem Follows.optional {α : Type} {replies : Replies} {depth : Nat} {cursor : Cursor}
    {scan : Scan α} {rewrite : Rewriter α} {absent : Prop}
    (follows : Follows replies depth cursor scan rewrite fun _ passed => passed = [] ↔ absent) :
    Follows replies depth cursor scan rewrite fun _ passed => passed = [] ↔ true = true ∧ absent :=
  follows.imp fun _ _ left => left.trans (and_iff_right rfl).symm

theorem discard_eq_of_alike {α β : Type} {scan : Scan α} {rewrite : Scan β} {related : α → β → Prop}
    (alike : Alike scan rewrite related) : (discard scan : Scan Unit) = discard rewrite := by
  funext cursor
  show EStateM.map _ scan cursor = EStateM.map _ rewrite cursor
  have same := alike cursor trivial
  unfold EStateM.map
  generalize scan cursor = result at same
  generalize rewrite cursor = result' at same
  cases same with
  | ok _ _ => rfl
  | error _ => rfl

/-- At every level, each rule follows the scanner of the rule, and passes characters unless it is
left out. Type parameters are read outside of all types. -/
theorem Rule.exists_follows (rule : Rule) (replies : Replies) {depth : Nat}
    (deep : depth ≤ maxNesting) (cursor : Cursor) :
    ∃ scan, Follows replies depth cursor scan (rule.rewrite replies) (fun _ passed =>
        passed = [] ↔ rule.isOptional = true ∧ cursor.rest.head? ≠ some '<') ∧
      ((rule = .typeParameters → depth = 0) → rule.scan (maxNesting - depth) = discard scan) := by
  have reference (cursor : Cursor) : Follows replies depth cursor
      (OnePass.referenceType replies.answers (maxNesting - depth)) (Unbounded.referenceType replies)
      fun _ passed => passed ≠ [] :=
    follows_referenceType (maxNesting - depth) (Nat.add_sub_cancel' deep) cursor
  have alike : Alike (Signature.referenceType (maxNesting - depth))
      (OnePass.referenceType replies.answers (maxNesting - depth))
      (OnePass.WritesType replies.answers) :=
    OnePass.alike_referenceType (maxNesting - depth)
  cases rule with
  | javaType =>
    exact ⟨_, (follows_javaType reference cursor).required,
      fun _ => discard_eq_of_alike (OnePass.alike_javaType alike)⟩
  | referenceType => exact ⟨_, (reference cursor).required, fun _ => discard_eq_of_alike alike⟩
  | classType =>
    exact ⟨_, (follows_classType reference cursor).required,
      fun _ => discard_eq_of_alike (OnePass.alike_classType alike)⟩
  | typeVariable =>
    have same : Alike Signature.typeVariable OnePass.typeVariable fun _ _ => True := by
      rw [← bind_pure Signature.typeVariable]
      exact silent_typeVariable.andThen fun _ => together_pure fun _ _ => trivial
    exact ⟨_, follows_typeVariable.required, fun _ => discard_eq_of_alike same⟩
  | typeArguments =>
    exact ⟨_, (follows_typeArguments reference cursor).optional,
      fun _ => discard_eq_of_alike (OnePass.alike_typeArguments alike)⟩
  | typeParameters =>
    refine ⟨_, (follows_typeParameters reference cursor).optional, fun outside => ?_⟩
    obtain rfl := outside rfl
    exact discard_eq_of_alike OnePass.alike_typeParameters

end Signature.Unbounded

open Signature Signature.Unbounded in
/-- **The rules of signatures make progress and keep their count of levels.** At every place of
every text and at every level, and whatever is replied to the questions for names, each rule ends.
It leaves the cursor further right or where it was, on a boundary of characters, and the count of
levels as it was, also when it breaks off. If it succeeds, it has passed at least one character,
unless its brackets are missing and may be. It breaks off with a fault only if that was the reply to
its last question. Else it comes to the end of the scanner of the rule, which is bounded by the
levels that are left; type parameters have their scanner outside of types. So no loop of a whole
signature goes on forever: every text is renamed or refused, just as it is after it has been
read. -/
theorem signature_rules_make_progress (replies : Replies) (text : String) :
    (∀ (rule : Rule) (cursor : Cursor) (depth : Nat), cursor.In text → depth ≤ maxNesting →
      ∃ result after passed, rule.rewrite replies ⟨cursor, depth⟩ = some (result, ⟨after, depth⟩) ∧
        cursor.Moves passed after ∧ after.In text ∧ (String.Pos.Raw.mk after.offset).IsValid text ∧
        (∀ written, result = .ok written →
          (passed = [] ↔ rule.isOptional = true ∧ cursor.rest.head? ≠ some '<')) ∧
        (∀ fault, result = .error (.fault fault) →
          ∃ asked name, after.names = asked ++ [name] ∧ replies asked name = .error fault) ∧
        ((rule = .typeParameters → depth = 0) →
          (∀ written, result = .ok written → rule.scan (maxNesting - depth) cursor = .ok () after) ∧
          ∀ flaw, result = .error (.flaw flaw) →
            rule.scan (maxNesting - depth) cursor = .error flaw after)) ∧
    (∀ kind : SignatureKind, ∃ inquiry, kind.rewriteUnbounded replies text = some inquiry) ∧
    ∀ (kind : SignatureKind) (naming : Naming),
      kind.rewriteUnbounded (fun _ => naming) text = some (kind.renameAsking naming text) := by
  refine ⟨fun rule cursor depth inside deep => ?_, fun kind => ?_,
    fun kind => kind.rewriteUnbounded_eq text⟩
  · obtain ⟨scan, follows, same⟩ := rule.exists_follows replies deep cursor
    obtain ⟨result, after, passed, done, moves, onOk, onFlaw, onFault⟩ := follows.advances
    have still := inside.moved moves
    refine ⟨result, after, passed, done, moves, still, still.isValid,
      fun written ok => (onOk written ok).2, onFault, fun outside => ?_⟩
    rw [same outside]
    refine ⟨fun written ok => ?_, fun flaw failed => ?_⟩
    · show EStateM.map _ scan cursor = _
      rw [EStateM.map, (onOk written ok).1]
    · show EStateM.map _ scan cursor = _
      rw [EStateM.map, onFlaw flaw failed]
  · obtain ⟨result, after, _, done, _⟩ :=
      (follows_whole (kind.follows_rewriter replies (.start text.toList))).advances
    refine ⟨SignatureKind.told text (result, ⟨after, 0⟩), ?_⟩
    rw [SignatureKind.rewriteUnbounded, done]
    rfl

namespace LastLevel

def text : String := "Lä<TT;>;"

/-- The cursor behind the name, whose letter takes two bytes. -/
def behind : Cursor := ⟨"<TT;>;".toList, 3, []⟩

def naming : Naming := .total fun name => if name.text = "ä" then some ⟨"b"⟩ else none

end LastLevel

open LastLevel Signature.Unbounded in
/-- One level before the last the argument is read, and at the last one it is too deep. Either way
the count of levels is as before. -/
theorem argument_at_last_level_ends :
    (∃ written, Rule.typeArguments.rewrite (fun _ => naming) ⟨behind, 255⟩ =
      some (.ok written, ⟨⟨[';'], 8, []⟩, 255⟩)) ∧
    Rule.typeArguments.rewrite (fun _ => naming) ⟨behind, 256⟩ =
      some (.error (.flaw (.tooDeep 4)), ⟨⟨"TT;>;".toList, 4, []⟩, 256⟩) ∧
    SignatureKind.ofField.rewriteUnbounded (fun _ => naming) text =
      some ⟨[⟨"ä"⟩], .ok "Lb<TT;>;"⟩ := by
  have inside : behind.In text := ⟨['L', 'ä'], by cbv, by cbv⟩
  obtain ⟨progress, _, agrees⟩ := signature_rules_make_progress (fun _ => naming) text
  have ends (depth : Nat) (deep : depth ≤ maxNesting) :
      ∃ result after, Rule.typeArguments.rewrite (fun _ => naming) ⟨behind, depth⟩ =
          some (result, ⟨after, depth⟩) ∧
        ((∃ written, result = .ok written ∧
            Rule.typeArguments.scan (maxNesting - depth) behind = .ok () after) ∨
          ∃ flaw, result = .error (.flaw flaw) ∧
            Rule.typeArguments.scan (maxNesting - depth) behind = .error flaw after) := by
    obtain ⟨result, after, _, done, _, _, _, _, refused, same⟩ :=
      progress .typeArguments behind depth inside deep
    obtain ⟨onOk, onFlaw⟩ := same fun impossible => by cases impossible
    refine ⟨result, after, done, ?_⟩
    rcases result with (flaw | fault) | written
    · exact .inr ⟨flaw, rfl, onFlaw flaw rfl⟩
    · obtain ⟨_, _, _, reply⟩ := refused fault rfl
      cases reply
    · exact .inl ⟨written, rfl, onOk written rfl⟩
  have enough : Rule.typeArguments.scan (maxNesting - 255) behind = .ok () ⟨[';'], 8, []⟩ := by cbv
  have tooDeep : Rule.typeArguments.scan (maxNesting - 256) behind =
      .error (.tooDeep 4) ⟨"TT;>;".toList, 4, []⟩ := by cbv
  refine ⟨?_, ?_, ?_⟩
  · obtain ⟨_, _, done, ⟨written, rfl, same⟩ | ⟨_, _, same⟩⟩ := ends 255 (by decide)
    · cases enough.symm.trans same
      exact ⟨written, done⟩
    · cases enough.symm.trans same
  · obtain ⟨_, _, done, ⟨_, _, same⟩ | ⟨_, rfl, same⟩⟩ := ends 256 (by decide)
    · cases tooDeep.symm.trans same
    · cases tooDeep.symm.trans same
      exact done
  · rw [agrees]
    cbv

end Renaming

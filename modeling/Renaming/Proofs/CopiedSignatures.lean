import Renaming.Proofs.KeptNames
import Renaming.Proofs.OnePass

/-!
# Signatures whose names are kept

A name is kept if nothing is answered for it, and also if the answer is the name itself. The two are
not the same to a rewriter: what is written for a nested class is copied in the one case and in the
other cut out of the answer. They come to the same as long as every class around is kept as well. So
rewriting with answers that keep the names, now in the one way and now in the other, goes along with
rewriting without answers, and writes the same (`AlikeIf`); and that is the text.
-/

namespace Renaming

/-- Every question is answered with nothing or with the name itself. -/
def Answers.Keep (answers : Answers) (names : List ClassName) : Prop :=
  ∀ earlier name, earlier ++ [name] <+: names →
    answers earlier name = none ∨ answers earlier name = some name

/-- Answers that keep the names in the end have kept those asked for before. -/
theorem Answers.Keep.of_askedAfter {answers : Answers} (before after : List ClassName)
    (asked : AskedAfter before after) (keep : answers.Keep after) : answers.Keep before :=
  fun earlier name early => keep earlier name (early.trans asked.isPrefix)

namespace Signature.OnePass

open Scanner

/-- No question is answered. -/
def unanswered : Answers := fun _ _ => none

variable {answers : Answers} {α : Type}

/-- Two rewriters go the same way, and they write the same if the answers keep the names. -/
abbrev Copied (answers : Answers) (rewrite copy : Scan α) : Prop :=
  AlikeIf answers.Keep rewrite copy Eq

theorem Copied.bind {β : Type} {rewrite copy : Scan α} {next next' : α → Scan β}
    {last : β → β → Prop} (first : Copied answers rewrite copy)
    (rest : ∀ value other, AlikeIf answers.Keep (next value) (next' other) fun x y =>
      value = other → last x y) :
    AlikeIf answers.Keep (rewrite >>= next) (copy >>= next') last :=
  AlikeIf.bind Answers.Keep.of_askedAfter first rest

theorem copied_of_silent {scan : Scan α} (silent : Silent scan) : Copied answers scan scan := by
  rw [← bind_pure scan]
  exact silent.andThen fun _ => together_pure fun _ _ _ => rfl

/-- The scanners keep what was known before: that a name was asked for, and what follows if the
names were kept. -/
theorem Copied.carrying {rewrite copy : Scan α} (copied : Copied answers rewrite copy)
    (name : ClassName) (fact : Prop) :
    Together (fun names => name ∈ names ∧ (answers.Keep names → fact)) rewrite copy
      fun value other names => name ∈ names ∧ (answers.Keep names → fact ∧ value = other) := by
  rintro cursor ⟨earlier, known⟩
  refine (copied cursor trivial).imp fun _ _ _ asked same => ⟨asked.mem earlier, fun keep => ?_⟩
  exact ⟨known (keep.of_askedAfter _ _ asked), same keep⟩

theorem copied_many {more : Scan Bool} (silent : Silent more) {item copy : Scan α}
    (copied : Copied answers item copy) : Copied answers (many more item) (many more copy) := by
  have listed := alikeIf_many Answers.Keep.of_askedAfter silent copied
  rwa [List.forall₂_eq_eq_eq] at listed

theorem copied_inBrackets {item copy : Scan α} (copied : Copied answers item copy)
    (onEmpty : SignatureFlaw) :
    Copied answers (inBrackets onEmpty item) (inBrackets onEmpty copy) := by
  have listed := alikeIf_inBrackets Answers.Keep.of_askedAfter copied onEmpty
  rwa [List.forall₂_eq_eq_eq] at listed

theorem copied_typeVariable : Copied answers typeVariable typeVariable :=
  copied_of_silent (silent_typeVariable.bind fun _ => silent_pure _)

section Level

variable {rewrite copy : Scan (List Char)} (copied : Copied answers rewrite copy)

include copied

theorem copied_javaType : Copied answers (javaType rewrite) (javaType copy) := by
  refine silent_peek.andThen fun seen => ?_
  cases seen.bind BaseType.ofLetter? with
  | none => exact copied
  | some base => exact copied_of_silent (silent_next.bind fun _ => silent_pure _)

/-- The same characters written in front. -/
theorem copied_behind (front : List Char) :
    Copied answers (do return front ++ (← rewrite)) (do return front ++ (← copy)) :=
  copied.bind fun _ _ => together_pure fun _ _ _ same => congrArg (front ++ ·) same

theorem copied_typeArgument : Copied answers (typeArgument rewrite) (typeArgument copy) := by
  refine silent_peek.andThen fun seen => ?_
  split_ifs
  · exact copied_of_silent ((silent_expect '*').bind fun _ => silent_pure _)
  · exact (silent_expect '+').andThen fun _ => copied_behind copied ['+']
  · exact (silent_expect '-').andThen fun _ => copied_behind copied ['-']
  · exact copied

theorem copied_typeArguments : Copied answers (typeArguments rewrite) (typeArguments copy) :=
  (copied_inBrackets (copied_typeArgument copied) _).bind fun _ _ =>
    together_pure fun _ _ _ same =>
      congrArg (fun arguments => bracketed (List.flatten arguments)) same

end Level

section Classes

/-- Both ask for the same name, and the one is answered with nothing. -/
theorem together_asks {β : Type} (given : List ClassName → Prop) (fact : Prop) {name : ClassName}
    {next : Option ClassName → Scan α} {next' : Option ClassName → Scan β}
    {last : α → β → List ClassName → Prop}
    (allowed : ∀ asked, given asked → AskedAfter asked (asked ++ [name]))
    (rest : ∀ answer, Together (fun names => name ∈ names ∧
        (answers.Keep names → fact ∧ (answer = none ∨ answer = some name)))
      (next answer) (next' none) last) :
    Together (fun names => given names ∧ (answers.Keep names → fact))
      (ask answers name >>= next) (ask unanswered name >>= next') last := by
  rintro cursor ⟨holds, known⟩
  have asked := allowed cursor.names holds
  refine EndAlike.after (rest (answers cursor.names name)
    { cursor with names := cursor.names ++ [name] } ⟨?_, fun keep => ⟨?_, ?_⟩⟩) asked
  · exact List.mem_append_right _ List.mem_cons_self
  · exact known (keep.of_askedAfter _ _ asked)
  · exact keep cursor.names name List.prefix_rfl

variable {rewrite copy : Scan (List Char)} (copied : Copied answers rewrite copy)

include copied

/-- One step to a nested class. The name of the class so far is the same in both whatever was
answered; if all names were kept, so is what was written, and the class so far has its old name. -/
theorem together_nestedClasses (state other : OpenClass) :
    Together (fun names => state.old = other.old ∧ state.old ∈ names ∧
        (answers.Keep names → state = other ∧ state.new = state.old))
      (nestedClass answers rewrite state) (nestedClass unanswered copy other)
      fun state other names => state.old = other.old ∧ state.old ∈ names ∧
        (answers.Keep names → state = other ∧ state.new = state.old) := by
  refine .under fun sameOld => ?_
  unfold nestedClass
  refine identifier_andThen fun part valid => ?_
  rw [← sameOld]
  refine together_asks _ _ (fun asked earlier => .nested .nothing earlier valid) fun answer => ?_
  refine ((copied_typeArguments copied).carrying _ _).bind fun arguments others => ?_
  refine together_pure fun names ⟨member, known⟩ => ⟨rfl, member, fun keep => ?_⟩
  obtain ⟨⟨⟨rfl, kept⟩, answered⟩, rfl⟩ := known keep
  -- the part is copied, or it is cut out of the name that was asked for
  obtain rfl | rfl := answered
  · exact ⟨rfl, congrArg (ClassName.nested · part) kept⟩
  · simp [kept, state.old.partOf_nested valid]

/-- The names are asked for on both sides alike. What is written of an open class is compared only
if all names so far are kept. -/
theorem copied_classType :
    Copied answers (classType answers rewrite) (classType unanswered copy) := by
  unfold classType
  refine (silent_expect 'L').andThen fun _ => (silent_takeUntil ['<', '.', ';']).andThen
    fun text => ?_
  by_cases valid : isClassTypeName text = true
  · rw [if_pos valid, if_pos valid]
    have named : isClassTypeName (⟨String.ofList text⟩ : ClassName).text.toList = true := by
      rw [String.toList_ofList]
      exact valid
    refine fun cursor _ => together_asks (fun _ => True) True (fun asked _ => .outer .nothing named)
      (fun answer => ?_) cursor ⟨trivial, fun _ => trivial⟩
    refine ((copied_typeArguments copied).carrying _ _).bind fun arguments others => ?_
    rintro cursor ⟨member, known⟩
    refine Together.bind (together_repeatFrom (silent_eat '.') (together_nestedClasses copied) _ _)
      (fun state other => ?_) cursor ⟨rfl, member, fun keep => ?_⟩
    · refine (silent_expect ';').andThen fun _ => together_pure fun names ⟨_, _, last⟩ keep => ?_
      rw [(last keep).1]
    · obtain ⟨⟨_, answered⟩, rfl⟩ := known keep
      obtain rfl | rfl := answered <;> exact ⟨rfl, rfl⟩
  · rw [if_neg valid, if_neg valid]
    exact fun _ _ => .error .nothing

end Classes

/-- The induction is on the levels that are left. -/
theorem copied_referenceType (levels : Nat) :
    Copied answers (referenceType answers levels) (referenceType unanswered levels) := by
  induction levels with
  | zero => exact copied_of_silent (silent_offset.bind fun _ => silent_throw _)
  | succ levels ih =>
    refine silent_peek.andThen fun seen => ?_
    split_ifs
    · exact copied_classType ih
    · exact copied_typeVariable
    · exact (silent_expect '[').andThen fun _ => copied_behind (copied_javaType ih) ['[']
    · cases seen with
      | some c => exact copied_of_silent (silent_offset.bind fun _ => silent_throw _)
      | none => exact copied_of_silent (silent_throw _)

theorem copied_reference : Copied answers (reference answers) (reference unanswered) :=
  copied_referenceType maxNesting

theorem copied_classBound : Copied answers (classBound answers) (classBound unanswered) := by
  refine silent_peek.andThen fun seen => ?_
  split_ifs
  · exact copied_reference
  · exact copied_of_silent (silent_pure _)

theorem copied_typeParameter :
    Copied answers (typeParameter answers) (typeParameter unanswered) := by
  refine (silent_identifier [':']).andThen fun name => (silent_expect ':').andThen fun _ => ?_
  refine copied_classBound.bind fun bound otherBound => ?_
  refine (copied_many (silent_eat ':') copied_reference).bind fun bounds otherBounds => ?_
  refine together_pure fun _ _ _ sameBounds sameBound => ?_
  rw [sameBound, sameBounds]

theorem copied_typeParameters :
    Copied answers (typeParameters answers) (typeParameters unanswered) :=
  (copied_inBrackets copied_typeParameter _).bind fun _ _ => together_pure fun _ _ _ same =>
    congrArg (fun parameters => bracketed (List.flatten parameters)) same

theorem copied_wholeClassType : Copied answers (classType answers (reference answers))
    (classType unanswered (reference unanswered)) := copied_classType copied_reference

theorem copied_classSig : Copied answers (classSig answers) (classSig unanswered) := by
  refine copied_typeParameters.bind fun parameters otherParameters => ?_
  refine copied_wholeClassType.bind fun superClass otherSuper => ?_
  refine (copied_many silent_more copied_wholeClassType).bind fun interfaces others => ?_
  refine together_pure fun _ _ _ sameInterfaces sameSuper sameParameters => ?_
  rw [sameParameters, sameSuper, sameInterfaces]

theorem copied_parameterType :
    Copied answers (parameterType answers) (parameterType unanswered) := by
  refine silent_remaining.andThen fun rest => ?_
  by_cases ended : rest.isEmpty = true
  · rw [if_pos ended, if_pos ended]
    exact fun _ _ => .error .nothing
  · rw [if_neg ended, if_neg ended]
    exact copied_javaType copied_reference

theorem copied_resultType : Copied answers (resultType answers) (resultType unanswered) := by
  refine (silent_eat 'V').andThen fun found => ?_
  split_ifs
  · exact copied_of_silent (silent_pure _)
  · exact copied_javaType copied_reference

theorem copied_thrownType : Copied answers (thrownType answers) (thrownType unanswered) := by
  refine silent_peek.andThen fun seen => ?_
  split_ifs
  · exact copied_typeVariable
  · exact copied_wholeClassType

theorem copied_methodSig : Copied answers (methodSig answers) (methodSig unanswered) := by
  refine copied_typeParameters.bind fun parameters otherParameters => ?_
  refine (silent_expect '(').andThen fun _ => ?_
  refine (copied_many (silent_notYet ')') copied_parameterType).bind fun types otherTypes => ?_
  refine copied_resultType.bind fun result otherResult => ?_
  refine (copied_many (silent_eat '^') copied_thrownType).bind fun thrown otherThrown => ?_
  refine together_pure fun _ _ _ sameThrown sameResult sameTypes sameParameters => ?_
  rw [sameParameters, sameTypes, sameResult, sameThrown]

theorem copied_whole {rewrite copy : Scan α} (copied : Copied answers rewrite copy) :
    Copied answers (whole .leftover rewrite) (whole .leftover copy) := by
  refine copied.bind fun written other => silent_remaining.andThen fun rest => ?_
  by_cases ended : rest.isEmpty = true
  · rw [if_pos ended, if_pos ended]
    exact together_pure fun _ _ _ same => same
  · rw [if_neg ended, if_neg ended]
    exact fun _ _ => .error .nothing

end Signature.OnePass

/-! ### Texts -/

open Signature.OnePass (Copied copied_whole unanswered)

section Grammar

variable (τ : Type) [Grammar τ] [OnePassGrammar τ]

theorem Grammar.rewriteAsking_of_copied {answers : Answers} {text : String}
    (copied : Copied answers (OnePassGrammar.rewrite τ answers)
      (OnePassGrammar.rewrite τ unanswered))
    (keep : answers.Keep (read text : Reading τ).names) :
    rewriteAsking τ answers text = rewriteAsking τ unanswered text := by
  rw [← (rewriteAsking_follows τ answers text).1] at keep
  have ending := copied_whole copied (.start text.toList) trivial
  unfold rewriteAsking at keep ⊢
  generalize Scanner.whole .leftover (OnePassGrammar.rewrite τ answers)
    (.start text.toList) = result at ending keep ⊢
  generalize Scanner.whole .leftover (OnePassGrammar.rewrite τ unanswered)
    (.start text.toList) = result' at ending ⊢
  cases ending with
  | ok _ same => rw [same keep]
  | error _ => rfl

theorem Grammar.rewriteAsking_unanswered [LawfulGrammar τ] [KeepingGrammar τ] {text : String}
    (passes : check τ text = .ok ()) :
    rewriteAsking τ unanswered text = ⟨(read text : Reading τ).names, .ok text⟩ := by
  obtain ⟨tree, fine, rfl⟩ := (check_eq_ok_iff τ).mp passes
  have kept : rename (fun _ => none) tree = tree :=
    KeepingGrammar.rename_of_keeps fine fun _ _ => rfl
  have asked := (rewriteAsking_follows τ unanswered (write tree)).1
  refine Recorded.ext_parts asked ?_
  rw [show unanswered = fun _ _ => none from rfl, rewriteAsking_eq_renameAsking τ (fun _ => none),
    renameAsking_write τ _ fine, kept]

/-- Answers that keep the names of a text give the text again. -/
theorem Grammar.rewriteAsking_of_keep [LawfulGrammar τ] [KeepingGrammar τ] {answers : Answers}
    {text : String}
    (copied : Copied answers (OnePassGrammar.rewrite τ answers)
      (OnePassGrammar.rewrite τ unanswered))
    (passes : check τ text = .ok ()) (keep : answers.Keep (read text : Reading τ).names) :
    rewriteAsking τ answers text = ⟨(read text : Reading τ).names, .ok text⟩ :=
  (rewriteAsking_of_copied τ copied keep).trans (rewriteAsking_unanswered τ passes)

end Grammar

theorem SignatureKind.rewriteAsking_of_keep (kind : SignatureKind) {text : String}
    (accepted : kind.check text = .ok ()) {answers : Answers}
    (keep : answers.Keep (kind.names text)) :
    kind.rewriteAsking answers text = ⟨kind.names text, .ok text⟩ := by
  cases kind with
  | ofClass =>
    exact Grammar.rewriteAsking_of_keep ClassSig Signature.OnePass.copied_classSig accepted keep
  | ofMethod =>
    exact Grammar.rewriteAsking_of_keep MethodSig Signature.OnePass.copied_methodSig accepted keep
  | ofField =>
    exact Grammar.rewriteAsking_of_keep TypeSig Signature.OnePass.copied_reference accepted keep

/-- **A signature whose names are kept stays as it is.** A signature of any kind is renamed while it
is read, and each name is answered with nothing or with itself, also if the answers differ from one
question to the next for the same name. What is written is the signature, character for character.
The same holds if the signature is read before and a renaming keeps its names in either way. -/
theorem kept_signatures_are_copied (kind : SignatureKind) {text : String}
    (accepted : kind.check text = .ok ()) :
    (∀ answers : Answers, answers.Keep (kind.names text) →
      kind.rewriteAsking answers text = ⟨kind.names text, .ok text⟩) ∧
    ∀ renamed, (∀ name ∈ kind.names text, renamed name = none ∨ renamed name = some name) →
      kind.renameAsking (.total renamed) text = ⟨kind.names text, .ok text⟩ := by
  refine ⟨fun answers keep => kind.rewriteAsking_of_keep accepted keep, fun renamed keeps => ?_⟩
  have keep : Answers.Keep (fun _ => renamed) (kind.names text) := fun earlier name asked =>
    keeps name (asked.subset (List.mem_append_right _ List.mem_cons_self))
  rw [← kind.rewriteAsking_eq_renameAsking]
  exact kind.rewriteAsking_of_keep accepted keep

namespace AnswersInTurn

/-- Every other question is answered. -/
def answers : Answers := fun earlier name => if earlier.length % 2 = 0 then none else some name

def text : String := "La.b$c<La;La.b$c;>.d;"

def asked : List ClassName := [⟨"a"⟩, ⟨"a$b$c"⟩, ⟨"a"⟩, ⟨"a"⟩, ⟨"a$b$c"⟩, ⟨"a$b$c$d"⟩]

end AnswersInTurn

open AnswersInTurn in
/-- The class `a` is asked for three times, and answered for once. -/
theorem answers_in_turn_copy :
    SignatureKind.ofField.check text = .ok () ∧ answers.Keep asked ∧
      SignatureKind.ofField.rewriteAsking answers text = ⟨asked, .ok text⟩ ∧
      SignatureKind.ofField.renameAsking (.total some) text = ⟨asked, .ok text⟩ := by
  have accepted : SignatureKind.ofField.check text = .ok () := by cbv
  have names : SignatureKind.ofField.names text = asked := by cbv
  have keep : answers.Keep asked := by
    intro earlier name _
    unfold answers
    split
    · exact .inl rfl
    · exact .inr rfl
  obtain ⟨inTurn, always⟩ := kept_signatures_are_copied .ofField accepted
  rw [names] at inTurn always
  exact ⟨accepted, keep, inTurn answers keep, always some fun _ _ => .inr rfl⟩

end Renaming

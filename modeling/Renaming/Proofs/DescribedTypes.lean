import Renaming.Proofs.DescriptorRenaming

/-!
# Descriptors as written types

A descriptor is the written form of a type, and of one type only. The type is well-formed: its
classes are object classes, and it is no array or has between one and 255 dimensions. So whatever is
said of types is said of descriptors: renaming the classes in a descriptor is renaming them in its
type.

Descriptors of fields and of methods are told from each other by their first character.
`DescribedType` holds the type that a descriptor of either sort writes, and `DescribedType.map` puts
other classes into it, which changes neither dimensions nor base types nor the places of parameters.

Classes can be asked for while a type is made anew, each when it is come by. `Descriptor.mapAsking`
does so with questions of any kind: they may fail, and an answer may depend on what was asked
before.

* `descriptors_are_written_types`: reading and writing are inverse to each other.
* `Descriptor.renameAsking_eq_mapAsking`: asking for all classes first comes to the same as asking
  for each of them when it is come by.
* `renaming_descriptors_is_functorial`: renaming follows `DescribedType.map`, so it respects the
  identity and the composition of renamings, and it asks for the classes of the type from left to
  right.
-/

namespace Renaming

/-- **Descriptors are the written forms of well-formed types.** A descriptor is read as a type if
and only if the type is well-formed and the descriptor is its written form. So the texts that are
descriptors are those that well-formed types are written as. An array without dimensions would be
written like what it is an array of; it is not well-formed, and what is read is no array then. -/
theorem descriptors_are_written_types :
    (∀ (descriptor : FieldDescriptor) (type : FieldType),
      descriptor.type = .ok type ↔ type.WellFormed ∧ Grammar.write type = descriptor.text) ∧
    (∀ (descriptor : MethodDescriptor) (type : MethodType),
      descriptor.type = .ok type ↔ type.WellFormed ∧ Grammar.write type = descriptor.text) ∧
    (∀ descriptor : FieldDescriptor,
      descriptor.Valid ↔ ∃ type : FieldType, type.WellFormed ∧
        Grammar.write type = descriptor.text) ∧
    ∀ descriptor : MethodDescriptor,
      descriptor.Valid ↔ ∃ type : MethodType, type.WellFormed ∧
        Grammar.write type = descriptor.text := by
  refine ⟨fun descriptor type => ?_, fun descriptor type => ?_, fun descriptor => ?_,
    fun descriptor => ?_⟩
  · exact Grammar.result_read_eq_ok_iff FieldType
  · exact Grammar.result_read_eq_ok_iff MethodType
  · exact Grammar.check_eq_ok_iff FieldType
  · exact Grammar.check_eq_ok_iff MethodType

/-! ### Other classes in a type -/

section Map

variable {change : ClassName → ClassName}

def ElementType.map (change : ClassName → ClassName) : ElementType → ElementType
  | .base type => .base type
  | .object name => .object (change name)

/-- The type with other classes in it. -/
def FieldType.map (change : ClassName → ClassName) : FieldType → FieldType
  | .plain element => .plain (element.map change)
  | .array dimensions element => .array dimensions (element.map change)

/-- The type of a method with other classes in the types of its parameters and its result. -/
def MethodType.map (change : ClassName → ClassName) (type : MethodType) : MethodType :=
  ⟨type.parameters.map (FieldType.map change), type.result.map (FieldType.map change)⟩

theorem ElementType.map_map (first second : ClassName → ClassName) (type : ElementType) :
    (type.map first).map second = type.map (second ∘ first) := by
  cases type <;> rfl

theorem FieldType.map_map (first second : ClassName → ClassName) (type : FieldType) :
    (type.map first).map second = type.map (second ∘ first) := by
  cases type with
  | plain element => exact congrArg plain (element.map_map first second)
  | array dimensions element => exact congrArg (array dimensions) (element.map_map first second)

theorem MethodType.map_map (first second : ClassName → ClassName) (type : MethodType) :
    (type.map first).map second = type.map (second ∘ first) := by
  have each : FieldType.map second ∘ FieldType.map first = FieldType.map (second ∘ first) :=
    funext (FieldType.map_map first second)
  simp only [map, List.map_map, Option.map_map, each]

theorem ElementType.map_of_kept {type : ElementType}
    (kept : ∀ name ∈ type.className?, change name = name) : type.map change = type := by
  cases type with
  | base type => rfl
  | object name => exact congrArg object (kept name rfl)

theorem FieldType.map_of_kept {type : FieldType}
    (kept : ∀ name ∈ type.className?, change name = name) : type.map change = type := by
  cases type with
  | plain element => exact congrArg plain (ElementType.map_of_kept kept)
  | array dimensions element => exact congrArg (array dimensions) (ElementType.map_of_kept kept)

theorem MethodType.map_of_kept {type : MethodType}
    (kept : ∀ name ∈ type.classNames, change name = name) : type.map change = type := by
  obtain ⟨parameters, result⟩ := type
  have types : parameters.map (FieldType.map change) = parameters := by
    conv_rhs => rw [← List.map_id parameters]
    refine List.map_congr_left fun type member => FieldType.map_of_kept fun name found => ?_
    exact kept name (mem_classNames_iff.mpr (Or.inl ⟨type, member, found⟩))
  have given : result.map (FieldType.map change) = result := by
    cases result with
    | none => rfl
    | some type =>
      refine congrArg some (FieldType.map_of_kept fun name found => ?_)
      exact kept name (mem_classNames_iff.mpr (Or.inr ⟨type, rfl, found⟩))
  rw [map, types, given]

theorem FieldType.rename_eq_map (renamed : ClassName → Option ClassName) (type : FieldType) :
    type.rename renamed = type.map (newName renamed) := by
  have each : ∀ element : ElementType, element.rename renamed = element.map (newName renamed) := by
    rintro (_ | _) <;> rfl
  cases type with
  | plain element => exact congrArg plain (each element)
  | array dimensions element => exact congrArg (array dimensions) (each element)

theorem MethodType.rename_eq_map (renamed : ClassName → Option ClassName) (type : MethodType) :
    type.rename renamed = type.map (newName renamed) := by
  have each : FieldType.rename renamed = FieldType.map (newName renamed) :=
    funext (FieldType.rename_eq_map renamed)
  rw [rename, map, each]

end Map

/-- The type that a descriptor of a field or of a method writes. -/
inductive DescribedType where
  | field (type : FieldType)
  | method (type : MethodType)

namespace DescribedType

/-- The text is a descriptor, of a field or of a method, and writes the type. -/
def IsReadFrom (text : String) : DescribedType → Prop
  | .field type => FieldDescriptor.type ⟨text⟩ = .ok type
  | .method type => MethodDescriptor.type ⟨text⟩ = .ok type

/-- The classes in the type, in the order in which they are written. -/
def classNames : DescribedType → List ClassName
  | .field type => type.className?.toList
  | .method type => type.classNames

/-- The type with other classes in it. -/
def map (change : ClassName → ClassName) : DescribedType → DescribedType
  | .field type => .field (type.map change)
  | .method type => .method (type.map change)

def write : DescribedType → String
  | .field type => Grammar.write type
  | .method type => Grammar.write type

def WellFormed : DescribedType → Prop
  | .field type => type.WellFormed
  | .method type => type.WellFormed

theorem isReadFrom_iff {text : String} {type : DescribedType} :
    type.IsReadFrom text ↔ type.WellFormed ∧ type.write = text := by
  cases type with
  | field type => exact Grammar.result_read_eq_ok_iff FieldType
  | method type => exact Grammar.result_read_eq_ok_iff MethodType

theorem map_map (first second : ClassName → ClassName) (type : DescribedType) :
    (type.map first).map second = type.map (second ∘ first) := by
  cases type with
  | field type => exact congrArg field (type.map_map first second)
  | method type => exact congrArg method (type.map_map first second)

theorem map_of_kept {change : ClassName → ClassName} {type : DescribedType}
    (kept : ∀ name ∈ type.classNames, change name = name) : type.map change = type := by
  cases type with
  | field type =>
    refine congrArg field (FieldType.map_of_kept fun name found => ?_)
    exact kept name (Option.mem_toList.mpr found)
  | method type => exact congrArg method (MethodType.map_of_kept kept)

theorem WellFormed.map {renamed : ClassName → Option ClassName}
    (objects : ∀ old new, renamed old = some new → isObjectName new.text.toList = true)
    {type : DescribedType} (fine : type.WellFormed) : (type.map (newName renamed)).WellFormed := by
  have admits : ∀ old new : ClassName, isObjectName old.text.toList = true →
      renamed old = some new → isObjectName new.text.toList = true :=
    fun old new _ => objects old new
  cases type with
  | field type =>
    show (type.map (newName renamed)).WellFormed
    rw [← type.rename_eq_map]
    exact FieldType.WellFormed.rename admits fine
  | method type =>
    show (type.map (newName renamed)).WellFormed
    rw [← type.rename_eq_map]
    exact MethodType.WellFormed.rename admits fine

/-- Only the descriptor of a method starts with a parenthesis. -/
theorem head?_write_eq_parenthesis_iff (type : DescribedType) :
    type.write.toList.head? = some '(' ↔ ∃ inner, type = .method inner := by
  cases type with
  | field type =>
    obtain ⟨c, rest, written, letter⟩ := Descriptor.exists_chars_fieldType type
    show (String.ofList type.chars).toList.head? = some '(' ↔ _
    rw [String.toList_ofList, written]
    constructor
    · rintro ⟨⟩
      exact absurd letter (by decide)
    · rintro ⟨inner, ⟨⟩⟩
  | method type =>
    show (String.ofList type.chars).toList.head? = some '(' ↔ _
    rw [String.toList_ofList]
    exact ⟨fun _ => ⟨type, rfl⟩, fun _ => rfl⟩

end DescribedType

/-! ### Renaming with a record -/

theorem Recorded.record_bind_of_eq_ok {ρ α β : Type} {run : Recorded ρ α} {next : α → Recorded ρ β}
    {value : α} (done : run.result = .ok value) :
    (run >>= next).record = run.record ++ (next value).record := by
  show (run.andThen next).record = _
  rw [andThen, done]

theorem Naming.record_consult_total (renamed : ClassName → Option ClassName)
    (names : List ClassName) : ((Naming.total renamed).consult names).record = names := by
  induction names with
  | nil => rfl
  | cons name rest ih => exact congrArg (name :: ·) ih

/-- The written form of a well-formed tree is renamed after asking for the names of the tree. -/
theorem Grammar.renameAsking_write (τ : Type) [Grammar τ] [LawfulGrammar τ]
    (renamed : ClassName → Option ClassName) {tree : τ} (fine : LawfulGrammar.WellFormed tree) :
    renameAsking τ (Naming.total renamed) (write tree) =
      ⟨LawfulGrammar.names tree, .ok (write (rename renamed tree))⟩ := by
  have reading : (read (write tree) : Reading τ) = ⟨LawfulGrammar.names tree, .ok tree⟩ :=
    LawfulGrammar.read_eq_iff.mpr ⟨fine, rfl, rfl⟩
  rw [renameAsking, reading]
  ext1
  · rw [Recorded.record_bind_of_eq_ok (result_consult_total renamed _), Naming.record_consult_total]
    exact List.append_nil _
  · rw [Recorded.result_bind, result_consult_total]
    rfl

namespace Descriptor

/-- A text is read as a tree, or it has a flaw and no names. -/
theorem read_cases {τ : Type} [Grammar τ] [LawfulGrammar τ] {scan : Scan τ}
    (scans : Grammar.read = read scan) (text : String) :
    (∃ tree : τ, Grammar.read text = (⟨LawfulGrammar.names tree, .ok tree⟩ : Reading τ)) ∨
      ∃ flaw, Grammar.read text = (⟨[], .error (.descriptor text flaw)⟩ : Reading τ) := by
  cases found : Scanner.whole .leftover scan (.start text.toList) with
  | ok tree cursor =>
    have reading : Grammar.read text = (⟨cursor.names, .ok tree⟩ : Reading τ) := by
      rw [scans, read, found]
    obtain ⟨_, names, _⟩ := LawfulGrammar.read_eq_iff.mp reading
    exact Or.inl ⟨tree, names ▸ reading⟩
  | error flaw cursor =>
    refine Or.inr ⟨flaw, ?_⟩
    rw [scans, read, found]

/-- If a text is not read, none of its names is asked for, and the flaw is told with the text. -/
theorem renameAsking_of_unread {τ : Type} [Grammar τ] [LawfulGrammar τ] {scan : Scan τ}
    (scans : Grammar.read = read scan) {text : String}
    (unread : ∀ tree : τ, (Grammar.read text : Reading τ).result ≠ .ok tree) (naming : Naming) :
    ∃ flaw, Grammar.renameAsking τ naming text = ⟨[], .error (.descriptor text flaw)⟩ := by
  obtain ⟨tree, reading⟩ | ⟨flaw, reading⟩ := read_cases scans text
  · exact absurd (congrArg Reading.result reading) (unread tree)
  · refine ⟨flaw, ?_⟩
    unfold Grammar.renameAsking
    rw [reading]
    rfl

/-- Renaming a descriptor asks for the classes of its type and puts the answers into the type. -/
theorem renameAsking_of_isReadFrom {text : String} {type : DescribedType}
    (read : type.IsReadFrom text) (renamed : ClassName → Option ClassName) :
    renameAsking (Naming.total renamed) text =
      ⟨type.classNames, .ok (type.map (newName renamed)).write⟩ := by
  obtain ⟨fine, rfl⟩ := DescribedType.isReadFrom_iff.mp read
  have parenthesis := type.head?_write_eq_parenthesis_iff
  unfold renameAsking
  cases type with
  | field type =>
    rw [if_neg (mt parenthesis.mp nofun)]
    show Grammar.renameAsking FieldType (Naming.total renamed) (Grammar.write type) =
      ⟨type.className?.toList, .ok (Grammar.write (type.map (newName renamed)))⟩
    rw [← type.rename_eq_map]
    exact Grammar.renameAsking_write FieldType renamed fine
  | method type =>
    rw [if_pos (parenthesis.mpr ⟨type, rfl⟩)]
    show Grammar.renameAsking MethodType (Naming.total renamed) (Grammar.write type) =
      ⟨type.classNames, .ok (Grammar.write (type.map (newName renamed)))⟩
    rw [← type.rename_eq_map]
    exact Grammar.renameAsking_write MethodType renamed fine

theorem renameText_of_isReadFrom {text : String} {type : DescribedType}
    (read : type.IsReadFrom text) (renamed : ClassName → Option ClassName) :
    renameText renamed text = .ok (type.map (newName renamed)).write := by
  rw [renameText, renameAsking_of_isReadFrom read]

/-- No class is asked for on behalf of a text that is no descriptor, and the text is blamed. -/
theorem renameAsking_of_not_isReadFrom {text : String}
    (unread : ∀ type, ¬ DescribedType.IsReadFrom text type) (naming : Naming) :
    ∃ flaw, renameAsking naming text = ⟨[], .error (.descriptor text flaw)⟩ := by
  unfold renameAsking
  split
  case isTrue => exact renameAsking_of_unread rfl (fun type => unread (.method type)) naming
  case isFalse => exact renameAsking_of_unread rfl (fun type => unread (.field type)) naming

end Descriptor

/-! ### Asking for each class when it is come by -/

section MapAsking

variable {m : Type → Type} [Monad m] (ask : ClassName → m (Option ClassName))

/-- The type with other classes in it. A class is asked for, and kept if nothing is answered. -/
def ElementType.mapAsking : ElementType → m ElementType
  | .base type => return .base type
  | .object name => return .object ((← ask name).getD name)

def FieldType.mapAsking : FieldType → m FieldType
  | .plain element => return .plain (← element.mapAsking ask)
  | .array dimensions element => return .array dimensions (← element.mapAsking ask)

def MethodType.mapAsking (type : MethodType) : m MethodType := do
  let parameters ← type.parameters.mapM (FieldType.mapAsking ask)
  let result ← type.result.mapM (FieldType.mapAsking ask)
  return ⟨parameters, result⟩

/-- A descriptor of either sort with other classes in it. It is read as a whole before the first
class is asked for. -/
def Descriptor.mapAsking [MonadLiftT (Except Fault) m] (text : String) : m String := do
  if text.toList.head? = some '(' then
    let type ← MethodDescriptor.type ⟨text⟩
    return Grammar.write (← type.mapAsking ask)
  else
    let type ← FieldDescriptor.type ⟨text⟩
    return Grammar.write (← type.mapAsking ask)

end MapAsking

namespace Naming

variable (naming : Naming)

/-- Asks for a name, which is recorded. -/
def ask (name : ClassName) : Inquiry (Option ClassName) := do
  Recorded.note [name]
  naming name

theorem consult_append (first second : List ClassName) :
    naming.consult (first ++ second) = naming.consult first >>= fun _ => naming.consult second := by
  induction first with
  | nil => exact (pure_bind _ _).symm
  | cons name rest ih => simp only [consult, List.cons_append, ih, bind_assoc]

/-- Going through a list with questions comes to asking all of them before. -/
theorem mapM_asking {α : Type} {items : List α} {names : α → List ClassName} {new : α → α}
    {map : α → Inquiry α}
    (each : ∀ item, map item = naming.consult (names item) >>= fun _ => pure (new item)) :
    items.mapM map = naming.consult (items.flatMap names) >>= fun _ => pure (items.map new) := by
  induction items with
  | nil => exact (pure_bind _ _).symm
  | cons item rest ih =>
    simp only [List.mapM_cons, each, ih, List.flatMap_cons, consult_append,
      List.map_cons, bind_assoc, pure_bind]

theorem mapAsking_elementType (type : ElementType) :
    type.mapAsking naming.ask =
      naming.consult type.className?.toList >>= fun _ => pure (type.rename naming.answer) := by
  cases type with
  | base type => exact (pure_bind _ _).symm
  | object name =>
    show naming.ask name >>= (fun answer => pure (ElementType.object (answer.getD name))) =
      naming.consult [name] >>= fun _ => pure (.object ((naming.answer name).getD name))
    simp only [ask, consult, answer, bind_assoc]
    cases naming name <;> rfl

theorem mapAsking_fieldType (type : FieldType) :
    type.mapAsking naming.ask =
      naming.consult type.className?.toList >>= fun _ => pure (type.rename naming.answer) := by
  cases type with
  | plain element =>
    simp only [FieldType.mapAsking, mapAsking_elementType, bind_assoc, pure_bind]
    rfl
  | array dimensions element =>
    simp only [FieldType.mapAsking, mapAsking_elementType, bind_assoc, pure_bind]
    rfl

theorem mapAsking_methodType (type : MethodType) :
    type.mapAsking naming.ask =
      naming.consult type.classNames >>= fun _ => pure (type.rename naming.answer) := by
  obtain ⟨parameters, result⟩ := type
  have given : result.mapM (FieldType.mapAsking naming.ask) =
      naming.consult (result.toList.flatMap fun type => type.className?.toList) >>= fun _ =>
        pure (result.map (FieldType.rename naming.answer)) := by
    cases result with
    | none => exact (pure_bind _ _).symm
    | some type =>
      show FieldType.mapAsking naming.ask type >>= (fun new => pure (some new)) =
        naming.consult (type.className?.toList ++ []) >>= fun _ =>
          pure (some (type.rename naming.answer))
      rw [mapAsking_fieldType, List.append_nil, bind_assoc]
      simp only [pure_bind]
  rw [MethodType.mapAsking, mapM_asking naming naming.mapAsking_fieldType, given,
    MethodType.classNames, List.filterMap_eq_flatMap_toList, List.flatMap_append, consult_append]
  simp only [bind_assoc, pure_bind]
  rfl

end Naming

namespace Descriptor

/-- Asking for the names of a tree while it is made anew comes to asking for all of them before. -/
theorem renameAsking_eq_of_asking {τ : Type} [Grammar τ] [LawfulGrammar τ] {scan : Scan τ}
    (scans : Grammar.read = read scan) {naming : Naming} {map : τ → Inquiry τ}
    (asking : ∀ tree, map tree = naming.consult (LawfulGrammar.names tree) >>= fun _ =>
      pure (Grammar.rename naming.answer tree)) (text : String) :
    Grammar.renameAsking τ naming text = (do
      let tree ← (Grammar.read text : Reading τ).result
      return Grammar.write (← map tree) : Inquiry String) := by
  unfold Grammar.renameAsking
  obtain ⟨tree, reading⟩ | ⟨flaw, reading⟩ := read_cases scans text
  · rw [reading]
    show naming.consult (LawfulGrammar.names tree) >>=
      (fun _ => pure (Grammar.write (Grammar.rename naming.answer tree))) =
        map tree >>= fun new => pure (Grammar.write new)
    rw [asking, bind_assoc]
    rfl
  · rw [reading]
    rfl

/-- **Asking for all classes first is asking for each of them when it is come by.** If a question
fails, both break off at the same class, with the same fault. -/
theorem renameAsking_eq_mapAsking (naming : Naming) (text : String) :
    renameAsking naming text = mapAsking naming.ask text := by
  unfold renameAsking mapAsking
  by_cases method : text.toList.head? = some '('
  · rw [if_pos method, if_pos method]
    exact renameAsking_eq_of_asking rfl naming.mapAsking_methodType text
  · rw [if_neg method, if_neg method]
    exact renameAsking_eq_of_asking rfl naming.mapAsking_fieldType text

end Descriptor

/-! ### Answers that depend on earlier questions -/

/-- What is answered when a name is asked for. It may depend on all names that were asked for
before. -/
abbrev Answers := List ClassName → ClassName → Option ClassName

namespace Answers

/-- A computation that may fail and that knows all names it has asked for. -/
abbrev Asking := StateT (List ClassName) (Except Fault)

variable {α β : Type} {names more : List ClassName}

/-- Asks for a name. -/
def ask (answers : Answers) (name : ClassName) : Asking (Option ClassName) := fun asked =>
  .ok (answers asked name, asked ++ [name])

/-- The computation ends well, and asks for the names in order. -/
def Asks (run : Asking α) (names : List ClassName) : Prop :=
  ∀ asked, ∃ value, run.run asked = .ok (value, asked ++ names)

theorem asks_pure (value : α) : Asks (pure value) [] :=
  fun asked =>
    ⟨value, congrArg (fun names => Except.ok (value, names)) (List.append_nil asked).symm⟩

/-- The answers so far may have a part in how it goes on, but not in what is asked for next. -/
theorem Asks.bind {run : Asking α} {next : α → Asking β} (first : Asks run names)
    (rest : ∀ value, Asks (next value) more) : Asks (run >>= next) (names ++ more) := by
  intro asked
  obtain ⟨value, done⟩ := first asked
  obtain ⟨last, finished⟩ := rest value (asked ++ names)
  refine ⟨last, ?_⟩
  rw [StateT.run_bind, done, ← List.append_assoc]
  exact finished

theorem Asks.map {run : Asking α} (asks : Asks run names) (change : α → β) :
    Asks (run >>= fun value => pure (change value)) names := by
  have both := asks.bind fun value => asks_pure (change value)
  rwa [List.append_nil] at both

theorem asks_mapM {items : List α} {body : α → Asking β} {names : α → List ClassName}
    (each : ∀ item, Asks (body item) (names item)) :
    Asks (items.mapM body) (items.flatMap names) := by
  induction items with
  | nil => exact asks_pure []
  | cons item rest ih =>
    rw [List.mapM_cons, List.flatMap_cons]
    exact (each item).bind fun value => ih.map fun values => value :: values

theorem asks_fieldType (answers : Answers) (type : FieldType) :
    Asks (type.mapAsking answers.ask) type.className?.toList := by
  have each : ∀ element : ElementType,
      Asks (element.mapAsking answers.ask) element.className?.toList := by
    intro element
    cases element with
    | base type => exact asks_pure _
    | object name =>
      have asked : Asks (answers.ask name) [name] := fun asked => ⟨_, rfl⟩
      exact asked.map fun answer => ElementType.object (answer.getD name)
  cases type with
  | plain element => exact (each element).map FieldType.plain
  | array dimensions element => exact (each element).map (FieldType.array dimensions)

theorem asks_methodType (answers : Answers) (type : MethodType) :
    Asks (type.mapAsking answers.ask) type.classNames := by
  obtain ⟨parameters, result⟩ := type
  have given : Asks (result.mapM (FieldType.mapAsking answers.ask))
      (result.toList.flatMap fun type => type.className?.toList) := by
    cases result with
    | none => exact asks_pure none
    | some type =>
      have asked := (asks_fieldType answers type).map some
      rwa [← List.append_nil type.className?.toList] at asked
  rw [MethodType.classNames, List.filterMap_eq_flatMap_toList, List.flatMap_append]
  exact (asks_mapM (asks_fieldType answers)).bind fun types => given.map (MethodType.mk types)

end Answers

/-- Which classes are asked for is settled by the type before the first answer is given. -/
theorem Descriptor.asks_mapAsking {text : String} {type : DescribedType}
    (read : type.IsReadFrom text) (answers : Answers) :
    Answers.Asks (mapAsking answers.ask text) type.classNames := by
  have written := (DescribedType.isReadFrom_iff.mp read).2
  have parenthesis := type.head?_write_eq_parenthesis_iff
  rw [written] at parenthesis
  unfold mapAsking
  cases type with
  | field type =>
    rw [if_neg (mt parenthesis.mp nofun), show FieldDescriptor.type ⟨text⟩ = _ from read]
    exact (answers.asks_fieldType type).map Grammar.write
  | method type =>
    rw [if_pos (parenthesis.mpr ⟨type, rfl⟩), show MethodDescriptor.type ⟨text⟩ = _ from read]
    exact (answers.asks_methodType type).map Grammar.write

/-- **Renaming descriptors is functorial.** Let the first renaming give names of object classes
only. From a text that is a descriptor it makes the descriptor of the same type with the new classes
in it. It asks for the classes of the type from left to right, and gives back the text if it keeps
them all. Renaming the result by a second renaming is renaming the text by both at once. A text that
is no descriptor is blamed before any class is asked for. It makes no difference whether all classes
are asked for first or each of them when the type is made anew, also if a question fails; and the
same classes are asked for if answers depend on what was asked before. -/
theorem renaming_descriptors_is_functorial {first : ClassName → Option ClassName}
    (objects : ∀ old new, first old = some new → isObjectName new.text.toList = true)
    (second : ClassName → Option ClassName) (text : String) :
    (∀ type : DescribedType, type.IsReadFrom text →
      ∃ result, Descriptor.renameAsking (Naming.total first) text = ⟨type.classNames, .ok result⟩ ∧
        (type.map (newName first)).IsReadFrom result ∧
        ((∀ name ∈ type.classNames, newName first name = name) → result = text) ∧
        Descriptor.renameText second result =
          Descriptor.renameText (fun name => some (newName second (newName first name))) text) ∧
    ((∀ type, ¬ DescribedType.IsReadFrom text type) → ∀ naming : Naming,
      ∃ flaw, Descriptor.renameAsking naming text = ⟨[], .error (.descriptor text flaw)⟩) ∧
    (∀ naming : Naming, Descriptor.renameAsking naming text =
      Descriptor.mapAsking naming.ask text) ∧
    ∀ (type : DescribedType) (answers : Answers), type.IsReadFrom text →
      ∃ result, (Descriptor.mapAsking answers.ask text).run [] = .ok (result, type.classNames) := by
  refine ⟨fun type read => ?_, Descriptor.renameAsking_of_not_isReadFrom, fun naming =>
    Descriptor.renameAsking_eq_mapAsking naming text, fun type answers read =>
      Descriptor.asks_mapAsking read answers []⟩
  obtain ⟨fine, written⟩ := DescribedType.isReadFrom_iff.mp read
  have readAgain : (type.map (newName first)).IsReadFrom (type.map (newName first)).write :=
    DescribedType.isReadFrom_iff.mpr ⟨fine.map objects, rfl⟩
  refine ⟨_, Descriptor.renameAsking_of_isReadFrom read first, readAgain, fun kept => ?_, ?_⟩
  · rw [DescribedType.map_of_kept kept, written]
  · rw [Descriptor.renameText_of_isReadFrom readAgain, Descriptor.renameText_of_isReadFrom read,
      DescribedType.map_map]
    rfl

namespace ChainedRenaming

def first (name : ClassName) : Option ClassName := if name.text = "a" then some ⟨"x/Y"⟩ else none

def second (name : ClassName) : Option ClassName := if name.text = "x/Y" then some ⟨"b"⟩ else none

/-- The type of a method with an object, an array of objects and an integer as parameters. -/
def type : DescribedType :=
  .method ⟨[.plain (.object ⟨"a"⟩), .array 2 (.object ⟨"b"⟩), .plain (.base .int)],
    some (.array 1 (.object ⟨"a"⟩))⟩

end ChainedRenaming

/-- A class is renamed in two steps, in two places of a descriptor that has another class between
them. -/
theorem classes_of_descriptor_renamed_in_two_steps :
    Descriptor.renameAsking (Naming.total ChainedRenaming.first) "(La;[[Lb;I)[La;" =
        ⟨[⟨"a"⟩, ⟨"b"⟩, ⟨"a"⟩], .ok "(Lx/Y;[[Lb;I)[Lx/Y;"⟩ ∧
      Descriptor.renameText ChainedRenaming.second "(Lx/Y;[[Lb;I)[Lx/Y;" =
        .ok "(Lb;[[Lb;I)[Lb;" := by
  have objects : ∀ old new, ChainedRenaming.first old = some new →
      isObjectName new.text.toList = true := by
    intro old new found
    unfold ChainedRenaming.first at found
    split at found
    case isTrue =>
      cases found
      decide
    case isFalse => cases found
  have read : ChainedRenaming.type.IsReadFrom "(La;[[Lb;I)[La;" := by
    show MethodDescriptor.type ⟨"(La;[[Lb;I)[La;"⟩ = .ok _
    cbv
  obtain ⟨result, done, _, _, twice⟩ :=
    (renaming_descriptors_is_functorial objects ChainedRenaming.second "(La;[[Lb;I)[La;").1
      ChainedRenaming.type read
  have asked : Descriptor.renameAsking (Naming.total ChainedRenaming.first) "(La;[[Lb;I)[La;" =
      ⟨[⟨"a"⟩, ⟨"b"⟩, ⟨"a"⟩], .ok "(Lx/Y;[[Lb;I)[Lx/Y;"⟩ := by
    cbv
  obtain rfl : result = "(Lx/Y;[[Lb;I)[Lx/Y;" :=
    Except.ok.inj (congrArg Recorded.result (done.symm.trans asked))
  refine ⟨asked, twice.trans ?_⟩
  cbv

end Renaming

import Renaming.Proofs.Options
import Renaming.Proofs.Translation
import Renaming.Proofs.ValidClasses

/-!
# Which bridges are degraded

`ClassFile.ForwardsTo` says what it takes for a method of a class to be a bridge that forwards to
another one. It looks at the class as it is before any flag is cleared, and at its methods without
regard to their order. Degrading the bridges of a class is then described one method at a time:

* `ClassFile.exists_forwardingTarget`: the target that is found for a method is the one it forwards
  to.
* `ClassFile.result_degradeBridges_of_perm`: **in whatever order the methods stand, each is degraded
  or not as it is in the class**. So it does not matter that flags are cleared method by method.
* `ClassFile.not_forwardsTo_of_target`: no target is a bridge itself, so bridges are not followed
  further.
-/

namespace Renaming

/-! ### The only call of a method -/

/-- Exactly one instruction of the method calls a method that is not computed at run time, and it is
the given one. -/
def Method.CallsOnly (method : Method) (ref : MethodRef) : Prop :=
  ∃ code before label kind after, method.code = some code ∧
    code.instructions = before ++ ⟨label, .call kind ref⟩ :: after ∧
    ∀ entry ∈ before ++ after, ∀ kind other, entry.instruction ≠ .call kind other

theorem filterMap_eq_singleton_iff {α β : Type} {view : α → Option β} {items : List α} {value : β} :
    items.filterMap view = [value] ↔
      ∃ before item after, items = before ++ item :: after ∧ view item = some value ∧
        ∀ other ∈ before ++ after, view other = none := by
  rw [List.filterMap_eq_cons_iff]
  constructor
  · rintro ⟨before, item, after, rfl, skipped, found, rest⟩
    refine ⟨before, item, after, rfl, found, fun other member => ?_⟩
    rcases List.mem_append.mp member with early | late
    · exact skipped other early
    · exact List.filterMap_eq_nil_iff.mp rest other late
  · rintro ⟨before, item, after, rfl, found, skipped⟩
    refine ⟨before, item, after, rfl, ?_, found, List.filterMap_eq_nil_iff.mpr ?_⟩
    · exact fun other early => skipped other (List.mem_append_left _ early)
    · exact fun other late => skipped other (List.mem_append_right _ late)

theorem Instruction.map_fst_called?_eq_some_iff {instruction : Instruction} {ref : MethodRef} :
    instruction.called?.map Prod.fst = some ref ↔ ∃ kind, instruction = .call kind ref := by
  cases instruction <;> simp [called?]

theorem Code.calls_eq_singleton_iff {code : Code} {ref : MethodRef} :
    code.calls = [ref] ↔ ∃ before label kind after,
      code.instructions = before ++ ⟨label, .call kind ref⟩ :: after ∧
        ∀ entry ∈ before ++ after, ∀ kind other, entry.instruction ≠ .call kind other := by
  have silent (entry : CodeEntry) : entry.instruction.called?.map Prod.fst = none ↔
      ∀ kind other, entry.instruction ≠ .call kind other := by
    cases entry.instruction <;> simp [Instruction.called?]
  rw [calls, filterMap_eq_singleton_iff]
  simp only [silent, Instruction.map_fst_called?_eq_some_iff]
  constructor
  · rintro ⟨before, ⟨label, _⟩, after, split, ⟨kind, rfl⟩, others⟩
    exact ⟨before, label, kind, after, split, others⟩
  · rintro ⟨before, label, kind, after, split, others⟩
    exact ⟨before, ⟨label, .call kind ref⟩, after, split, ⟨kind, rfl⟩, others⟩

theorem Method.onlyCall?_eq_some_iff {method : Method} {ref : MethodRef} :
    method.onlyCall? = some ref ↔ method.CallsOnly ref := by
  have called : method.onlyCall? = some ref ↔ ∃ code, method.code = some code ∧
      code.calls = [ref] := by
    unfold onlyCall?
    cases method.code with
    | none => simp
    | some code =>
      simp only [Option.map_some, Option.some.injEq, exists_eq_left']
      split <;> simp_all
  rw [called, CallsOnly]
  simp only [Code.calls_eq_singleton_iff, exists_and_left]

/-! ### Forwarding -/

/-- The method is a bridge made by the compiler whose only call is to another method of the class,
the target. The target has another descriptor with as many parameters, and the class declares it as
a method that is no bridge. -/
structure ClassFile.ForwardsTo (file : ClassFile) (bridge : Method) (target : MethodKey) :
    Prop where
  isBridge : bridge.access.isBridge = true
  isSynthetic : bridge.access.isSynthetic = true
  calls : bridge.CallsOnly (target.on file.name)
  differs : target.descriptor ≠ bridge.descriptor
  sameCount : ∃ count, target.descriptor.parameterCount = .ok count ∧
    bridge.descriptor.parameterCount = .ok count
  declared : ∃ method ∈ file.methods, method.key = target ∧ method.access.isBridge = false

namespace ClassFile

variable {file : ClassFile}

/-- Only what the class declares matters, not in which order. -/
theorem forwardsTo_iff_of_perm {methods : List Method} (reordered : methods.Perm file.methods)
    {bridge : Method} {target : MethodKey} :
    ({ file with methods } : ClassFile).ForwardsTo bridge target ↔
      file.ForwardsTo bridge target := by
  have same (method : Method) : method ∈ methods ↔ method ∈ file.methods := reordered.mem_iff
  constructor
  · rintro ⟨isBridge, isSynthetic, calls, differs, sameCount, method, listed, target⟩
    exact ⟨isBridge, isSynthetic, calls, differs, sameCount, method,
      (same method).mp listed, target⟩
  · rintro ⟨isBridge, isSynthetic, calls, differs, sameCount, method, listed, target⟩
    exact ⟨isBridge, isSynthetic, calls, differs, sameCount, method,
      (same method).mpr listed, target⟩

/-- The target is the method that is called. -/
theorem ForwardsTo.called {bridge : Method} {target : MethodKey} {ref : MethodRef}
    (forwards : file.ForwardsTo bridge target) (called : bridge.onlyCall? = some ref) :
    ref = target.on file.name := by
  rw [Method.onlyCall?_eq_some_iff.mpr forwards.calls] at called
  exact (Option.some.inj called).symm

/-- Without a method that is called and no bridge there is no target. -/
theorem not_forwardsTo_of_find? {bridge : Method} {target : MethodKey} {ref : MethodRef}
    (called : bridge.onlyCall? = some ref)
    (missing : file.methods.find? (fun method => method.key = ref.key && !method.access.isBridge) =
      none) :
    ¬ file.ForwardsTo bridge target := by
  intro forwards
  obtain ⟨method, present, same, ordinary⟩ := forwards.declared
  have passed := List.find?_eq_none.mp missing method present
  rw [same, forwards.called called, ordinary] at passed
  exact passed (by simp [MethodKey.on, MethodRef.key])

/-- A method that is called and no bridge is the target if it has another descriptor with as many
parameters. -/
theorem forwardsTo_iff_of_find? {bridge method : Method} {target : MethodKey} {ref : MethodRef}
    {methodCount bridgeCount : Nat} (isBridge : bridge.access.isBridge = true)
    (isSynthetic : bridge.access.isSynthetic = true) (called : bridge.onlyCall? = some ref)
    (here : ref.owner = file.name) (differs : ref.descriptor ≠ bridge.descriptor)
    (found : file.methods.find? (fun method => method.key = ref.key && !method.access.isBridge) =
      some method)
    (counted : method.descriptor.parameterCount = .ok methodCount)
    (bridgeCounted : bridge.descriptor.parameterCount = .ok bridgeCount) :
    file.ForwardsTo bridge target ↔ methodCount = bridgeCount ∧ method.key = target := by
  have fits := List.find?_some found
  simp only [Bool.and_eq_true, decide_eq_true_eq, Bool.not_eq_true'] at fits
  obtain ⟨same, ordinary⟩ := fits
  constructor
  · intro forwards
    have sameTarget : method.key = target := by
      rw [same, forwards.called called]
      rfl
    obtain ⟨count, ofTarget, ofBridge⟩ := forwards.sameCount
    rw [← sameTarget] at ofTarget
    have first : methodCount = count := Except.ok.inj (counted.symm.trans ofTarget)
    have second : bridgeCount = count := Except.ok.inj (bridgeCounted.symm.trans ofBridge)
    exact ⟨first.trans second.symm, sameTarget⟩
  · rintro ⟨equal, rfl⟩
    have onClass : method.key.on file.name = ref := by
      rw [same, ← here]
      rfl
    refine ⟨isBridge, isSynthetic, ?_, ?_, ⟨methodCount, counted, ?_⟩, method,
      List.mem_of_find?_eq_some found, rfl, ordinary⟩
    · rw [onClass]
      exact Method.onlyCall?_eq_some_iff.mp called
    · rw [same]
      exact differs
    · rw [equal]
      exact bridgeCounted

/-- **The target that is found for a method of the class is the one that it forwards to.** -/
theorem exists_forwardingTarget (valid : ∀ method ∈ file.methods, method.descriptor.Valid)
    {bridge : Method} (listed : bridge ∈ file.methods) :
    ∃ target, forwardingTarget file.name file.methods bridge = .ok target ∧
      ∀ key, target = some key ↔ file.ForwardsTo bridge key := by
  unfold forwardingTarget
  by_cases flagged : (bridge.access.isBridge && bridge.access.isSynthetic) = true
  · rw [if_pos flagged]
    obtain ⟨isBridge, isSynthetic⟩ := Bool.and_eq_true_iff.mp flagged
    cases called : bridge.onlyCall? with
    | none =>
      refine ⟨none, rfl, fun key => iff_of_false nofun fun forwards => ?_⟩
      rw [Method.onlyCall?_eq_some_iff.mpr forwards.calls] at called
      cases called
    | some ref =>
      by_cases refused : (ref.owner ≠ file.name || ref.descriptor = bridge.descriptor) = true
      · refine ⟨none, if_pos refused, fun key => iff_of_false nofun fun forwards => ?_⟩
        rw [forwards.called called] at refused
        have differs := forwards.differs
        simp [MethodKey.on, differs] at refused
      · simp only [if_neg refused]
        simp only [ne_eq, Bool.or_eq_true, decide_eq_true_eq, not_or, Decidable.not_not] at refused
        obtain ⟨here, differs⟩ := refused
        cases found : file.methods.find?
            fun method => method.key = ref.key && !method.access.isBridge with
        | none =>
          exact ⟨none, rfl, fun key => iff_of_false nofun (not_forwardsTo_of_find? called found)⟩
        | some method =>
          obtain ⟨methodCount, counted⟩ :=
            Pass.exists_parameterCount (valid method (List.mem_of_find?_eq_some found))
          obtain ⟨bridgeCount, bridgeCounted⟩ := Pass.exists_parameterCount (valid bridge listed)
          refine ⟨if methodCount = bridgeCount then some method.key else none, ?_, fun key => ?_⟩
          · simp only [counted, bridgeCounted]
            rfl
          · rw [Option.ite_none_right_eq_some, Option.some.injEq]
            exact (forwardsTo_iff_of_find? isBridge isSynthetic called here differs found counted
              bridgeCounted).symm
  · rw [if_neg flagged]
    refine ⟨none, rfl, fun key => iff_of_false nofun fun forwards => flagged ?_⟩
    rw [forwards.isBridge, forwards.isSynthetic]
    rfl

/-! ### All methods of a class -/

/-- The target of a method, if it forwards to one. -/
def target? (file : ClassFile) (method : Method) : Option MethodKey :=
  (forwardingTarget file.name file.methods method).toOption.join

/-- What is reported of a method, if it is degraded. -/
def report? (file : ClassFile) (method : Method) : Option DegradedBridge :=
  (file.target? method).map fun target => ⟨file.name, method.key, target⟩

/-- The reported methods are the degraded ones in the order of the class. -/
theorem bridges_reported (file : ClassFile) (methods : List Method) :
    (methods.filterMap file.report?).map DegradedBridge.bridge =
      (methods.filter fun method => (file.target? method).isSome).map Method.key := by
  induction methods with
  | nil => rfl
  | cons method rest ih =>
    cases found : file.target? method with
    | none => simp [report?, found, ih]
    | some target => simp [report?, found, ih]

section Methods

variable (valid : ∀ method ∈ file.methods, method.descriptor.Valid)

include valid

theorem forwardingTarget_eq {method : Method} (listed : method ∈ file.methods) :
    forwardingTarget file.name file.methods method = .ok (file.target? method) := by
  obtain ⟨target, found, _⟩ := exists_forwardingTarget valid listed
  rw [target?, found]
  rfl

theorem target?_eq_some_iff {method : Method} (listed : method ∈ file.methods)
    {target : MethodKey} : file.target? method = some target ↔ file.ForwardsTo method target := by
  obtain ⟨found, search, meaning⟩ := exists_forwardingTarget valid listed
  rw [target?, search]
  exact meaning target

theorem result_degradeBridges_of_valid :
    file.degradeBridges.result =
      .ok ({ file with
          methods := file.methods.map fun method => method.degradedTo (file.target? method) },
        file.methods.filterMap file.report?) := by
  have targets : file.forwardingTargets = .ok (file.methods.map file.target?) :=
    mapM_of_forall_eq_ok fun method listed => forwardingTarget_eq valid listed
  have degraded : file.degradedTo (file.methods.map file.target?) =
      { file with
        methods := file.methods.map fun method => method.degradedTo (file.target? method) } := by
    rw [degradedTo, List.zipWith_map_right, List.zipWith_self]
  have reported : file.reported (file.methods.map file.target?) =
      file.methods.filterMap file.report? := by
    rw [ClassFile.reported, List.zip_eq_zipWith, List.zipWith_map_right, List.zipWith_self,
      List.filterMap_map]
    rfl
  rw [file.result_degradeBridges, targets, ← degraded, ← reported]
  rfl

/-- **In whatever order the methods stand, each is degraded or not as it is in the class.** -/
theorem result_degradeBridges_of_perm {methods : List Method}
    (reordered : methods.Perm file.methods) :
    ({ file with methods } : ClassFile).degradeBridges.result =
      .ok ({ file with
          methods := methods.map fun method => method.degradedTo (file.target? method) },
        methods.filterMap file.report?) := by
  let other : ClassFile := { file with methods }
  have validOther : ∀ method ∈ other.methods, method.descriptor.Valid := fun method listed =>
    valid method (reordered.mem_iff.mp listed)
  have same : ∀ method ∈ methods, other.target? method = file.target? method := by
    intro method listed
    refine Option.ext fun target => ?_
    rw [target?_eq_some_iff validOther listed,
      target?_eq_some_iff valid (reordered.mem_iff.mp listed)]
    exact forwardsTo_iff_of_perm reordered
  have degraded : methods.map (fun method => method.degradedTo (other.target? method)) =
      methods.map fun method => method.degradedTo (file.target? method) :=
    List.map_congr_left fun method listed => by rw [same method listed]
  have reported : methods.filterMap other.report? = methods.filterMap file.report? :=
    List.filterMap_congr fun method listed => by
      rw [report?, report?, same method listed]
  have done := result_degradeBridges_of_valid validOther
  rw [reported] at done
  refine done.trans ?_
  show Except.ok (({ file with methods := methods.map _ } : ClassFile), _) = _
  rw [degraded]

theorem mem_reported_iff {entry : DegradedBridge} :
    entry ∈ file.methods.filterMap file.report? ↔
      entry.owner = file.name ∧
        ∃ method ∈ file.methods, method.key = entry.bridge ∧
          file.ForwardsTo method entry.target := by
  obtain ⟨owner, bridge, target⟩ := entry
  simp only [List.mem_filterMap, report?, Option.map_eq_some_iff, DegradedBridge.mk.injEq]
  constructor
  · rintro ⟨method, listed, target, found, rfl, rfl, rfl⟩
    exact ⟨rfl, method, listed, rfl, (target?_eq_some_iff valid listed).mp found⟩
  · rintro ⟨rfl, method, listed, rfl, forwards⟩
    exact ⟨method, listed, target, (target?_eq_some_iff valid listed).mpr forwards, rfl, rfl, rfl⟩

end Methods

section Distinct

variable (distinct : (file.methods.map Method.key).Nodup)

include distinct

/-- **No target is a bridge itself**, so bridges are not followed further. -/
theorem not_forwardsTo_of_target {bridge method : Method} {target other : MethodKey}
    (forwards : file.ForwardsTo bridge target) (listed : method ∈ file.methods)
    (same : method.key = target) : ¬ file.ForwardsTo method other := by
  intro further
  obtain ⟨declared, present, isTarget, ordinary⟩ := forwards.declared
  have one : method = declared :=
    List.inj_on_of_nodup_map distinct listed present (same.trans isTarget.symm)
  rw [← one, further.isBridge] at ordinary
  cases ordinary

/-- A method is degraded if and only if its key is reported. -/
theorem isSome_target?_iff (valid : ∀ method ∈ file.methods, method.descriptor.Valid)
    {method : Method} (listed : method ∈ file.methods) :
    (file.target? method).isSome ↔
      method.key ∈ (file.methods.filterMap file.report?).map DegradedBridge.bridge := by
  rw [Option.isSome_iff_exists, List.mem_map]
  constructor
  · rintro ⟨target, found⟩
    have forwards := (target?_eq_some_iff valid listed).mp found
    exact ⟨⟨file.name, method.key, target⟩,
      (mem_reported_iff valid).mpr ⟨rfl, method, listed, rfl, forwards⟩, rfl⟩
  · rintro ⟨entry, reported, same⟩
    obtain ⟨_, other, present, sameToo, forwards⟩ := (mem_reported_iff valid).mp reported
    have one : other = method :=
      List.inj_on_of_nodup_map distinct present listed (sameToo.trans same)
    rw [one] at forwards
    exact ⟨entry.target, (target?_eq_some_iff valid listed).mpr forwards⟩

end Distinct

end ClassFile

/-! ### Flags -/

/-- Clearing takes away the flags of bridges and of methods made by the compiler, and no other. -/
theorem MethodAccess.withoutBridge_flags (access : MethodAccess) :
    access.withoutBridge.isBridge = false ∧ access.withoutBridge.isSynthetic = false ∧
      ∀ place, place ≠ 6 → place ≠ 12 →
        access.withoutBridge.bits.getLsbD place = access.bits.getLsbD place := by
  unfold isBridge isSynthetic withoutBridge
  refine ⟨?_, ?_, fun place notBridge notSynthetic => ?_⟩
  · rw [Access.getLsbD_clear, Access.getLsbD_clear]
    simp
  · rw [Access.getLsbD_clear]
    simp
  · rw [Access.getLsbD_clear, Access.getLsbD_clear, bne_iff_ne.mpr notBridge,
      bne_iff_ne.mpr notSynthetic]
    simp

/-- **Bridges are degraded exactly where they forward, and all at once.** In a class with valid
descriptors that declares no method twice, degrading succeeds. It changes nothing but the flags of
bridges and of methods made by the compiler, which it clears for the methods it reports and leaves
alone for the others. It reports, in the order of the class, exactly the methods that forward to a
method of the class before anything is changed, with that method as the target; and no target is
reported itself. If the methods stand in another order, so do the methods it gives and the methods
it reports, and these are still the same. -/
theorem bridges_degraded_exactly_and_at_once {file : ClassFile}
    (valid : ∀ method ∈ file.methods, method.descriptor.Valid)
    (distinct : (file.methods.map Method.key).Nodup) :
    ∃ degraded bridges, file.degradeBridges.result = .ok (degraded, bridges) ∧
      degraded = { file with methods := degraded.methods } ∧
      List.Forall₂ (fun method new => new = { method with access := new.access } ∧
          (method.key ∈ bridges.map DegradedBridge.bridge →
            new.access.isBridge = false ∧ new.access.isSynthetic = false ∧
              ∀ place, place ≠ 6 → place ≠ 12 →
                new.access.bits.getLsbD place = method.access.bits.getLsbD place) ∧
          (method.key ∉ bridges.map DegradedBridge.bridge → new.access = method.access))
        file.methods degraded.methods ∧
      (bridges.map DegradedBridge.bridge).Sublist (file.methods.map Method.key) ∧
      (∀ entry, entry ∈ bridges ↔ entry.owner = file.name ∧
        ∃ method ∈ file.methods, method.key = entry.bridge ∧ file.ForwardsTo method entry.target) ∧
      (∀ entry ∈ bridges, ∀ other ∈ bridges, entry.target ≠ other.bridge) ∧
      ∃ (change : Method → Method) (report : Method → Option DegradedBridge),
        degraded.methods = file.methods.map change ∧ bridges = file.methods.filterMap report ∧
        ∀ methods : List Method, methods.Perm file.methods →
          ({ file with methods } : ClassFile).degradeBridges.result =
            .ok ({ file with methods := methods.map change }, methods.filterMap report) := by
  refine ⟨_, _, ClassFile.result_degradeBridges_of_valid valid, rfl, ?_, ?_,
    fun entry => ClassFile.mem_reported_iff valid, ?_, _, _, rfl, rfl,
    fun methods reordered => ClassFile.result_degradeBridges_of_perm valid reordered⟩
  · rw [List.forall₂_map_right_iff, List.forall₂_same]
    intro method listed
    rw [← ClassFile.isSome_target?_iff distinct valid listed]
    cases file.target? method with
    | none => exact ⟨rfl, nofun, fun _ => rfl⟩
    | some target =>
      exact ⟨rfl, fun _ => method.access.withoutBridge_flags, fun unlisted => absurd rfl unlisted⟩
  · rw [ClassFile.bridges_reported]
    exact List.filter_sublist.map Method.key
  · intro entry reported other reportedToo same
    obtain ⟨_, _, _, _, forwards⟩ := (ClassFile.mem_reported_iff valid).mp reported
    obtain ⟨_, method, listed, isBridge, further⟩ :=
      (ClassFile.mem_reported_iff valid).mp reportedToo
    exact ClassFile.not_forwardsTo_of_target distinct forwards listed
      (isBridge.trans same.symm) further

namespace Chain

def key (result : String) : MethodKey := ⟨⟨"get"⟩, ⟨"()L" ++ result ++ ";"⟩⟩

/-- A method of the class that calls another one of it. -/
def forwarding (access : MethodAccess) (result called : String) : Method :=
  { Method.bare ⟨"get"⟩ (key result).descriptor with
    access
    code := some ⟨none, none, [⟨none, .call .onVirtual ((key called).on ⟨"B"⟩)⟩], [], none,
      none, none⟩ }

/-- The first method calls the second one, and the second one the third. The first one is a bridge,
and so is the second one before it is degraded. -/
def file (second : MethodAccess) : ClassFile :=
  .ofMethods ⟨"B"⟩ none [forwarding (.ofNat 4161) "O" "P", forwarding second "P" "S",
    .bare ⟨"get"⟩ (key "S").descriptor]

def reported : DegradedBridge := ⟨⟨"B"⟩, key "P", key "S"⟩

end Chain

open Chain in
/-- In a chain of bridges only the last one is degraded, wherever it stands. -/
theorem last_bridge_of_chain_degraded :
    (file (.ofNat 4161)).degradeBridges.result = .ok (file (.ofNat 1), [reported]) ∧
    (∃ method ∈ (file (.ofNat 4161)).methods, method.key = key "P" ∧
      (file (.ofNat 4161)).ForwardsTo method (key "S")) ∧
    ({ file (.ofNat 4161) with methods := (file (.ofNat 4161)).methods.reverse } :
        ClassFile).degradeBridges.result =
      .ok ({ file (.ofNat 1) with methods := (file (.ofNat 1)).methods.reverse }, [reported]) := by
  have first : (key "O").descriptor.Valid := by
    unfold Symbol.Valid
    cbv
  have second : (key "P").descriptor.Valid := by
    unfold Symbol.Valid
    cbv
  have third : (key "S").descriptor.Valid := by
    unfold Symbol.Valid
    cbv
  have valid : ∀ method ∈ (file (.ofNat 4161)).methods, method.descriptor.Valid :=
    List.forall_mem_cons.mpr
      ⟨first, List.forall_mem_cons.mpr ⟨second, List.forall_mem_singleton.mpr third⟩⟩
  have distinct : ((file (.ofNat 4161)).methods.map Method.key).Nodup := by decide
  have done : (file (.ofNat 4161)).degradeBridges.result =
      .ok (file (.ofNat 1), [reported]) := by cbv
  obtain ⟨degraded, bridges, result, _, _, _, listed, _, change, report, changed, reports,
    reordered⟩ :=
    bridges_degraded_exactly_and_at_once valid distinct
  obtain ⟨rfl, rfl⟩ := Prod.mk.inj (Except.ok.inj (done.symm.trans result))
  refine ⟨done, ((listed reported).mp (List.mem_singleton.mpr rfl)).2, ?_⟩
  rw [reordered _ (List.reverse_perm _), List.map_reverse, ← changed,
    List.filterMap_reverse, ← reports]
  rfl

end Renaming

import ProgramScan.Proofs.Scan.Numbering

/-!
# Numbers of instances of virtual methods

An instance of a generic virtual method has the number of the method that introduced its slot, and the
slot is looked for with the substituted parameter types.  Types list definitions only, so what an
instance overrides, if anything, is a definition and never the instance of the overridden definition
with the same arguments.

* `MethodInstance.overridden?_eq`   an instance without parameters to substitute overrides what its
                                    definition overrides;
* `uidOwner_eq_or_listed`           a number belongs to the method itself or to a listed definition;
* `Uids.requests_instances`         when instances of an override share numbers;
* `Uids.requests_conflated`         two instances of an override with the same number, which is not that
                                    of the overridden instance.
-/

namespace ProgramScan

namespace Registry

variable {r : Registry} {d b x y z m : MethodId} {as bs : List TypeId}

/-! ## what instances override -/

/-- what a method overrides depends on its modifiers, type, name, arity and parameter types -/
theorem overridden?_congr {c : MethodId} (hmodifiers : (r.method c).modifiers = (r.method m).modifiers)
    (hdeclaring : (r.method c).declaring = (r.method m).declaring)
    (hname : (r.method c).name = (r.method m).name)
    (harity : (r.method c).genericArgs.length = (r.method m).genericArgs.length)
    (hparams : r.paramKeys c = r.paramKeys m) : r.overridden? c = r.overridden? m := by
  have hslot : r.sameSlot c = r.sameSlot m := by
    funext candidate
    rw [sameSlot, sameSlot, similarSlot, similarSlot, hname, harity, hparams]
  rw [overridden?, overridden?, Method.isVirtual, Method.isNewSlot, hmodifiers, hdeclaring, hslot]
  rfl

theorem MethodInstance.overridden?_eq (h : r.MethodInstance d as x)
    (hclosed : ∀ t ∈ (r.method d).paramTypes, r.isOpen t = false) :
    r.overridden? x = r.overridden? d := by
  refine overridden?_congr h.modifiers h.declaring h.name ?_ ?_
  · rw [h.args_eq, h.arity]
  · rw [paramKeys, paramKeys, Method.paramTypes, h.params hclosed, Method.paramTypes]

theorem MethodInstance.onInterface_iff (h : r.MethodInstance d as x) :
    r.OnInterface x ↔ r.OnInterface d := by
  rw [OnInterface, OnInterface, h.declaring]

theorem MethodInstance.overridden?_of_isNewSlot (h : r.MethodInstance b as y)
    (hslot : (r.method b).isNewSlot = true) : r.overridden? y = none :=
  Registry.overridden?_of_isNewSlot (by rw [Method.isNewSlot, h.modifiers]; exact hslot)

/-! ## whose number an instance has -/

theorem slotRootFrom_eq_or_listed (r : Registry) (n : Nat) (seen : List MethodId) (m : MethodId) :
    r.slotRootFrom n seen m = m ∨ ∃ t, r.slotRootFrom n seen m ∈ (r.type t).methods := by
  induction n generalizing seen m with
  | zero => exact .inl rfl
  | succ n ih =>
    rw [slotRootFrom]
    cases hb : r.overridden? m with
    | none => exact .inl rfl
    | some base =>
      dsimp only
      split
      · exact .inl rfl
      · obtain ⟨_, u, _, _, hbase, _⟩ := exists_ancestor_of_overridden hb
        rcases ih (base :: seen) base with heq | hlisted
        · refine .inr ⟨u, ?_⟩
          rw [heq]
          exact hbase
        · exact .inr hlisted

theorem uidOwner_eq_or_listed (r : Registry) (m : MethodId) :
    r.uidOwner m = m ∨ ∃ t, r.uidOwner m ∈ (r.type t).methods := by
  by_cases hi : r.OnInterface m
  · exact .inl (uidOwner_of_onInterface hi)
  · rw [uidOwner_of_not_onInterface hi]
    exact slotRootFrom_eq_or_listed r _ _ m

/-- an instance owns no number but its own -/
theorem MethodInstance.eq_of_uidOwner (ho : r.Owned) (h : r.MethodInstance d as x)
    (hm : r.uidOwner m = x) : m = x := by
  rcases uidOwner_eq_or_listed r m with hself | ⟨t, hlisted⟩
  · rw [← hself, hm]
  · rw [hm] at hlisted
    have hnone := (ho t x hlisted).2
    rw [h.definition] at hnone
    cases hnone

theorem declaring_ne_of_overridden (hw : r.WellFormed) (ho : r.Owned) (hr : r.Acyclic)
    (hd : r.Has (.method d)) (h : r.overridden? d = some b) :
    (r.method d).declaring ≠ (r.method b).declaring := by
  obtain ⟨t, u, hdecl, hu, hbase, -⟩ := exists_ancestor_of_overridden h
  have ht := hw.declaring hd hdecl
  obtain ⟨l, hl⟩ := hr t ht
  rw [hdecl, (ho u b hbase).1]
  intro heq
  cases heq
  rw [hl.ancestors hw ht] at hu
  exact hl.not_mem hu

theorem uidOwner_ne_of_instances (hw : r.WellFormed) (ho : r.Owned) (hr : r.Acyclic)
    (hover : r.overridden? d = some b) (hslot : (r.method b).isNewSlot = true)
    (hx : r.MethodInstance d as x) (hy : r.MethodInstance b bs y) :
    r.uidOwner x ≠ r.uidOwner y := by
  have hd := hw.genericDefinition (has_of_genericDefinition? hx.definition) hx.definition
  rw [uidOwner_of_overridden?_eq_none (hy.overridden?_of_isNewSlot hslot)]
  intro heq
  have hxy := hy.eq_of_uidOwner ho heq
  refine declaring_ne_of_overridden hw ho hr hd hover ?_
  rw [← hx.declaring, hxy, hy.declaring]

theorem uidOwner_eq_iff_of_instances (hw : r.WellFormed) (ho : r.Owned) (hr : r.Acyclic)
    (hclass : ¬ r.OnInterface d) (hx : r.MethodInstance d as x) (hz : r.MethodInstance d bs z) :
    r.uidOwner x = r.uidOwner z ↔ x = z ∨
      ∃ p q, r.overridden? x = some p ∧ r.overridden? z = some q ∧ r.slotRoot p = r.slotRoot q := by
  have hxhas := has_of_genericDefinition? hx.definition
  have hzhas := has_of_genericDefinition? hz.definition
  have hxclass := hx.onInterface_iff.not.mpr hclass
  have hzclass := hz.onInterface_iff.not.mpr hclass
  constructor
  · intro heq
    cases hp : r.overridden? x with
    | none =>
      rw [uidOwner_of_overridden?_eq_none hp] at heq
      exact .inl (hx.eq_of_uidOwner ho heq.symm).symm
    | some p =>
      cases hq : r.overridden? z with
      | none =>
        rw [uidOwner_of_overridden?_eq_none hq] at heq
        exact .inl (hz.eq_of_uidOwner ho heq)
      | some q =>
        rw [uidOwner_of_not_onInterface hxclass, uidOwner_of_not_onInterface hzclass,
          slotRoot_overridden hw ho hr hxhas hp, slotRoot_overridden hw ho hr hzhas hq] at heq
        exact .inr ⟨p, q, rfl, rfl, heq⟩
  · rintro (rfl | ⟨p, q, hp, hq, heq⟩)
    · rfl
    · rw [uidOwner_of_not_onInterface hxclass, uidOwner_of_not_onInterface hzclass,
        slotRoot_overridden hw ho hr hxhas hp, slotRoot_overridden hw ho hr hzhas hq, heq]

theorem MethodInstance.uidOwner_of_closed (hw : r.WellFormed) (ho : r.Owned) (hr : r.Acyclic)
    (hover : r.overridden? d = some b) (hslot : (r.method b).isNewSlot = true)
    (hclass : ¬ r.OnInterface d) (hx : r.MethodInstance d as x)
    (hclosed : ∀ t ∈ (r.method d).paramTypes, r.isOpen t = false) :
    r.uidOwner x = b := by
  have hxover : r.overridden? x = some b := by rw [hx.overridden?_eq hclosed, hover]
  rw [uidOwner_of_not_onInterface (hx.onInterface_iff.not.mpr hclass),
    slotRoot_overridden hw ho hr (has_of_genericDefinition? hx.definition) hxover,
    slotRoot_of_overridden?_eq_none (Registry.overridden?_of_isNewSlot hslot)]

end Registry

namespace Uids

variable {r : Registry} {d b x y z : MethodId} {as bs cs : List TypeId}

/-- **An instance of an override never has the number of the overridden instance.**  Let `d` override
`b`, which starts a slot.  An instance of `d` and one of `b` have different numbers, whatever their
arguments.  Two instances of `d` share a number if and only if they are the same, or override methods of
one slot; all of them do, with `b` itself, where the parameter types of `d` are closed. -/
theorem requests_instances (hb : r.Built) (hr : r.Acyclic) (hkeys : r.MethodKeysDistinct)
    (hover : r.overridden? d = some b) (hslot : (r.method b).isNewSlot = true)
    (hclass : ¬ r.OnInterface d) (hx : r.MethodInstance d as x) (hy : r.MethodInstance b bs y)
    (hz : r.MethodInstance d cs z) {ms : List MethodId} (hms : ∀ m ∈ ms, r.Has (.method m))
    {i j k : Nat} (hi : (x, i) ∈ (requests r {} ms).1) (hj : (y, j) ∈ (requests r {} ms).1)
    (hk : (z, k) ∈ (requests r {} ms).1) :
    i ≠ j ∧
    (i = k ↔ x = z ∨
      ∃ p q, r.overridden? x = some p ∧ r.overridden? z = some q ∧ r.slotRoot p = r.slotRoot q) ∧
    ((∀ t ∈ (r.method d).paramTypes, r.isOpen t = false) →
      i = k ∧ ∀ l, (b, l) ∈ (requests r {} ms).1 → i = l) := by
  have hw := hb.wellFormed
  have ho := hb.owned
  have hnumber : ∀ {u v : MethodId} {p q : Nat}, (u, p) ∈ (requests r {} ms).1 →
      (v, q) ∈ (requests r {} ms).1 → (p = q ↔ r.uidOwner u = r.uidOwner v) := by
    intro u v p q hu hv
    have hiff := answers_eq_iff hw ho hr hkeys hms hu hv
    refine hiff.trans ⟨fun h => ?_, fun h => by rw [ownerKey, ownerKey, h]⟩
    exact hkeys _ _ (hw.uidOwner (hms u (mem_of_answer hu))) (hw.uidOwner (hms v (mem_of_answer hv))) h
  refine ⟨fun h => ?_, ?_, fun hclosed => ?_⟩
  · exact Registry.uidOwner_ne_of_instances hw ho hr hover hslot hx hy ((hnumber hi hj).mp h)
  · rw [hnumber hi hk]
    exact Registry.uidOwner_eq_iff_of_instances hw ho hr hclass hx hz
  · have howner := hx.uidOwner_of_closed hw ho hr hover hslot hclass hclosed
    refine ⟨(hnumber hi hk).mpr ?_, fun l hl => (hnumber hi hl).mpr ?_⟩
    · rw [howner, hz.uidOwner_of_closed hw ho hr hover hslot hclass hclosed]
    · rw [howner, Registry.uidOwner_of_overridden?_eq_none (Registry.overridden?_of_isNewSlot hslot)]

/-- A class with a generic virtual method without parameters, a class below it that overrides the
method, and instances of both for integers, and of the override for strings. -/
def genericEdits : List Edit :=
  [.addModule "App", .declareType { module := ⟨1⟩, namespaceName := "App", name := "Root" },
    .declareType { module := ⟨1⟩, namespaceName := "App", name := "Leaf", base := .explicit ⟨20⟩ },
    .addParameter ⟨1⟩ "T" 0 .method, .addParameter ⟨1⟩ "T" 0 .method,
    .declareMethod { module := ⟨1⟩, name := "M", declaring := some ⟨20⟩, genericParams := [⟨22⟩],
                     modifiers := MethodFlags.isVirtual ||| MethodFlags.newSlot },
    .declareMethod { module := ⟨1⟩, name := "M", declaring := some ⟨21⟩, genericParams := [⟨23⟩],
                     modifiers := MethodFlags.isVirtual },
    .instantiateMethod ⟨1⟩ [⟨12⟩], .instantiateMethod ⟨0⟩ [⟨12⟩], .instantiateMethod ⟨1⟩ [⟨4⟩]]

theorem genericEdits_built : (Registry.core.applyAll genericEdits).Built :=
  Registry.Built.core.applyAll (by decide +kernel)

/-- the last three methods are instances, of the override for integers and strings, and of the
overridden method for integers -/
theorem genericEdits_instances :
    (Registry.core.applyAll genericEdits).MethodInstance ⟨1⟩ [⟨12⟩] ⟨2⟩ ∧
      (Registry.core.applyAll genericEdits).MethodInstance ⟨0⟩ [⟨12⟩] ⟨3⟩ ∧
      (Registry.core.applyAll genericEdits).MethodInstance ⟨1⟩ [⟨4⟩] ⟨4⟩ := by
  have hmade : ∀ e ∈ [((⟨2⟩ : MethodId), (⟨1⟩ : MethodId), [(⟨12⟩ : TypeId)]),
      (⟨3⟩, ⟨0⟩, [⟨12⟩]), (⟨4⟩, ⟨1⟩, [⟨4⟩])],
      ((Registry.core.applyAll genericEdits).method e.1).genericDefinition? = some e.2.1 ∧
        ((Registry.core.applyAll genericEdits).method e.1).genericArgs = e.2.2 := by decide +kernel
  simp only [List.forall_mem_cons] at hmade
  obtain ⟨hx, hy, hz, -⟩ := hmade
  exact ⟨genericEdits_built.methodInstance hx.1 hx.2, genericEdits_built.methodInstance hy.1 hy.2,
    genericEdits_built.methodInstance hz.1 hz.2⟩

/-- the instances of the override share a number with the method that it overrides -/
theorem requests_instances_closed :
    (requests (Registry.core.applyAll genericEdits) {} [⟨2⟩, ⟨3⟩, ⟨4⟩, ⟨0⟩]).1 =
      [(⟨2⟩, 0), (⟨3⟩, 1), (⟨4⟩, 0), (⟨0⟩, 0)] ∧
    ∃ p q, (Registry.core.applyAll genericEdits).overridden? ⟨2⟩ = some p ∧
      (Registry.core.applyAll genericEdits).overridden? ⟨4⟩ = some q ∧
      (Registry.core.applyAll genericEdits).slotRoot p =
        (Registry.core.applyAll genericEdits).slotRoot q := by
  -- one evaluation of the program for all that is needed of it
  obtain ⟨hbases, hms, hkeys, hover, hslot, hclass, hrun⟩ :
      (∀ i < (Registry.core.applyAll genericEdits).types.size,
        ((Registry.core.applyAll genericEdits).type ⟨i⟩).base.all (·.index < i) = true) ∧
      (∀ m ∈ [(⟨2⟩ : MethodId), ⟨3⟩, ⟨4⟩, ⟨0⟩],
        (Registry.core.applyAll genericEdits).Has (.method m)) ∧
      (Registry.core.applyAll genericEdits).MethodKeysDistinct ∧
      (Registry.core.applyAll genericEdits).overridden? ⟨1⟩ = some ⟨0⟩ ∧
      ((Registry.core.applyAll genericEdits).method ⟨0⟩).isNewSlot = true ∧
      ¬ (Registry.core.applyAll genericEdits).OnInterface ⟨1⟩ ∧
      (requests (Registry.core.applyAll genericEdits) {} [⟨2⟩, ⟨3⟩, ⟨4⟩, ⟨0⟩]).1 =
        [(⟨2⟩, 0), (⟨3⟩, 1), (⟨4⟩, 0), (⟨0⟩, 0)] := by
    decide +kernel
  obtain ⟨hx, hy, hz⟩ := genericEdits_instances
  obtain ⟨-, hshare, -⟩ := requests_instances genericEdits_built
    (Registry.acyclic_of_base_lt hbases) hkeys (d := ⟨1⟩) (b := ⟨0⟩) hover hslot hclass hx hy hz hms
    (i := 0) (j := 1) (k := 0) (by rw [hrun]; simp) (by rw [hrun]; simp) (by rw [hrun]; simp)
  exact ⟨hrun, (hshare.mp rfl).resolve_left (by decide)⟩

/-- Instances for the same arguments of a method and of its override have different numbers, and
instances of the override for different arguments have the same. -/
theorem requests_conflated :
    (Registry.core.applyAll genericEdits).overridden? ⟨1⟩ = some ⟨0⟩ ∧
    (Registry.core.applyAll genericEdits).MethodInstance ⟨1⟩ [⟨12⟩] ⟨2⟩ ∧
    (Registry.core.applyAll genericEdits).MethodInstance ⟨0⟩ [⟨12⟩] ⟨3⟩ ∧
    (Registry.core.applyAll genericEdits).MethodInstance ⟨1⟩ [⟨4⟩] ⟨4⟩ ∧
    (requests (Registry.core.applyAll genericEdits) {} [⟨2⟩, ⟨3⟩, ⟨4⟩]).1 =
      [(⟨2⟩, 0), (⟨3⟩, 1), (⟨4⟩, 0)] := by
  obtain ⟨hx, hy, hz⟩ := genericEdits_instances
  have heval : (Registry.core.applyAll genericEdits).overridden? ⟨1⟩ = some ⟨0⟩ ∧
      (requests (Registry.core.applyAll genericEdits) {} [⟨2⟩, ⟨3⟩, ⟨4⟩]).1 =
        [(⟨2⟩, 0), (⟨3⟩, 1), (⟨4⟩, 0)] := by decide +kernel
  exact ⟨heval.1, hx, hy, hz, heval.2⟩

end Uids

end ProgramScan

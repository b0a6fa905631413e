import Mathlib.Data.List.Nodup
import ProgramScan.Proofs.Registry.Ancestry
import ProgramScan.Proofs.Registry.Slots
import ProgramScan.Proofs.Text.Bytes

/-!
# Chains of overrides

A virtual method overrides one of the nearest ancestor that has a method like it, and that one can
override another.  Where the bases of types lead to roots, each override is declared closer to a root,
so the chain ends at a method that overrides nothing, and this method introduced the slot.

* `Registry.Owned`                types list methods that they declare, and no instances of methods;
* `Registry.MethodKeysDistinct`   different methods have different identity keys;
* `overridden_slotRoot`           the method at the end of a chain overrides nothing;
* `slotRoot_overridden`           a method has the slot of the method that it overrides;
* `uidOwner_uidOwner`, `uidOwner_overridden`   the same for the method whose number is used.
-/

namespace ProgramScan

namespace Registry

variable {r : Registry} {m base : MethodId}

/-- Every type lists methods that it declares, and none of them is an instance of another method. -/
def Owned (r : Registry) : Prop :=
  ∀ t, ∀ m ∈ (r.type t).methods,
    (r.method m).declaring = some t ∧ (r.method m).genericDefinition? = none

/-- Different methods have different identity keys. -/
def MethodKeysDistinct (r : Registry) : Prop :=
  ∀ a b, r.Has (.method a) → r.Has (.method b) → r.methodKey a = r.methodKey b → a = b

theorem methodKeysDistinct_iff :
    r.MethodKeysDistinct ↔
      ((List.range r.methods.size).map fun i => Text.code (r.methodKey ⟨i⟩)).Nodup := by
  rw [List.nodup_map_iff_inj_on List.nodup_range]
  constructor
  · intro h i hi j hj hkey
    exact congrArg MethodId.index
      (h ⟨i⟩ ⟨j⟩ (List.mem_range.mp hi) (List.mem_range.mp hj) (Text.code_injective hkey))
  · intro h a b ha hb hkey
    have := h a.index (List.mem_range.mpr ha) b.index (List.mem_range.mpr hb)
      (congrArg Text.code hkey)
    cases a
    cases b
    cases this
    rfl

instance (r : Registry) : Decidable r.MethodKeysDistinct :=
  decidable_of_iff _ methodKeysDistinct_iff.symm

def OnInterface (r : Registry) (m : MethodId) : Prop :=
  ((r.method m).declaring.any fun t => (r.type t).form.isInterface) = true

instance (r : Registry) (m : MethodId) : Decidable (r.OnInterface m) :=
  inferInstanceAs (Decidable (_ = true))

/-- what is overridden is listed by an ancestor, and has name, arity and parameter types of `m` -/
theorem exists_ancestor_of_overridden (h : r.overridden? m = some base) :
    ∃ t u, (r.method m).declaring = some t ∧ u ∈ r.ancestors t ∧ base ∈ (r.type u).methods ∧
      r.sameSlot m base = true := by
  unfold overridden? at h
  split at h
  · cases h
  cases hd : (r.method m).declaring with
  | none =>
    rw [hd] at h
    cases h
  | some t =>
    rw [hd] at h
    obtain ⟨u, hu, hfind⟩ := List.exists_of_findSome?_eq_some h
    exact ⟨t, u, rfl, hu, List.mem_of_find?_eq_some hfind, List.find?_some hfind⟩

theorem overridden?_of_isNewSlot (h : (r.method m).isNewSlot = true) : r.overridden? m = none := by
  unfold overridden?
  rw [h, Bool.or_true, if_pos rfl]

theorem slotRoot_of_overridden?_eq_none (h : r.overridden? m = none) : r.slotRoot m = m := by
  unfold slotRoot
  cases r.methods.size with
  | zero => rfl
  | succ n => rw [slotRootFrom, h]

/-! ## whose number a method has -/

theorem uidOwner_of_onInterface (h : r.OnInterface m) : r.uidOwner m = m := by
  unfold uidOwner
  exact if_pos h

theorem uidOwner_of_not_onInterface (h : ¬ r.OnInterface m) : r.uidOwner m = r.slotRoot m := by
  unfold uidOwner
  exact if_neg h

theorem uidOwner_of_overridden?_eq_none (h : r.overridden? m = none) : r.uidOwner m = m := by
  by_cases hi : r.OnInterface m
  · exact uidOwner_of_onInterface hi
  · rw [uidOwner_of_not_onInterface hi, slotRoot_of_overridden?_eq_none h]

/-! ## the chain ends -/

def height (r : Registry) (m : MethodId) : Nat :=
  match (r.method m).declaring with
  | some t => (r.ancestors t).length
  | none => 0

section
variable (hw : r.WellFormed) (ho : r.Owned) (hr : r.Acyclic)
include hw ho hr

theorem height_lt_of_overridden (hm : r.Has (.method m)) (h : r.overridden? m = some base) :
    r.height base < r.height m := by
  obtain ⟨t, u, hd, hu, hbase, -⟩ := exists_ancestor_of_overridden h
  have ht := hw.declaring hm hd
  unfold height
  rw [hd, (ho u base hbase).1]
  exact (hr t ht).ancestors_length_lt hw ht hu

/-- Every walk that has met only methods at least as high as `m`, and has enough steps left, ends at
the same method, which overrides nothing. -/
theorem exists_slotRootFrom (hm : r.Has (.method m)) :
    ∃ root, r.overridden? root = none ∧
      ∀ n seen, (∀ x ∈ seen, r.height m ≤ r.height x) → r.height m < n →
        r.slotRootFrom n seen m = root := by
  -- induction on the height: the walk goes down
  induction hheight : r.height m using Nat.strongRecOn generalizing m with
  | _ h ih =>
    subst hheight
    cases hb : r.overridden? m with
    | none =>
      refine ⟨m, hb, fun n seen _ hn => ?_⟩
      cases n with
      | zero => cases hn
      | succ n => rw [slotRootFrom, hb]
    | some base =>
      have hlt := height_lt_of_overridden hw ho hr hm hb
      obtain ⟨root, hroot, hwalk⟩ := ih _ hlt (hw.overridden hm hb) rfl
      refine ⟨root, hroot, fun n seen hseen hn => ?_⟩
      cases n with
      | zero => cases hn
      | succ n =>
        have hnew : seen.contains base = false := by
          rw [← Bool.not_eq_true, List.contains_iff_mem]
          intro hmem
          exact absurd (hseen base hmem) (Nat.not_le.mpr hlt)
        have hbelow : ∀ x ∈ base :: seen, r.height base ≤ r.height x := by
          intro x hx
          rcases List.mem_cons.mp hx with rfl | hx
          · exact Nat.le_refl _
          · exact Nat.le_trans (Nat.le_of_lt hlt) (hseen x hx)
        rw [slotRootFrom, hb]
        simp only [hnew, Bool.false_eq_true, if_false]
        exact hwalk n _ hbelow (by omega)

omit ho hr in
/-- the walk to the root of a slot, with any larger number of steps -/
theorem slotRoot_eq_slotRootFrom (hm : r.Has (.method m)) :
    r.slotRoot m = r.slotRootFrom (r.methods.size + (r.height m + 1)) [m] m :=
  slotRootFrom_eq hw hm (unseenMethods_le r [m]) (Nat.le_add_right _ _)

theorem overridden_slotRoot (hm : r.Has (.method m)) : r.overridden? (r.slotRoot m) = none := by
  obtain ⟨root, hroot, hwalk⟩ := exists_slotRootFrom hw ho hr hm
  rw [slotRoot_eq_slotRootFrom hw hm, hwalk _ [m] (by simp) (by omega)]
  exact hroot

theorem slotRoot_overridden (hm : r.Has (.method m)) (h : r.overridden? m = some base) :
    r.slotRoot m = r.slotRoot base := by
  have hbase := hw.overridden hm h
  have hlt := height_lt_of_overridden hw ho hr hm h
  obtain ⟨root, -, hwalk⟩ := exists_slotRootFrom hw ho hr hbase
  rw [slotRoot_eq_slotRootFrom hw hbase, hwalk _ [base] (by simp) (by omega),
    slotRoot_eq_slotRootFrom hw hm, ← Nat.add_assoc, slotRootFrom, h]
  have hne : [m].contains base = false := by
    rw [← Bool.not_eq_true, List.contains_iff_mem, List.mem_singleton]
    rintro rfl
    exact Nat.lt_irrefl _ hlt
  simp only [hne, Bool.false_eq_true, if_false]
  refine hwalk _ _ ?_ (by omega)
  simpa using Nat.le_of_lt hlt

theorem uidOwner_uidOwner (hm : r.Has (.method m)) :
    r.uidOwner (r.uidOwner m) = r.uidOwner m := by
  by_cases hi : r.OnInterface m
  · rw [uidOwner_of_onInterface hi, uidOwner_of_onInterface hi]
  · rw [uidOwner_of_not_onInterface hi]
    exact uidOwner_of_overridden?_eq_none (overridden_slotRoot hw ho hr hm)

theorem uidOwner_overridden (hm : r.Has (.method m)) (h : r.overridden? m = some base)
    (hi : ¬ r.OnInterface m) (hb : ¬ r.OnInterface base) : r.uidOwner m = r.uidOwner base := by
  rw [uidOwner_of_not_onInterface hi, uidOwner_of_not_onInterface hb,
    slotRoot_overridden hw ho hr hm h]

end

theorem WellFormed.uidOwner (hw : r.WellFormed) (hm : r.Has (.method m)) :
    r.Has (.method (r.uidOwner m)) := by
  unfold Registry.uidOwner
  split
  · exact hm
  · exact hw.slotRootFrom hm

end Registry

end ProgramScan

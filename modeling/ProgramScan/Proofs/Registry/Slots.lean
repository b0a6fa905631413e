import ProgramScan.Proofs.Registry.Questions
import ProgramScan.Scan.Uid

/-!
# Slots have the same root later

A method shares the number of the method that introduced its slot.  Finding that method walks from
override to override, and each step compares parameter types by identity with the methods of every
ancestor.  All of this reads elements of the program, so it has the same answer in every later state:

* `Grows.overridden?`   the method that is overridden;
* `Grows.slotRoot`      the method at the end of the walk, although a larger program allows more steps;
* `Grows.uidOwner`      the method whose number a method has.

The walk meets no method twice (`slotRootFrom_eq`), so it ends before its steps do.
-/

namespace ProgramScan

namespace Registry

variable {r r' : Registry}

def unseenMethods (r : Registry) (seen : List MethodId) : Nat :=
  (List.range r.methods.size).countP fun i => !seen.contains ⟨i⟩

theorem unseenMethods_cons_lt {seen : List MethodId} {m : MethodId} (hm : r.Has (.method m))
    (hs : seen.contains m = false) : r.unseenMethods (m :: seen) < r.unseenMethods seen := by
  unfold unseenMethods
  apply countP_lt (b := m.index)
  · intro i _ hi
    simp only [List.contains_cons, Bool.not_eq_true', Bool.or_eq_false_iff] at hi
    simp only [hi.2, Bool.not_false]
  · exact List.mem_range.mpr hm
  · simp only [hs, Bool.not_false]
  · simp

theorem unseenMethods_le (r : Registry) (seen : List MethodId) :
    r.unseenMethods seen ≤ r.methods.size := by
  have h := List.countP_le_length (p := fun i => !seen.contains ⟨i⟩)
    (l := List.range r.methods.size)
  rwa [List.length_range] at h

theorem WellFormed.overridden (hw : r.WellFormed) {m base : MethodId} (hm : r.Has (.method m))
    (h : r.overridden? m = some base) : r.Has (.method base) := by
  unfold Registry.overridden? at h
  split at h
  · cases h
  cases hd : (r.method m).declaring with
  | none =>
    rw [hd] at h
    cases h
  | some declaring =>
    rw [hd] at h
    obtain ⟨t, ht, hfind⟩ := List.exists_of_findSome?_eq_some h
    have htype : r.Has (.type t) := hw.of_ancestorsFrom (hw.declaring hm hd) ht
    exact hw.methodOf htype (List.mem_of_find?_eq_some hfind)

/-! ## the walk over overrides -/

theorem slotRootFrom_eq_succ (hw : r.WellFormed) (n : Nat) (seen : List MethodId) {m : MethodId}
    (hm : r.Has (.method m)) (hn : r.unseenMethods seen ≤ n) :
    r.slotRootFrom n seen m = r.slotRootFrom (n + 1) seen m := by
  induction n generalizing seen m with
  | zero =>
    rw [slotRootFrom, slotRootFrom]
    cases hb : r.overridden? m with
    | none => rfl
    | some base =>
      cases hs : seen.contains base with
      | true => simp only [hs, if_true]
      | false =>
        have hlt := unseenMethods_cons_lt (hw.overridden hm hb) hs
        omega
  | succ n ih =>
    rw [slotRootFrom, slotRootFrom]
    cases hb : r.overridden? m with
    | none => rfl
    | some base =>
      cases hs : seen.contains base with
      | true => simp only [hs, if_true]
      | false =>
        have hlt := unseenMethods_cons_lt (hw.overridden hm hb) hs
        simp only
        rw [ih (base :: seen) (hw.overridden hm hb) (by omega)]

theorem slotRootFrom_eq (hw : r.WellFormed) {seen : List MethodId} {m : MethodId}
    (hm : r.Has (.method m)) {n n' : Nat} (hn : r.unseenMethods seen ≤ n) (hle : n ≤ n') :
    r.slotRootFrom n seen m = r.slotRootFrom n' seen m := by
  induction hle with
  | refl => rfl
  | @step n' h ih => rw [ih, slotRootFrom_eq_succ hw n' seen hm (Nat.le_trans hn h)]

theorem WellFormed.slotRootFrom (hw : r.WellFormed) {n : Nat} {seen : List MethodId} {m : MethodId}
    (hm : r.Has (.method m)) : r.Has (.method (r.slotRootFrom n seen m)) := by
  induction n generalizing seen m with
  | zero => exact hm
  | succ n ih =>
    rw [Registry.slotRootFrom]
    cases hb : r.overridden? m with
    | none => exact hm
    | some base =>
      dsimp only
      split
      · exact hm
      · exact ih (hw.overridden hm hb)

namespace Grows

variable (hg : r.Grows r') (hw : r.WellFormed)
include hg hw

theorem paramKeys {m : MethodId} (hm : r.Has (.method m)) : r'.paramKeys m = r.paramKeys m := by
  unfold Registry.paramKeys
  rw [hg.method hm]
  exact List.map_congr_left fun t ht => hg.typeKey (hw.param hm ht)

theorem sameSlot {m candidate : MethodId} (hm : r.Has (.method m))
    (hc : r.Has (.method candidate)) : r'.sameSlot m candidate = r.sameSlot m candidate := by
  unfold Registry.sameSlot Registry.similarSlot
  rw [hg.method hm, hg.method hc, hg.paramKeys hw hm, hg.paramKeys hw hc]

theorem overridden? {m : MethodId} (hm : r.Has (.method m)) :
    r'.overridden? m = r.overridden? m := by
  unfold Registry.overridden?
  rw [hg.method hm]
  cases hd : (r.method m).declaring with
  | none => rfl
  | some declaring =>
    have hdecl := hw.declaring hm hd
    have hsearch : (r.ancestors declaring).findSome?
          (fun base => (r'.type base).methods.find? (r'.sameSlot m)) =
        (r.ancestors declaring).findSome?
          fun base => (r.type base).methods.find? (r.sameSlot m) := by
      apply findSome?_congr_mem
      intro t ht
      have htype : r.Has (.type t) := hw.of_ancestorsFrom hdecl ht
      rw [hg.type htype]
      apply find?_congr_mem
      intro c hc
      exact hg.sameSlot hw hm (hw.methodOf htype hc)
    simp only [hg.ancestors hw hdecl, hsearch]

theorem slotRootFrom (n : Nat) (seen : List MethodId) {m : MethodId} (hm : r.Has (.method m)) :
    r'.slotRootFrom n seen m = r.slotRootFrom n seen m := by
  induction n generalizing seen m with
  | zero => rfl
  | succ n ih =>
    rw [Registry.slotRootFrom, Registry.slotRootFrom, hg.overridden? hw hm]
    cases hb : r.overridden? m with
    | none => rfl
    | some base =>
      simp only
      rw [ih _ (hw.overridden hm hb)]

theorem slotRoot {m : MethodId} (hm : r.Has (.method m)) : r'.slotRoot m = r.slotRoot m := by
  unfold Registry.slotRoot
  rw [hg.slotRootFrom hw _ _ hm]
  exact (slotRootFrom_eq hw hm (unseenMethods_le r [m]) hg.methods_size).symm

theorem uidOwner {m : MethodId} (hm : r.Has (.method m)) : r'.uidOwner m = r.uidOwner m := by
  have hinterface : (r.method m).declaring.any (fun t => (r'.type t).form.isInterface) =
      (r.method m).declaring.any fun t => (r.type t).form.isInterface := by
    cases hd : (r.method m).declaring with
    | none => rfl
    | some t => simp only [Option.any_some, hg.type (hw.declaring hm hd)]
  unfold Registry.uidOwner
  rw [hg.method hm, hinterface, hg.slotRoot hw hm]

/-- numbers are handed out by identity, so they are the same later -/
theorem methodUid (u : Uids) {m : MethodId} (hm : r.Has (.method m)) :
    u.methodUid r' m = u.methodUid r m := by
  have howner : r.Has (.method (r.uidOwner m)) := by
    unfold Registry.uidOwner
    split
    · exact hm
    · exact hw.slotRootFrom hm
  unfold Uids.methodUid
  rw [hg.methodKey hw hm, hg.uidOwner hw hm, hg.methodKey hw howner]

end Grows

end Registry

end ProgramScan

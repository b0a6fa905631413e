import Mathlib.Data.List.Chain
import Mathlib.Logic.Function.Iterate
import Mathlib.Logic.Relation
import ProgramScan.Proofs.Failures
import ProgramScan.Proofs.Layout.Queries
import ProgramScan.Proofs.Registry.Ancestry

/-!
# Value types inside each other

A value type holds the values of its fields, so a type that is inside itself has no size.  The
engine does not look for such cycles beforehand: tables and sizes ask for each other, one level
deeper each time, and only tables look at the depth.

* `Registry.Embeds`              a value type that is sized by its fields has a field of another;
* `Registry.Circles`             a type leads into a cycle of such fields;
* `Circles.not_hasSize`          then it has no size;
* `LayoutEngine.Sizing.unfold`   what it takes to size a type, with the sizes that this asks for
                                 left to given answers;
* `iterate_unfold_eq`            after `maxCalls` unfoldings nothing depends on the given answers;
* `raises_sizeAt`                the limit on the depth stops no type that is nested less deep;
* `layout_ends`                  all three of what engines do.
-/

namespace ProgramScan

/-- the limit on the depth is not the cause -/
def Error.NotDeep (err : Error) : Prop := ∀ n, err ≠ .recursionLimit n

namespace Registry

open LayoutEngine (underlying?)

variable {r : Registry} {τ : Target} {t u c : TypeId} {b : Bool}

/-! ## types that are sized by their fields -/

/-- a value type, no enum, with a size that is not fixed by name -/
def LaidOut (r : Registry) (t : TypeId) : Prop :=
  (r.type t).form.isValueType = true ∧ (r.type t).form.isEnum = false ∧
    ({} : Target).fixedSize? r t = none

instance : Decidable (r.LaidOut t) := inferInstanceAs (Decidable (_ ∧ _ ∧ _))

theorem LaidOut.notFixed (h : r.LaidOut t) (τ : Target) : τ.fixedSize? r t = none :=
  (fixedSize?_eq_none_iff τ {}).mpr h.2.2

theorem laidOut_of_notFixed (hf : τ.fixedSize? r t = none) (he : (r.type t).form.isEnum = false) :
    r.LaidOut t := by
  refine ⟨?_, he, (fixedSize?_eq_none_iff τ {}).mp hf⟩
  simp only [Target.fixedSize?, ite_some_eq_none] at hf
  obtain ⟨hform, -, hreference, -⟩ := hf
  simp only [Bool.or_eq_true, not_or, Bool.not_eq_true] at hform
  simpa [isReference, hform.1, hform.2] using hreference

/-- instances of `t` hold a value of type `u`, and both are laid out -/
def Embeds (r : Registry) (t u : TypeId) : Prop :=
  r.LaidOut t ∧ r.LaidOut u ∧ ∃ f ∈ r.instanceFields t, (r.field f).type = u

instance : Decidable (r.Embeds t u) := inferInstanceAs (Decidable (_ ∧ _ ∧ _))

theorem Embeds.listed (h : r.Embeds t u) (b : Bool) : u ∈ r.listedTypes t b := by
  obtain ⟨hl, -, f, hf, rfl⟩ := h
  refine mem_listedTypes.mpr ⟨t, ?_, f, mem_instanceFields b hf, rfl⟩
  rw [levels_value hl.1]
  exact List.mem_singleton_self t

def PlainEnums (r : Registry) : Prop :=
  ∀ t u, r.Has (.type t) → (r.type t).form.isEnum = true → underlying? r t = some u →
    r.isPrimitive u = true

theorem plainEnums_iff : r.PlainEnums ↔
    ∀ i < r.types.size, (r.type ⟨i⟩).form.isEnum = true →
      (underlying? r ⟨i⟩).all r.isPrimitive = true := by
  constructor
  · intro h i hi he
    exact (Option.all_eq_true _ _).mpr fun u hu => h ⟨i⟩ u hi he hu
  · intro h t u ht he hu
    exact (Option.all_eq_true _ _).mp (h t.index ht he) u hu

instance (r : Registry) : Decidable r.PlainEnums := decidable_of_iff _ plainEnums_iff.symm

theorem PlainEnums.primitive (h : r.PlainEnums) (he : (r.type t).form.isEnum = true)
    (hu : underlying? r t = some u) : r.isPrimitive u = true := by
  refine h t u (Classical.byContradiction fun ht => ?_) he hu
  -- there are no enums beyond the types of the program
  rw [type, Array.getD_eq_getD_getElem?, Array.getElem?_eq_none (Nat.le_of_not_lt ht)] at he
  cases he

theorem exists_fixedSize? (h : r.isPrimitive t = true) (τ : Target) :
    ∃ n, τ.fixedSize? r t = some n := by
  refine Option.ne_none_iff_exists'.mp fun hf => ?_
  simp only [Target.fixedSize?, ite_some_eq_none] at hf
  obtain ⟨-, -, -, hone, htwo, hfour, height, hnative, -⟩ := hf
  simp only [isPrimitive, isNamed, primitiveNames, List.contains_eq_mem, List.mem_cons,
    List.not_mem_nil, decide_eq_true_eq, or_false, not_or] at h hone htwo hfour height hnative
  tauto

/-! ## cycles -/

/-- fields lead from `t` to `c`, and from `c` back to itself -/
def Circles (r : Registry) (t c : TypeId) : Prop :=
  Relation.ReflTransGen r.Embeds t c ∧ Relation.TransGen r.Embeds c c

theorem Circles.next (h : r.Circles t c) : ∃ u, r.Embeds t u ∧ r.Circles u c := by
  obtain ⟨hreach, hcycle⟩ := h
  cases Relation.ReflTransGen.cases_head hreach with
  | inl heq =>
    subst heq
    obtain ⟨u, hu, hback⟩ := Relation.TransGen.head'_iff.mp hcycle
    exact ⟨u, hu, hback, hcycle⟩
  | inr hnext =>
    obtain ⟨u, hu, hreach⟩ := hnext
    exact ⟨u, hu, hreach, hcycle⟩

theorem Circles.self (h : r.Circles t c) : r.Circles c c := ⟨.refl, h.2⟩

theorem Circles.reaches {A : Set TypeId} (ht : r.Reaches A t) (h : r.Circles t c) :
    r.Reaches A c := by
  obtain ⟨hreach, -⟩ := h
  induction hreach with
  | refl => exact ht
  | tail _ hu ih => exact ih.listed (hu.listed false) hu.2.1.2.2

/-- A size is a finite tree of sizes, and a cycle is no part of one. -/
theorem SizeIs.not_circles {n : UInt32} (h : r.SizeIs τ t n) : ¬ r.Circles t c := by
  induction h with
  | fixed hf =>
    intro hc
    obtain ⟨u, hu, -⟩ := hc.next
    cases hf.symm.trans (hu.1.notFixed τ)
  | enumOver _ he =>
    intro hc
    obtain ⟨u, hu, -⟩ := hc.next
    cases he.symm.trans hu.1.2.1
  | plainEnum _ he =>
    intro hc
    obtain ⟨u, hu, -⟩ := hc.next
    cases he.symm.trans hu.1.2.1
  | fields _ _ _ _ ih =>
    intro hc
    obtain ⟨u, hu, hc'⟩ := hc.next
    exact ih u (hu.listed false) hc'

theorem Circles.not_hasSize (h : r.Circles t c) : ¬ r.HasSize τ t := fun ⟨_, hn⟩ => hn.not_circles h

theorem Circles.not_tabled (h : r.Circles t c) {entries : List FieldEntry} :
    ¬ r.Tabled τ t b entries := fun htab => by
  obtain ⟨u, hu, hc⟩ := h.next
  exact hc.not_hasSize (htab.sizes u (hu.listed b))

end Registry

namespace LayoutEngine

open Registry (core)

variable {α : Type} {r : Registry} {τ : Target} {A : Set TypeId} {t c : TypeId} {e : LayoutEngine}

/-! ## types that lead into a cycle -/

def Forgets (r : Registry) (e : LayoutEngine) (c : TypeId) : Prop :=
  e.sizes.get? (r.typeKey c) = none ∧ ∀ b, e.tables.get? (r.typeKey c, b) = none

/-- `x` fails, and the engine that it leaves remembers nothing of `c` -/
def Refuses (r : Registry) (c : TypeId) (x : LayoutQuery α) (e : LayoutEngine) : Prop :=
  ∃ err e', x e = .error err e' ∧ Forgets r e' c

theorem Remembers.forgets (he : Remembers r τ A e) (hcA : r.Reaches A c) (hc : r.Circles c c) :
    Forgets r e c := by
  refine ⟨Option.eq_none_iff_forall_ne_some.mpr fun n hn => ?_,
    fun b => Option.eq_none_iff_forall_ne_some.mpr fun entries htab => ?_⟩
  · exact hc.not_hasSize ⟨n, (he.size hcA hn).1⟩
  · exact hc.not_tabled (he.table hcA htab).1

/-- a query fails if what it answered would be wrong -/
theorem Outcome.refuses {x : LayoutQuery α} {Q : α → LayoutEngine → Prop} {P : Prop}
    (hx : Outcome x e Q (Stops r τ A P e)) (hQ : ∀ a e', ¬ Q a e') (hcA : r.Reaches A c)
    (hc : r.Circles c c) : Refuses r c x e := by
  cases hr : x e with
  | ok a e' => exact absurd (hx.ok hr) (hQ a e')
  | error err e' => exact ⟨err, e', hr, (hx.error hr).remembers.forgets hcA hc⟩

section

variable (hkeys : r.KeysDistinctOn A) (ht : r.Reaches A t) (he : Remembers r τ A e)
  (hc : r.Circles t c)
include hkeys ht he hc

theorem sizeOfType_refuses : Refuses r c (sizeOfType r t) e :=
  (outcome_sizeAt hkeys (Nat.le_refl _) 0 (fun _ => ht) he).refuses
    (fun n _ ⟨hn, _⟩ => hc.not_hasSize ⟨n, hn⟩) (hc.reaches ht) hc.self

theorem fieldTable_refuses (b : Bool) : Refuses r c (fieldTable r t b) e :=
  (outcome_fieldTable hkeys ht he).refuses (fun _ _ ⟨htab, _⟩ => hc.not_tabled htab)
    (hc.reaches ht) hc.self

theorem storageSize_refuses : Refuses r c (storageSize r t) e := by
  obtain ⟨u, hu, -⟩ := hc.next
  unfold storageSize
  rw [hu.1.1, if_pos rfl]
  exact (outcome_valueStorageAt hkeys ht 0 he (measures_field hkeys false ht)).refuses
    (fun _ _ ⟨⟨_, htab, _⟩, _⟩ => hc.not_tabled htab) (hc.reaches ht) hc.self

end

/-! ## calls without steps -/

abbrev Sizing := (depth : Nat) → TypeId → LayoutQuery UInt32

/-- The size of a type, with the sizes that it asks for left to `w`. -/
def Sizing.unfold (r : Registry) (w : Sizing) : Sizing := fun depth t => do
  readNames [t]
  let engine ← get
  match engine.target.fixedSize? r t with
  | some size => return size
  | none =>
    match engine.sizes.get? (r.typeKey t) with
    | some size => return size
    | none =>
      if (r.type t).form.isEnum then
        match underlying? r t with
        | some u => w (depth + 1) u
        | none => return 4
      else
        let size ← valueStorageAt r (w (depth + 1)) depth t
        modify fun engine => { engine with sizes := engine.sizes.insert (r.typeKey t) size }
        return size

/-- the storage of an instance, with the sizes of fields left to `sizeOf` -/
def storageSizeBy (r : Registry) (sizeOf : TypeId → LayoutQuery UInt32) (t : TypeId) :
    LayoutQuery UInt32 := do
  if (r.type t).form.isValueType then
    valueStorageAt r sizeOf 0 t
  else
    let entries ← fieldTableAt r sizeOf 0 t false
    return match lastPlaced? (entries.filter fun e => !e.isStatic) with
      | some e => e.stop
      | none => 0

/-- sizes that are asked for inside each other: down to the limit on the depth, one more for the
table that fails there, and one for the value of an enum -/
def maxCalls : Nat := maxLayoutDepth + 3

/-- Run with `e`, `act` ends as `result` does: after `maxCalls` unfoldings it makes no difference
what is left over. -/
def Ends (r : Registry) (act : Sizing → LayoutQuery α) (result : LayoutQuery α)
    (e : LayoutEngine) : Prop :=
  ∀ steps, maxCalls ≤ steps → ∀ w : Sizing, act ((Sizing.unfold r)^[steps] w) e = result e

variable {w w' : Sizing} {depth steps : Nat}

theorem sizeAt_succ (r : Registry) (steps : Nat) :
    sizeAt r (steps + 1) = Sizing.unfold r (sizeAt r steps) := rfl

theorem sizeAt_eq_iterate (r : Registry) (steps : Nat) :
    sizeAt r steps = (Sizing.unfold r)^[steps] (sizeAt r 0) := by
  induction steps with
  | zero => rfl
  | succ steps ih => rw [sizeAt_succ, ih, Function.iterate_succ_apply']

theorem unfold_congr (h : w (depth + 1) = w' (depth + 1)) :
    Sizing.unfold r w depth = Sizing.unfold r w' depth := by
  funext t
  rw [Sizing.unfold, Sizing.unfold, h]

theorem unfold_fixed {n : UInt32} (hf : e.target.fixedSize? r t = some n) :
    Sizing.unfold r w depth t e = .ok n (noting e [t]) := by
  have hf' : (noting e [t]).target.fixedSize? r t = some n := hf
  rw [Sizing.unfold, readNames_bind_apply, Registry.get_bind_apply, hf']
  rfl

theorem unfold_primitive (h : r.isPrimitive t = true) :
    Sizing.unfold r w depth t = Sizing.unfold r w' depth t := by
  funext e
  obtain ⟨n, hn⟩ := Registry.exists_fixedSize? h e.target
  rw [unfold_fixed hn, unfold_fixed hn]

/-- below the limit on the depth only enums ask for sizes -/
theorem unfold_deep (henums : r.PlainEnums) (hd : maxLayoutDepth < depth)
    (h : ∀ u, r.isPrimitive u = true → w (depth + 1) u = w' (depth + 1) u) :
    Sizing.unfold r w depth = Sizing.unfold r w' depth := by
  funext t
  have hstorage : valueStorageAt r (w (depth + 1)) depth t =
      valueStorageAt r (w' (depth + 1)) depth t := by
    unfold valueStorageAt fieldTableAt
    rw [if_pos hd, if_pos hd]
  rw [Sizing.unfold, Sizing.unfold, hstorage]
  cases henum : (r.type t).form.isEnum with
  | false => rfl
  | true =>
    cases hu : underlying? r t with
    | none => rfl
    | some u => simp only [h u (henums.primitive henum hu)]

theorem iterate_unfold_eq (henums : r.PlainEnums) (hsteps : 2 ≤ steps)
    (hd : maxCalls ≤ steps + depth) (w w' : Sizing) :
    (Sizing.unfold r)^[steps] w depth = (Sizing.unfold r)^[steps] w' depth := by
  induction steps generalizing depth with
  | zero => omega
  | succ steps ih =>
    rw [Function.iterate_succ_apply', Function.iterate_succ_apply']
    by_cases hdeep : maxLayoutDepth < depth
    -- tables fail here, and the value of an enum needs one step more
    · refine unfold_deep henums hdeep fun u hu => ?_
      obtain ⟨k, rfl⟩ : ∃ k, steps = k + 1 := ⟨steps - 1, by omega⟩
      rw [Function.iterate_succ_apply', Function.iterate_succ_apply']
      exact unfold_primitive hu
    · unfold maxCalls at hd
      exact unfold_congr (ih (by omega) (by unfold maxCalls; omega))

theorem maxCalls_le_sizeSteps (ht : r.Has (.type t)) : maxCalls ≤ sizeSteps r := by
  have hindex : t.index < r.types.size := ht
  unfold maxCalls sizeSteps
  omega

/-- **Sizing ends**: nothing that asks for sizes at one depth needs more than `maxCalls` of them
inside each other, so the steps that `sizeAt` is given do not run out. -/
theorem ends_at (henums : r.PlainEnums) (ht : r.Has (.type t)) (depth : Nat)
    (act : (TypeId → LayoutQuery UInt32) → LayoutQuery α) (e : LayoutEngine) :
    Ends r (fun w => act (w depth)) (act (sizeAt r (sizeSteps r) depth)) e := by
  have hmax : ∀ n, maxCalls ≤ n → ∀ w : Sizing,
      (Sizing.unfold r)^[n] w depth = (Sizing.unfold r)^[maxCalls] (sizeAt r 0) depth := by
    intro n hn w
    obtain ⟨k, rfl⟩ := Nat.exists_eq_add_of_le hn
    rw [Function.iterate_add_apply]
    exact iterate_unfold_eq henums (by unfold maxCalls; omega) (Nat.le_add_right _ _) _ _
  intro steps hsteps w
  dsimp only
  rw [hmax steps hsteps, sizeAt_eq_iterate r (sizeSteps r), hmax _ (maxCalls_le_sizeSteps ht)]

/-! ## types that are nested less deep -/

theorem notDeep_layoutKind (t : TypeId) : ErrorIn Error.NotDeep (r.layoutKind t) := by
  unfold Registry.layoutKind
  cases (r.type t).layout? with
  | some kind => exact .ok kind
  | none => exact .error fun n => by simp

section

variable {sizeOf : TypeId → LayoutQuery UInt32}

theorem raises_describe {f : FieldId} (hf : Raises Error.NotDeep (sizeOf (r.field f).type)) :
    Raises Error.NotDeep (describe r sizeOf t f) :=
  hf.bind fun _ => (Raises.modify _).bind fun _ => .pure _

variable (hsize : ∀ f ∈ r.instanceFields t, Raises Error.NotDeep (sizeOf (r.field f).type))
include hsize

theorem raises_sequentialFields : Raises Error.NotDeep (sequentialFields r sizeOf t) := by
  refine (Raises.mapM_of_mem hsize).bind fun _ => ?_
  refine (Raises.mapM_of_mem fun f hf => ?_).bind fun _ => .get fun _ => .pure _
  exact raises_describe (hsize f (Registry.mem_byFieldToken.mp hf))

theorem raises_valueFields : Raises Error.NotDeep (valueFields r sizeOf t false) := by
  refine (Raises.ofExcept (notDeep_layoutKind t)).bind fun kind => ?_
  cases kind with
  | auto => exact (raises_sequentialFields hsize).bind fun _ => .pure _
  | sequential => exact (raises_sequentialFields hsize).bind fun _ => .pure _
  | explicit =>
    refine (Raises.mapM_of_mem fun f hf => ?_).bind fun _ => .pure _
    exact (raises_describe (hsize f hf)).bind fun _ => .pure _

variable (hv : (r.type t).form.isValueType = true) (hd : depth ≤ maxLayoutDepth)
include hv hd

theorem raises_fieldTableAt : Raises Error.NotDeep (fieldTableAt r sizeOf depth t false) := by
  unfold fieldTableAt
  rw [if_neg (Nat.not_lt.mpr hd)]
  refine (Raises.modify _).bind fun _ => .get fun e => ?_
  split
  · exact .pure _
  · rw [hv, if_pos rfl]
    exact (raises_valueFields hsize).bind fun _ => (Raises.modify _).bind fun _ => .pure _

theorem raises_valueStorageAt : Raises Error.NotDeep (valueStorageAt r sizeOf depth t) :=
  (raises_fieldTableAt hsize hv hd).bind fun _ => .get fun _ => .pure _

end

theorem raises_unfold (henums : r.PlainEnums)
    (henum : ∀ u, r.isPrimitive u = true → Raises Error.NotDeep (w (depth + 1) u))
    (hlaid : r.LaidOut t → Raises Error.NotDeep (valueStorageAt r (w (depth + 1)) depth t)) :
    Raises Error.NotDeep (Sizing.unfold r w depth t) := by
  refine (Raises.modify _).bind fun _ => .get fun e => ?_
  split
  · exact .pure _
  · rename_i hf
    split
    · exact .pure _
    · split
      · rename_i he
        split
        · rename_i u hu
          exact henum u (henums.primitive he hu)
        · exact .pure _
      · rename_i he
        have ht := Registry.laidOut_of_notFixed hf (Bool.eq_false_iff.mpr he)
        exact (hlaid ht).bind fun _ => (Raises.modify _).bind fun _ => .pure _

theorem raises_primitive (h : r.isPrimitive t = true) :
    Raises Error.NotDeep (Sizing.unfold r w depth t) := by
  intro e err e' hr
  obtain ⟨n, hn⟩ := Registry.exists_fixedSize? h e.target
  rw [unfold_fixed hn] at hr
  cases hr

/-- a chain of types inside each other that starts with `t` has at most `n` links -/
def NestedWithin (r : Registry) (n : Nat) (t : TypeId) : Prop :=
  ∀ l, List.IsChain r.Embeds (t :: l) → l.length ≤ n

theorem nestedWithin_of_next {n : Nat}
    (h : ∀ u, r.Embeds t u → ∃ m, m < n ∧ NestedWithin r m u) : NestedWithin r n t := by
  intro l hl
  cases l with
  | nil => exact Nat.zero_le n
  | cons u l =>
    obtain ⟨hu, hl⟩ := List.isChain_cons_cons.mp hl
    obtain ⟨m, hm, hn⟩ := h u hu
    exact Nat.lt_of_le_of_lt (hn l hl) hm

theorem NestedWithin.next {n : Nat} {u : TypeId} (h : NestedWithin r (n + 1) t)
    (hu : r.Embeds t u) : NestedWithin r n u := fun l hl =>
  Nat.le_of_succ_le_succ (h (u :: l) (List.isChain_cons_cons.mpr ⟨hu, hl⟩))

/-- **The limit on the depth stops no type that is nested less deep.** -/
theorem raises_sizeAt (henums : r.PlainEnums) (hsteps : 2 ≤ steps)
    (hd : maxCalls ≤ steps + depth)
    (hnested : r.LaidOut t → ∃ n, NestedWithin r n t ∧ depth + n ≤ maxLayoutDepth) :
    Raises Error.NotDeep (sizeAt r steps depth t) := by
  induction steps generalizing depth t with
  | zero => omega
  | succ steps ih =>
    obtain ⟨k, rfl⟩ : ∃ k, steps = k + 1 := ⟨steps - 1, by omega⟩
    unfold maxCalls at hd ih
    rw [sizeAt_succ]
    refine raises_unfold henums (fun u hu => raises_primitive hu) fun ht => ?_
    obtain ⟨n, hn, hdepth⟩ := hnested ht
    refine raises_valueStorageAt (fun f hf => ?_) ht.1 (by omega)
    refine ih (by omega) (by omega) fun hu => ?_
    have hembeds : r.Embeds t (r.field f).type := ⟨ht, hu, f, hf, rfl⟩
    cases n with
    | zero =>
      have := hn [(r.field f).type] (List.isChain_pair.mpr hembeds)
      cases this
    | succ n => exact ⟨n, hn.next hembeds, by omega⟩

section

variable (henums : r.PlainEnums) (ht : r.Has (.type t)) (hnested : NestedWithin r maxLayoutDepth t)
include henums ht hnested

theorem raises_sizeOfType : Raises Error.NotDeep (sizeOfType r t) := by
  have hsteps := maxCalls_le_sizeSteps ht
  exact raises_sizeAt henums (Nat.le_trans (by decide) hsteps) hsteps fun _ =>
    ⟨maxLayoutDepth, hnested, Nat.le_of_eq (Nat.zero_add _)⟩

variable (hlaid : r.LaidOut t)
include hlaid

theorem raises_field {f : FieldId} (hf : f ∈ r.instanceFields t) :
    Raises Error.NotDeep (sizeAt r (sizeSteps r) 1 (r.field f).type) := by
  have hsteps := maxCalls_le_sizeSteps ht
  refine raises_sizeAt henums (Nat.le_trans (by decide) hsteps) (Nat.le_succ_of_le hsteps)
    fun hu => ?_
  have hembeds : r.Embeds t (r.field f).type := ⟨hlaid, hu, f, hf, rfl⟩
  exact ⟨maxLayoutDepth - 1, NestedWithin.next hnested hembeds, Nat.le_refl _⟩

theorem raises_fieldTable : Raises Error.NotDeep (fieldTable r t false) :=
  raises_fieldTableAt (fun _ hf => raises_field henums ht hnested hlaid hf) hlaid.1 (Nat.zero_le _)

theorem raises_storageSize : Raises Error.NotDeep (storageSize r t) := by
  unfold storageSize
  rw [hlaid.1, if_pos rfl]
  exact raises_valueStorageAt (fun _ hf => raises_field henums ht hnested hlaid hf) hlaid.1
    (Nat.zero_le _)

end

/-- **Layout of value types inside each other.**  Every query ends, whatever the types of fields
lead to.  A type that leads into a cycle is refused and nothing of the cycle is remembered, if the
types that the engine reaches have keys of their own.  A type that is nested no deeper than the
limit is not stopped by it. -/
theorem layout_ends (hw : r.WellFormed) (hacyclic : r.Acyclic) (henums : r.PlainEnums)
    (ht : r.Has (.type t)) (e : LayoutEngine) :
    (r.BaseChain t (r.ancestors t) ∧
      Ends r (fun w => w 0 t) (sizeOfType r t) e ∧
      Ends r (fun w => storageSizeBy r (w 1) t) (storageSize r t) e ∧
      ∀ b, Ends r (fun w => fieldTableAt r (w 1) 0 t b) (fieldTable r t b) e) ∧
    (r.LaidOut t →
      (∀ A, t ∈ A → r.KeysDistinctOn A → Reached r e.target A e → ∀ c, r.Circles t c →
        Refuses r c (sizeOfType r t) e ∧ Refuses r c (storageSize r t) e ∧
          Refuses r c (fieldTable r t false) e) ∧
      (NestedWithin r maxLayoutDepth t →
        Raises Error.NotDeep (sizeOfType r t) ∧ Raises Error.NotDeep (storageSize r t) ∧
          Raises Error.NotDeep (fieldTable r t false))) := by
  have hchain : r.BaseChain t (r.ancestors t) := by
    obtain ⟨l, hl⟩ := hacyclic t ht
    rwa [hl.ancestors hw ht]
  refine ⟨⟨hchain, ends_at henums ht 0 (fun sizeOf => sizeOf t) e,
    ends_at henums ht 1 (fun sizeOf => storageSizeBy r sizeOf t) e,
    fun b => ends_at henums ht 1 (fun sizeOf => fieldTableAt r sizeOf 0 t b) e⟩,
    fun hlaid => ⟨fun A htA hkeys he c hc => ?_, fun hnested => ?_⟩⟩
  · have htA : r.Reaches A t := .asked htA
    have he' := he.remembers hkeys
    exact ⟨sizeOfType_refuses hkeys htA he' hc, storageSize_refuses hkeys htA he' hc,
      fieldTable_refuses hkeys htA he' hc false⟩
  · exact ⟨raises_sizeOfType henums ht hnested, raises_storageSize henums ht hnested hlaid,
      raises_fieldTable henums ht hnested hlaid⟩

/-- A struct `Pair` inside a struct `Belt`, beside an enum, and a struct `Knot` inside itself and
inside a struct `Rope`. -/
def ropeEdits : List Edit :=
  [.addModule "App",
    .define ⟨1⟩ "App" "Pair" .valueType 0 [] none,
    .declareField ⟨1⟩ ⟨20⟩ "first" ⟨9⟩ 0 [],
    .declareField ⟨1⟩ ⟨20⟩ "second" ⟨14⟩ 0 [],
    .define ⟨1⟩ "App" "Colour" .enum 0 [] none,
    .declareField ⟨1⟩ ⟨21⟩ "value__" ⟨12⟩ 0 [],
    .define ⟨1⟩ "App" "Belt" .valueType 0 [] none,
    .declareField ⟨1⟩ ⟨22⟩ "ends" ⟨20⟩ 0 [],
    .declareField ⟨1⟩ ⟨22⟩ "colour" ⟨21⟩ 0 [],
    .define ⟨1⟩ "App" "Knot" .valueType 0 [] none,
    .declareField ⟨1⟩ ⟨23⟩ "knot" ⟨23⟩ 0 [],
    .define ⟨1⟩ "App" "Rope" .valueType 0 [] none,
    .declareField ⟨1⟩ ⟨24⟩ "ends" ⟨20⟩ 0 [],
    .declareField ⟨1⟩ ⟨24⟩ "knot" ⟨23⟩ 0 []]

def ropes : Registry := core.applyAll ropeEdits

theorem layout_ends_ropes :
    (∀ b, Ends ropes (fun w => fieldTableAt ropes (w 1) 0 ⟨24⟩ b) (fieldTable ropes ⟨24⟩ b) {}) ∧
    Refuses ropes ⟨23⟩ (sizeOfType ropes ⟨24⟩) {} ∧ Refuses ropes ⟨23⟩ (storageSize ropes ⟨24⟩) {} ∧
    Refuses ropes ⟨23⟩ (fieldTable ropes ⟨24⟩ false) {} ∧
    Raises Error.NotDeep (sizeOfType ropes ⟨22⟩) ∧ Raises Error.NotDeep (storageSize ropes ⟨22⟩) ∧
    Raises Error.NotDeep (fieldTable ropes ⟨22⟩ false) := by
  obtain ⟨hfits, hbases, henums, hkeys, hhas⟩ : Registry.FitAll core ropeEdits ∧
      (∀ i < ropes.types.size, (ropes.type ⟨i⟩).base.all (·.index < i) = true) ∧
      ropes.PlainEnums ∧ ropes.ToldApart [⟨24⟩, ⟨20⟩, ⟨23⟩] ∧
      ∀ i ∈ [22, 24], ropes.Has (.type ⟨i⟩) := by
    decide +kernel
  obtain ⟨hrope, hknot, hbelt, hends, hpair⟩ : ropes.Embeds ⟨24⟩ ⟨23⟩ ∧ ropes.Embeds ⟨23⟩ ⟨23⟩ ∧
      ropes.LaidOut ⟨22⟩ ∧
      (∀ f ∈ ropes.instanceFields ⟨22⟩, ropes.LaidOut (ropes.field f).type →
        (ropes.field f).type = ⟨20⟩) ∧
      ∀ f ∈ ropes.instanceFields ⟨20⟩, ¬ ropes.LaidOut (ropes.field f).type := by
    decide +kernel
  have hw : ropes.WellFormed := (Registry.Built.core.applyAll hfits).wellFormed
  have hacyclic := Registry.acyclic_of_base_lt hbases
  have hinner : NestedWithin ropes 0 ⟨20⟩ := nestedWithin_of_next fun u ⟨_, hu, f, hf, hfu⟩ =>
    absurd (hfu ▸ hu) (hpair f hf)
  have hnested : NestedWithin ropes maxLayoutDepth ⟨22⟩ :=
    nestedWithin_of_next fun u ⟨_, hu, f, hf, hfu⟩ => by
      subst hfu
      exact ⟨0, by decide, (hends f hf hu) ▸ hinner⟩
  obtain ⟨⟨-, -, -, htables⟩, hlaid⟩ := layout_ends hw hacyclic henums (hhas 24 (by simp)) {}
  obtain ⟨hsize, hstorage, htable⟩ :=
    (hlaid hrope.1).1 {⟨24⟩} rfl (hkeys.on fun _ h => h ▸ List.mem_cons_self)
      (Fresh.reached ⟨rfl, rfl, rfl⟩) ⟨23⟩ ⟨.single hrope, .single hknot⟩
  have hshallow := (layout_ends hw hacyclic henums (hhas 22 (by simp)) {}).2 hbelt
  exact ⟨htables, hsize, hstorage, htable, hshallow.2 hnested⟩

/-- Two structs whose names read the same: `Point` of `App.Geo`, and `Geo.Point` of `App`, which is
inside itself.  A struct `Box` has fields of both, the first one first. -/
def boxEdits : List Edit :=
  [.addModule "App",
    .define ⟨1⟩ "App.Geo" "Point" .valueType 0 [] none,
    .declareField ⟨1⟩ ⟨20⟩ "x" ⟨12⟩ 0 [],
    .define ⟨1⟩ "App" "Geo.Point" .valueType 0 [] none,
    .declareField ⟨1⟩ ⟨21⟩ "self" ⟨21⟩ 0 [],
    .define ⟨1⟩ "App" "Box" .valueType 0 [] none,
    .declareField ⟨1⟩ ⟨22⟩ "a" ⟨20⟩ 0 [],
    .declareField ⟨1⟩ ⟨22⟩ "b" ⟨21⟩ 0 []]

/-- The size of the first field is remembered under the name of both, and answers for the second
field, so a type that leads into a cycle has a size. -/
theorem sizeOfType_box : ∃ n e',
    Registry.FitAll core boxEdits ∧ (core.applyAll boxEdits).Acyclic ∧
    (core.applyAll boxEdits).PlainEnums ∧ (core.applyAll boxEdits).Circles ⟨22⟩ ⟨21⟩ ∧
    sizeOfType (core.applyAll boxEdits) ⟨22⟩ {} = .ok n e' := by
  obtain ⟨hfits, hbases, henums, hbox, hself⟩ : Registry.FitAll core boxEdits ∧
      (∀ i < (core.applyAll boxEdits).types.size,
        ((core.applyAll boxEdits).type ⟨i⟩).base.all (·.index < i) = true) ∧
      (core.applyAll boxEdits).PlainEnums ∧ (core.applyAll boxEdits).Embeds ⟨22⟩ ⟨21⟩ ∧
      (core.applyAll boxEdits).Embeds ⟨21⟩ ⟨21⟩ := by
    decide +kernel
  have hanswer : (Query.size ⟨22⟩).number? (core.applyAll boxEdits) {} = some 8 := by
    decide +kernel
  obtain ⟨e', hrun⟩ := Query.exists_of_number? hanswer
  obtain ⟨n, e'', hsize, hpure⟩ := Registry.bind_eq_ok_iff.mp hrun
  exact ⟨n, e'', hfits, Registry.acyclic_of_base_lt hbases, henums, ⟨.single hbox, .single hself⟩,
    hsize⟩

end LayoutEngine

end ProgramScan

import Mathlib.Data.List.Nodup
import ProgramScan.Proofs.Layout.Asking
import ProgramScan.Proofs.Layout.Sizes
import ProgramScan.Proofs.Text.Bytes

/-!
# What an engine remembers

Tables and sizes are remembered while others are still being computed, at any depth, and also when a
query fails later.  This file says what holds of them all the same:

* `Registry.Reaches`          the types that questions about some types lead to;
* `Registry.KeysDistinctOn`   these are told apart by their identity keys;
* `Remembers`    what an engine remembers is right, and a remembered table comes with the sizes of
                 its listed fields;
* `Within`       one engine remembers less than another;
* `Least`        the engine that a query leaves is the least one which remembers what it asked for.

The last one makes two engines comparable after the same query, whatever each of them remembered
before and however far it had to go down.
-/

namespace ProgramScan

/-- Different types have different identity keys. -/
def Registry.KeysDistinct (r : Registry) : Prop :=
  ∀ t u, r.Has (.type t) → r.Has (.type u) → r.typeKey t = r.typeKey u → t = u

theorem Registry.keysDistinct_iff {r : Registry} :
    r.KeysDistinct ↔ ((List.range r.types.size).map fun i => Text.code (r.typeKey ⟨i⟩)).Nodup := by
  rw [List.nodup_map_iff_inj_on List.nodup_range]
  constructor
  · intro h i hi j hj hkey
    exact congrArg TypeId.index
      (h ⟨i⟩ ⟨j⟩ (List.mem_range.mp hi) (List.mem_range.mp hj) (Text.code_injective hkey))
  · intro h t u ht hu hkey
    have := h t.index (List.mem_range.mpr ht) u.index (List.mem_range.mpr hu)
      (congrArg Text.code hkey)
    cases t
    cases u
    cases this
    rfl

instance (r : Registry) : Decidable r.KeysDistinct :=
  decidable_of_iff _ Registry.keysDistinct_iff.symm

namespace Registry

/-- An engine that is asked about the types in `A` reaches these, and the types without a fixed size
that their fields have. -/
inductive Reaches (r : Registry) (A : Set TypeId) : TypeId → Prop
  | asked {t : TypeId} (h : t ∈ A) : Reaches r A t
  | field {t u : TypeId} (h : Reaches r A t) (hu : u ∈ r.listedTypes t true)
      (hf : ({} : Target).fixedSize? r u = none) : Reaches r A u

/-- Different types that are reached from `A` have different identity keys. -/
def KeysDistinctOn (r : Registry) (A : Set TypeId) : Prop :=
  ∀ t u, r.Reaches A t → r.Reaches A u → r.typeKey t = r.typeKey u → t = u

variable {r : Registry} {A : Set TypeId} {τ : Target} {t u : TypeId}

theorem Reaches.listed {b : Bool} (h : r.Reaches A t) (hu : u ∈ r.listedTypes t b)
    (hf : τ.fixedSize? r u = none) : r.Reaches A u := by
  refine .field h ?_ ((fixedSize?_eq_none_iff τ {}).mp hf)
  obtain ⟨level, hl, f, hlisted, rfl⟩ := mem_listedTypes.mp hu
  exact mem_listedTypes.mpr ⟨level, hl, f, listedAt_mono (fun _ => rfl) hlisted, rfl⟩

theorem Reaches.underlying (h : r.Reaches A t) (henum : (r.type t).form.isEnum = true)
    (hu : LayoutEngine.underlying? r t = some u) (hf : τ.fixedSize? r u = none) :
    r.Reaches A u := by
  have hvalue : (r.type t).form.isValueType = true := by
    rw [TypeForm.isEnum] at henum
    rw [TypeForm.isValueType, henum, Bool.or_true]
  obtain ⟨f, hfield, rfl⟩ := Option.map_eq_some_iff.mp hu
  have hlisted : f ∈ r.listedAt true t :=
    List.mem_filter.mpr ⟨List.mem_of_find?_eq_some hfield, Bool.true_or _⟩
  have hlevel : t ∈ r.levels t := by
    rw [levels_value hvalue]
    exact List.mem_singleton_self t
  exact h.listed (mem_listedTypes.mpr ⟨t, hlevel, f, hlisted, rfl⟩) hf

theorem Reaches.has (hw : r.WellFormed) (hA : ∀ t ∈ A, r.Has (.type t)) (h : r.Reaches A t) :
    r.Has (.type t) := by
  induction h with
  | asked h => exact hA _ h
  | field _ hu _ ih => exact hw.listedType ih hu

theorem KeysDistinct.on (h : r.KeysDistinct) (hw : r.WellFormed) (hA : ∀ t ∈ A, r.Has (.type t)) :
    r.KeysDistinctOn A :=
  fun t u ht hu => h t u (ht.has hw hA) (hu.has hw hA)

/-- the types in `ts` have different identity keys, and their fields lead only to `ts` and to fixed
sizes -/
def ToldApart (r : Registry) (ts : List TypeId) : Prop :=
  (∀ t ∈ ts, ∀ u ∈ r.listedTypes t true, ({} : Target).fixedSize? r u = none → u ∈ ts) ∧
    (ts.map fun t => Text.code (r.typeKey t)).Nodup

instance (r : Registry) (ts : List TypeId) : Decidable (r.ToldApart ts) :=
  inferInstanceAs (Decidable (_ ∧ _))

theorem ToldApart.on {ts : List TypeId} (h : r.ToldApart ts) (hA : ∀ t ∈ A, t ∈ ts) :
    r.KeysDistinctOn A := by
  have hmem {t : TypeId} (ht : r.Reaches A t) : t ∈ ts := by
    induction ht with
    | asked ht => exact hA _ ht
    | field _ hu hf ih => exact h.1 _ ih _ hu hf
  intro t u ht hu hkey
  exact List.inj_on_of_nodup_map h.2 (hmem ht) (hmem hu) (congrArg Text.code hkey)

end Registry

namespace LayoutEngine

/-! ## what is remembered -/

def HasTable (r : Registry) (e : LayoutEngine) (t : TypeId) (withStatic : Bool) : Prop :=
  (e.tables.get? (r.typeKey t, withStatic)).isSome = true

/-- the size of `t` is fixed or remembered, or that of its value is, after at most `steps` enums -/
def KnowsWithin (r : Registry) (e : LayoutEngine) : (steps : Nat) → TypeId → Prop
  | 0, _ => False
  | steps + 1, t =>
    (e.target.fixedSize? r t).isSome = true ∨ (e.sizes.get? (r.typeKey t)).isSome = true ∨
      ((r.type t).form.isEnum = true ∧
        ∀ u, underlying? r t = some u → KnowsWithin r e steps u)

@[irreducible]
def Knows (r : Registry) (e : LayoutEngine) (t : TypeId) : Prop := KnowsWithin r e (sizeSteps r) t

/-- `e'` remembers what `e` remembers -/
structure Within (e e' : LayoutEngine) : Prop where
  target : e.target = e'.target
  sizes : ∀ key, (e.sizes.get? key).isSome = true → (e'.sizes.get? key).isSome = true
  tables : ∀ key, (e.tables.get? key).isSome = true → (e'.tables.get? key).isSome = true

/-- What `e` remembers of the types reached from `A` is right for target `τ`, and is complete
below. -/
structure Remembers (r : Registry) (τ : Target) (A : Set TypeId) (e : LayoutEngine) : Prop where
  target : e.target = τ
  size : ∀ {t n}, r.Reaches A t → e.sizes.get? (r.typeKey t) = some n →
    r.SizeIs τ t n ∧ (r.type t).form.isEnum = false ∧ HasTable r e t false
  table : ∀ {t b entries}, r.Reaches A t → e.tables.get? (r.typeKey t, b) = some entries →
    r.Tabled τ t b entries ∧ ∀ u ∈ r.listedTypes t b, Knows r e u

variable {r : Registry} {τ : Target} {A : Set TypeId} {e e' e'' : LayoutEngine} {t : TypeId}
  {b : Bool}

theorem Within.of_memory (h : e.memory = e'.memory) : e.Within e' := by
  obtain ⟨ht, htab, hs⟩ := memory_eq_iff.mp h
  exact ⟨ht, fun key hk => hs ▸ hk, fun key hk => htab ▸ hk⟩

theorem Within.refl (e : LayoutEngine) : e.Within e := .of_memory rfl

theorem Within.trans (h : e.Within e') (h' : e'.Within e'') : e.Within e'' where
  target := h.target.trans h'.target
  sizes key hk := h'.sizes key (h.sizes key hk)
  tables key hk := h'.tables key (h.tables key hk)

theorem Within.hasTable (h : e.Within e') (ht : HasTable r e t b) : HasTable r e' t b :=
  h.tables _ ht

theorem Within.knowsWithin (h : e.Within e') {n : Nat} (ht : KnowsWithin r e n t) :
    KnowsWithin r e' n t := by
  induction n generalizing t with
  | zero => exact ht
  | succ n ih =>
    unfold KnowsWithin at ht ⊢
    rw [← h.target]
    rcases ht with hf | hs | ⟨he, hu⟩
    · exact .inl hf
    · exact .inr (.inl (h.sizes _ hs))
    · exact .inr (.inr ⟨he, fun u hu' => ih (hu u hu')⟩)

theorem KnowsWithin.succ {n : Nat} (h : KnowsWithin r e n t) : KnowsWithin r e (n + 1) t := by
  induction n generalizing t with
  | zero => cases h
  | succ n ih =>
    unfold KnowsWithin at h ⊢
    rcases h with hf | hs | ⟨he, hu⟩
    · exact .inl hf
    · exact .inr (.inl hs)
    · exact .inr (.inr ⟨he, fun u hu' => ih (hu u hu')⟩)

theorem KnowsWithin.mono {n m : Nat} (h : KnowsWithin r e n t) (hle : n ≤ m) :
    KnowsWithin r e m t := by
  induction hle with
  | refl => exact h
  | step _ ih => exact ih.succ

theorem KnowsWithin.knows {n : Nat} (h : KnowsWithin r e n t) (hle : n ≤ sizeSteps r) :
    Knows r e t := by
  unfold Knows
  exact h.mono hle

theorem Knows.knowsWithin (h : Knows r e t) : KnowsWithin r e (sizeSteps r) t := by
  unfold Knows at h
  exact h

theorem Knows.exists_steps (h : Knows r e t) :
    ∃ n, n + 1 = sizeSteps r ∧ KnowsWithin r e (n + 1) t :=
  ⟨maxLayoutDepth + 1 + r.types.size, by rw [sizeSteps]; omega,
    h.knowsWithin.mono (by rw [sizeSteps]; omega)⟩

theorem Within.knows (h : e.Within e') (ht : Knows r e t) : Knows r e' t :=
  (h.knowsWithin ht.knowsWithin).knows (Nat.le_refl _)

theorem Knows.cases (h : Knows r e t) (he : Remembers r τ A e) (ht : r.Reaches A t)
    (hf : τ.fixedSize? r t = none) :
    ((r.type t).form.isEnum = false ∧ (e.sizes.get? (r.typeKey t)).isSome = true) ∨
      ((r.type t).form.isEnum = true ∧ ∀ u, underlying? r t = some u → Knows r e u) := by
  obtain ⟨n, hn, hk⟩ := h.exists_steps
  unfold KnowsWithin at hk
  rw [he.target, hf] at hk
  rcases hk with hfixed | hs | ⟨henum, hu⟩
  · cases hfixed
  · obtain ⟨k, hk⟩ := Option.isSome_iff_exists.mp hs
    exact .inl ⟨(he.size ht hk).2.1, hs⟩
  · exact .inr ⟨henum, fun u hu' => (hu u hu').knows (by omega)⟩

theorem Remembers.of_memory (he : Remembers r τ A e) (h : e.memory = e'.memory) :
    Remembers r τ A e' := by
  obtain ⟨ht, htab, hs⟩ := memory_eq_iff.mp h
  have hle : e.Within e' := .of_memory h
  refine ⟨ht ▸ he.target, fun hhas hk => ?_, fun hhas hk => ?_⟩
  · obtain ⟨hsize, henum, hT⟩ := he.size hhas (hs ▸ hk)
    exact ⟨hsize, henum, hle.hasTable hT⟩
  · obtain ⟨htabled, hknows⟩ := he.table hhas (htab ▸ hk)
    exact ⟨htabled, fun u hu => hle.knows (hknows u hu)⟩

def Fresh (τ : Target) (e : LayoutEngine) : Prop := e.target = τ ∧ e.tables = ∅ ∧ e.sizes = ∅

theorem Fresh.remembers (h : Fresh τ e) : Remembers r τ A e := by
  obtain ⟨htarget, htables, hsizes⟩ := h
  refine ⟨htarget, fun _ hk => ?_, fun _ hk => ?_⟩
  · rw [hsizes, Table.get?_empty] at hk
    cases hk
  · rw [htables, Table.get?_empty] at hk
    cases hk

theorem Fresh.within (h : Fresh τ e) (he : Remembers r τ A e') : e.Within e' := by
  obtain ⟨htarget, htables, hsizes⟩ := h
  refine ⟨htarget.trans he.target.symm, fun key hk => ?_, fun key hk => ?_⟩
  · rw [hsizes, Table.get?_empty] at hk
    cases hk
  · rw [htables, Table.get?_empty] at hk
    cases hk

def withTable (r : Registry) (e : LayoutEngine) (t : TypeId) (b : Bool)
    (entries : List FieldEntry) : LayoutEngine :=
  { e with tables := e.tables.insert (r.typeKey t, b) entries }

def withSize (r : Registry) (e : LayoutEngine) (t : TypeId) (n : UInt32) : LayoutEngine :=
  { e with sizes := e.sizes.insert (r.typeKey t) n }

theorem isSome_get?_insert {κ ν : Type} [DecidableEq κ] (T : Table κ ν) (key other : κ) (v : ν) :
    ((T.insert key v).get? other).isSome = true ↔ other = key ∨ (T.get? other).isSome = true := by
  by_cases h : other = key
  · subst h
    simp
  · rw [Table.get?_insert_of_ne T v h]
    simp [h]

theorem within_withTable (e : LayoutEngine) (t : TypeId) (b : Bool) (entries : List FieldEntry) :
    e.Within (withTable r e t b entries) :=
  ⟨rfl, fun _ hk => hk, fun key hk => (isSome_get?_insert _ _ key _).mpr (.inr hk)⟩

theorem within_withSize (e : LayoutEngine) (t : TypeId) (n : UInt32) :
    e.Within (withSize r e t n) :=
  ⟨rfl, fun key hk => (isSome_get?_insert _ _ key _).mpr (.inr hk), fun _ hk => hk⟩

theorem hasTable_withTable (e : LayoutEngine) (t : TypeId) (b : Bool) (entries : List FieldEntry) :
    HasTable r (withTable r e t b entries) t b :=
  (isSome_get?_insert _ _ _ _).mpr (.inl rfl)

theorem Within.withTable {entries : List FieldEntry} (h : e.Within e') (ht : HasTable r e' t b) :
    (withTable r e t b entries).Within e' := by
  refine ⟨h.target, h.sizes, fun key hk => ?_⟩
  rcases (isSome_get?_insert _ _ key _).mp hk with rfl | hk
  · exact ht
  · exact h.tables key hk

theorem Within.withSize {n : UInt32} (h : e.Within e')
    (ht : (e'.sizes.get? (r.typeKey t)).isSome = true) : (withSize r e t n).Within e' := by
  refine ⟨h.target, fun key hk => ?_, h.tables⟩
  rcases (isSome_get?_insert _ _ key _).mp hk with rfl | hk
  · exact ht
  · exact h.sizes key hk

section

variable (hkeys : r.KeysDistinctOn A) (ht : r.Reaches A t)
include hkeys ht

theorem Remembers.withTable {entries : List FieldEntry} (he : Remembers r τ A e)
    (htab : r.Tabled τ t b entries) (hknows : ∀ u ∈ r.listedTypes t b, Knows r e u) :
    Remembers r τ A (withTable r e t b entries) := by
  have hle := within_withTable (r := r) e t b entries
  refine ⟨he.target, fun hhas hk => ?_, fun {t' b' entries'} hhas hk => ?_⟩
  · obtain ⟨hsize, henum, hT⟩ := he.size hhas hk
    exact ⟨hsize, henum, hle.hasTable hT⟩
  · by_cases hkey : (r.typeKey t', b') = (r.typeKey t, b)
    · obtain ⟨hname, rfl⟩ := Prod.mk.inj hkey
      cases hkeys t' t hhas ht hname
      rw [LayoutEngine.withTable, Table.get?_insert_self] at hk
      cases hk
      exact ⟨htab, fun u hu => hle.knows (hknows u hu)⟩
    · rw [LayoutEngine.withTable, Table.get?_insert_of_ne _ _ hkey] at hk
      obtain ⟨htabled, hknows'⟩ := he.table hhas hk
      exact ⟨htabled, fun u hu => hle.knows (hknows' u hu)⟩

theorem Remembers.withSize {n : UInt32} (he : Remembers r τ A e) (hn : r.SizeIs τ t n)
    (henum : (r.type t).form.isEnum = false) (hT : HasTable r e t false) :
    Remembers r τ A (withSize r e t n) := by
  have hle := within_withSize (r := r) e t n
  refine ⟨he.target, fun {t' n'} hhas hk => ?_, fun hhas hk => ?_⟩
  · by_cases hkey : r.typeKey t' = r.typeKey t
    · cases hkeys t' t hhas ht hkey
      rw [LayoutEngine.withSize, Table.get?_insert_self] at hk
      cases hk
      exact ⟨hn, henum, hT⟩
    · rw [LayoutEngine.withSize, Table.get?_insert_of_ne _ _ hkey] at hk
      obtain ⟨hsize, henum', hT'⟩ := he.size hhas hk
      exact ⟨hsize, henum', hle.hasTable hT'⟩
  · obtain ⟨htabled, hknows⟩ := he.table hhas hk
    exact ⟨htabled, fun u hu => hle.knows (hknows u hu)⟩

end

end LayoutEngine

end ProgramScan

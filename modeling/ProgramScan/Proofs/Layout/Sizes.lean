import ProgramScan.Proofs.Layout.Tables

/-!
# Sizes without an engine

The size of a value comes from the sizes of its fields, down to types with a fixed size.

* `Registry.SizeIs`      a type has a size, by a finite tree of types that contain each other;
* `SizeIs.unique`        at most one;
* `Registry.valueSize`   the size where there is one;
* `Registry.Tabled`      the table of a type whose listed fields all have sizes.

An engine remembers only sizes and tables in this sense, so it does not matter what it was asked
before.
-/

namespace ProgramScan

namespace Registry

open LayoutEngine (underlying?)

theorem ite_some_eq_none {p : Prop} [Decidable p] {n : UInt32} {x : Option UInt32} :
    (if p then some n else x) = none ↔ ¬p ∧ x = none := by
  split <;> simp [*]

theorem fixedSize?_eq_none_iff {r : Registry} {t : TypeId} (τ τ' : Target) :
    τ.fixedSize? r t = none ↔ τ'.fixedSize? r t = none := by
  simp only [Target.fixedSize?, ite_some_eq_none]

/-- Values of type `t` take `n` bytes. -/
inductive SizeIs (r : Registry) (τ : Target) : TypeId → UInt32 → Prop
  | fixed {t : TypeId} {n : UInt32} (hf : τ.fixedSize? r t = some n) : SizeIs r τ t n
  | enumOver {t u : TypeId} {n : UInt32} (hf : τ.fixedSize? r t = none)
      (he : (r.type t).form.isEnum = true) (hu : underlying? r t = some u) (h : SizeIs r τ u n) :
      SizeIs r τ t n
  | plainEnum {t : TypeId} (hf : τ.fixedSize? r t = none) (he : (r.type t).form.isEnum = true)
      (hu : underlying? r t = none) : SizeIs r τ t 4
  | fields {t : TypeId} {σ : TypeId → UInt32} {entries : List FieldEntry}
      (hf : τ.fixedSize? r t = none) (he : (r.type t).form.isEnum = false)
      (hσ : ∀ u ∈ r.listedTypes t false, SizeIs r τ u (σ u))
      (ht : r.table τ σ t false = .ok entries) :
      SizeIs r τ t (τ.storageOf (r.type t) entries)

def HasSize (r : Registry) (τ : Target) (t : TypeId) : Prop := ∃ n, r.SizeIs τ t n

variable {r : Registry} {τ : Target} {t : TypeId} {b : Bool} {n m : UInt32}

theorem SizeIs.unique (h : r.SizeIs τ t n) (h' : r.SizeIs τ t m) : n = m := by
  induction h generalizing m with
  | fixed hf =>
    cases h' with
    | fixed hf' => exact Option.some.inj (hf.symm.trans hf')
    | enumOver hf' => cases hf.symm.trans hf'
    | plainEnum hf' => cases hf.symm.trans hf'
    | fields hf' => cases hf.symm.trans hf'
  | enumOver hf he hu _ ih =>
    cases h' with
    | fixed hf' => cases hf.symm.trans hf'
    | enumOver _ _ hu' h' =>
      cases hu.symm.trans hu'
      exact ih h'
    | plainEnum _ _ hu' => cases hu.symm.trans hu'
    | fields _ he' => cases he.symm.trans he'
  | plainEnum hf he hu =>
    cases h' with
    | fixed hf' => cases hf.symm.trans hf'
    | enumOver _ _ hu' => cases hu.symm.trans hu'
    | plainEnum => rfl
    | fields _ he' => cases he.symm.trans he'
  | fields hf he _ ht ih =>
    cases h' with
    | fixed hf' => cases hf.symm.trans hf'
    | enumOver _ he' => cases he.symm.trans he'
    | plainEnum _ he' => cases he.symm.trans he'
    | fields _ _ hσ' ht' =>
      -- both tables are made from sizes that agree on the listed types
      rw [table_congr fun u hu => ih u hu (hσ' u hu), ht'] at ht
      cases ht
      rfl

open Classical in
/-- the size of values of type `t`, 0 if there is none -/
noncomputable def valueSize (r : Registry) (τ : Target) (t : TypeId) : UInt32 :=
  if h : r.HasSize τ t then h.choose else 0

theorem HasSize.sizeIs (h : r.HasSize τ t) : r.SizeIs τ t (r.valueSize τ t) := by
  rw [valueSize, dif_pos h]
  exact h.choose_spec

theorem SizeIs.eq_valueSize (h : r.SizeIs τ t n) : n = r.valueSize τ t :=
  h.unique (HasSize.sizeIs ⟨n, h⟩)

theorem HasSize.underlying {u : TypeId} (h : r.HasSize τ t) (hf : τ.fixedSize? r t = none)
    (he : (r.type t).form.isEnum = true) (hu : underlying? r t = some u) : r.HasSize τ u := by
  obtain ⟨n, h⟩ := h
  cases h with
  | fixed hf' => cases hf.symm.trans hf'
  | enumOver _ _ hu' h =>
    cases hu.symm.trans hu'
    exact ⟨n, h⟩
  | plainEnum _ _ hu' => cases hu.symm.trans hu'
  | fields _ he' => cases he.symm.trans he'

theorem WellFormed.underlying (hw : r.WellFormed) {u : TypeId} (ht : r.Has (.type t))
    (hu : underlying? r t = some u) : r.Has (.type u) := by
  obtain ⟨f, hf, rfl⟩ := Option.map_eq_some_iff.mp hu
  exact hw.typeOf (hw.fieldOf ht (List.mem_of_find?_eq_some hf))

/-- `entries` is the table of `t`, and all of its sizes exist. -/
structure Tabled (r : Registry) (τ : Target) (t : TypeId) (withStatic : Bool)
    (entries : List FieldEntry) : Prop where
  sizes : ∀ u ∈ r.listedTypes t withStatic, r.HasSize τ u
  table : r.table τ (r.valueSize τ) t withStatic = .ok entries

theorem Tabled.unique {entries entries' : List FieldEntry} (h : r.Tabled τ t b entries)
    (h' : r.Tabled τ t b entries') : entries = entries' := by
  have := h.table
  rw [h'.table] at this
  cases this
  rfl

theorem Tabled.sizeIs {entries : List FieldEntry} (h : r.Tabled τ t false entries)
    (hf : τ.fixedSize? r t = none) (he : (r.type t).form.isEnum = false) :
    r.SizeIs τ t (τ.storageOf (r.type t) entries) :=
  .fields hf he (fun u hu => (h.sizes u hu).sizeIs) h.table

theorem HasSize.tabled (h : r.HasSize τ t) (hf : τ.fixedSize? r t = none)
    (he : (r.type t).form.isEnum = false) : ∃ entries, r.Tabled τ t false entries := by
  obtain ⟨n, h⟩ := h
  cases h with
  | fixed hf' => cases hf.symm.trans hf'
  | enumOver _ he' => cases he.symm.trans he'
  | plainEnum _ he' => cases he.symm.trans he'
  | @fields _ σ entries _ _ hσ ht =>
    refine ⟨entries, fun u hu => ⟨σ u, hσ u hu⟩, ?_⟩
    rw [← ht]
    exact table_congr fun u hu => ((hσ u hu).eq_valueSize).symm

end Registry

end ProgramScan

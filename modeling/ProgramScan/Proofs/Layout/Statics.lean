import Mathlib.Data.List.Perm.Basic
import ProgramScan.Proofs.Layout.Storage

/-!
# Static fields

Static fields are listed on request.  They have their own storage, so the table with them must place
the other fields where the table without them does.

* `Registry.table_instances`    the table with static fields, without its static entries;
* `Registry.table_statics`      its static entries;
* `fieldTable_statics`          both, and the storage, of what engines answer.
-/

namespace ProgramScan

def FieldEntry.member (e : FieldEntry) : TypeId × FieldId := (e.declaring, e.field)

namespace Registry

variable {r : Registry} {τ : Target} {σ : TypeId → UInt32} {t : TypeId}

/-! ## the entries of instances -/

theorem isStatic_placeAligned {alignment start : UInt32} {es : List FieldEntry}
    (h : ∀ e ∈ es, e.isStatic = false) :
    ∀ e ∈ placeAligned alignment start es, e.isStatic = false := by
  induction es generalizing start with
  | nil => exact fun e he => by cases he
  | cons x es ih =>
    intro e he
    rcases List.mem_cons.mp he with rfl | he
    · exact h x List.mem_cons_self
    · exact ih (fun e he => h e (List.mem_cons_of_mem x he)) e he

theorem isStatic_placedTable (kind : LayoutKind) :
    ∀ e ∈ r.placedTable τ σ t kind, e.isStatic = false := by
  have hsequential : ∀ e ∈ r.sequentialTable τ σ t, e.isStatic = false := by
    refine isStatic_placeAligned fun e he => ?_
    obtain ⟨f, -, rfl⟩ := List.mem_map.mp he
    rfl
  cases kind with
  | auto => exact hsequential
  | sequential => exact hsequential
  | explicit =>
    intro e he
    obtain ⟨f, -, rfl⟩ := List.mem_map.mp he
    rfl

/-- value types list their static fields last -/
theorem valueTable_instances (kind : LayoutKind) :
    (r.valueTable τ σ t true kind).filter (fun e => !e.isStatic) =
      r.valueTable τ σ t false kind := by
  have hplaced : (r.placedTable τ σ t kind).filter (fun e => !e.isStatic) =
      r.placedTable τ σ t kind :=
    List.filter_eq_self.mpr fun e he => by rw [isStatic_placedTable kind e he]; rfl
  have hstatics : ((r.staticFields t).map (r.staticEntry σ t)).filter (fun e => !e.isStatic) = [] := by
    refine List.filter_eq_nil_iff.mpr fun e he => ?_
    obtain ⟨f, -, rfl⟩ := List.mem_map.mp he
    exact Bool.false_ne_true
  rw [valueTable, List.filter_append, hplaced, if_pos rfl, hstatics]
  rfl

/-- **Static fields move no others.** -/
theorem table_instances {full entries : List FieldEntry} (hfull : r.table τ σ t true = .ok full)
    (hentries : r.table τ σ t false = .ok entries) :
    full.filter (fun e => !e.isStatic) = entries := by
  cases hv : (r.type t).form.isValueType with
  | true =>
    rw [table_value hv] at hfull hentries
    cases hkind : r.layoutKind t with
    | error e =>
      rw [hkind] at hfull
      cases hfull
    | ok kind =>
      rw [hkind] at hfull hentries
      cases hfull
      cases hentries
      exact valueTable_instances kind
  | false =>
    rw [table_reference hv] at hfull hentries
    cases hfull
    cases hentries
    exact referenceTable_instances

/-! ## the static entries -/

def staticMembers (r : Registry) (t : TypeId) : List (TypeId × FieldId) :=
  (r.levels t).flatMap fun level => (r.staticFields level).map fun f => (level, f)

theorem member_memberEntry (level : TypeId) (f : FieldId) :
    (r.memberEntry σ level f).member = (level, f) := by
  rw [memberEntry]
  cases (r.field f).explicitOffset? <;> rfl

theorem levelEntries_statics (level : TypeId) :
    (((r.levelEntries σ true level).filter (·.isStatic)).map FieldEntry.member).Perm
      ((r.staticFields level).map fun f => (level, f)) := by
  have hstatic : (·.isStatic) ∘ r.memberEntry σ level = fun f => (r.field f).isStatic := by
    funext f
    exact (memberEntry_field level f).2
  have hmember : FieldEntry.member ∘ r.memberEntry σ level = fun f => (level, f) := by
    funext f
    exact member_memberEntry level f
  have hlisted : (r.listedAt true level).filter (fun f => (r.field f).isStatic) =
      r.staticFields level := by
    simp [listedAt, staticFields]
  rw [levelEntries, List.filter_map, List.map_map, hstatic, hmember, ← byFieldName_filter, hlisted]
  exact (sortBy_perm _ _).map _

theorem placeDense_statics (offset : UInt32) (es : List FieldEntry) :
    ((placeDense offset es).filter (·.isStatic)).map FieldEntry.member =
      (es.filter (·.isStatic)).map FieldEntry.member := by
  induction es generalizing offset with
  | nil => rfl
  | cons e es ih =>
    rw [placeDense]
    split
    · rw [List.filter_cons, List.filter_cons]
      split
      · rw [List.map_cons, List.map_cons, ih]
      · exact ih _
    · rename_i h
      simp only [Bool.or_eq_true, not_or, Bool.not_eq_true] at h
      rw [List.filter_cons, List.filter_cons, if_neg (by simp [h.2]), if_neg (by simp [h.2]), ih]

theorem referenceTable_statics :
    (((r.referenceTable σ t true).filter (·.isStatic)).map FieldEntry.member).Perm
      ((t :: r.ancestors t).flatMap fun level => (r.staticFields level).map fun f => (level, f)) := by
  rw [referenceTable, placeDense_statics, List.filter_reverse, List.map_reverse,
    List.filter_flatten, List.map_flatten, List.map_map, List.map_map, ← List.flatMap_def]
  refine (List.reverse_perm _).trans ?_
  exact List.Perm.flatMap_left _ fun level _ => levelEntries_statics level

theorem valueTable_statics (kind : LayoutKind) :
    ((r.valueTable τ σ t true kind).filter (·.isStatic)).map FieldEntry.member =
      (r.staticFields t).map fun f => (t, f) := by
  have hplaced : (r.placedTable τ σ t kind).filter (·.isStatic) = [] :=
    List.filter_eq_nil_iff.mpr fun e he => by
      rw [isStatic_placedTable kind e he]
      exact Bool.false_ne_true
  have hstatics : ((r.staticFields t).map (r.staticEntry σ t)).filter (·.isStatic) =
      (r.staticFields t).map (r.staticEntry σ t) := by
    refine List.filter_eq_self.mpr fun e he => ?_
    obtain ⟨f, -, rfl⟩ := List.mem_map.mp he
    rfl
  rw [valueTable, List.filter_append, hplaced, if_pos rfl, hstatics, List.nil_append, List.map_map]
  rfl

theorem table_statics {full : List FieldEntry} (hfull : r.table τ σ t true = .ok full) :
    ((full.filter (·.isStatic)).map FieldEntry.member).Perm (r.staticMembers t) := by
  cases hv : (r.type t).form.isValueType with
  | true =>
    rw [table_value hv] at hfull
    cases hkind : r.layoutKind t with
    | error e =>
      rw [hkind] at hfull
      cases hfull
    | ok kind =>
      rw [hkind] at hfull
      cases hfull
      rw [valueTable_statics, staticMembers, levels_value hv, List.flatMap_singleton]
  | false =>
    rw [table_reference hv] at hfull
    cases hfull
    rw [staticMembers, levels_reference hv]
    exact referenceTable_statics

end Registry

namespace LayoutEngine

open Registry (core answersWith exists_of_answersWith)

variable {r : Registry} {τ : Target} {A : Set TypeId} {t : TypeId}

/-- **Static fields are listed beside the others and change nothing else.** -/
theorem fieldTable_statics (hkeys : r.KeysDistinctOn A) (ht : t ∈ A)
    {e₁ e₁' e₂ e₂' : LayoutEngine} (h₁ : Reached r τ A e₁) (h₂ : Reached r τ A e₂)
    {full entries : List FieldEntry} (hfull : fieldTable r t true e₁ = .ok full e₁')
    (hentries : fieldTable r t false e₂ = .ok entries e₂') :
    full.filter (fun e => !e.isStatic) = entries ∧
    ((full.filter (·.isStatic)).map FieldEntry.member).Perm (r.staticMembers t) ∧
    ∀ e₃ n e₃', Reached r τ A e₃ → storageSize r t e₃ = .ok n e₃' →
      n = r.storedIn τ t (full.filter fun e => !e.isStatic) := by
  have htA : r.Reaches A t := .asked ht
  have htabFull := ((outcome_fieldTable hkeys htA (h₁.remembers hkeys)).ok hfull).1
  have htab := ((outcome_fieldTable hkeys htA (h₂.remembers hkeys)).ok hentries).1
  have hsame := Registry.table_instances htabFull.table htab.table
  refine ⟨hsame, Registry.table_statics htabFull.table, fun e₃ n e₃' h₃ hn => ?_⟩
  rw [hsame]
  exact storageSize_eq hkeys htA htab (h₃.remembers hkeys) hn

/-- A class with an instance field of its own, a static field between its instance fields and a base
class with a static field that is annotated with an offset. -/
def ledgerEdits : List Edit :=
  [.addModule "App",
    .define ⟨1⟩ "App" "Ledger" .reference 0 [] none,
    .setBase ⟨20⟩ ⟨0⟩,
    .declareField ⟨1⟩ ⟨20⟩ "balance" ⟨14⟩ 0 [],
    .declareField ⟨1⟩ ⟨20⟩ "count" ⟨12⟩ FieldFlags.isStatic [.fieldOffset 2],
    .define ⟨1⟩ "App" "Account" .reference 0 [] none,
    .setBase ⟨21⟩ ⟨20⟩,
    .declareField ⟨1⟩ ⟨21⟩ "kind" ⟨9⟩ 0 [],
    .declareField ⟨1⟩ ⟨21⟩ "main" ⟨21⟩ FieldFlags.isStatic [],
    .declareField ⟨1⟩ ⟨21⟩ "owner" ⟨4⟩ 0 []]

theorem fieldTable_statics_ledger : ∃ full e₁ entries e₂ n e₃,
    fieldTable (core.applyAll ledgerEdits) ⟨21⟩ true {} = .ok full e₁ ∧
    fieldTable (core.applyAll ledgerEdits) ⟨21⟩ false e₁ = .ok entries e₂ ∧
    storageSize (core.applyAll ledgerEdits) ⟨21⟩ e₂ = .ok n e₃ ∧
    full.length = 5 ∧ full.filter (fun e => !e.isStatic) = entries ∧
    ((full.filter (·.isStatic)).map FieldEntry.member).Perm
      ((core.applyAll ledgerEdits).staticMembers ⟨21⟩) ∧
    n = (core.applyAll ledgerEdits).storedIn {} ⟨21⟩ (full.filter fun e => !e.isStatic) := by
  obtain ⟨hkeys, hanswers⟩ : (core.applyAll ledgerEdits).ToldApart [⟨21⟩] ∧
      answersWith (do
        let full ← fieldTable (core.applyAll ledgerEdits) ⟨21⟩ true
        let entries ← fieldTable (core.applyAll ledgerEdits) ⟨21⟩ false
        let n ← storageSize (core.applyAll ledgerEdits) ⟨21⟩
        return (full, entries, n)) {} (fun answer _ => answer.1.length == 5) = true := by
    decide +kernel
  obtain ⟨answer, e₃, hrun, hlength⟩ := exists_of_answersWith hanswers
  obtain ⟨full, e₁, hfull, hrest⟩ := Registry.bind_eq_ok_iff.mp hrun
  obtain ⟨entries, e₂, hentries, hrest⟩ := Registry.bind_eq_ok_iff.mp hrest
  obtain ⟨n, e₃', hn, hpure⟩ := Registry.bind_eq_ok_iff.mp hrest
  cases hpure
  have ht : (⟨21⟩ : TypeId) ∈ ({⟨21⟩} : Set TypeId) := rfl
  have h₁ : Reached (core.applyAll ledgerEdits) {} {⟨21⟩} {} := Fresh.reached ⟨rfl, rfl, rfl⟩
  have h₂ := h₁.fieldTable_ok ht hfull
  have h₃ := h₂.fieldTable_ok ht hentries
  obtain ⟨hsame, hstatics, hstored⟩ :=
    fieldTable_statics (hkeys.on fun _ => List.mem_singleton.mpr) ht h₁ h₂ hfull hentries
  exact ⟨full, e₁, entries, e₂, n, e₃, hfull, hentries, hn, beq_iff_eq.mp hlength, hsame, hstatics,
    hstored e₂ n e₃ h₃ hn⟩

/-- Two structs whose names read the same: `Point` of `App.Geo`, with one field, and `Geo.Point` of
`App`, with one field too.  The first one has a static field of the second one's type. -/
def originEdits : List Edit :=
  [.addModule "App",
    .define ⟨1⟩ "App.Geo" "Point" .valueType 0 [] none,
    .define ⟨1⟩ "App" "Geo.Point" .valueType 0 [] none,
    .declareField ⟨1⟩ ⟨21⟩ "y" ⟨14⟩ 0 [],
    .declareField ⟨1⟩ ⟨20⟩ "x" ⟨12⟩ 0 [],
    .declareField ⟨1⟩ ⟨20⟩ "origin" ⟨21⟩ FieldFlags.isStatic []]

/-- The size of the static field leaves the second struct's table, which answers for the first one
afterwards. -/
theorem fieldTable_origin : ∃ full e₁ entries e₂,
    Registry.FitAll core originEdits ∧
    fieldTable (core.applyAll originEdits) ⟨20⟩ true {} = .ok full e₁ ∧
    fieldTable (core.applyAll originEdits) ⟨20⟩ false e₁ = .ok entries e₂ ∧
    full.filter (fun e => !e.isStatic) ≠ entries := by
  obtain ⟨hfits, hanswers⟩ : Registry.FitAll core originEdits ∧
      answersWith (do
        let full ← fieldTable (core.applyAll originEdits) ⟨20⟩ true
        let entries ← fieldTable (core.applyAll originEdits) ⟨20⟩ false
        return (full, entries)) {} (fun answer _ =>
          (answer.1.filter fun e => !e.isStatic).map (·.field) != answer.2.map (·.field)) = true := by
    decide +kernel
  obtain ⟨answer, e₂, hrun, hdiffer⟩ := exists_of_answersWith hanswers
  obtain ⟨full, e₁, hfull, hrest⟩ := Registry.bind_eq_ok_iff.mp hrun
  obtain ⟨entries, e₂', hentries, hpure⟩ := Registry.bind_eq_ok_iff.mp hrest
  cases hpure
  refine ⟨full, e₁, entries, e₂, hfits, hfull, hentries, fun hsame => ?_⟩
  rw [hsame] at hdiffer
  simp at hdiffer

end LayoutEngine

end ProgramScan

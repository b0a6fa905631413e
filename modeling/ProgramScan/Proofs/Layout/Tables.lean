import Mathlib.Data.List.Infix
import ProgramScan.Layout.Engine
import ProgramScan.Proofs.Registry.Questions

/-!
# Field tables from sizes

The engine asks for the size of each listed field and then places the fields.  Here the second half
stands alone: the table of a type when the sizes of all types are given as a function `σ`.

* `Registry.levels`, `listed`     the types that a table lists fields of, and these fields;
* `Registry.table`                the table of a type for given sizes;
* `table_congr`                   only sizes of listed fields count;
* `referenceTable_prefix`         the table of an ancestor is a prefix;
* `referenceTable_instances`      static fields do not move the others.
-/

namespace ProgramScan

/-! ## placing entries -/

/-- where dense placement stands after a list of entries -/
def denseEnd : (offset : UInt32) → List FieldEntry → UInt32
  | offset, [] => offset
  | offset, e :: rest =>
    if e.hasExplicitOffset || e.isStatic then denseEnd offset rest
    else denseEnd (offset + e.size) rest

theorem placeDense_append (offset : UInt32) (xs ys : List FieldEntry) :
    placeDense offset (xs ++ ys) = placeDense offset xs ++ placeDense (denseEnd offset xs) ys := by
  induction xs generalizing offset with
  | nil => rfl
  | cons e xs ih =>
    rw [List.cons_append, placeDense, placeDense, denseEnd]
    split
    · rw [ih, List.cons_append]
    · rw [ih, List.cons_append]

/-- placing changes nothing but offsets -/
theorem map_placeDense {β : Type} {g : FieldEntry → β}
    (hg : ∀ e offset, g { e with offset } = g e) (offset : UInt32) (es : List FieldEntry) :
    (placeDense offset es).map g = es.map g := by
  induction es generalizing offset with
  | nil => rfl
  | cons e es ih =>
    rw [placeDense]
    split
    · rw [List.map_cons, List.map_cons, ih]
    · rw [List.map_cons, List.map_cons, ih, hg]

theorem placeDense_instances (offset : UInt32) (es : List FieldEntry) :
    (placeDense offset es).filter (fun e => !e.isStatic) =
      placeDense offset (es.filter fun e => !e.isStatic) := by
  induction es generalizing offset with
  | nil => rfl
  | cons e es ih =>
    rw [placeDense]
    by_cases hs : e.isStatic = true
    · rw [hs, Bool.or_true, if_pos rfl, List.filter_cons_of_neg (by simp [hs]), ih,
        List.filter_cons_of_neg (by simp [hs])]
    · have hkeep : (!e.isStatic) = true := by simpa using hs
      rw [List.filter_cons_of_pos (l := es) hkeep, placeDense]
      split
      · rw [List.filter_cons, if_pos hkeep, ih]
      · rw [List.filter_cons, if_pos hkeep, ih]

namespace Registry

/-! ## the fields of a table -/

def levels (r : Registry) (t : TypeId) : List TypeId :=
  if (r.type t).form.isValueType then [t] else t :: r.ancestors t

def listedAt (r : Registry) (withStatic : Bool) (level : TypeId) : List FieldId :=
  (r.type level).fields.filter fun f => withStatic || !(r.field f).isStatic

def listed (r : Registry) (t : TypeId) (withStatic : Bool) : List FieldId :=
  (r.levels t).flatMap (r.listedAt withStatic)

/-- the types whose sizes a table shows -/
def listedTypes (r : Registry) (t : TypeId) (withStatic : Bool) : List TypeId :=
  (r.listed t withStatic).map fun f => (r.field f).type

theorem mem_listedTypes {r : Registry} {t u : TypeId} {b : Bool} :
    u ∈ r.listedTypes t b ↔
      ∃ level ∈ r.levels t, ∃ f ∈ r.listedAt b level, (r.field f).type = u := by
  simp only [listedTypes, listed, List.mem_map, List.mem_flatMap]
  constructor
  · rintro ⟨f, ⟨level, hl, hf⟩, hu⟩
    exact ⟨level, hl, f, hf, hu⟩
  · rintro ⟨level, hl, f, hf, hu⟩
    exact ⟨f, ⟨level, hl, hf⟩, hu⟩

theorem levels_value {r : Registry} {t : TypeId} (h : (r.type t).form.isValueType = true) :
    r.levels t = [t] := if_pos h

theorem levels_reference {r : Registry} {t : TypeId} (h : (r.type t).form.isValueType = false) :
    r.levels t = t :: r.ancestors t := if_neg (by rw [h]; exact Bool.false_ne_true)

theorem WellFormed.listedType {r : Registry} (hw : r.WellFormed) {t u : TypeId} {b : Bool}
    (ht : r.Has (.type t)) (hu : u ∈ r.listedTypes t b) : r.Has (.type u) := by
  obtain ⟨level, hl, f, hf, rfl⟩ := mem_listedTypes.mp hu
  have hlevel : level = t ∨ level ∈ r.ancestors t := by
    unfold levels at hl
    split at hl
    · exact .inl (List.mem_singleton.mp hl)
    · exact List.mem_cons.mp hl
  have hfield := (List.mem_filter.mp hf).1
  rcases hlevel with rfl | hl
  · exact hw.typeOf (hw.fieldOf ht hfield)
  · exact hw.typeOf (hw.fieldOf (hw.of_ancestorsFrom ht hl) hfield)

theorem mem_instanceFields {r : Registry} {t : TypeId} {f : FieldId} (b : Bool)
    (h : f ∈ r.instanceFields t) : f ∈ r.listedAt b t := by
  obtain ⟨hf, hs⟩ := List.mem_filter.mp h
  exact List.mem_filter.mpr ⟨hf, by rw [hs, Bool.or_true]⟩

theorem mem_listedAt_iff {r : Registry} {t : TypeId} {f : FieldId} {b : Bool} :
    f ∈ r.listedAt b t ↔ f ∈ r.instanceFields t ∨ (b = true ∧ f ∈ r.staticFields t) := by
  simp only [listedAt, instanceFields, staticFields, List.mem_filter]
  cases b <;> cases (r.field f).isStatic <;> simp

theorem listedAt_mono {r : Registry} {s s' : Bool} (hs : s' = true → s = true) {level : TypeId}
    {f : FieldId}
    (hf : f ∈ r.listedAt s' level) : f ∈ r.listedAt s level := by
  rw [mem_listedAt_iff] at hf ⊢
  exact hf.imp_right fun ⟨h, hf⟩ => ⟨hs h, hf⟩

theorem mem_byFieldName {r : Registry} {fs : List FieldId} {f : FieldId} :
    f ∈ r.byFieldName fs ↔ f ∈ fs := (sortBy_perm _ fs).mem_iff

theorem mem_byFieldToken {r : Registry} {fs : List FieldId} {f : FieldId} :
    f ∈ r.byFieldToken fs ↔ f ∈ fs := (sortBy_perm _ fs).mem_iff

theorem byFieldName_filter (r : Registry) (p : FieldId → Bool) (fs : List FieldId) :
    r.byFieldName (fs.filter p) = (r.byFieldName fs).filter p := by
  refine sortBy_filter (fun a b => ?_) (fun a b c hab hbc => ?_) p fs
  · simpa using String.le_total (r.field a).name (r.field b).name
  · simp only [decide_eq_true_eq] at *
    exact String.le_trans hab hbc

/-! ## tables for given sizes -/

variable (r : Registry) (τ : Target) (σ : TypeId → UInt32)

def entryOf (declaring : TypeId) (f : FieldId) : FieldEntry :=
  { id := r.fieldName f, size := σ (r.field f).type, declaring, type := (r.field f).type,
    field := f }

def memberEntry (declaring : TypeId) (f : FieldId) : FieldEntry :=
  let e := { r.entryOf σ declaring f with isStatic := (r.field f).isStatic }
  match (r.field f).explicitOffset? with
  | some offset => { e with offset, hasExplicitOffset := true }
  | none => e

def levelEntries (withStatic : Bool) (level : TypeId) : List FieldEntry :=
  (r.byFieldName (r.listedAt withStatic level)).map (r.memberEntry σ level)

def referenceTable (t : TypeId) (withStatic : Bool) : List FieldEntry :=
  placeDense 0 ((t :: r.ancestors t).map (r.levelEntries σ withStatic)).flatten.reverse

def sequentialTable (t : TypeId) : List FieldEntry :=
  let fields := r.instanceFields t
  placeAligned (min (τ.packing (r.type t)) (largest id (fields.map fun f => σ (r.field f).type))) 0
    ((r.byFieldToken fields).map (r.entryOf σ t))

def fixedEntry (t : TypeId) (f : FieldId) : FieldEntry :=
  { r.entryOf σ t f with offset := (r.field f).explicitOffset?.getD 0, hasExplicitOffset := true }

def staticEntry (t : TypeId) (f : FieldId) : FieldEntry := { r.entryOf σ t f with isStatic := true }

def placedTable (t : TypeId) : LayoutKind → List FieldEntry
  | .auto | .sequential => r.sequentialTable τ σ t
  | .explicit => (r.instanceFields t).map (r.fixedEntry σ t)

def valueTable (t : TypeId) (withStatic : Bool) (kind : LayoutKind) : List FieldEntry :=
  r.placedTable τ σ t kind ++
    if withStatic then (r.staticFields t).map (r.staticEntry σ t) else []

def table (t : TypeId) (withStatic : Bool) : Except Error (List FieldEntry) :=
  if (r.type t).form.isValueType then (r.layoutKind t).map (r.valueTable τ σ t withStatic)
  else .ok (r.referenceTable σ t withStatic)

variable {r τ σ} {ρ : TypeId → UInt32} {t : TypeId} {b : Bool}

theorem table_value (h : (r.type t).form.isValueType = true) :
    r.table τ σ t b = (r.layoutKind t).map (r.valueTable τ σ t b) := if_pos h

theorem table_reference (h : (r.type t).form.isValueType = false) :
    r.table τ σ t b = .ok (r.referenceTable σ t b) :=
  if_neg (by rw [h]; exact Bool.false_ne_true)

/-- a table exists as soon as the layout discipline is known, whatever the sizes -/
theorem table_ok_iff : (∃ entries, r.table τ σ t b = .ok entries) ↔
    (r.type t).form.isValueType = false ∨ ∃ kind, r.layoutKind t = .ok kind := by
  cases hv : (r.type t).form.isValueType with
  | true =>
    rw [table_value hv]
    cases r.layoutKind t with
    | ok kind => exact ⟨fun _ => .inr ⟨kind, rfl⟩, fun _ => ⟨_, rfl⟩⟩
    | error e => simp [Except.map]
  | false => simp [table_reference hv]

/-! ## what a table depends on -/

theorem entryOf_congr {declaring : TypeId} {f : FieldId}
    (h : σ (r.field f).type = ρ (r.field f).type) :
    r.entryOf σ declaring f = r.entryOf ρ declaring f := by
  rw [entryOf, entryOf, h]

theorem memberEntry_congr {declaring : TypeId} {f : FieldId}
    (h : σ (r.field f).type = ρ (r.field f).type) :
    r.memberEntry σ declaring f = r.memberEntry ρ declaring f := by
  rw [memberEntry, memberEntry, entryOf_congr h]

theorem placedTable_congr (h : ∀ f ∈ r.instanceFields t, σ (r.field f).type = ρ (r.field f).type)
    (kind : LayoutKind) : r.placedTable τ σ t kind = r.placedTable τ ρ t kind := by
  have hseq : r.sequentialTable τ σ t = r.sequentialTable τ ρ t := by
    unfold sequentialTable
    have hsizes : (r.instanceFields t).map (fun f => σ (r.field f).type) =
        (r.instanceFields t).map fun f => ρ (r.field f).type := List.map_congr_left h
    have hentries : (r.byFieldToken (r.instanceFields t)).map (r.entryOf σ t) =
        (r.byFieldToken (r.instanceFields t)).map (r.entryOf ρ t) :=
      List.map_congr_left fun f hf => entryOf_congr (h f (mem_byFieldToken.mp hf))
    simp only [hsizes, hentries]
  cases kind with
  | auto => exact hseq
  | sequential => exact hseq
  | explicit =>
    refine List.map_congr_left fun f hf => ?_
    rw [fixedEntry, fixedEntry, entryOf_congr (h f hf)]

theorem valueTable_congr (h : ∀ f ∈ r.listedAt b t, σ (r.field f).type = ρ (r.field f).type)
    (kind : LayoutKind) : r.valueTable τ σ t b kind = r.valueTable τ ρ t b kind := by
  rw [valueTable, valueTable, placedTable_congr fun f hf => h f (mem_instanceFields b hf)]
  split
  · rename_i hb
    congr 1
    refine List.map_congr_left fun f hf => ?_
    rw [staticEntry, staticEntry, entryOf_congr (h f (mem_listedAt_iff.mpr (.inr ⟨hb, hf⟩)))]
  · rfl

theorem referenceTable_congr
    (h : ∀ level ∈ t :: r.ancestors t, ∀ f ∈ r.listedAt b level,
      σ (r.field f).type = ρ (r.field f).type) :
    r.referenceTable σ t b = r.referenceTable ρ t b := by
  unfold referenceTable
  have hlevels : (t :: r.ancestors t).map (r.levelEntries σ b) =
      (t :: r.ancestors t).map (r.levelEntries ρ b) := by
    refine List.map_congr_left fun level hl => List.map_congr_left fun f hf => ?_
    exact memberEntry_congr (h level hl f (mem_byFieldName.mp hf))
  rw [hlevels]

theorem table_congr (h : ∀ u ∈ r.listedTypes t b, σ u = ρ u) :
    r.table τ σ t b = r.table τ ρ t b := by
  have hat : ∀ level ∈ r.levels t, ∀ f ∈ r.listedAt b level,
      σ (r.field f).type = ρ (r.field f).type := fun level hl f hf =>
    h _ (mem_listedTypes.mpr ⟨level, hl, f, hf, rfl⟩)
  cases hv : (r.type t).form.isValueType with
  | true =>
    rw [table_value hv, table_value hv]
    rw [levels_value hv] at hat
    congr 1
    funext kind
    exact valueTable_congr (hat t List.mem_cons_self) kind
  | false =>
    rw [table_reference hv, table_reference hv]
    rw [levels_reference hv] at hat
    rw [referenceTable_congr hat]

/-! ## tables of reference types -/

theorem levelEntries_instances (level : TypeId) :
    (r.levelEntries σ true level).filter (fun e => !e.isStatic) = r.levelEntries σ false level := by
  have hstatic : ((fun e => !e.isStatic) ∘ r.memberEntry σ level) =
      fun f => !(r.field f).isStatic := by
    funext f
    rw [Function.comp_apply, memberEntry]
    cases (r.field f).explicitOffset? <;> rfl
  have hlisted : r.listedAt false level =
      (r.listedAt true level).filter fun f => !(r.field f).isStatic := by
    simp [listedAt]
  rw [levelEntries, levelEntries, List.filter_map, hstatic, hlisted, byFieldName_filter]

theorem referenceTable_instances :
    (r.referenceTable σ t true).filter (fun e => !e.isStatic) = r.referenceTable σ t false := by
  rw [referenceTable, placeDense_instances, List.filter_reverse, List.filter_flatten, List.map_map]
  have hlevels : (List.filter fun e => !e.isStatic) ∘ r.levelEntries σ true =
      r.levelEntries σ false := by
    funext level
    exact levelEntries_instances level
  rw [hlevels, referenceTable]

theorem not_isStatic_referenceTable {e : FieldEntry} (he : e ∈ r.referenceTable σ t false) :
    e.isStatic = false := by
  rw [← referenceTable_instances] at he
  simpa using (List.mem_filter.mp he).2

theorem mem_map_referenceTable {β : Type} {g : FieldEntry → β}
    (hg : ∀ e offset, g { e with offset } = g e) {y : β} :
    y ∈ (r.referenceTable σ t b).map g ↔
      ∃ level ∈ t :: r.ancestors t, ∃ f ∈ r.listedAt b level, g (r.memberEntry σ level f) = y := by
  rw [referenceTable, map_placeDense hg, List.mem_map]
  simp only [List.mem_reverse, List.mem_flatten, List.mem_map, levelEntries]
  constructor
  · rintro ⟨_, ⟨_, ⟨level, hl, rfl⟩, hmem⟩, rfl⟩
    obtain ⟨f, hf, rfl⟩ := List.mem_map.mp hmem
    exact ⟨level, hl, f, mem_byFieldName.mp hf, rfl⟩
  · rintro ⟨level, hl, f, hf, rfl⟩
    exact ⟨_, ⟨_, ⟨level, hl, rfl⟩, List.mem_map.mpr ⟨f, mem_byFieldName.mpr hf, rfl⟩⟩, rfl⟩

theorem memberEntry_field (level : TypeId) (f : FieldId) :
    (r.memberEntry σ level f).field = f ∧
      (r.memberEntry σ level f).isStatic = (r.field f).isStatic := by
  rw [memberEntry]
  cases (r.field f).explicitOffset? <;> exact ⟨rfl, rfl⟩

theorem isStatic_referenceTable {e : FieldEntry} (h : e ∈ r.referenceTable σ t b) :
    e.isStatic = (r.field e.field).isStatic := by
  obtain ⟨level, -, f, -, heq⟩ := (mem_map_referenceTable (g := fun e => (e.field, e.isStatic))
    fun _ _ => rfl).mp (List.mem_map_of_mem h)
  obtain ⟨hfield, hstatic⟩ := memberEntry_field (σ := σ) level f
  simp only [Prod.mk.injEq] at heq
  rw [← heq.2, ← heq.1, hstatic, hfield]

theorem exists_entry {level : TypeId} (hl : level ∈ t :: r.ancestors t) {f : FieldId}
    (hf : f ∈ r.listedAt b level) :
    ∃ x, (r.referenceTable σ t b).find? (fun e => e.field = f) = some x := by
  have hmem : f ∈ (r.referenceTable σ t b).map FieldEntry.field :=
    (mem_map_referenceTable fun _ _ => rfl).mpr ⟨level, hl, f, hf, (memberEntry_field level f).1⟩
  obtain ⟨e, he, hfield⟩ := List.mem_map.mp hmem
  refine Option.isSome_iff_exists.mp (List.find?_isSome.mpr ⟨e, he, ?_⟩)
  simpa using hfield

theorem find?_referenceTable {f : FieldId} (hf : (r.field f).isStatic = false) :
    (r.referenceTable σ t b).find? (fun e => e.field = f) =
      (r.referenceTable σ t false).find? (fun e => e.field = f) := by
  cases b with
  | false => rfl
  | true =>
    rw [← referenceTable_instances, List.find?_filter]
    refine find?_congr_mem fun e he => ?_
    have hstatic := isStatic_referenceTable he
    by_cases hfield : e.field = f
    · rw [hfield, hf] at hstatic
      simp [hfield, hstatic]
    · simp [hfield]

/-- levels further up stand first, and are placed as if they were alone -/
theorem referenceTable_prefix {d b : TypeId} {s : Bool}
    (h : b :: r.ancestors b <:+ d :: r.ancestors d) :
    r.referenceTable σ b s <+: r.referenceTable σ d s := by
  obtain ⟨below, hd⟩ := h
  rw [referenceTable, referenceTable, ← hd, List.map_append, List.flatten_append,
    List.reverse_append, placeDense_append]
  exact List.prefix_append _ _

end Registry

end ProgramScan

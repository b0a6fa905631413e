import ProgramScan.Proofs.Layout.Queries
import ProgramScan.Proofs.Registry.Ancestry
import ProgramScan.Proofs.Registry.Substituting

/-!
# Tables of base types

The table of a reference type lists its ancestors first, so that code compiled against an ancestor
finds the fields of a derived object where it expects them.

* `fieldTable_inherited`   the table of an ancestor, asked before or afterwards;
* `fieldTable_overtaken`   an ancestor whose table is refused first and answered later.
-/

namespace ProgramScan

namespace Registry

/-! ## tables -/

variable {r : Registry} {t b : TypeId} {τ : Target} {s s' : Bool} {entries : List FieldEntry}

section

variable (hdv : (r.type t).form.isValueType = false) (hbv : (r.type b).form.isValueType = false)
  (hsuffix : b :: r.ancestors b <:+ t :: r.ancestors t)
include hbv hsuffix

theorem listedTypes_ancestor (hdv : (r.type t).form.isValueType = false) (hs : s' = true → s = true)
    {u : TypeId} (hu : u ∈ r.listedTypes b s') : u ∈ r.listedTypes t s := by
  obtain ⟨level, hl, f, hf, rfl⟩ := mem_listedTypes.mp hu
  rw [levels_reference hbv] at hl
  have hl' := hsuffix.subset hl
  rw [← levels_reference hdv] at hl'
  exact mem_listedTypes.mpr ⟨level, hl', f, listedAt_mono hs hf, rfl⟩

theorem Tabled.ancestor (hdv : (r.type t).form.isValueType = false) (h : r.Tabled τ t s entries)
    (hs : s' = true → s = true) : r.Tabled τ b s' (r.referenceTable (r.valueSize τ) b s') where
  sizes u hu := h.sizes u (listedTypes_ancestor hbv hsuffix hdv hs hu)
  table := table_reference hbv

end

theorem Tabled.reference (hv : (r.type t).form.isValueType = false) (h : r.Tabled τ t s entries) :
    entries = r.referenceTable (r.valueSize τ) t s := by
  have htable := h.table
  rw [table_reference hv] at htable
  cases htable
  rfl

theorem exists_entry_ancestor (σ : TypeId → UInt32)
    (hsuffix : b :: r.ancestors b <:+ t :: r.ancestors t)
    {f : FieldId} (hf : f ∈ (r.type b).fields) (hstatic : (r.field f).isStatic = false) :
    ∃ x, (r.referenceTable σ b false).find? (fun y => y.field = f) = some x ∧
      (r.referenceTable σ t s).find? (fun y => y.field = f) = some x := by
  have hlisted : f ∈ r.listedAt false b :=
    mem_listedAt_iff.mpr (.inl (List.mem_filter.mpr ⟨hf, by simp [hstatic]⟩))
  obtain ⟨x, hx⟩ := exists_entry (t := b) (σ := σ) List.mem_cons_self hlisted
  obtain ⟨rest, hrest⟩ := referenceTable_prefix (σ := σ) (s := false) hsuffix
  refine ⟨x, hx, ?_⟩
  rw [find?_referenceTable hstatic, ← hrest, List.find?_append, hx]
  rfl

end Registry

/-! ## the engine -/

namespace LayoutEngine

variable {r : Registry} {τ : Target} {A : Set TypeId} {e : LayoutEngine}

theorem fieldTable_of_knows (hkeys : r.KeysDistinctOn A) {t : TypeId} {s : Bool}
    (ht : r.Reaches A t) (he : Remembers r τ A e) {entries : List FieldEntry}
    (htab : r.Tabled τ t s entries) (hk : ∀ u ∈ r.listedTypes t s, Knows r e u) :
    ∃ e', fieldTable r t s e = .ok entries e' := by
  obtain ⟨entries', e', hrun⟩ := fieldTableAt_answers (Nat.zero_le _) htab.table he
    (measures_field hkeys s ht) fun before u after heq e' _ hle _ => by
      have hu : u ∈ r.listedTypes t s :=
        (mem_askedTypes htab.table).mp (heq ▸ List.mem_append_right _ List.mem_cons_self)
      exact sizeAt_of_knowsWithin (hle.knows (hk u hu)).knowsWithin (Nat.le_refl _) 1
  cases htab.unique ((outcome_fieldTable hkeys ht he).ok hrun).1
  exact ⟨e', hrun⟩

theorem resolveFieldOf_eq {f : FieldId} {entries : List FieldEntry} {x : FieldEntry}
    {e' : LayoutEngine}
    (hrun : fieldTable r (r.field f).declaring (r.field f).isStatic e = .ok entries e')
    (hx : entries.find? (fun e => e.field = f) = some x) : resolveFieldOf r f e = .ok x e' := by
  refine Registry.bind_eq_ok_iff.mpr ⟨entries, e', hrun, ?_⟩
  simp only [hx]
  rfl

theorem fieldTable_ancestor (hkeys : r.KeysDistinctOn A) {d b : TypeId} (hd : r.Reaches A d)
    (hb : r.Reaches A b) (hdv : (r.type d).form.isValueType = false)
    (hbv : (r.type b).form.isValueType = false)
    (hsuffix : b :: r.ancestors b <:+ d :: r.ancestors d) (he : Remembers r τ A e) {s s' : Bool}
    (hknown : HasTable r e d s) (hs : s' = true → s = true) :
    ∃ e', fieldTable r b s' e = .ok (r.referenceTable (r.valueSize τ) b s') e' := by
  obtain ⟨entries, htable⟩ := Option.isSome_iff_exists.mp hknown
  obtain ⟨htab, hsizes⟩ := he.table hd htable
  exact fieldTable_of_knows hkeys hb he
    (htab.ancestor hbv hsuffix hdv hs)
    fun u hu => hsizes u (Registry.listedTypes_ancestor hbv hsuffix hdv hs hu)

/-- **Tables of base types.**  Say that `d` inherits from `b`, and that its table is answered.  Then
the table of `b` is answered whenever it is asked for afterwards; asked before, or of another
engine, it can only fail at the recursion limit.  The table of `d` starts with it, and shows every
instance field of `b` where it is found. -/
theorem fieldTable_inherited (hw : r.WellFormed) (hkeys : r.KeysDistinctOn A) {d b : TypeId}
    (hd : r.Has (.type d)) (hdA : d ∈ A) (hbA : b ∈ A) (hroot : r.Rooted d)
    (hdv : (r.type d).form.isValueType = false) (hbv : (r.type b).form.isValueType = false)
    (hb : b ∈ r.ancestors d) {s : Bool} (he : Reached r τ A e) {entries : List FieldEntry}
    {e₁ : LayoutEngine} (h : fieldTable r d s e = .ok entries e₁) :
    (∀ qs, (∀ q ∈ qs, q.type r ∈ A) → ∃ base e₂,
      fieldTable r b s (Query.applyAll r qs e₁) = .ok base e₂) ∧
    (∀ e', Reached r τ A e' →
      (∀ {base e₂}, fieldTable r b s e' = .ok base e₂ → base <+: entries) ∧
      ∀ {err e₂}, fieldTable r b s e' = .error err e₂ → err = .recursionLimit maxLayoutDepth) ∧
    ∀ f ∈ (r.type b).fields, (r.field f).declaring = b → (r.field f).isStatic = false →
      (∀ qs, (∀ q ∈ qs, q.type r ∈ A) → ∃ x e₂,
        resolveFieldOf r f (Query.applyAll r qs e₁) = .ok x e₂) ∧
      ∀ e', Reached r τ A e' → ∀ {x e₂}, resolveFieldOf r f e' = .ok x e₂ →
        entries.find? (fun y => y.field = f) = some x := by
  have hdA : r.Reaches A d := .asked hdA
  have hbA : r.Reaches A b := .asked hbA
  have hsuffix := hroot.suffix hw hd hb
  obtain ⟨htab, hl⟩ := (outcome_fieldTable hkeys hdA (he.remembers hkeys)).ok h
  -- the table of `b` for either flag that lists no more than `s` does
  have hbase {s' : Bool} (hs : s' = true → s = true) := htab.ancestor hbv hsuffix hdv hs
  have hafter {s' : Bool} (hs : s' = true → s = true) (qs : List Query)
      (hqs : ∀ q ∈ qs, q.type r ∈ A) := by
    obtain ⟨hlater, hle⟩ := Query.remembers_applyAll hkeys hqs hl.remembers
    exact fieldTable_ancestor hkeys hdA hbA hdv hbv hsuffix hlater (hle.hasTable hl.known) hs
  refine ⟨fun qs hqs => ⟨_, hafter id qs hqs⟩, fun e' he' => ?_, fun f hf hdecl hstatic => ?_⟩
  · have hout := outcome_fieldTable (b := s) hkeys hbA (he'.remembers hkeys)
    refine ⟨fun hrun => ?_, fun hrun => (hout.error hrun).limit ⟨_, hbase id⟩⟩
    rw [(hout.ok hrun).1.unique (hbase id), htab.reference hdv]
    exact Registry.referenceTable_prefix hsuffix
  · obtain ⟨x, hx, hfound⟩ :=
      Registry.exists_entry_ancestor (s := s) (r.valueSize τ) hsuffix hf hstatic
    rw [← htab.reference hdv] at hfound
    refine ⟨fun qs hqs => ?_, fun e' he' x' e₂ hrun => ?_⟩
    · obtain ⟨e₂, hrun⟩ := hafter (show false = true → s = true by simp) qs hqs
      rw [← hdecl, ← hstatic] at hrun hx
      exact ⟨x, e₂, resolveFieldOf_eq hrun hx⟩
    · obtain ⟨base, e₃, htable, -⟩ := Registry.bind_eq_ok_iff.mp hrun
      have htable' := htable
      rw [hdecl, hstatic] at htable'
      have hout := outcome_fieldTable (b := false) hkeys hbA (he'.remembers hkeys)
      cases (hout.ok htable').1.unique (hbase (by simp))
      rw [resolveFieldOf_eq htable hx] at hrun
      cases hrun
      exact hfound

/-! ## a base that is refused first -/

/-- Classes 0 and 1, the second one with the first one as base, and structs 2 to 258, each with a
field of the next.  Class 0 has a field of struct 2, and class 1 one of struct 3. -/
def nestedType (i : Nat) : TypeDecl :=
  { module := ⟨0⟩
    name := String.ofList (List.replicate (i + 1) 'N')
    fullName := String.ofList (List.replicate (i + 1) 'N')
    form := .defined (if i < 2 then .reference else .valueType) []
    base := if i = 1 then some ⟨0⟩ else none
    fields := if i < 258 then [⟨i⟩] else [] }

def nestedField (i : Nat) : Field :=
  { token := ⟨0⟩, name := "next", flags := 0, declaring := ⟨i⟩
    type := if i < 2 then ⟨i + 2⟩ else ⟨i + 1⟩ }

def nested : Registry :=
  { types := ((List.range 259).map nestedType).toArray
    fields := ((List.range 258).map nestedField).toArray
    modules := #[{ name := "App" }] }

theorem type_nested {i : Nat} (h : i < 259) : nested.type ⟨i⟩ = nestedType i := by
  simp [Registry.type, nested, Array.getD_eq_getD_getElem?, List.getElem?_range h]

theorem field_nested {i : Nat} (h : i < 258) : nested.field ⟨i⟩ = nestedField i := by
  simp [Registry.field, nested, Array.getD_eq_getD_getElem?, List.getElem?_range h]

theorem has_nested {i : Nat} (h : i < 259) : nested.Has (.type ⟨i⟩) := by
  simpa [Registry.Has, nested] using h

theorem isValueType_nested {i : Nat} (h : i < 259) :
    (nested.type ⟨i⟩).form.isValueType = decide (2 ≤ i) := by
  rw [type_nested h]
  by_cases hi : 2 ≤ i
  · simp [nestedType, TypeForm.isValueType, TypeForm.kind?, hi, Nat.not_lt.mpr hi]
  · simp [nestedType, TypeForm.isValueType, TypeForm.kind?, hi, Nat.lt_of_not_le hi]

theorem wellFormed_nested : nested.WellFormed := by decide +kernel

theorem baseChain_nested : nested.BaseChain ⟨1⟩ [⟨0⟩] := by
  refine .step ?_ (.root ?_) <;> rw [type_nested (by omega)] <;> rfl

theorem mem_ancestors_nested : ⟨0⟩ ∈ nested.ancestors ⟨1⟩ := by
  rw [baseChain_nested.ancestors wellFormed_nested (has_nested (by omega))]
  exact List.mem_cons_self

theorem keysDistinct_nested : nested.KeysDistinct := by
  intro t u ht hu hkey
  have ht' : t.index < 259 := by simpa [Registry.Has, nested] using ht
  have hu' : u.index < 259 := by simpa [Registry.Has, nested] using hu
  have htype := type_nested ht'
  have hutype := type_nested hu'
  obtain ⟨i⟩ := t
  obtain ⟨j⟩ := u
  simp only [Registry.typeKey, Registry.fullName, htype, hutype, nestedType,
    String.append_right_inj, String.ofList_inj] at hkey
  have hlength := congrArg List.length hkey
  simp at hlength
  rw [hlength]

def nestedTypes : Set TypeId := {t | nested.Has (.type t)}

theorem mem_nestedTypes {i : Nat} (h : i < 259) : ⟨i⟩ ∈ nestedTypes := has_nested h

theorem keysDistinctOn_nested : nested.KeysDistinctOn nestedTypes :=
  keysDistinct_nested.on wellFormed_nested fun _ h => h

section

variable {i : Nat} (h2 : 2 ≤ i) (h : i < 259)
include h2 h

theorem isEnum_nested : (nested.type ⟨i⟩).form.isEnum = false := by
  rw [type_nested h]
  simp [nestedType, TypeForm.isEnum, TypeForm.kind?, show ¬ i < 2 by omega]

omit h2 in
theorem layoutKind_nested : nested.layoutKind ⟨i⟩ = .ok .auto := by
  simp [Registry.layoutKind, type_nested h, nestedType, TypeDecl.layout?]

theorem fixedSize?_nested (τ : Target) : τ.fixedSize? nested ⟨i⟩ = none := by
  have hname : ∀ s : String, s.toList.head? = some 'S' → nested.fullName ⟨i⟩ ≠ s := by
    rintro s hs rfl
    simp [Registry.fullName, type_nested h, nestedType, List.replicate_succ] at hs
  have hlast : (nested.fullName ⟨i⟩).toList.getLast? ≠ some '*' := by
    simp [Registry.fullName, type_nested h, nestedType, List.getLast?_replicate]
  have hform : (nested.type ⟨i⟩).form = .defined .valueType [] := by
    simp [type_nested h, nestedType, show ¬ i < 2 by omega]
  simp only [Target.fixedSize?, Registry.isReference, hform, TypeForm.isPointer, TypeForm.isByRef,
    TypeForm.shape?, TypeForm.isValueType, TypeForm.kind?]
  simp (disch := decide) [hname, hlast]

omit h2 in
theorem instanceFields_nested :
    nested.instanceFields ⟨i⟩ = if i < 258 then [⟨i⟩] else [] := by
  rw [Registry.instanceFields, type_nested h]
  unfold nestedType
  by_cases hi : i < 258
  · simp [hi, field_nested hi, nestedField, Field.isStatic, FieldFlags.isStatic]
  · simp [hi]

theorem askedTypes_nested :
    askedTypes nested ⟨i⟩ false = if i < 258 then [⟨i + 1⟩, ⟨i + 1⟩] else [] := by
  have hvalue : (nested.type ⟨i⟩).form.isValueType = true := by
    rw [isValueType_nested h]
    exact decide_eq_true h2
  rw [askedTypes, hvalue, if_pos rfl, layoutKind_nested h]
  simp only [valueTypes, sequentialTypes, staticTypes, instanceFields_nested h]
  by_cases hi : i < 258
  · simp [hi, Registry.byFieldToken, sortBy_cons, insertBy, field_nested hi, nestedField,
      show ¬ i < 2 by omega]
  · simp [hi, Registry.byFieldToken]

theorem mem_listedTypes_nested {u : TypeId} (hu : u ∈ nested.listedTypes ⟨i⟩ false) :
    i < 258 ∧ u = ⟨i + 1⟩ := by
  obtain ⟨entries, htable⟩ := (Registry.table_ok_iff (τ := {}) (σ := fun _ => 0)).mpr
    (.inr ⟨_, layoutKind_nested h⟩)
  rw [← mem_askedTypes htable, askedTypes_nested h2 h] at hu
  split at hu
  · rename_i hi
    exact ⟨hi, by simpa using hu⟩
  · cases hu

end

/-- from the struct at `i` on, the structs are nested `259 - i` levels deep -/
theorem nestsWithin_nested (e : LayoutEngine) {n : Nat} (hn : n ≤ 256) :
    NestsWithin nested e (n + 1) ⟨258 - n⟩ := by
  induction n with
  | zero =>
    refine .inr (.inr (.inr ⟨isEnum_nested (by omega) (by omega),
      ⟨_, layoutKind_nested (by omega)⟩, fun u hu => ?_⟩))
    have := (mem_listedTypes_nested (by omega) (by omega) hu).1
    omega
  | succ n ih =>
    refine .inr (.inr (.inr ⟨isEnum_nested (by omega) (by omega),
      ⟨_, layoutKind_nested (by omega)⟩, fun u hu => ?_⟩))
    obtain ⟨-, rfl⟩ := mem_listedTypes_nested (by omega) (by omega) hu
    have hindex : 258 - (n + 1) + 1 = 258 - n := by omega
    rw [hindex]
    exact ih (by omega)

theorem nestsWithin_of_knows {e : LayoutEngine} (h2 : 2 ≤ i) (h : i < 259)
    (he : Remembers nested τ nestedTypes e) (hknown : Knows nested e ⟨i⟩) :
    NestsWithin nested e 0 ⟨i⟩ := by
  have hfixed : τ.fixedSize? nested ⟨i⟩ = none := fixedSize?_nested h2 h τ
  obtain ⟨-, hsize⟩ | ⟨henum, -⟩ := hknown.cases he (.asked (mem_nestedTypes h)) hfixed
  · exact .inr hsize
  · cases (isEnum_nested h2 h).symm.trans henum

theorem nestsBeyond_nested {e : LayoutEngine} (he : Fresh τ e) {n : Nat} (hn : n ≤ 256) :
    NestsBeyond nested e n ⟨258 - n⟩ := by
  have hself {i : Nat} (h2 : 2 ≤ i) (h : i < 259) : e.target.fixedSize? nested ⟨i⟩ = none ∧
      e.sizes.get? (nested.typeKey ⟨i⟩) = none ∧ (nested.type ⟨i⟩).form.isEnum = false :=
    ⟨fixedSize?_nested h2 h _, by rw [he.2.2]; rfl, isEnum_nested h2 h⟩
  induction n with
  | zero => exact hself (by omega) (by omega)
  | succ n ih =>
    refine ⟨hself (by omega) (by omega), by rw [he.2.1]; rfl, ⟨_, layoutKind_nested (by omega)⟩,
      ⟨258 - n⟩, [⟨258 - n⟩], ?_, ih (by omega)⟩
    rw [askedTypes_nested (by omega) (by omega), if_pos (by omega)]
    have hindex : 258 - (n + 1) + 1 = 258 - n := by omega
    rw [hindex]

/-- the types that the tables of the two classes ask for -/
theorem askedTypes_nested_classes :
    askedTypes nested ⟨0⟩ false = [⟨2⟩] ∧ askedTypes nested ⟨1⟩ false = [⟨3⟩, ⟨2⟩] := by
  decide +kernel

theorem fieldTable_nested_base {e : LayoutEngine} (he : Fresh τ e) :
    ∃ e', fieldTable nested ⟨0⟩ false e = .error (.recursionLimit maxLayoutDepth) e' := by
  refine fieldTableAt_stops (Nat.zero_le _) (by rw [he.2.1]; rfl)
    (.inl (isValueType_nested (by omega))) askedTypes_nested_classes.1 fun e' hm => ?_
  have hbeyond := (nestsBeyond_nested he (Nat.le_refl 256)).of_memory hm
  exact sizeAt_of_nestsBeyond hbeyond (by decide)

/-- the derived class asks for the structs from the third one on first, and then knows them -/
theorem fieldTable_nested_derived {e : LayoutEngine} (he : Remembers nested τ nestedTypes e) :
    ∃ entries e', fieldTable nested ⟨1⟩ false e = .ok entries e' := by
  have hsteps : 256 < sizeSteps nested := by
    rw [sizeSteps, maxLayoutDepth]
    omega
  have hsize (e' : LayoutEngine) (he' : Remembers nested τ nestedTypes e') {n i : Nat} (hi : i < 259)
      (hn : n ≤ 256) (h : NestsWithin nested e' n ⟨i⟩) :
      ∃ m e'', sizeAt nested (sizeSteps nested) 1 ⟨i⟩ e' = .ok m e'' :=
    sizeAt_of_nestsWithin keysDistinctOn_nested (fun _ => .asked (mem_nestedTypes hi)) he' h
      (by omega) (Nat.le_refl _) (by rw [maxLayoutDepth]; omega)
  refine fieldTableAt_answers (Nat.zero_le _)
    (Registry.table_reference (isValueType_nested (by omega))) he
    (measures_field keysDistinctOn_nested false (.asked (mem_nestedTypes (by omega))))
    fun before u after heq e' he' _ hknown => ?_
  rw [askedTypes_nested_classes.2] at heq
  rcases before with _ | ⟨v, _ | ⟨w, before⟩⟩
  · cases heq
    exact hsize e' he' (by omega) (Nat.le_refl _) (nestsWithin_nested e' (n := 255) (by omega))
  · cases heq
    refine hsize (n := 1) e' he' (by omega) (by omega) (.inr (.inr (.inr
      ⟨isEnum_nested (by omega) (by omega), ⟨_, layoutKind_nested (by omega)⟩, fun u hu => ?_⟩)))
    obtain ⟨-, rfl⟩ := mem_listedTypes_nested (by omega) (by omega) hu
    exact nestsWithin_of_knows (by omega) (by omega) he' (hknown _ List.mem_cons_self)
  · simp at heq

theorem fieldTable_inherited_nested : ∃ e₁ entries e₂ base e₃,
    fieldTable nested ⟨0⟩ false {} = .error (.recursionLimit maxLayoutDepth) e₁ ∧
    fieldTable nested ⟨1⟩ false e₁ = .ok entries e₂ ∧
    fieldTable nested ⟨0⟩ false e₂ = .ok base e₃ ∧ base <+: entries ∧
    ∀ x e', resolveFieldOf nested ⟨0⟩ e₂ = .ok x e' →
      entries.find? (fun y => y.field = ⟨0⟩) = some x := by
  have hfresh : Fresh {} {} := ⟨rfl, rfl, rfl⟩
  obtain ⟨e₁, hbase⟩ := fieldTable_nested_base hfresh
  have h₁ := hfresh.reached.fieldTable_error (mem_nestedTypes (by omega)) hbase
  obtain ⟨entries, e₂, hderived⟩ :=
    fieldTable_nested_derived (h₁.remembers keysDistinctOn_nested)
  have h₂ := h₁.fieldTable_ok (mem_nestedTypes (by omega)) hderived
  obtain ⟨hafter, hany, hfields⟩ := fieldTable_inherited wellFormed_nested keysDistinctOn_nested
    (has_nested (by omega)) (mem_nestedTypes (by omega)) (mem_nestedTypes (by omega))
    ⟨_, baseChain_nested⟩ (isValueType_nested (by omega)) (isValueType_nested (by omega))
    mem_ancestors_nested h₁ hderived
  obtain ⟨base, e₃, hagain⟩ := hafter [] (by simp)
  have hfield : nested.field ⟨0⟩ = nestedField 0 := field_nested (by omega)
  obtain ⟨-, hfind⟩ := hfields ⟨0⟩ (by rw [type_nested (by omega)]; exact List.mem_cons_self)
    (by rw [hfield]; rfl) (by rw [hfield]; rfl)
  exact ⟨e₁, entries, e₂, base, e₃, hbase, hderived, hagain, (hany e₂ h₂).1 hagain,
    fun x e' hx => hfind e₂ h₂ hx⟩

/-- The table of class 0 is refused by an engine that answers the one of class 1 right after. -/
theorem fieldTable_overtaken :
    nested.WellFormed ∧ nested.KeysDistinct ∧ nested.Rooted ⟨1⟩ ∧ ⟨0⟩ ∈ nested.ancestors ⟨1⟩ ∧
    (nested.type ⟨0⟩).form.isValueType = false ∧ (nested.type ⟨1⟩).form.isValueType = false ∧
    ∃ e₁ entries e₂, fieldTable nested ⟨0⟩ false {} = .error (.recursionLimit maxLayoutDepth) e₁ ∧
      fieldTable nested ⟨1⟩ false e₁ = .ok entries e₂ := by
  have hfresh : Fresh {} {} := ⟨rfl, rfl, rfl⟩
  obtain ⟨e₁, hbase⟩ := fieldTable_nested_base hfresh
  have h₁ := hfresh.reached.fieldTable_error (mem_nestedTypes (by omega)) hbase
  obtain ⟨entries, e₂, hderived⟩ :=
    fieldTable_nested_derived (h₁.remembers keysDistinctOn_nested)
  exact ⟨wellFormed_nested, keysDistinct_nested, ⟨_, baseChain_nested⟩, mem_ancestors_nested,
    isValueType_nested (by omega), isValueType_nested (by omega), e₁, entries, e₂, hbase, hderived⟩

end LayoutEngine

end ProgramScan

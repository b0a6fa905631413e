import Mathlib.Order.Bounds.Basic
import ProgramScan.Proofs.Layout.Storage

/-!
# Where fields stand

A value type places its instance fields one after the other.  Each goes to the first place behind
the others that its alignment allows, and the whole value is as large as the first aligned place
behind all of them, or as its declaration asks for.

* `Aligned`              places that an alignment allows; 0 allows every place;
* `Consecutive`          each entry stands at the first allowed place behind the one before it;
* `InTokenOrder`         fields by token, and as declared where tokens are equal;
* `isLeast_alignUp`      what aligning computes, without overflow;
* `valueTable_places`    fields, order, sizes and offsets of a value type;
* `fieldTable_places`    the same of what engines answer, with the storage of a value.
-/

namespace ProgramScan

/-! ## alignment -/

/-- `n` is a multiple of `alignment`; alignment 0 asks for nothing -/
def Aligned (alignment n : Nat) : Prop := alignment = 0 ∨ alignment ∣ n

theorem aligned_roundUp (n alignment : Nat) : Aligned alignment (roundUp n alignment) := by
  unfold roundUp
  by_cases h0 : alignment = 0
  · exact .inl h0
  · refine .inr (Nat.dvd_of_mod_eq_zero ?_)
    by_cases hm : n % alignment = 0
    · simp [hm]
    · have hlt : n % alignment < alignment := Nat.mod_lt n (Nat.pos_of_ne_zero h0)
      have hsum : n + alignment - n % alignment = alignment * (n / alignment + 1) := by
        have hdiv := Nat.div_add_mod n alignment
        rw [Nat.mul_succ]
        omega
      simp [h0, hm, hsum]

theorem roundUp_le {n m alignment : Nat} (hle : n ≤ m) (hm : Aligned alignment m) :
    roundUp n alignment ≤ m := by
  unfold roundUp
  split
  · exact hle
  · rename_i h
    simp only [Bool.or_eq_true, decide_eq_true_eq, not_or] at h
    obtain ⟨k, rfl⟩ := hm.resolve_left h.1
    -- `n` lies strictly between the multiples `q` and `q + 1`, so `k` is at least `q + 1`
    have hdiv := Nat.div_add_mod n alignment
    have hlt : alignment * (n / alignment) < alignment * k := by omega
    have hk : n / alignment + 1 ≤ k := Nat.lt_of_mul_lt_mul_left hlt
    have hmul := Nat.mul_le_mul_left alignment hk
    rw [Nat.mul_succ] at hmul
    omega

/-- Aligning goes to the first allowed place that is not below, if this is a number of 32 bits. -/
theorem isLeast_alignUp {n alignment : UInt32}
    (h : roundUp n.toNat alignment.toNat < UInt32.size) :
    IsLeast {m | n.toNat ≤ m ∧ Aligned alignment.toNat m} (alignUp n alignment).toNat := by
  rw [toNat_alignUp h]
  exact ⟨⟨le_roundUp _ _, aligned_roundUp _ _⟩, fun _ hm => roundUp_le hm.1 hm.2⟩

theorem largest_le {α : Type} {f : α → UInt32} {l : List α} {n : UInt32} (h : ∀ a ∈ l, f a ≤ n) :
    largest f l ≤ n := by
  have hfold : ∀ start ≤ n, l.foldl (fun n a => max n (f a)) start ≤ n := by
    induction l with
    | nil => exact fun start hstart => hstart
    | cons a l ih =>
      intro start hstart
      refine ih (fun b hb => h b (List.mem_cons_of_mem a hb)) _ ?_
      have ha := h a List.mem_cons_self
      rw [UInt32.le_iff_toNat_le] at hstart ha ⊢
      rw [UInt32.toNat_max]
      exact Nat.max_le.mpr ⟨hstart, ha⟩
  exact hfold 0 (UInt32.le_iff_toNat_le.mpr (Nat.zero_le _))

/-- the largest value depends only on which elements there are -/
theorem largest_congr {α : Type} (f : α → UInt32) {l l' : List α} (h : ∀ a, a ∈ l ↔ a ∈ l') :
    largest f l = largest f l' :=
  UInt32.le_antisymm (largest_le fun a ha => le_largest f ((h a).mp ha))
    (largest_le fun a ha => le_largest f ((h a).mpr ha))

theorem largest_map {α β : Type} (f : β → UInt32) (g : α → β) (l : List α) :
    largest f (l.map g) = largest (fun a => f (g a)) l := by
  rw [largest, largest, List.foldl_map]

/-! ## entries one after the other -/

/-- From `start` on, each entry stands at the first place that its alignment allows and that is not
below the end of the entry before it. -/
def Consecutive (alignment : FieldEntry → UInt32) : (start : Nat) → List FieldEntry → Prop
  | _, [] => True
  | start, e :: rest =>
    IsLeast {n | start ≤ n ∧ Aligned (alignment e).toNat n} e.offset.toNat ∧
      Consecutive alignment e.exactStop rest

theorem consecutive_placeAligned {alignment : UInt32} (start : UInt32) {es : List FieldEntry}
    (h : FitsFrom alignment start.toNat (placeAligned alignment start es)) :
    Consecutive (fun e => min alignment e.size) start.toNat (placeAligned alignment start es) := by
  induction es generalizing start with
  | nil => exact trivial
  | cons e es ih =>
    obtain ⟨hstop, hrest⟩ := h
    have hstart : roundUp start.toNat (min alignment e.size).toNat < UInt32.size :=
      Nat.lt_of_le_of_lt (Nat.le_add_right _ _) hstop
    refine ⟨isLeast_alignUp hstart, ?_⟩
    -- the end of the entry is where the rest starts
    have hnext : (alignUp start (min alignment e.size) + e.size).toNat =
        (alignUp start (min alignment e.size)).toNat + e.size.toNat := by
      rw [UInt32.toNat_add, toNat_alignUp hstart]
      exact Nat.mod_eq_of_lt hstop
    dsimp only at hrest
    rw [← toNat_alignUp hstart, ← hnext] at hrest
    have hfollows := ih _ hrest
    rwa [hnext] at hfollows

theorem Consecutive.start_le {alignment : FieldEntry → UInt32} {start : Nat} {es : List FieldEntry}
    (h : Consecutive alignment start es) {e : FieldEntry} (he : e ∈ es) : start ≤ e.offset.toNat := by
  induction es generalizing start with
  | nil => cases he
  | cons x es ih =>
    obtain ⟨hleast, hrest⟩ := h
    have hx : start ≤ x.offset.toNat := hleast.1.1
    rcases List.mem_cons.mp he with rfl | he
    · exact hx
    · have hstop : x.exactStop ≤ e.offset.toNat := ih hrest he
      unfold FieldEntry.exactStop at hstop
      omega

/-- consecutive entries do not overlap -/
theorem Consecutive.pairwise {alignment : FieldEntry → UInt32} {start : Nat} {es : List FieldEntry}
    (h : Consecutive alignment start es) :
    es.Pairwise fun a b => a.exactStop ≤ b.offset.toNat := by
  induction es generalizing start with
  | nil => exact .nil
  | cons x es ih =>
    obtain ⟨-, hrest⟩ := h
    exact List.pairwise_cons.mpr ⟨fun b hb => hrest.start_le hb, ih hrest⟩

/-- placing changes nothing but offsets -/
theorem map_placeAligned {β : Type} {g : FieldEntry → β}
    (hg : ∀ e offset, g { e with offset } = g e) (alignment start : UInt32) (es : List FieldEntry) :
    (placeAligned alignment start es).map g = es.map g := by
  induction es generalizing start with
  | nil => rfl
  | cons e es ih => rw [placeAligned, List.map_cons, List.map_cons, ih, hg]

/-! ## the order of tokens -/

/-- a list whose elements compare equal is sorted as it stands -/
theorem sortBy_of_forall {α : Type} {le : α → α → Bool} {l : List α}
    (h : ∀ a ∈ l, ∀ b ∈ l, le a b = true) : sortBy le l = l := by
  induction l with
  | nil => rfl
  | cons a l ih =>
    rw [sortBy_cons, ih fun b hb c hc =>
      h b (List.mem_cons_of_mem a hb) c (List.mem_cons_of_mem a hc)]
    exact insertBy_of_forall le a l fun b hb =>
      h a List.mem_cons_self b (List.mem_cons_of_mem a hb)

namespace Registry

/-- `listed` are `fields` in the order of their tokens; fields with the same token stand as they do
in `fields`. -/
structure InTokenOrder (r : Registry) (fields listed : List FieldId) : Prop where
  ordered : listed.Pairwise fun f g => (r.field f).token.value ≤ (r.field g).token.value
  stable : ∀ token, listed.filter (fun f => (r.field f).token.value = token) =
    fields.filter fun f => (r.field f).token.value = token

theorem inTokenOrder_byFieldToken (r : Registry) (fields : List FieldId) :
    r.InTokenOrder fields (r.byFieldToken fields) := by
  have htotal (a b : FieldId) : decide ((r.field a).token.value ≤ (r.field b).token.value) = true ∨
      decide ((r.field b).token.value ≤ (r.field a).token.value) = true := by
    simp only [decide_eq_true_eq]
    exact UInt32.le_total _ _
  have htrans (a b c : FieldId)
      (hab : decide ((r.field a).token.value ≤ (r.field b).token.value) = true)
      (hbc : decide ((r.field b).token.value ≤ (r.field c).token.value) = true) :
      decide ((r.field a).token.value ≤ (r.field c).token.value) = true := by
    simp only [decide_eq_true_eq] at *
    exact UInt32.le_trans hab hbc
  refine ⟨?_, fun token => ?_⟩
  · exact (sortBy_pairwise htotal htrans fields).imp fun h => of_decide_eq_true h
  · -- among fields with one token there is nothing to sort
    rw [byFieldToken, ← sortBy_filter htotal htrans]
    refine sortBy_of_forall fun a ha b hb => ?_
    have ha : (r.field a).token.value = token := by simpa using (List.mem_filter.mp ha).2
    have hb : (r.field b).token.value = token := by simpa using (List.mem_filter.mp hb).2
    rw [ha, hb]
    exact decide_eq_true (UInt32.le_refl token)

theorem InTokenOrder.mem_iff {r : Registry} {fields listed : List FieldId}
    (h : r.InTokenOrder fields listed) {f : FieldId} : f ∈ listed ↔ f ∈ fields := by
  have hf := congrArg (f ∈ ·) (h.stable (r.field f).token.value)
  simpa using hf

/-! ## value types -/

/-- Where the instance fields of a value type stand. -/
structure Places (r : Registry) (τ : Target) (t : TypeId) (kind : LayoutKind)
    (entries : List FieldEntry) : Prop where
  /-- an entry has the type of its field, and the size of this type -/
  sized : ∀ x ∈ entries, x.type = (r.field x.field).type ∧ r.SizeIs τ x.type x.size
  ordered : kind ≠ .explicit → r.InTokenOrder (r.instanceFields t) (entries.map (·.field))
  consecutive : kind ≠ .explicit → Consecutive
    (fun x => min (min (τ.packing (r.type t)) (largest FieldEntry.size entries)) x.size) 0 entries
  disjoint : kind ≠ .explicit → entries.Pairwise fun a b => a.exactStop ≤ b.offset.toNat
  declared : kind = .explicit → entries.map (·.field) = r.instanceFields t
  fixed : kind = .explicit → ∀ x ∈ entries, x.offset = (r.field x.field).explicitOffset?.getD 0

variable {r : Registry} {τ : Target} {σ : TypeId → UInt32} {t : TypeId}

theorem map_sequentialTable {β : Type} {g : FieldEntry → β}
    (hg : ∀ e offset, g { e with offset } = g e) :
    (r.sequentialTable τ σ t).map g =
      (r.byFieldToken (r.instanceFields t)).map fun f => g (r.entryOf σ t f) := by
  rw [sequentialTable, map_placeAligned hg, List.map_map]
  rfl

/-- the alignment of the type is found before its fields are in order -/
theorem largest_sequentialTable : largest FieldEntry.size (r.sequentialTable τ σ t) =
    largest id ((r.instanceFields t).map fun f => σ (r.field f).type) := by
  have hsizes : (r.sequentialTable τ σ t).map FieldEntry.size =
      (r.byFieldToken (r.instanceFields t)).map fun f => σ (r.field f).type :=
    map_sequentialTable fun _ _ => rfl
  calc largest FieldEntry.size (r.sequentialTable τ σ t)
      = largest id ((r.sequentialTable τ σ t).map FieldEntry.size) :=
        (largest_map id FieldEntry.size _).symm
    _ = largest id ((r.instanceFields t).map fun f => σ (r.field f).type) := by
      rw [hsizes]
      refine largest_congr id fun n => ?_
      simp only [List.mem_map, mem_byFieldToken]

theorem places_sequentialTable (hσ : ∀ f ∈ r.instanceFields t, r.SizeIs τ (r.field f).type
    (σ (r.field f).type)) {kind : LayoutKind} (hkind : kind ≠ .explicit)
    (hfits : FitsFrom (min (τ.packing (r.type t))
      (largest FieldEntry.size (r.sequentialTable τ σ t))) 0 (r.sequentialTable τ σ t)) :
    r.Places τ t kind (r.sequentialTable τ σ t) := by
  have hconsecutive : Consecutive (fun x => min (min (τ.packing (r.type t))
      (largest FieldEntry.size (r.sequentialTable τ σ t))) x.size) 0 (r.sequentialTable τ σ t) := by
    rw [largest_sequentialTable] at hfits ⊢
    exact consecutive_placeAligned 0 hfits
  refine ⟨fun x hx => ?_, fun _ => ?_, fun _ => hconsecutive, fun _ => hconsecutive.pairwise,
    fun h => absurd h hkind, fun h => absurd h hkind⟩
  · have hmem := List.mem_map_of_mem (f := fun x : FieldEntry => (x.field, x.type, x.size)) hx
    rw [map_sequentialTable fun _ _ => rfl] at hmem
    obtain ⟨f, hf, heq⟩ := List.mem_map.mp hmem
    simp only [entryOf, Prod.mk.injEq] at heq
    obtain ⟨hfield, htype, hsize⟩ := heq
    rw [← hfield, ← htype, ← hsize]
    exact ⟨rfl, hσ f (mem_byFieldToken.mp hf)⟩
  · rw [map_sequentialTable fun _ _ => rfl]
    simpa [entryOf] using inTokenOrder_byFieldToken r (r.instanceFields t)

theorem places_fixedTable (hσ : ∀ f ∈ r.instanceFields t, r.SizeIs τ (r.field f).type
    (σ (r.field f).type)) : r.Places τ t .explicit ((r.instanceFields t).map (r.fixedEntry σ t)) where
  sized x hx := by
    obtain ⟨f, hf, rfl⟩ := List.mem_map.mp hx
    exact ⟨rfl, hσ f hf⟩
  ordered h := absurd rfl h
  consecutive h := absurd rfl h
  disjoint h := absurd rfl h
  declared _ := by simp [fixedEntry, entryOf, Function.comp_def]
  fixed _ x hx := by
    obtain ⟨f, -, rfl⟩ := List.mem_map.mp hx
    rfl

theorem places_placedTable (hσ : ∀ f ∈ r.instanceFields t, r.SizeIs τ (r.field f).type
    (σ (r.field f).type)) {kind : LayoutKind}
    (hfits : kind ≠ .explicit → FitsFrom (min (τ.packing (r.type t))
      (largest FieldEntry.size (r.placedTable τ σ t kind))) 0 (r.placedTable τ σ t kind)) :
    r.Places τ t kind (r.placedTable τ σ t kind) := by
  cases kind with
  | auto => exact places_sequentialTable hσ (by simp) (hfits (by simp))
  | sequential => exact places_sequentialTable hσ (by simp) (hfits (by simp))
  | explicit => exact places_fixedTable hσ

theorem layout?_of_layoutKind {kind : LayoutKind} (h : r.layoutKind t = .ok kind) :
    (r.type t).layout? = some kind := by
  unfold layoutKind at h
  cases hl : (r.type t).layout? with
  | none => simp [hl] at h
  | some kind' => simpa [hl] using h

theorem Tabled.places {entries : List FieldEntry} (h : r.Tabled τ t false entries)
    (hv : (r.type t).form.isValueType = true) {kind : LayoutKind}
    (hkind : r.layoutKind t = .ok kind) (hfits : r.NoOverflow τ t entries) :
    r.Places τ t kind entries := by
  have htable := h.table
  rw [table_value hv, hkind] at htable
  have hentries : r.placedTable τ (r.valueSize τ) t kind ++ [] = entries := by
    simpa [Except.map, valueTable] using htable
  rw [List.append_nil] at hentries
  subst hentries
  refine places_placedTable (fun f hf => (h.sizes _ ?_).sizeIs) fun hk => hfits.placed hv ?_
  · exact mem_listedTypes.mpr ⟨t, by simp [levels_value hv], f, mem_instanceFields false hf, rfl⟩
  · rw [layout?_of_layoutKind hkind]
    exact fun h => hk (Option.some.inj h)

end Registry

/-! ## the size of a value -/

/-- A value with fields `entries` takes `n` bytes: the first allowed place behind all of its
fields, but at least the declared size. -/
structure Target.Encloses (τ : Target) (d : TypeDecl) (entries : List FieldEntry) (n : UInt32) :
    Prop where
  empty : entries = [] → n = d.classSize.getD 0
  enclosing : entries ≠ [] → ∃ m, n.toNat = max (d.classSize.getD 0).toNat m ∧
    IsLeast {k | (∀ x ∈ entries, x.exactStop ≤ k) ∧
      Aligned (min (τ.packing d) (largest FieldEntry.size entries)).toNat k} m

/-- the largest end is the first place behind all entries -/
theorem toNat_largest_stop_le {entries : List FieldEntry} {k : Nat}
    (hstops : ∀ x ∈ entries, x.exactStop < UInt32.size) (h : ∀ x ∈ entries, x.exactStop ≤ k) :
    (largest FieldEntry.stop entries).toNat ≤ k := by
  by_cases hk : k < UInt32.size
  · have hle : largest FieldEntry.stop entries ≤ UInt32.ofNat k := largest_le fun x hx => by
      rw [UInt32.le_iff_toNat_le, UInt32.toNat_ofNat_of_lt' hk, x.toNat_stop (hstops x hx)]
      exact h x hx
    rwa [UInt32.le_iff_toNat_le, UInt32.toNat_ofNat_of_lt' hk] at hle
  · exact Nat.le_trans (Nat.le_of_lt (UInt32.toNat_lt_size _)) (Nat.le_of_not_lt hk)

theorem encloses_storageOf {r : Registry} {τ : Target} {t : TypeId} {entries : List FieldEntry}
    (hv : (r.type t).form.isValueType = true) (hfits : r.NoOverflow τ t entries) :
    τ.Encloses (r.type t) entries (τ.storageOf (r.type t) entries) := by
  refine ⟨fun h => by simp [Target.storageOf, h], fun h => ?_⟩
  have hpadded := hfits.padded hv
  have hmin : (min (τ.packing (r.type t)) (largest FieldEntry.size entries)).toNat =
      (min (largest FieldEntry.size entries) (τ.packing (r.type t))).toNat := by
    rw [UInt32.toNat_min, UInt32.toNat_min, Nat.min_comm]
  refine ⟨roundUp (largest FieldEntry.stop entries).toNat
    (min (largest FieldEntry.size entries) (τ.packing (r.type t))).toNat, ?_,
    ⟨fun x hx => ?_, ?_⟩, fun k hk => ?_⟩
  · rw [Target.storageOf, if_neg (by simpa using h), UInt32.toNat_max, toNat_alignUp hpadded]
  · refine Nat.le_trans ?_ (le_roundUp _ _)
    rw [← x.toNat_stop (hfits.stops x hx)]
    exact UInt32.le_iff_toNat_le.mp (le_largest FieldEntry.stop hx)
  · rw [hmin]
    exact aligned_roundUp _ _
  · obtain ⟨hbehind, haligned⟩ := hk
    rw [hmin] at haligned
    exact roundUp_le (toNat_largest_stop_le hfits.stops hbehind) haligned

/-! ## what engines answer -/

namespace LayoutEngine

open Registry (core answersWith exists_of_answersWith)

variable {r : Registry} {τ : Target} {A : Set TypeId} {e : LayoutEngine} {t : TypeId}

theorem layoutKind_of_layout? {kind : LayoutKind} (h : (r.type t).layout? = some kind) :
    r.layoutKind t = .ok kind := by
  rw [Registry.layoutKind, h]

/-- sizes that are answered one level down are answered while the table is made -/
theorem fieldTable_of_sizes (hkeys : r.KeysDistinctOn A) (ht : r.Reaches A t)
    (hv : (r.type t).form.isValueType = true) {kind : LayoutKind}
    (hkind : r.layoutKind t = .ok kind) (he : Remembers r τ A e)
    (hsizes : ∀ f ∈ r.instanceFields t, ∃ n e',
      sizeAt r (sizeSteps r) 1 (r.field f).type e = .ok n e') :
    ∃ entries e', fieldTable r t false e = .ok entries e' := by
  obtain ⟨entries, htable⟩ := (Registry.table_ok_iff (τ := τ) (σ := r.valueSize τ)
    (b := false)).mpr (.inr ⟨kind, hkind⟩)
  refine fieldTableAt_answers (Nat.zero_le _) htable he (measures_field hkeys false ht)
    fun before u after heq e' he' hle _ => ?_
  have hu : u ∈ r.listedTypes t false :=
    (mem_askedTypes htable).mp (heq ▸ List.mem_append_right _ List.mem_cons_self)
  obtain ⟨level, hl, f, hf, rfl⟩ := Registry.mem_listedTypes.mp hu
  rw [Registry.levels_value hv, List.mem_singleton] at hl
  subst hl
  obtain ⟨n, e₁, hn⟩ := hsizes f (by simpa [Registry.listedAt, Registry.instanceFields] using hf)
  obtain ⟨e₂, hn', -⟩ := repeats_field hkeys false ht _ hu he he' hle hn
  exact ⟨n, e₂, hn'⟩

theorem storageSize_value (hv : (r.type t).form.isValueType = true) {entries : List FieldEntry}
    {e' : LayoutEngine} (h : fieldTable r t false e = .ok entries e') :
    storageSize r t e = .ok (e'.target.storageOf (r.type t) entries) e' := by
  rw [storageSize, if_pos hv]
  exact Registry.bind_eq_ok_iff.mpr ⟨entries, e', h, rfl⟩

/-- **Where the fields of a value type stand, and how large its values are**, as long as no number is
too large for 32 bits. -/
theorem fieldTable_places (hkeys : r.KeysDistinctOn A) (ht : t ∈ A)
    (hv : (r.type t).form.isValueType = true) {kind : LayoutKind}
    (hkind : r.layoutKind t = .ok kind) (he : Reached r τ A e) :
    ((∀ f ∈ r.instanceFields t, ∃ n e',
        sizeAt r (sizeSteps r) 1 (r.field f).type e = .ok n e') →
      (∃ entries e', fieldTable r t false e = .ok entries e') ∧
        ∃ n e', storageSize r t e = .ok n e') ∧
    ∀ entries e', fieldTable r t false e = .ok entries e' → r.NoOverflow τ t entries →
      r.Places τ t kind entries ∧ ∀ e₁ n e₁', Reached r τ A e₁ → storageSize r t e₁ = .ok n e₁' →
        τ.Encloses (r.type t) entries n := by
  have htA : r.Reaches A t := .asked ht
  have hremembers := he.remembers hkeys
  refine ⟨fun hsizes => ?_, fun entries e' hentries hfits => ?_⟩
  · obtain ⟨entries, e', hrun⟩ := fieldTable_of_sizes hkeys htA hv hkind hremembers hsizes
    exact ⟨⟨entries, e', hrun⟩, _, e', storageSize_value hv hrun⟩
  · have htab := ((outcome_fieldTable hkeys htA hremembers).ok hentries).1
    refine ⟨htab.places hv hkind hfits, fun e₁ n e₁' he₁ hn => ?_⟩
    rw [storageSize_eq hkeys htA htab (he₁.remembers hkeys) hn, Registry.storedIn, if_pos hv]
    exact encloses_storageOf hv hfits

def recordEdits : List Edit :=
  [.addModule "App",
    .define ⟨1⟩ "App" "Record" .valueType TypeFlags.sequentialLayout [] none,
    .setPacking ⟨20⟩ 4,
    .declareField ⟨1⟩ ⟨20⟩ "kind" ⟨9⟩ 0 [],
    .declareField ⟨1⟩ ⟨20⟩ "stamp" ⟨14⟩ 0 [],
    .declareField ⟨1⟩ ⟨20⟩ "count" ⟨10⟩ 0 []]

theorem fieldTable_places_record : ∃ entries e₁ e₂,
    fieldTable (core.applyAll recordEdits) ⟨20⟩ false {} = .ok entries e₁ ∧
    storageSize (core.applyAll recordEdits) ⟨20⟩ {} = .ok 16 e₂ ∧
    entries.map (fun x => (x.offset, x.size)) = [(0, 1), (4, 8), (12, 2)] ∧
    (core.applyAll recordEdits).NoOverflow {} ⟨20⟩ entries ∧
    (core.applyAll recordEdits).Places {} ⟨20⟩ .sequential entries ∧
    Target.Encloses {} ((core.applyAll recordEdits).type ⟨20⟩) entries 16 := by
  obtain ⟨hkeys, hvalue, hlayout, htable, hsize⟩ :
      (core.applyAll recordEdits).ToldApart [⟨20⟩] ∧
      ((core.applyAll recordEdits).type ⟨20⟩).form.isValueType = true ∧
      ((core.applyAll recordEdits).type ⟨20⟩).layout? = some .sequential ∧
      answersWith (fieldTable (core.applyAll recordEdits) ⟨20⟩ false) {} (fun entries _ =>
        decide (entries.map (fun x => (x.offset, x.size)) = [(0, 1), (4, 8), (12, 2)] ∧
          (core.applyAll recordEdits).NoOverflow {} ⟨20⟩ entries)) = true ∧
      answersWith (storageSize (core.applyAll recordEdits) ⟨20⟩) {} (fun n _ => n == 16) = true := by
    decide +kernel
  obtain ⟨entries, e₁, hentries, hanswer⟩ := exists_of_answersWith htable
  obtain ⟨hplaces, hoverflow⟩ := of_decide_eq_true hanswer
  obtain ⟨n, e₂, hn, h16⟩ := exists_of_answersWith hsize
  cases beq_iff_eq.mp h16
  have hreached : Reached (core.applyAll recordEdits) {} {⟨20⟩} {} := Fresh.reached ⟨rfl, rfl, rfl⟩
  obtain ⟨-, hplaced⟩ := fieldTable_places (hkeys.on fun _ => List.mem_singleton.mpr)
    rfl hvalue (layoutKind_of_layout? hlayout) hreached
  obtain ⟨hall, hholds⟩ := hplaced entries e₁ hentries hoverflow
  exact ⟨entries, e₁, e₂, hentries, hn, hplaces, hoverflow, hall, hholds {} 16 e₂ hreached hn⟩

/-- Two structs whose names read the same: `Point` of `App.Geo`, with one field of four bytes, and
`Geo.Point` of `App`, with one of eight bytes. -/
def twinEdits : List Edit :=
  [.addModule "App",
    .define ⟨1⟩ "App.Geo" "Point" .valueType 0 [] none,
    .declareField ⟨1⟩ ⟨20⟩ "x" ⟨12⟩ 0 [],
    .define ⟨1⟩ "App" "Geo.Point" .valueType 0 [] none,
    .declareField ⟨1⟩ ⟨21⟩ "y" ⟨14⟩ 0 []]

/-- An engine that was asked for the first struct answers for the second one with the same table. -/
theorem fieldTable_twins : ∃ first e₁ entries e₂,
    Registry.FitAll core twinEdits ∧
    ((core.applyAll twinEdits).type ⟨21⟩).form.isValueType = true ∧
    (core.applyAll twinEdits).layoutKind ⟨21⟩ = .ok .auto ∧
    fieldTable (core.applyAll twinEdits) ⟨20⟩ false {} = .ok first e₁ ∧
    fieldTable (core.applyAll twinEdits) ⟨21⟩ false e₁ = .ok entries e₂ ∧
    (core.applyAll twinEdits).NoOverflow {} ⟨21⟩ entries ∧
    ¬ (core.applyAll twinEdits).Places {} ⟨21⟩ .auto entries := by
  obtain ⟨hfits, hvalue, hlayout, hother, htables⟩ : Registry.FitAll core twinEdits ∧
      ((core.applyAll twinEdits).type ⟨21⟩).form.isValueType = true ∧
      ((core.applyAll twinEdits).type ⟨21⟩).layout? = some .auto ∧
      ⟨0⟩ ∉ (core.applyAll twinEdits).instanceFields ⟨21⟩ ∧
      answersWith (do
        let _ ← fieldTable (core.applyAll twinEdits) ⟨20⟩ false
        fieldTable (core.applyAll twinEdits) ⟨21⟩ false) {}
        (fun entries _ => decide (entries.map (·.field) = [⟨0⟩] ∧
          (core.applyAll twinEdits).NoOverflow {} ⟨21⟩ entries)) = true := by
    decide +kernel
  obtain ⟨entries, e₂, hrun, hanswer⟩ := exists_of_answersWith htables
  obtain ⟨hfields, hoverflow⟩ := of_decide_eq_true hanswer
  obtain ⟨first, e₁, hfirst, hsecond⟩ := Registry.bind_eq_ok_iff.mp hrun
  refine ⟨first, e₁, entries, e₂, hfits, hvalue, layoutKind_of_layout? hlayout, hfirst, hsecond,
    hoverflow, fun hplaces => ?_⟩
  have hmem := (hplaces.ordered (by simp)).mem_iff (f := ⟨0⟩)
  rw [hfields] at hmem
  exact hother (hmem.mp List.mem_cons_self)

end LayoutEngine

end ProgramScan

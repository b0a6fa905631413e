import Mathlib.Data.List.Induction
import ProgramScan.Proofs.Layout.Queries

/-!
# The storage of an instance

The size of a value type is at least the largest end of its fields.  The storage of a reference type
is the end of the field placed last: among fields that are placed one after the other this is the
largest end too, but a field with an annotated offset can start late and end early.

* `Registry.NoOverflow`   no number is too large for 32 bits, so that no sum wraps around;
* `exactStop_le_storageOf`  value types hold all of their fields;
* `placeDense_pairwise`   fields without annotated offset do not overlap;
* `lastPlaced?_spec`      the field placed last;
* `Registry.storedIn`     the storage of an instance, from its entries;
* `storageSize_covers`    which fields the storage of a type holds.
-/

namespace ProgramScan

/-! ## numbers of 32 bits -/

/-- the place after the entry, without the limit of 32 bits -/
def FieldEntry.exactStop (e : FieldEntry) : Nat := e.offset.toNat + e.size.toNat

theorem FieldEntry.toNat_stop {e : FieldEntry} (h : e.exactStop < UInt32.size) :
    e.stop.toNat = e.exactStop := by
  rw [stop, UInt32.toNat_add]
  exact Nat.mod_eq_of_lt h

/-- `alignUp` without the limit of 32 bits -/
def roundUp (n alignment : Nat) : Nat :=
  if alignment = 0 || n % alignment = 0 then n else n + alignment - n % alignment

theorem mod_lt_of_not_aligned {n alignment : Nat}
    (h : ¬(alignment = 0 || n % alignment = 0) = true) : n % alignment < alignment := by
  simp only [Bool.or_eq_true, decide_eq_true_eq, not_or] at h
  exact Nat.mod_lt n (Nat.pos_of_ne_zero h.1)

theorem le_roundUp (n alignment : Nat) : n ≤ roundUp n alignment := by
  unfold roundUp
  split
  · exact Nat.le_refl n
  · rename_i h
    have hrest := mod_lt_of_not_aligned h
    omega

theorem toNat_alignUp {n alignment : UInt32} (h : roundUp n.toNat alignment.toNat < UInt32.size) :
    (alignUp n alignment).toNat = roundUp n.toNat alignment.toNat := by
  have hiff : (alignment = 0 || n % alignment = 0) =
      (alignment.toNat = 0 || n.toNat % alignment.toNat = 0) := by
    simp only [← UInt32.toNat_inj, UInt32.toNat_mod, UInt32.toNat_zero]
  rw [roundUp, UInt32.size] at h
  rw [roundUp, alignUp, hiff]
  by_cases hc : (alignment.toNat = 0 || n.toNat % alignment.toNat = 0) = true
  · rw [if_pos hc, if_pos hc]
  · rw [if_neg hc] at h ⊢
    rw [if_neg hc]
    have hrest := mod_lt_of_not_aligned hc
    have hlt := alignment.toNat_lt
    -- the sum may wrap around, but what is left after subtracting does not
    rw [UInt32.toNat_sub, UInt32.toNat_add, UInt32.toNat_mod]
    omega

/-- Entries that are placed from `start` on, each aligned, end within 32 bits. -/
def FitsFrom (alignment : UInt32) : (start : Nat) → List FieldEntry → Prop
  | _, [] => True
  | start, e :: rest =>
    let stop := roundUp start (min alignment e.size).toNat + e.size.toNat
    stop < UInt32.size ∧ FitsFrom alignment stop rest

instance FitsFrom.decidable (alignment : UInt32) :
    (start : Nat) → (entries : List FieldEntry) → Decidable (FitsFrom alignment start entries)
  | _, [] => .isTrue trivial
  | start, e :: rest =>
    have := decidable alignment (roundUp start (min alignment e.size).toNat + e.size.toNat) rest
    inferInstanceAs (Decidable (_ ∧ _))

/-- No number that the table and the storage of `t` are computed with is too large for 32 bits. -/
structure Registry.NoOverflow (r : Registry) (τ : Target) (t : TypeId) (entries : List FieldEntry) :
    Prop where
  placed : (r.type t).form.isValueType = true → (r.type t).layout? ≠ some .explicit →
    FitsFrom (min (τ.packing (r.type t)) (largest FieldEntry.size entries)) 0 entries
  stops : ∀ e ∈ entries, e.exactStop < UInt32.size
  padded : (r.type t).form.isValueType = true →
    roundUp (largest FieldEntry.stop entries).toNat
      (min (largest FieldEntry.size entries) (τ.packing (r.type t))).toNat < UInt32.size

instance (r : Registry) (τ : Target) (t : TypeId) (entries : List FieldEntry) :
    Decidable (r.NoOverflow τ t entries) :=
  decidable_of_iff (_ ∧ _ ∧ _) ⟨fun h => ⟨h.1, h.2.1, h.2.2⟩, fun h => ⟨h.1, h.2, h.3⟩⟩

/-! ## value types -/

theorem le_foldl_largest {α : Type} (f : α → UInt32) (l : List α) (n : UInt32) :
    n ≤ l.foldl (fun n a => max n (f a)) n ∧ ∀ a ∈ l, f a ≤ l.foldl (fun n a => max n (f a)) n := by
  induction l generalizing n with
  | nil => exact ⟨UInt32.le_refl n, fun a ha => by cases ha⟩
  | cons b l ih =>
    obtain ⟨hstart, hl⟩ := ih (max n (f b))
    have hmax : n ≤ max n (f b) ∧ f b ≤ max n (f b) := by
      simp only [UInt32.le_iff_toNat_le, UInt32.toNat_max]
      omega
    rw [List.foldl_cons]
    refine ⟨UInt32.le_trans hmax.1 hstart, fun a ha => ?_⟩
    rcases List.mem_cons.mp ha with rfl | ha
    · exact UInt32.le_trans hmax.2 hstart
    · exact hl a ha

theorem le_largest {α : Type} (f : α → UInt32) {l : List α} {a : α} (h : a ∈ l) :
    f a ≤ largest f l :=
  (le_foldl_largest f l 0).2 a h

theorem exactStop_le_storageOf {r : Registry} {τ : Target} {t : TypeId} {entries : List FieldEntry}
    (hv : (r.type t).form.isValueType = true) (hfits : r.NoOverflow τ t entries) {e : FieldEntry}
    (h : e ∈ entries) : e.exactStop ≤ (τ.storageOf (r.type t) entries).toNat := by
  have hne : entries.isEmpty = false := by
    cases entries with
    | nil => cases h
    | cons => rfl
  have hstop : e.exactStop ≤ (largest FieldEntry.stop entries).toNat := by
    rw [← FieldEntry.toNat_stop (hfits.stops e h)]
    exact UInt32.le_iff_toNat_le.mp (le_largest FieldEntry.stop h)
  have hup := le_roundUp (largest FieldEntry.stop entries).toNat
    (min (largest FieldEntry.size entries) (τ.packing (r.type t))).toNat
  rw [← toNat_alignUp (hfits.padded hv)] at hup
  simp only [Target.storageOf, hne, Bool.false_eq_true, if_false, UInt32.toNat_max]
  omega

/-! ## reference types -/

/-- the entry is placed where the one before it ends -/
def FieldEntry.IsPacked (e : FieldEntry) : Prop := e.hasExplicitOffset = false ∧ e.isStatic = false

theorem le_offset_placeDense {start : UInt32} {es : List FieldEntry}
    (hfits : ∀ e ∈ placeDense start es, e.exactStop < UInt32.size) {e : FieldEntry}
    (h : e ∈ placeDense start es) (hp : e.IsPacked) : start ≤ e.offset := by
  induction es generalizing start with
  | nil => cases h
  | cons x es ih =>
    rw [placeDense] at h hfits
    split at h
    · rename_i hx
      rw [if_pos hx] at hfits
      rcases List.mem_cons.mp h with rfl | h
      · rw [hp.1, hp.2] at hx
        cases hx
      · exact ih (fun e he => hfits e (List.mem_cons_of_mem _ he)) h
    · rename_i hx
      rw [if_neg hx] at hfits
      have hself : start.toNat + x.size.toNat < UInt32.size := hfits _ List.mem_cons_self
      rcases List.mem_cons.mp h with rfl | h
      · exact UInt32.le_refl _
      · have hle := UInt32.le_iff_toNat_le.mp (ih (List.forall_mem_cons.mp hfits).2 h)
        rw [UInt32.toNat_add, Nat.mod_eq_of_lt hself] at hle
        exact UInt32.le_iff_toNat_le.mpr (by omega)

/-- packed entries stand one after the other -/
theorem placeDense_pairwise {start : UInt32} {es : List FieldEntry}
    (hfits : ∀ e ∈ placeDense start es, e.exactStop < UInt32.size) :
    (placeDense start es).Pairwise fun a b =>
      a.IsPacked → b.IsPacked → a.exactStop ≤ b.offset.toNat := by
  induction es generalizing start with
  | nil => exact .nil
  | cons x es ih =>
    rw [placeDense] at hfits ⊢
    split
    · rename_i hx
      rw [if_pos hx] at hfits
      refine List.pairwise_cons.mpr ⟨fun b _ hpx _ => ?_, ih (List.forall_mem_cons.mp hfits).2⟩
      rw [hpx.1, hpx.2] at hx
      cases hx
    · rename_i hx
      rw [if_neg hx] at hfits
      have hself : start.toNat + x.size.toNat < UInt32.size := hfits _ List.mem_cons_self
      have hrest := (List.forall_mem_cons.mp hfits).2
      refine List.pairwise_cons.mpr ⟨fun b hb _ hpb => ?_, ih hrest⟩
      have hle := UInt32.le_iff_toNat_le.mp (le_offset_placeDense hrest hb hpb)
      rwa [UInt32.toNat_add, Nat.mod_eq_of_lt hself] at hle

theorem lastPlaced?_append (es : List FieldEntry) (e : FieldEntry) :
    lastPlaced? (es ++ [e]) =
      match lastPlaced? es with
      | some best => if best.offset ≤ e.offset then some e else some best
      | none => some e := by
  rw [lastPlaced?, List.foldl_append, ← lastPlaced?]
  cases lastPlaced? es with
  | none => rfl
  | some best => rfl

theorem lastPlaced?_spec {es : List FieldEntry} (h : es ≠ []) :
    ∃ last, lastPlaced? es = some last ∧ ∃ before after, es = before ++ last :: after ∧
      (∀ e ∈ before, e.offset.toNat ≤ last.offset.toNat) ∧
      ∀ e ∈ after, e.offset.toNat < last.offset.toNat := by
  induction es using List.reverseRecOn with
  | nil => exact absurd rfl h
  | append_singleton es e ih =>
    by_cases hes : es = []
    · subst hes
      exact ⟨e, rfl, [], [], rfl, by simp, by simp⟩
    · obtain ⟨best, hbest, before, after, rfl, hbefore, hafter⟩ := ih hes
      rw [lastPlaced?_append, hbest]
      by_cases hc : best.offset ≤ e.offset
      · have hle := UInt32.le_iff_toNat_le.mp hc
        refine ⟨e, if_pos hc, before ++ best :: after, [], rfl, fun x hx => ?_, by simp⟩
        rcases List.mem_append.mp hx with hx | hx
        · have := hbefore x hx
          omega
        · rcases List.mem_cons.mp hx with rfl | hx
          · exact hle
          · have := hafter x hx
            omega
      · have hlt := UInt32.lt_iff_toNat_lt.mp (UInt32.not_le.mp hc)
        refine ⟨best, if_neg hc, before, after ++ [e], by simp, hbefore, fun x hx => ?_⟩
        rcases List.mem_append.mp hx with hx | hx
        · exact hafter x hx
        · cases List.mem_singleton.mp hx
          omega

/-- among packed entries, the end of the one placed last is the largest -/
theorem exactStop_le_lastPlaced {start : UInt32} {es : List FieldEntry} {last e : FieldEntry}
    (hfits : ∀ e ∈ placeDense start es, e.exactStop < UInt32.size)
    (hlast : lastPlaced? (placeDense start es) = some last) (he : e ∈ placeDense start es) :
    last ∈ placeDense start es ∧ e.offset ≤ last.offset ∧
      (e.IsPacked → last.IsPacked → e.exactStop ≤ last.exactStop) := by
  have hpair := placeDense_pairwise hfits
  generalize placeDense start es = placed at *
  obtain ⟨last', hlast', before, after, rfl, hbefore, hafter⟩ :=
    lastPlaced?_spec (List.ne_nil_of_mem he)
  cases hlast.symm.trans hlast'
  obtain ⟨-, htail, hacross⟩ := List.pairwise_append.mp hpair
  refine ⟨by simp, ?_⟩
  rcases List.mem_append.mp he with he | he
  · refine ⟨UInt32.le_iff_toNat_le.mpr (hbefore e he), fun hpe hpl => ?_⟩
    have hstop := hacross e he last List.mem_cons_self hpe hpl
    exact Nat.le_trans hstop (Nat.le_add_right _ _)
  · rcases List.mem_cons.mp he with rfl | he
    · exact ⟨UInt32.le_refl _, fun _ _ => Nat.le_refl _⟩
    · have hlt := hafter e he
      refine ⟨UInt32.le_iff_toNat_le.mpr (by omega), fun hpe hpl => ?_⟩
      -- a packed entry after a packed one starts behind it
      have hstop := (List.pairwise_cons.mp htail).1 e he hpl hpe
      unfold FieldEntry.exactStop at hstop
      omega

/-! ## the storage of an instance -/

/-- the bytes that an instance of `t` with the given entries takes -/
def Registry.storedIn (r : Registry) (τ : Target) (t : TypeId) (entries : List FieldEntry) : UInt32 :=
  if (r.type t).form.isValueType then τ.storageOf (r.type t) entries
  else ((lastPlaced? entries).map FieldEntry.stop).getD 0

namespace LayoutEngine

open Registry (core answersWith exists_of_answersWith)

variable {r : Registry} {τ : Target} {A : Set TypeId} {t : TypeId}

theorem storageSize_eq (hkeys : r.KeysDistinctOn A) (ht : r.Reaches A t)
    {entries : List FieldEntry} (htab : r.Tabled τ t false entries) {e e' : LayoutEngine}
    (he : Remembers r τ A e) {n : UInt32} (hn : storageSize r t e = .ok n e') :
    n = r.storedIn τ t entries := by
  unfold storageSize at hn
  unfold Registry.storedIn
  cases hv : (r.type t).form.isValueType with
  | true =>
    rw [hv, if_pos rfl] at hn
    have hout := outcome_valueStorageAt hkeys ht 0 he (measures_field hkeys false ht)
    obtain ⟨⟨entries', htab', rfl⟩, -⟩ := hout.ok hn
    cases htab.unique htab'
    rfl
  | false =>
    rw [hv, if_neg Bool.false_ne_true] at hn
    obtain ⟨entries', e₁, hrun, hpure⟩ := Registry.bind_eq_ok_iff.mp hn
    cases htab.unique ((outcome_fieldTable hkeys ht he).ok hrun).1
    have htable := htab.table
    rw [Registry.table_reference hv] at htable
    cases htable
    have hinstance : ∀ e ∈ r.referenceTable (r.valueSize τ) t false, (!e.isStatic) = true :=
      fun e he => by rw [Registry.not_isStatic_referenceTable he, Bool.not_false]
    rw [List.filter_eq_self.mpr hinstance] at hpure
    cases hlast : lastPlaced? (r.referenceTable (r.valueSize τ) t false) with
    | none =>
      rw [hlast] at hpure
      cases hpure
      rfl
    | some last =>
      rw [hlast] at hpure
      cases hpure
      rfl

/-- **What the storage of a type holds.**  As long as no number is too large for 32 bits, an entry is
held, or the type is no value type, and this entry or the one placed last has an annotated offset. -/
theorem storageSize_covers (hkeys : r.KeysDistinctOn A) (ht : t ∈ A)
    {e₁ e₁' e₂ e₂' : LayoutEngine} (h₁ : Reached r τ A e₁) (h₂ : Reached r τ A e₂) {n : UInt32}
    {entries : List FieldEntry} (hn : storageSize r t e₁ = .ok n e₁')
    (hentries : fieldTable r t false e₂ = .ok entries e₂') (hfits : r.NoOverflow τ t entries)
    {x : FieldEntry} (hx : x ∈ entries) :
    x.exactStop ≤ n.toNat ∨
      ((r.type t).form.isValueType = false ∧
        ∃ last ∈ entries, last.stop = n ∧ x.offset ≤ last.offset ∧
          (x.hasExplicitOffset = true ∨ last.hasExplicitOffset = true)) := by
  have htA : r.Reaches A t := .asked ht
  have htab := ((outcome_fieldTable hkeys htA (h₂.remembers hkeys)).ok hentries).1
  obtain rfl := storageSize_eq hkeys htA htab (h₁.remembers hkeys) hn
  unfold Registry.storedIn
  cases hv : (r.type t).form.isValueType with
  | true =>
    rw [if_pos rfl]
    exact .inl (exactStop_le_storageOf hv hfits hx)
  | false =>
    have htable := htab.table
    rw [Registry.table_reference hv] at htable
    cases htable
    obtain ⟨last, hlast, -⟩ := lastPlaced?_spec (List.ne_nil_of_mem hx)
    obtain ⟨hmem, hle, hpacked⟩ := exactStop_le_lastPlaced hfits.stops hlast hx
    rw [if_neg Bool.false_ne_true, hlast, Option.map_some, Option.getD_some]
    by_cases hex : x.hasExplicitOffset = true ∨ last.hasExplicitOffset = true
    · exact .inr ⟨rfl, last, hmem, rfl, hle, hex⟩
    · simp only [not_or, Bool.not_eq_true] at hex
      rw [FieldEntry.toNat_stop (hfits.stops last hmem)]
      exact .inl (hpacked ⟨hex.1, Registry.not_isStatic_referenceTable hx⟩
        ⟨hex.2, Registry.not_isStatic_referenceTable hmem⟩)

def overlaidEdits : List Edit :=
  [.addModule "App",
    .define ⟨1⟩ "App" "Overlaid" .reference 0 [] none,
    .setBase ⟨20⟩ ⟨0⟩,
    .declareField ⟨1⟩ ⟨20⟩ "wide" ⟨14⟩ 0 [],
    .declareField ⟨1⟩ ⟨20⟩ "narrow" ⟨9⟩ 0 [.fieldOffset 4]]

theorem storageSize_covers_overlaid : ∃ entries e₁ e₂,
    storageSize (core.applyAll overlaidEdits) ⟨20⟩ {} = .ok 5 e₁ ∧
    fieldTable (core.applyAll overlaidEdits) ⟨20⟩ false {} = .ok entries e₂ ∧ entries.length = 2 ∧
    (core.applyAll overlaidEdits).NoOverflow {} ⟨20⟩ entries ∧
    ∀ x ∈ entries, x.exactStop ≤ 5 ∨ ∃ last ∈ entries, last.stop = 5 ∧ x.offset ≤ last.offset ∧
      (x.hasExplicitOffset = true ∨ last.hasExplicitOffset = true) := by
  obtain ⟨hkeys, hsize, htable⟩ : (core.applyAll overlaidEdits).ToldApart [⟨20⟩] ∧
      answersWith (storageSize (core.applyAll overlaidEdits) ⟨20⟩) {} (fun n _ => n == 5) = true ∧
      answersWith (fieldTable (core.applyAll overlaidEdits) ⟨20⟩ false) {} (fun entries _ =>
        decide (entries.length = 2 ∧ (core.applyAll overlaidEdits).NoOverflow {} ⟨20⟩ entries)) =
        true := by
    decide +kernel
  obtain ⟨n, e₁, hn, h5⟩ := exists_of_answersWith hsize
  obtain ⟨entries, e₂, hentries, hall⟩ := exists_of_answersWith htable
  obtain ⟨hlength, hfits'⟩ := of_decide_eq_true hall
  cases beq_iff_eq.mp h5
  have hreached : Reached (core.applyAll overlaidEdits) {} {⟨20⟩} {} :=
    Fresh.reached ⟨rfl, rfl, rfl⟩
  refine ⟨entries, e₁, e₂, hn, hentries, hlength, hfits', fun x hx => ?_⟩
  have hcovers := storageSize_covers (hkeys.on fun _ => List.mem_singleton.mpr)
    rfl hreached hreached hn hentries hfits' hx
  exact hcovers.imp_right fun h => h.2

/-- The storage of `Overlaid` ends in the middle of its wide field. -/
theorem storageSize_overlaid : ∃ entries e₁ e₂,
    storageSize (core.applyAll overlaidEdits) ⟨20⟩ {} = .ok 5 e₁ ∧
    fieldTable (core.applyAll overlaidEdits) ⟨20⟩ false {} = .ok entries e₂ ∧
    (core.applyAll overlaidEdits).NoOverflow {} ⟨20⟩ entries ∧
    ¬ ∀ x ∈ entries, x.exactStop ≤ 5 := by
  obtain ⟨hsize, htable⟩ :
      answersWith (storageSize (core.applyAll overlaidEdits) ⟨20⟩) {} (fun n _ => n == 5) = true ∧
      answersWith (fieldTable (core.applyAll overlaidEdits) ⟨20⟩ false) {}
        (fun entries _ => decide ((core.applyAll overlaidEdits).NoOverflow {} ⟨20⟩ entries ∧
          ∃ x ∈ entries, x.exactStop = 8)) = true := by
    decide +kernel
  obtain ⟨n, e₁, hn, h5⟩ := exists_of_answersWith hsize
  obtain ⟨entries, e₂, hentries, hall⟩ := exists_of_answersWith htable
  obtain ⟨hfits, x, hx, h8⟩ := of_decide_eq_true hall
  cases beq_iff_eq.mp h5
  refine ⟨entries, e₁, e₂, hn, hentries, hfits, fun h => ?_⟩
  have hle := h x hx
  omega

end LayoutEngine

end ProgramScan

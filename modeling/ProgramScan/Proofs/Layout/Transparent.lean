import ProgramScan.Proofs.Layout.Answering

/-!
# Remembering changes no answer

Two engines for one target are asked the same, and the second one remembers more.  Where the first
one answers, the second one gives the same answer, and still remembers more afterwards.  So it does
not matter what an engine was asked before, failed queries included.

* `Repeats`             a query of which this holds;
* `repeats_sizeAt`      sizes, at any depth;
* `Transparent`         a query that also keeps what is remembered right, with a rule for each way
                        to put queries together.
-/

namespace ProgramScan

namespace LayoutEngine

variable {α β : Type} {r : Registry} {τ : Target} {A : Set TypeId} {e e' : LayoutEngine}

/-- what `x` answers, it answers wherever more is remembered -/
def Repeats (r : Registry) (τ : Target) (A : Set TypeId) (x : LayoutQuery α) : Prop :=
  ∀ ⦃less more a less'⦄, Remembers r τ A less → Remembers r τ A more → less.Within more →
    x less = .ok a less' → ∃ more', x more = .ok a more' ∧ less'.Within more'

/-- Answers that are determined repeat as soon as success does: what is remembered afterwards is the
least that has to be. -/
theorem repeats_of_least {x : LayoutQuery α} {Q : α → Prop} {K : LayoutEngine → Prop} {P : Prop}
    (hout : ∀ e, Remembers r τ A e →
      Outcome x e (fun a e' => Q a ∧ Least r τ A K e e') (Stops r τ A P e))
    (hQ : ∀ a b, Q a → Q b → a = b)
    (hok : ∀ less more a less', Remembers r τ A less → Remembers r τ A more → less.Within more →
      x less = .ok a less' → ∃ b more', x more = .ok b more') :
    Repeats r τ A x := by
  intro less more a less' hless hmore hle hx
  obtain ⟨b, more', hx'⟩ := hok less more a less' hless hmore hle hx
  obtain ⟨ha, hl⟩ := (hout less hless).ok hx
  obtain ⟨hb, hl'⟩ := (hout more hmore).ok hx'
  cases hQ a b ha hb
  exact ⟨more', hx', hl.least more' hl'.remembers (hle.trans hl'.within) hl'.known⟩

variable {sizeOf : TypeId → LayoutQuery UInt32} {depth steps : Nat} {t : TypeId} {b : Bool}

theorem Asking.repeats {x : LayoutQuery α} {ts : List TypeId} {a : α}
    (h : Asking τ (r.valueSize τ) sizeOf x ts a) (hsize : ∀ t ∈ ts, Measures r τ A sizeOf t)
    (hrep : ∀ t ∈ ts, Repeats r τ A (sizeOf t)) : Repeats r τ A x := by
  induction h with
  | pure a =>
    intro less more b less' _ _ hle hx
    cases hx
    exact ⟨more, rfl, hle⟩
  | @note f hm =>
    intro less more b less' _ _ hle hx
    cases hx
    exact ⟨f more, rfl, ((Within.of_memory (hm less)).trans hle).trans (.of_memory (hm more).symm)⟩
  | target g =>
    intro less more b less' hless hmore hle hx
    cases hx
    refine ⟨more, ?_, hle⟩
    rw [hle.target]
    rfl
  | size t => exact hrep t List.mem_cons_self
  | @bind _ _ x k ts us a b hx _ ihx ihk =>
    intro less more c less' hless hmore hle hrun
    have hts : ∀ t ∈ ts, Measures r τ A sizeOf t := fun t ht => hsize t (List.mem_append_left _ ht)
    obtain ⟨a', less₁, hfirst, hsecond⟩ := Registry.bind_eq_ok_iff.mp hrun
    obtain ⟨more₁, hfirst', hle₁⟩ :=
      ihx hts (fun t ht => hrep t (List.mem_append_left _ ht)) hless hmore hle hfirst
    obtain ⟨rfl, -, hl⟩ := (hx.outcome hless hts).ok hfirst
    obtain ⟨-, -, hl'⟩ := (hx.outcome hmore hts).ok hfirst'
    obtain ⟨more₂, hsecond', hle₂⟩ :=
      ihk (fun t ht => hsize t (List.mem_append_right _ ht))
        (fun t ht => hrep t (List.mem_append_right _ ht)) hl.remembers hl'.remembers hle₁ hsecond
    exact ⟨more₂, Registry.bind_eq_ok_iff.mpr ⟨_, more₁, hfirst', hsecond'⟩, hle₂⟩

theorem repeats_newTable (hsize : ∀ u ∈ r.listedTypes t b, Measures r τ A sizeOf u)
    (hrep : ∀ u ∈ r.listedTypes t b, Repeats r τ A (sizeOf u)) :
    Repeats r τ A (newTable r sizeOf t b) := by
  cases htable : r.table τ (r.valueSize τ) t b with
  | ok entries =>
    have hmem : ∀ u, u ∈ askedTypes r t b ↔ u ∈ r.listedTypes t b := fun u => mem_askedTypes htable
    exact (asking_newTable htable).repeats (fun u hu => hsize u ((hmem u).mp hu))
      fun u hu => hrep u ((hmem u).mp hu)
  | error err =>
    intro less more a less' _ _ _ hx
    rw [newTable_error htable less] at hx
    cases hx

theorem repeats_fieldTableAt (hkeys : r.KeysDistinctOn A) (ht : r.Reaches A t)
    (hsize : ∀ u ∈ r.listedTypes t b, Measures r τ A sizeOf u)
    (hrep : ∀ u ∈ r.listedTypes t b, Repeats r τ A (sizeOf u)) :
    Repeats r τ A (fieldTableAt r sizeOf depth t b) := by
  refine repeats_of_least (fun e he => outcome_fieldTableAt hkeys ht he hsize)
    (fun a b ha hb => ha.unique hb) fun less more a less' hless hmore hle hx => ?_
  by_cases hd : maxLayoutDepth < depth
  · rw [fieldTableAt_deep hd] at hx
    cases hx
  have hd' : depth ≤ maxLayoutDepth := by omega
  cases hmoreT : more.tables.get? (r.typeKey t, b) with
  | some entries => exact ⟨entries, _, fieldTableAt_remembered hd' hmoreT⟩
  | none =>
    have hlessT : less.tables.get? (r.typeKey t, b) = none := by
      by_contra hT
      have := hle.tables _ (Option.isSome_iff_ne_none.mpr hT)
      rw [hmoreT] at this
      cases this
    rw [fieldTableAt_new hd' hlessT] at hx
    obtain ⟨entries, less₁, hnew, -⟩ := Registry.bind_eq_ok_iff.mp hx
    have hm := memory_noting less [t]
    have hm' := memory_noting more [t]
    obtain ⟨more₁, hnew', -⟩ := repeats_newTable hsize hrep (hless.of_memory hm)
      (hmore.of_memory hm') (((Within.of_memory hm.symm).trans hle).trans (.of_memory hm')) hnew
    rw [fieldTableAt_new hd' hmoreT]
    exact ⟨entries, _, Registry.bind_eq_ok_iff.mpr ⟨entries, more₁, hnew', rfl⟩⟩

theorem repeats_valueStorageAt (hkeys : r.KeysDistinctOn A) (ht : r.Reaches A t) (depth : Nat)
    (hsize : ∀ u ∈ r.listedTypes t false, Measures r τ A sizeOf u)
    (hrep : ∀ u ∈ r.listedTypes t false, Repeats r τ A (sizeOf u)) :
    Repeats r τ A (valueStorageAt r sizeOf depth t) := by
  refine repeats_of_least (fun e he => outcome_valueStorageAt hkeys ht depth he hsize) ?_
    fun less more a less' hless hmore hle hx => ?_
  · rintro _ _ ⟨entries, htab, rfl⟩ ⟨entries', htab', rfl⟩
    rw [htab.unique htab']
  · obtain ⟨entries, less₁, htable, -⟩ := Registry.bind_eq_ok_iff.mp hx
    obtain ⟨more₁, htable', -⟩ :=
      repeats_fieldTableAt hkeys ht hsize hrep hless hmore hle htable
    exact ⟨_, more₁, Registry.bind_eq_ok_iff.mpr ⟨entries, more₁, htable', rfl⟩⟩

section

variable (hkeys : r.KeysDistinctOn A)
include hkeys

theorem repeats_sizeAt (hle : steps ≤ sizeSteps r) (depth : Nat)
    (ht : τ.fixedSize? r t = none → r.Reaches A t) : Repeats r τ A (sizeAt r steps depth t) := by
  induction steps generalizing depth t with
  | zero =>
    intro less more a less' _ _ _ hx
    cases hx
  | succ steps ih =>
    refine repeats_of_least (fun e he => measures_sizeAt hkeys hle depth ht e he)
      (fun a b ha hb => ha.unique hb) fun less more a less' hless hmore hwithin hx => ?_
    cases hf : τ.fixedSize? r t with
    | some n => exact ⟨n, _, sizeAt_fixed (hmore.target ▸ hf)⟩
    | none =>
      have hless' : less.target.fixedSize? r t = none := hless.target ▸ hf
      have hmore' : more.target.fixedSize? r t = none := hmore.target ▸ hf
      cases hmoreS : more.sizes.get? (r.typeKey t) with
      | some n => exact ⟨n, _, sizeAt_remembered hmore' hmoreS⟩
      | none =>
        have hlessS : less.sizes.get? (r.typeKey t) = none := by
          by_contra hS
          have := hwithin.sizes _ (Option.isSome_iff_ne_none.mpr hS)
          rw [hmoreS] at this
          cases this
        have hm := memory_noting less [t]
        have hm' := memory_noting more [t]
        have hwithin' := ((Within.of_memory hm.symm).trans hwithin).trans (.of_memory hm')
        cases henum : (r.type t).form.isEnum with
        | true =>
          cases hu : underlying? r t with
          | none => exact ⟨4, _, sizeAt_plainEnum hmore' hmoreS henum hu⟩
          | some u =>
            rw [sizeAt_enumOver hless' hlessS henum hu] at hx
            obtain ⟨more₁, hx', -⟩ := ih (by omega) (depth + 1) ((ht hf).underlying henum hu)
              (hless.of_memory hm) (hmore.of_memory hm') hwithin' hx
            exact ⟨a, more₁, (sizeAt_enumOver hmore' hmoreS henum hu).trans hx'⟩
        | false =>
          rw [sizeAt_fields hless' hlessS henum] at hx
          obtain ⟨n, less₁, hstorage, -⟩ := Registry.bind_eq_ok_iff.mp hx
          obtain ⟨more₁, hstorage', -⟩ :=
            repeats_valueStorageAt hkeys (ht hf) depth
              (fun u hu => measures_sizeAt hkeys (by omega) (depth + 1) ((ht hf).listed hu))
              (fun u hu => ih (by omega) (depth + 1) ((ht hf).listed hu))
              (hless.of_memory hm) (hmore.of_memory hm') hwithin' hstorage
          rw [sizeAt_fields hmore' hmoreS henum]
          exact ⟨n, _, Registry.bind_eq_ok_iff.mpr ⟨n, more₁, hstorage', rfl⟩⟩

end

/-! ## transparent queries -/

/-- `x` keeps what is remembered right, whether it succeeds or fails, and repeats its answers. -/
structure Transparent (r : Registry) (τ : Target) (A : Set TypeId) (x : LayoutQuery α) : Prop where
  keeps : ∀ e, Remembers r τ A e → Outcome x e (fun _ e' => Remembers r τ A e' ∧ e.Within e')
    (fun _ e' => Remembers r τ A e' ∧ e.Within e')
  repeats : Repeats r τ A x

theorem transparent_pure (a : α) : Transparent r τ A (pure a) where
  keeps e he := .of_ok rfl ⟨he, .refl e⟩
  repeats less more _ _ _ _ hle hx := by
    cases hx
    exact ⟨more, rfl, hle⟩

theorem transparent_throw (err : Error) : Transparent r τ A (throw err : LayoutQuery α) where
  keeps e he := .of_error rfl ⟨he, .refl e⟩
  repeats _ _ _ _ _ _ _ hx := by cases hx

theorem transparent_readNames (ts : List TypeId) : Transparent r τ A (readNames ts) where
  keeps e he := .of_ok rfl ⟨he.of_memory (memory_noting e ts), .of_memory (memory_noting e ts)⟩
  repeats less more _ _ _ _ hle hx := by
    cases hx
    refine ⟨noting more ts, rfl, ?_⟩
    exact ((Within.of_memory (memory_noting less ts).symm).trans hle).trans
      (.of_memory (memory_noting more ts))

theorem Transparent.bind {x : LayoutQuery α} {k : α → LayoutQuery β} (hx : Transparent r τ A x)
    (hk : ∀ a, Transparent r τ A (k a)) : Transparent r τ A (x >>= k) where
  keeps e he := by
    refine (hx.keeps e he).bind fun a e' ⟨he', hle⟩ => ?_
    exact ((hk a).keeps e' he').weaken (fun _ _ h => ⟨h.1, hle.trans h.2⟩)
      fun _ _ h => ⟨h.1, hle.trans h.2⟩
  repeats less more b less' hless hmore hle hrun := by
    obtain ⟨a, less₁, hfirst, hsecond⟩ := Registry.bind_eq_ok_iff.mp hrun
    obtain ⟨more₁, hfirst', hle₁⟩ := hx.repeats hless hmore hle hfirst
    have hless₁ := ((hx.keeps less hless).ok hfirst).1
    have hmore₁ := ((hx.keeps more hmore).ok hfirst').1
    obtain ⟨more₂, hsecond', hle₂⟩ := (hk a).repeats hless₁ hmore₁ hle₁ hsecond
    exact ⟨more₂, Registry.bind_eq_ok_iff.mpr ⟨a, more₁, hfirst', hsecond'⟩, hle₂⟩

theorem Outcome.keeps {x : LayoutQuery α} {Q : α → Prop} {K : LayoutEngine → Prop} {P : Prop}
    (h : Outcome x e (fun a e' => Q a ∧ Least r τ A K e e') (Stops r τ A P e)) :
    Outcome x e (fun _ e' => Remembers r τ A e' ∧ e.Within e')
      (fun _ e' => Remembers r τ A e' ∧ e.Within e') :=
  h.weaken (fun _ _ ⟨_, hl⟩ => ⟨hl.remembers, hl.within⟩) fun _ _ hs => ⟨hs.remembers, hs.within⟩

section

variable (hkeys : r.KeysDistinctOn A)
include hkeys

theorem measures_field (b : Bool) (ht : r.Reaches A t) :
    ∀ u ∈ r.listedTypes t b, Measures r τ A (sizeAt r (sizeSteps r) 1) u :=
  fun _ hu => measures_sizeAt hkeys (le_refl _) 1 (ht.listed hu)

theorem repeats_field (b : Bool) (ht : r.Reaches A t) :
    ∀ u ∈ r.listedTypes t b, Repeats r τ A (sizeAt r (sizeSteps r) 1 u) :=
  fun _ hu => repeats_sizeAt hkeys (le_refl _) 1 (ht.listed hu)

theorem outcome_fieldTable (ht : r.Reaches A t) (he : Remembers r τ A e) :
    Outcome (fieldTable r t b) e
      (fun entries e' => r.Tabled τ t b entries ∧ Least r τ A (fun e => HasTable r e t b) e e')
      (Stops r τ A (∃ entries, r.Tabled τ t b entries) e) :=
  outcome_fieldTableAt hkeys ht he (measures_field hkeys b ht)

theorem transparent_fieldTable (ht : r.Reaches A t) : Transparent r τ A (fieldTable r t b) where
  keeps _ he := (outcome_fieldTable hkeys ht he).keeps
  repeats := repeats_fieldTableAt hkeys ht (measures_field hkeys b ht)
    (repeats_field hkeys b ht)

theorem transparent_sizeOfType (ht : r.Reaches A t) : Transparent r τ A (sizeOfType r t) where
  keeps e he := (measures_sizeAt hkeys (le_refl _) 0 (fun _ => ht) e he).keeps
  repeats := repeats_sizeAt hkeys (le_refl _) 0 fun _ => ht

theorem transparent_storageSize (ht : r.Reaches A t) : Transparent r τ A (storageSize r t) := by
  unfold storageSize
  split
  · refine ⟨fun e he => ?_, ?_⟩
    · exact (outcome_valueStorageAt hkeys ht 0 he (measures_field hkeys false ht)).keeps
    · exact repeats_valueStorageAt hkeys ht 0 (measures_field hkeys false ht)
        (repeats_field hkeys false ht)
  · exact (transparent_fieldTable hkeys ht).bind fun _ => transparent_pure _

theorem transparent_stackSlots (ht : r.Reaches A t) : Transparent r τ A (stackSlots r t) :=
  (transparent_sizeOfType hkeys ht).bind fun _ => transparent_pure _

theorem transparent_resolveField (ht : r.Reaches A t) (id : String) (onlyInstance : Bool) :
    Transparent r τ A (resolveField r t id onlyInstance) := by
  refine (transparent_fieldTable hkeys ht).bind fun entries => ?_
  split
  · exact transparent_pure _
  · exact transparent_throw _

theorem transparent_resolveFieldOf {f : FieldId} (hd : r.Reaches A (r.field f).declaring) :
    Transparent r τ A (resolveFieldOf r f) := by
  refine (transparent_fieldTable hkeys hd).bind fun entries => ?_
  split
  · exact transparent_pure _
  · exact (transparent_readNames _).bind fun _ => transparent_resolveField hkeys hd _ _

end

end LayoutEngine

end ProgramScan

import ProgramScan.Proofs.Layout.Remembering

/-!
# What queries answer

A query that succeeds answers the size or the table that the types determine, and remembers no more
than it has to; one that fails leaves only right entries behind.

* `Outcome`                   a statement about a query for each of its two ends;
* `outcome_fieldTableAt`      tables, at any depth;
* `outcome_sizeAt`            sizes, at any depth and with any number of steps;
* `sizeAt_of_knowsWithin`     a size that is known is answered;
* `sizeAt_of_nestsWithin`     so is one that is not nested too deep;
* `sizeAt_of_nestsBeyond`     and one that is fails.
-/

namespace ProgramScan

namespace LayoutEngine

variable {α β : Type}

/-- `Q` holds of what `x` answers, and `E` if it fails -/
structure Outcome (x : LayoutQuery α) (e : LayoutEngine) (Q : α → LayoutEngine → Prop)
    (E : Error → LayoutEngine → Prop) : Prop where
  ok : ∀ {a e'}, x e = .ok a e' → Q a e'
  error : ∀ {err e'}, x e = .error err e' → E err e'

/-- `e'` remembers only what every engine above `e` remembers for which `K` holds. -/
structure Least (r : Registry) (τ : Target) (A : Set TypeId) (K : LayoutEngine → Prop)
    (e e' : LayoutEngine) : Prop where
  remembers : Remembers r τ A e'
  within : e.Within e'
  known : K e'
  least : ∀ top, Remembers r τ A top → e.Within top → K top → e'.Within top

/-- A failing query leaves right entries behind.  Where `P` holds it failed at the recursion
limit. -/
structure Stops (r : Registry) (τ : Target) (A : Set TypeId) (P : Prop) (e : LayoutEngine)
    (err : Error) (e' : LayoutEngine) : Prop where
  remembers : Remembers r τ A e'
  within : e.Within e'
  limit : P → err = .recursionLimit maxLayoutDepth

variable {r : Registry} {τ : Target} {A : Set TypeId} {e e' e'' : LayoutEngine}
  {K K' : LayoutEngine → Prop}

theorem Outcome.weaken {x : LayoutQuery α} {Q Q' : α → LayoutEngine → Prop}
    {E E' : Error → LayoutEngine → Prop} (h : Outcome x e Q E) (hQ : ∀ a e', Q a e' → Q' a e')
    (hE : ∀ err e', E err e' → E' err e') : Outcome x e Q' E' :=
  ⟨fun hx => hQ _ _ (h.ok hx), fun hx => hE _ _ (h.error hx)⟩

theorem Outcome.congr {x y : LayoutQuery α} {Q : α → LayoutEngine → Prop}
    {E : Error → LayoutEngine → Prop} (h : Outcome x e Q E) (hxy : y e' = x e) :
    Outcome y e' Q E :=
  ⟨fun hy => h.ok (hxy ▸ hy), fun hy => h.error (hxy ▸ hy)⟩

theorem Outcome.of_ok {x : LayoutQuery α} {Q : α → LayoutEngine → Prop}
    {E : Error → LayoutEngine → Prop} {a : α} (hx : x e = .ok a e') (h : Q a e') :
    Outcome x e Q E := by
  refine ⟨fun hx' => ?_, fun hx' => ?_⟩
  · rw [hx] at hx'
    cases hx'
    exact h
  · rw [hx] at hx'
    cases hx'

theorem Outcome.of_error {x : LayoutQuery α} {Q : α → LayoutEngine → Prop}
    {E : Error → LayoutEngine → Prop} {err : Error} (hx : x e = .error err e') (h : E err e') :
    Outcome x e Q E := by
  refine ⟨fun hx' => ?_, fun hx' => ?_⟩
  · rw [hx] at hx'
    cases hx'
  · rw [hx] at hx'
    cases hx'
    exact h

theorem Outcome.bind {x : LayoutQuery α} {k : α → LayoutQuery β} {Q : α → LayoutEngine → Prop}
    {Q' : β → LayoutEngine → Prop} {E : Error → LayoutEngine → Prop} (hx : Outcome x e Q E)
    (hk : ∀ a e', Q a e' → Outcome (k a) e' Q' E) : Outcome (x >>= k) e Q' E := by
  have happ := Registry.bind_apply x k e
  cases hr : x e with
  | ok a e' =>
    rw [hr] at happ
    have hout := hk a e' (hx.ok hr)
    exact ⟨fun h => hout.ok (happ.symm.trans h), fun h => hout.error (happ.symm.trans h)⟩
  | error err e' =>
    rw [hr] at happ
    exact .of_error happ (hx.error hr)

theorem Least.of_memory (he : Remembers r τ A e) (hm : e.memory = e'.memory) (hk : K e') :
    Least r τ A K e e' where
  remembers := he.of_memory hm
  within := .of_memory hm
  known := hk
  least _ _ hle _ := (Within.of_memory hm.symm).trans hle

theorem Least.after (h : Least r τ A K e' e'') (hm : e.memory = e'.memory) :
    Least r τ A K e e'' where
  remembers := h.remembers
  within := (Within.of_memory hm).trans h.within
  known := h.known
  least top htop hle hk := h.least top htop ((Within.of_memory hm.symm).trans hle) hk

theorem Least.congr (h : Least r τ A K e e') (hK : ∀ e, K e ↔ K' e) : Least r τ A K' e e' where
  remembers := h.remembers
  within := h.within
  known := (hK _).mp h.known
  least top htop hle hk := h.least top htop hle ((hK _).mpr hk)

theorem Least.trans (h : Least r τ A K e e') (h' : Least r τ A K' e' e'')
    (hK : ∀ {e e'}, Within e e' → K e → K e') : Least r τ A (fun e => K e ∧ K' e) e e'' where
  remembers := h'.remembers
  within := h.within.trans h'.within
  known := ⟨hK h'.within h.known, h'.known⟩
  least top htop hle hk := h'.least top htop (h.least top htop hle hk.1) hk.2

theorem Stops.after {P P' : Prop} {err : Error} (h : Stops r τ A P e' err e'') (hle : e.Within e')
    (hP : P' → P) : Stops r τ A P' e err e'' :=
  ⟨h.remembers, hle.trans h.within, fun hp => h.limit (hP hp)⟩

/-! ## queries that ask for sizes -/

/-- `sizeOf` answers the size of `t` in every engine that remembers what is right -/
def Measures (r : Registry) (τ : Target) (A : Set TypeId) (sizeOf : TypeId → LayoutQuery UInt32)
    (t : TypeId) : Prop :=
  ∀ e, Remembers r τ A e → Outcome (sizeOf t) e
    (fun n e' => r.SizeIs τ t n ∧ Least r τ A (fun e => Knows r e t) e e')
    (Stops r τ A (r.HasSize τ t) e)

variable {sizeOf : TypeId → LayoutQuery UInt32}

theorem Asking.outcome {x : LayoutQuery α} {ts : List TypeId} {a : α}
    (h : Asking τ (r.valueSize τ) sizeOf x ts a) (he : Remembers r τ A e)
    (hsize : ∀ t ∈ ts, Measures r τ A sizeOf t) :
    Outcome x e
      (fun b e' => b = a ∧ (∀ t ∈ ts, r.HasSize τ t) ∧
        Least r τ A (fun e => ∀ t ∈ ts, Knows r e t) e e')
      (Stops r τ A (∀ t ∈ ts, r.HasSize τ t) e) := by
  induction h generalizing e with
  | pure a =>
    exact .of_ok rfl ⟨rfl, by simp, .of_memory he rfl (by simp)⟩
  | note hm =>
    exact .of_ok rfl ⟨rfl, by simp, .of_memory he (hm e).symm (by simp)⟩
  | target g =>
    refine .of_ok rfl ⟨?_, by simp, .of_memory he rfl (by simp)⟩
    rw [he.target]
  | size t =>
    refine (hsize t List.mem_cons_self e he).weaken (fun n e' ⟨hn, hl⟩ => ?_) fun err e' hs => ?_
    · exact ⟨hn.eq_valueSize, by simpa using ⟨n, hn⟩, hl.congr fun e => by simp⟩
    · exact hs.after (.refl e) fun h => h t List.mem_cons_self
  | @bind _ _ x k ts us a b _ _ ihx ihk =>
    have hfirst := ihx he fun t ht => hsize t (List.mem_append_left _ ht)
    refine Outcome.bind (hfirst.weaken (fun _ _ h => h) fun err e' hs => ?_)
      fun a' e₁ ⟨ha, hts, hl⟩ => ?_
    · exact hs.after (.refl e) fun h t ht => h t (List.mem_append_left _ ht)
    · subst ha
      have hsecond := ihk hl.remembers fun t ht => hsize t (List.mem_append_right _ ht)
      refine hsecond.weaken (fun b' e₂ ⟨hb, hus, hl'⟩ => ⟨hb, ?_, ?_⟩) fun err e' hs => ?_
      · intro t ht
        exact (List.mem_append.mp ht).elim (hts t) (hus t)
      · refine (hl.trans hl' fun hle hk t ht => hle.knows (hk t ht)).congr fun e => ?_
        simp only [List.forall_mem_append]
      · exact hs.after hl.within fun h t ht => h t (List.mem_append_right _ ht)

theorem Asking.answers {x : LayoutQuery α} {ts : List TypeId} {a : α}
    (h : Asking τ (r.valueSize τ) sizeOf x ts a) (he : Remembers r τ A e)
    (hsize : ∀ t ∈ ts, Measures r τ A sizeOf t)
    (hok : ∀ before t after, ts = before ++ t :: after → ∀ e', Remembers r τ A e' → e.Within e' →
      (∀ u ∈ before, Knows r e' u) → ∃ n e'', sizeOf t e' = .ok n e'') :
    ∃ e', x e = .ok a e' := by
  induction h generalizing e with
  | pure a => exact ⟨e, rfl⟩
  | @note f _ => exact ⟨f e, rfl⟩
  | target g => exact ⟨e, by rw [← he.target]; rfl⟩
  | size t =>
    obtain ⟨n, e', hn⟩ := hok [] t [] rfl e he (.refl e) (by simp)
    have hsized := ((hsize t List.mem_cons_self e he).ok hn).1
    exact ⟨e', by rw [hn, hsized.eq_valueSize]⟩
  | @bind _ _ x k ts us a b hx _ ihx ihk =>
    have hts : ∀ t ∈ ts, Measures r τ A sizeOf t := fun t ht => hsize t (List.mem_append_left _ ht)
    obtain ⟨e₁, hfirst⟩ := ihx he hts fun before t after heq =>
      hok before t (after ++ us) (by rw [heq, List.append_assoc, List.cons_append])
    obtain ⟨-, -, hl⟩ := (hx.outcome he hts).ok hfirst
    obtain ⟨e₂, hsecond⟩ := ihk hl.remembers (fun t ht => hsize t (List.mem_append_right _ ht))
      fun before t after heq e' he' hle hbefore => by
        refine hok (ts ++ before) t after (by rw [heq, List.append_assoc]) e' he'
          (hl.within.trans hle) fun u hu => ?_
        rcases List.mem_append.mp hu with hu | hu
        · exact hle.knows (hl.known u hu)
        · exact hbefore u hu
    exact ⟨e₂, Registry.bind_eq_ok_iff.mpr ⟨a, e₁, hfirst, hsecond⟩⟩

/-! ## tables -/

def noting (e : LayoutEngine) (ts : List TypeId) : LayoutEngine :=
  { e with namesRead := ts.foldl insertUse e.namesRead }

theorem memory_noting (e : LayoutEngine) (ts : List TypeId) : e.memory = (noting e ts).memory := rfl

theorem readNames_bind_apply (ts : List TypeId) (k : Unit → LayoutQuery α) (e : LayoutEngine) :
    (readNames ts >>= k) e = k () (noting e ts) := rfl

variable {depth : Nat} {t : TypeId} {b : Bool}

theorem fieldTableAt_deep (hd : maxLayoutDepth < depth) :
    fieldTableAt r sizeOf depth t b e = .error (.recursionLimit maxLayoutDepth) e := by
  unfold fieldTableAt
  rw [if_pos hd]
  rfl

theorem fieldTableAt_remembered (hd : depth ≤ maxLayoutDepth) {entries : List FieldEntry}
    (h : e.tables.get? (r.typeKey t, b) = some entries) :
    fieldTableAt r sizeOf depth t b e = .ok entries (noting e [t]) := by
  have hn : (noting e [t]).tables.get? (r.typeKey t, b) = some entries := h
  unfold fieldTableAt
  rw [if_neg (by omega), readNames_bind_apply]
  dsimp only
  rw [Registry.get_bind_apply, hn]
  rfl

theorem fieldTableAt_new (hd : depth ≤ maxLayoutDepth)
    (h : e.tables.get? (r.typeKey t, b) = none) :
    fieldTableAt r sizeOf depth t b e =
      (newTable r sizeOf t b >>= fun entries =>
        modify (fun e => withTable r e t b entries) >>= fun _ => pure entries) (noting e [t]) := by
  have hn : (noting e [t]).tables.get? (r.typeKey t, b) = none := h
  unfold fieldTableAt newTable
  rw [if_neg (by omega), readNames_bind_apply]
  dsimp only
  rw [Registry.get_bind_apply, hn]
  split
  · rfl
  · simp only [bind_assoc, pure_bind]
    rfl

theorem outcome_newTable (he : Remembers r τ A e)
    (hsize : ∀ u ∈ r.listedTypes t b, Measures r τ A sizeOf u) :
    Outcome (newTable r sizeOf t b) e
      (fun entries e' => r.Tabled τ t b entries ∧
        Least r τ A (fun e => ∀ u ∈ r.listedTypes t b, Knows r e u) e e')
      (Stops r τ A (∃ entries, r.Tabled τ t b entries) e) := by
  cases htable : r.table τ (r.valueSize τ) t b with
  | ok entries =>
    have hmem : ∀ u, u ∈ askedTypes r t b ↔ u ∈ r.listedTypes t b := fun u => mem_askedTypes htable
    have hout := (asking_newTable htable).outcome he fun u hu => hsize u ((hmem u).mp hu)
    refine hout.weaken (fun entries' e' ⟨heq, hsizes, hl⟩ => ?_) fun err e' hs => ?_
    · subst heq
      refine ⟨⟨fun u hu => hsizes u ((hmem u).mpr hu), htable⟩, hl.congr fun e => ?_⟩
      simp only [hmem]
    · refine hs.after (.refl e) fun ⟨_, htab⟩ u hu => ?_
      exact htab.sizes u ((hmem u).mp hu)
  | error err =>
    refine .of_error (newTable_error htable e) ⟨he, .refl e, fun ⟨_, htab⟩ => ?_⟩
    rw [htab.table] at htable
    cases htable

theorem fieldTableAt_answers (hd : depth ≤ maxLayoutDepth) {entries : List FieldEntry}
    (htable : r.table τ (r.valueSize τ) t b = .ok entries) (he : Remembers r τ A e)
    (hsize : ∀ u ∈ r.listedTypes t b, Measures r τ A sizeOf u)
    (hok : ∀ before u after, askedTypes r t b = before ++ u :: after → ∀ e', Remembers r τ A e' →
      e.Within e' → (∀ v ∈ before, Knows r e' v) → ∃ n e'', sizeOf u e' = .ok n e'') :
    ∃ entries e', fieldTableAt r sizeOf depth t b e = .ok entries e' := by
  have hm := memory_noting e [t]
  cases hT : e.tables.get? (r.typeKey t, b) with
  | some entries => exact ⟨entries, _, fieldTableAt_remembered hd hT⟩
  | none =>
    obtain ⟨e₁, hnew⟩ := (asking_newTable htable).answers (he.of_memory hm)
      (fun u hu => hsize u ((mem_askedTypes htable).mp hu))
      fun before u after heq e' he' hle =>
        hok before u after heq e' he' ((Within.of_memory hm).trans hle)
    rw [fieldTableAt_new hd hT]
    exact ⟨entries, _, Registry.bind_eq_ok_iff.mpr ⟨entries, e₁, hnew, rfl⟩⟩

/-- a table fails if the first size does that it asks for -/
theorem fieldTableAt_stops (hd : depth ≤ maxLayoutDepth)
    (hT : e.tables.get? (r.typeKey t, b) = none)
    (hkind : (r.type t).form.isValueType = false ∨ ∃ kind, r.layoutKind t = .ok kind)
    {u : TypeId} {rest : List TypeId} (hasked : askedTypes r t b = u :: rest) {err : Error}
    (hfail : ∀ e', e.memory = e'.memory → ∃ e'', sizeOf u e' = .error err e'') :
    ∃ e', fieldTableAt r sizeOf depth t b e = .error err e' := by
  have hm := memory_noting e [t]
  obtain ⟨entries, htable⟩ := (Registry.table_ok_iff (τ := e.target) (b := b)
    (σ := r.valueSize e.target)).mpr hkind
  have hnew : Asking e.target (r.valueSize e.target) sizeOf (newTable r sizeOf t b)
      (askedTypes r t b) entries := asking_newTable htable
  rw [hasked] at hnew
  obtain ⟨hnil, -⟩ | ⟨v, rest', hcons, hfails⟩ := hnew.first (noting e [t]) rfl
  · cases hnil
  · cases hcons
    obtain ⟨e', hrun⟩ := hfails err fun e' he' => hfail e' (hm.trans he')
    exact ⟨e', by rw [fieldTableAt_new hd hT, Registry.bind_apply, hrun]⟩

section

variable (hkeys : r.KeysDistinctOn A) (ht : r.Reaches A t)
include hkeys ht

theorem Least.withTable {entries : List FieldEntry} (htab : r.Tabled τ t b entries)
    (h : Least r τ A (fun e => ∀ u ∈ r.listedTypes t b, Knows r e u) e e') :
    Least r τ A (fun e => HasTable r e t b) e (withTable r e' t b entries) where
  remembers := h.remembers.withTable hkeys ht htab h.known
  within := h.within.trans (within_withTable e' t b entries)
  known := hasTable_withTable e' t b entries
  least top htop hle hT := by
    obtain ⟨entries', htop'⟩ := Option.isSome_iff_exists.mp hT
    have hknown := (htop.table ht htop').2
    exact (h.least top htop hle hknown).withTable hT

/-- **A table that is answered is the one that the types determine**, at any depth. -/
theorem outcome_fieldTableAt (he : Remembers r τ A e)
    (hsize : ∀ u ∈ r.listedTypes t b, Measures r τ A sizeOf u) :
    Outcome (fieldTableAt r sizeOf depth t b) e
      (fun entries e' => r.Tabled τ t b entries ∧ Least r τ A (fun e => HasTable r e t b) e e')
      (Stops r τ A (∃ entries, r.Tabled τ t b entries) e) := by
  by_cases hd : maxLayoutDepth < depth
  · exact .of_error (fieldTableAt_deep hd) ⟨he, .refl e, fun _ => rfl⟩
  have hd' : depth ≤ maxLayoutDepth := by omega
  have hm := memory_noting e [t]
  cases hT : e.tables.get? (r.typeKey t, b) with
  | some entries =>
    refine .of_ok (fieldTableAt_remembered hd' hT) ⟨(he.table ht hT).1, ?_⟩
    exact .of_memory he hm (Option.isSome_of_eq_some hT)
  | none =>
    refine Outcome.congr ?_ (fieldTableAt_new hd' hT)
    have hnew := outcome_newTable (he.of_memory hm) hsize
    refine Outcome.bind (hnew.weaken (fun _ _ h => h) fun err e' hs => ?_)
      fun entries e₁ ⟨htab, hl⟩ => ?_
    · exact hs.after (.of_memory hm) id
    · exact .of_ok rfl ⟨htab, (hl.withTable hkeys ht htab).after hm⟩

end

/-! ## sizes -/

section

variable {steps : Nat} {n : UInt32}

theorem sizeAt_zero : sizeAt r 0 depth t e = .error (.recursionLimit maxLayoutDepth) e := rfl

theorem sizeAt_fixed (hf : e.target.fixedSize? r t = some n) :
    sizeAt r (steps + 1) depth t e = .ok n (noting e [t]) := by
  have hf' : (noting e [t]).target.fixedSize? r t = some n := hf
  rw [sizeAt, readNames_bind_apply, Registry.get_bind_apply, hf']
  rfl

section

variable (hf : e.target.fixedSize? r t = none)
include hf

theorem sizeAt_remembered (hs : e.sizes.get? (r.typeKey t) = some n) :
    sizeAt r (steps + 1) depth t e = .ok n (noting e [t]) := by
  have hf' : (noting e [t]).target.fixedSize? r t = none := hf
  have hs' : (noting e [t]).sizes.get? (r.typeKey t) = some n := hs
  rw [sizeAt, readNames_bind_apply, Registry.get_bind_apply, hf']
  simp only [hs']
  rfl

variable (hs : e.sizes.get? (r.typeKey t) = none)
include hs

theorem sizeAt_enumOver (he : (r.type t).form.isEnum = true) {u : TypeId}
    (hu : underlying? r t = some u) :
    sizeAt r (steps + 1) depth t e = sizeAt r steps (depth + 1) u (noting e [t]) := by
  have hf' : (noting e [t]).target.fixedSize? r t = none := hf
  have hs' : (noting e [t]).sizes.get? (r.typeKey t) = none := hs
  rw [sizeAt, readNames_bind_apply, Registry.get_bind_apply, hf']
  simp only [hs', he, hu, if_true]

theorem sizeAt_plainEnum (he : (r.type t).form.isEnum = true) (hu : underlying? r t = none) :
    sizeAt r (steps + 1) depth t e = .ok 4 (noting e [t]) := by
  have hf' : (noting e [t]).target.fixedSize? r t = none := hf
  have hs' : (noting e [t]).sizes.get? (r.typeKey t) = none := hs
  rw [sizeAt, readNames_bind_apply, Registry.get_bind_apply, hf']
  simp only [hs', he, hu, if_true]
  rfl

theorem sizeAt_fields (he : (r.type t).form.isEnum = false) :
    sizeAt r (steps + 1) depth t e =
      (valueStorageAt r (sizeAt r steps (depth + 1)) depth t >>= fun n =>
        modify (fun e => withSize r e t n) >>= fun _ => pure n) (noting e [t]) := by
  have hf' : (noting e [t]).target.fixedSize? r t = none := hf
  have hs' : (noting e [t]).sizes.get? (r.typeKey t) = none := hs
  rw [sizeAt, readNames_bind_apply, Registry.get_bind_apply, hf']
  simp only [hs', he, Bool.false_eq_true, if_false]
  rfl

end

section

variable (hkeys : r.KeysDistinctOn A) (ht : r.Reaches A t)
include hkeys ht

theorem outcome_valueStorageAt (depth : Nat) (he : Remembers r τ A e)
    (hsize : ∀ u ∈ r.listedTypes t false, Measures r τ A sizeOf u) :
    Outcome (valueStorageAt r sizeOf depth t) e
      (fun n e' => (∃ entries, r.Tabled τ t false entries ∧ n = τ.storageOf (r.type t) entries) ∧
        Least r τ A (fun e => HasTable r e t false) e e')
      (Stops r τ A (∃ entries, r.Tabled τ t false entries) e) := by
  refine (outcome_fieldTableAt hkeys ht he hsize).bind fun entries e' ⟨htab, hl⟩ => ?_
  exact .of_ok rfl ⟨⟨entries, htab, by rw [hl.remembers.target]⟩, hl⟩

theorem Least.withSize (hf : τ.fixedSize? r t = none) (henum : (r.type t).form.isEnum = false)
    (hn : r.SizeIs τ t n) (h : Least r τ A (fun e => HasTable r e t false) e e') :
    Least r τ A (fun e => Knows r e t) e (withSize r e' t n) where
  remembers := h.remembers.withSize hkeys ht hn henum h.known
  within := h.within.trans (within_withSize e' t n)
  known := by
    have hk : KnowsWithin r (LayoutEngine.withSize r e' t n) 1 t :=
      .inr (.inl ((isSome_get?_insert _ _ _ _).mpr (.inl rfl)))
    exact hk.knows (by rw [sizeSteps]; omega)
  least top htop hle hk := by
    rcases hk.cases htop ht hf with ⟨-, hs⟩ | ⟨henum', -⟩
    · obtain ⟨m, hm⟩ := Option.isSome_iff_exists.mp hs
      exact (h.least top htop hle (htop.size ht hm).2.2).withSize hs
    · rw [henum] at henum'
      cases henum'

end

theorem Least.enumOver {u : TypeId} (ht : r.Reaches A t) (hf : τ.fixedSize? r t = none)
    (henum : (r.type t).form.isEnum = true) (hu : underlying? r t = some u) (hk : Knows r e' t)
    (h : Least r τ A (fun e => Knows r e u) e e') : Least r τ A (fun e => Knows r e t) e e' where
  remembers := h.remembers
  within := h.within
  known := hk
  least top htop hle hkt := by
    rcases hkt.cases htop ht hf with ⟨henum', -⟩ | ⟨-, hu'⟩
    · cases henum.symm.trans henum'
    · exact h.least top htop hle (hu' u hu)

/-- `outcome_sizeAt` says that sizes are answered like this -/
abbrev Sized (r : Registry) (τ : Target) (A : Set TypeId) (steps : Nat) (x : LayoutQuery UInt32)
    (t : TypeId) (e : LayoutEngine) : Prop :=
  Outcome x e
    (fun n e' =>
      r.SizeIs τ t n ∧ KnowsWithin r e' steps t ∧ Least r τ A (fun e => Knows r e t) e e')
    (Stops r τ A (r.HasSize τ t) e)

/-- a size that is known already changes nothing -/
theorem sized_known {x : LayoutQuery UInt32} (he : Remembers r τ A e) (hle : steps ≤ sizeSteps r)
    (hx : x e = .ok n (noting e [t])) (hn : r.SizeIs τ t n) (hk : KnowsWithin r e steps t) :
    Sized r τ A steps x t e := by
  have hm := memory_noting e [t]
  have hk' := (Within.of_memory hm).knowsWithin hk
  exact .of_ok hx ⟨hn, hk', .of_memory he hm (hk'.knows hle)⟩

theorem sized_enumOver {u : TypeId} (ht : r.Reaches A t) (he : Remembers r τ A e)
    (hf : τ.fixedSize? r t = none) (hs : e.sizes.get? (r.typeKey t) = none)
    (henum : (r.type t).form.isEnum = true) (hu : underlying? r t = some u)
    (hle : steps + 1 ≤ sizeSteps r)
    (h : Sized r τ A steps (sizeAt r steps (depth + 1) u) u (noting e [t])) :
    Sized r τ A (steps + 1) (sizeAt r (steps + 1) depth t) t e := by
  have hm := memory_noting e [t]
  refine Outcome.congr (h.weaken (fun n e' ⟨hn, hk, hl⟩ => ?_) fun err e' hst => ?_)
    (sizeAt_enumOver (he.target ▸ hf) hs henum hu)
  · have hkt : KnowsWithin r e' (steps + 1) t := by
      refine .inr (.inr ⟨henum, fun v hv => ?_⟩)
      cases hu.symm.trans hv
      exact hk
    have hl' := hl.enumOver ht hf henum hu (hkt.knows hle)
    exact ⟨.enumOver hf henum hu hn, hkt, hl'.after hm⟩
  · exact hst.after (.of_memory hm) fun h => h.underlying hf henum hu

theorem sized_fields (hkeys : r.KeysDistinctOn A) (ht : r.Reaches A t) (he : Remembers r τ A e)
    (hf : τ.fixedSize? r t = none) (hs : e.sizes.get? (r.typeKey t) = none)
    (henum : (r.type t).form.isEnum = false)
    (hsize : ∀ u ∈ r.listedTypes t false, Measures r τ A (sizeAt r steps (depth + 1)) u) :
    Sized r τ A (steps + 1) (sizeAt r (steps + 1) depth t) t e := by
  have hm := memory_noting e [t]
  have hstorage := outcome_valueStorageAt hkeys ht depth (he.of_memory hm) hsize
  refine Outcome.congr ?_ (sizeAt_fields (he.target ▸ hf) hs henum)
  refine Outcome.bind (hstorage.weaken (fun _ _ h => h) fun err e' hst => ?_)
    fun n e₁ ⟨⟨entries, htab, hn⟩, hl⟩ => ?_
  · exact hst.after (.of_memory hm) fun h => h.tabled hf henum
  · subst hn
    have hsize := htab.sizeIs hf henum
    refine .of_ok rfl ⟨hsize, .inr (.inl ?_), (hl.withSize hkeys ht hf henum hsize).after hm⟩
    exact (isSome_get?_insert _ _ _ _).mpr (.inl rfl)

/-- **A size that is answered is the one that the types determine**, at any depth. -/
theorem outcome_sizeAt (hkeys : r.KeysDistinctOn A) (hle : steps ≤ sizeSteps r)
    (depth : Nat) (ht : τ.fixedSize? r t = none → r.Reaches A t) (he : Remembers r τ A e) :
    Sized r τ A steps (sizeAt r steps depth t) t e := by
  induction steps generalizing depth t e with
  | zero => exact .of_error sizeAt_zero ⟨he, .refl e, fun _ => rfl⟩
  | succ steps ih =>
    have ih' (depth : Nat) {u : TypeId} (hu : τ.fixedSize? r u = none → r.Reaches A u)
        {e : LayoutEngine} (he : Remembers r τ A e) := ih (by omega) depth hu he
    have hτ := he.target
    cases hf : τ.fixedSize? r t with
    | some n =>
      have hfe : e.target.fixedSize? r t = some n := hτ ▸ hf
      exact sized_known he hle (sizeAt_fixed hfe) (.fixed hf) (.inl (Option.isSome_of_eq_some hfe))
    | none =>
      have hfe : e.target.fixedSize? r t = none := hτ ▸ hf
      cases hs : e.sizes.get? (r.typeKey t) with
      | some n =>
        have hk : KnowsWithin r e (steps + 1) t := .inr (.inl (Option.isSome_of_eq_some hs))
        exact sized_known he hle (sizeAt_remembered hfe hs) (he.size (ht hf) hs).1 hk
      | none =>
        cases henum : (r.type t).form.isEnum with
        | true =>
          cases hu : underlying? r t with
          | none =>
            have hk : KnowsWithin r e (steps + 1) t :=
              .inr (.inr ⟨henum, fun u hu' => by cases hu.symm.trans hu'⟩)
            exact sized_known he hle (sizeAt_plainEnum hfe hs henum hu) (.plainEnum hf henum hu) hk
          | some u =>
            have hm := memory_noting e [t]
            exact sized_enumOver (ht hf) he hf hs henum hu hle
              (ih' (depth + 1) ((ht hf).underlying henum hu) (he.of_memory hm))
        | false =>
          refine sized_fields hkeys (ht hf) he hf hs henum fun u hu e he => ?_
          exact (ih' (depth + 1) ((ht hf).listed hu) he).weaken
            (fun _ _ ⟨hn, _, hl⟩ => ⟨hn, hl⟩) fun _ _ h => h

theorem measures_sizeAt (hkeys : r.KeysDistinctOn A) (hle : steps ≤ sizeSteps r)
    (depth : Nat) (ht : τ.fixedSize? r t = none → r.Reaches A t) :
    Measures r τ A (sizeAt r steps depth) t :=
  fun _ he => (outcome_sizeAt hkeys hle depth ht he).weaken
    (fun _ _ ⟨hn, _, hl⟩ => ⟨hn, hl⟩) fun _ _ h => h

end

/-! ## sizes that are known -/

variable {steps n : Nat}

theorem sizeAt_of_knowsWithin (h : KnowsWithin r e n t) (hle : n ≤ steps) (depth : Nat) :
    ∃ m e', sizeAt r steps depth t e = .ok m e' := by
  induction n generalizing steps depth t e with
  | zero => cases h
  | succ n ih =>
    obtain ⟨steps, rfl⟩ : ∃ k, steps = k + 1 := ⟨steps - 1, by omega⟩
    cases hf : e.target.fixedSize? r t with
    | some m => exact ⟨m, _, sizeAt_fixed hf⟩
    | none =>
      cases hs : e.sizes.get? (r.typeKey t) with
      | some m => exact ⟨m, _, sizeAt_remembered hf hs⟩
      | none =>
        unfold KnowsWithin at h
        rw [hf, hs] at h
        obtain ⟨henum, hu'⟩ := (h.resolve_left (by simp)).resolve_left (by simp)
        cases hu : underlying? r t with
        | none => exact ⟨4, _, sizeAt_plainEnum hf hs henum hu⟩
        | some u =>
          have hku := (Within.of_memory (memory_noting e [t])).knowsWithin (hu' u hu)
          rw [sizeAt_enumOver hf hs henum hu]
          exact ih hku (by omega) (depth + 1)

/-- in an engine that remembers what `e` does, the size of `t` is at most `n` levels of value types
away -/
def NestsWithin (r : Registry) (e : LayoutEngine) : (n : Nat) → TypeId → Prop
  | 0, t =>
    (e.target.fixedSize? r t).isSome = true ∨ (e.sizes.get? (r.typeKey t)).isSome = true
  | n + 1, t =>
    (e.target.fixedSize? r t).isSome = true ∨ (e.sizes.get? (r.typeKey t)).isSome = true ∨
      ((r.type t).form.isEnum = true ∧ ∀ u, underlying? r t = some u → NestsWithin r e n u) ∨
      ((r.type t).form.isEnum = false ∧ (∃ kind, r.layoutKind t = .ok kind) ∧
        ∀ u ∈ r.listedTypes t false, NestsWithin r e n u)

theorem Within.nestsWithin (h : e.Within e') (ht : NestsWithin r e n t) : NestsWithin r e' n t := by
  induction n generalizing t with
  | zero =>
    unfold NestsWithin at ht ⊢
    rw [← h.target]
    exact ht.imp_right (h.sizes _)
  | succ n ih =>
    unfold NestsWithin at ht ⊢
    rw [← h.target]
    rcases ht with hf | hs | ⟨henum, hu⟩ | ⟨henum, hkind, hu⟩
    · exact .inl hf
    · exact .inr (.inl (h.sizes _ hs))
    · exact .inr (.inr (.inl ⟨henum, fun u hu' => ih (hu u hu')⟩))
    · exact .inr (.inr (.inr ⟨henum, hkind, fun u hu' => ih (hu u hu')⟩))

theorem sizeAt_answers (hkeys : r.KeysDistinctOn A) (ht : r.Reaches A t)
    (he : Remembers r τ A e) (hf : e.target.fixedSize? r t = none)
    (hs : e.sizes.get? (r.typeKey t) = none) (henum : (r.type t).form.isEnum = false)
    (hkind : ∃ kind, r.layoutKind t = .ok kind) (hle : steps ≤ sizeSteps r)
    (hdepth : depth ≤ maxLayoutDepth)
    (hok : ∀ u ∈ r.listedTypes t false, ∀ e', Remembers r τ A e' → e.Within e' →
      ∃ m e'', sizeAt r steps (depth + 1) u e' = .ok m e'') :
    ∃ m e', sizeAt r (steps + 1) depth t e = .ok m e' := by
  have hm := memory_noting e [t]
  obtain ⟨entries, htable⟩ := Registry.table_ok_iff.mpr (.inr hkind)
  have hmeasures : ∀ u ∈ r.listedTypes t false, Measures r τ A (sizeAt r steps (depth + 1)) u :=
    fun u hu => measures_sizeAt hkeys hle (depth + 1) (ht.listed hu)
  obtain ⟨entries', e₁, hrun⟩ := fieldTableAt_answers hdepth htable (he.of_memory hm) hmeasures
    fun before u after heq e' he' hle' _ => by
      have hu : u ∈ r.listedTypes t false :=
        (mem_askedTypes htable).mp (heq ▸ List.mem_append_right _ List.mem_cons_self)
      exact hok u hu e' he' ((Within.of_memory hm).trans hle')
  rw [sizeAt_fields hf hs henum]
  have hstorage := Registry.bind_eq_ok_iff (k := fun entries => get >>= fun e =>
    pure (e.target.storageOf (r.type t) entries)).mpr ⟨entries', e₁, hrun, rfl⟩
  exact ⟨_, _, Registry.bind_eq_ok_iff.mpr ⟨_, _, hstorage, rfl⟩⟩

/-- **Value types that are nested no deeper than the limit have their sizes answered.** -/
theorem sizeAt_of_nestsWithin (hkeys : r.KeysDistinctOn A)
    (ht : τ.fixedSize? r t = none → r.Reaches A t) (he : Remembers r τ A e)
    (h : NestsWithin r e n t) (hsteps : n < steps) (hle : steps ≤ sizeSteps r)
    (hdepth : depth + n ≤ maxLayoutDepth + 1) :
    ∃ m e', sizeAt r steps depth t e = .ok m e' := by
  induction n generalizing steps depth t e with
  | zero =>
    obtain ⟨steps, rfl⟩ : ∃ k, steps = k + 1 := ⟨steps - 1, by omega⟩
    cases hf : e.target.fixedSize? r t with
    | some m => exact ⟨m, _, sizeAt_fixed hf⟩
    | none =>
      unfold NestsWithin at h
      rw [hf] at h
      obtain ⟨m, hs⟩ := Option.isSome_iff_exists.mp (h.resolve_left (by simp))
      exact ⟨m, _, sizeAt_remembered hf hs⟩
  | succ n ih =>
    obtain ⟨steps, rfl⟩ : ∃ k, steps = k + 1 := ⟨steps - 1, by omega⟩
    cases hf : e.target.fixedSize? r t with
    | some m => exact ⟨m, _, sizeAt_fixed hf⟩
    | none =>
      cases hs : e.sizes.get? (r.typeKey t) with
      | some m => exact ⟨m, _, sizeAt_remembered hf hs⟩
      | none =>
        have hm := memory_noting e [t]
        have htA := ht (he.target ▸ hf)
        unfold NestsWithin at h
        rw [hf, hs] at h
        rcases (h.resolve_left (by simp)).resolve_left (by simp) with
          ⟨henum, hu⟩ | ⟨henum, hkind, hlisted⟩
        · cases hunder : underlying? r t with
          | none => exact ⟨4, _, sizeAt_plainEnum hf hs henum hunder⟩
          | some u =>
            rw [sizeAt_enumOver hf hs henum hunder]
            exact ih (htA.underlying henum hunder) (he.of_memory hm)
              ((Within.of_memory hm).nestsWithin (hu u hunder)) (by omega) (by omega) (by omega)
        · refine sizeAt_answers hkeys htA he hf hs henum hkind (by omega) (by omega)
            fun u hu e' he' hle' => ?_
          exact ih (htA.listed hu) he' (hle'.nestsWithin (hlisted u hu)) (by omega) (by omega)
            (by omega)

/-- the size of `t` is not remembered, and is the first one asked for after more than `n` levels -/
def NestsBeyond (r : Registry) (e : LayoutEngine) : (n : Nat) → TypeId → Prop
  | 0, t =>
    e.target.fixedSize? r t = none ∧ e.sizes.get? (r.typeKey t) = none ∧
      (r.type t).form.isEnum = false
  | n + 1, t =>
    (e.target.fixedSize? r t = none ∧ e.sizes.get? (r.typeKey t) = none ∧
      (r.type t).form.isEnum = false) ∧
      e.tables.get? (r.typeKey t, false) = none ∧ (∃ kind, r.layoutKind t = .ok kind) ∧
      ∃ u rest, askedTypes r t false = u :: rest ∧ NestsBeyond r e n u

theorem NestsBeyond.of_memory (h : NestsBeyond r e n t) (hm : e.memory = e'.memory) :
    NestsBeyond r e' n t := by
  obtain ⟨htarget, htables, hsizes⟩ := memory_eq_iff.mp hm
  induction n generalizing t with
  | zero =>
    unfold NestsBeyond at h ⊢
    rw [← htarget, ← hsizes]
    exact h
  | succ n ih =>
    unfold NestsBeyond at h ⊢
    obtain ⟨hself, htable, hkind, u, rest, hasked, hu⟩ := h
    rw [← htarget, ← hsizes, ← htables]
    exact ⟨hself, htable, hkind, u, rest, hasked, ih hu⟩

/-- **Value types that are nested deeper than the limit fail**, where nothing of them is
remembered. -/
theorem sizeAt_of_nestsBeyond (h : NestsBeyond r e n t) (hdepth : maxLayoutDepth < depth + n) :
    ∃ e', sizeAt r steps depth t e = .error (.recursionLimit maxLayoutDepth) e' := by
  induction n generalizing steps depth t e with
  | zero =>
    cases steps with
    | zero => exact ⟨e, sizeAt_zero⟩
    | succ steps =>
      obtain ⟨hf, hs, henum⟩ := h
      refine ⟨noting e [t], ?_⟩
      rw [sizeAt_fields hf hs henum, Registry.bind_apply, valueStorageAt, Registry.bind_apply,
        fieldTableAt_deep (by omega)]
  | succ n ih =>
    cases steps with
    | zero => exact ⟨e, sizeAt_zero⟩
    | succ steps =>
      have hm := memory_noting e [t]
      obtain ⟨⟨hf, hs, henum⟩, hT, hkind, u, rest, hasked, hu⟩ := h
      suffices htable : ∃ e', fieldTableAt r (sizeAt r steps (depth + 1)) depth t false
          (noting e [t]) = .error (.recursionLimit maxLayoutDepth) e' by
        obtain ⟨e', htable⟩ := htable
        refine ⟨e', ?_⟩
        rw [sizeAt_fields hf hs henum, Registry.bind_apply, valueStorageAt, Registry.bind_apply,
          htable]
      by_cases hd : maxLayoutDepth < depth
      · exact ⟨_, fieldTableAt_deep hd⟩
      · have hd' : depth ≤ maxLayoutDepth := by omega
        have hdeep : maxLayoutDepth < depth + 1 + n := by omega
        exact fieldTableAt_stops (e := noting e [t]) hd' hT (.inr hkind) hasked fun e' he' =>
          ih (hu.of_memory (hm.trans he')) hdeep

end LayoutEngine

end ProgramScan

import ProgramScan.Proofs.Layout.Tables
import ProgramScan.Proofs.Registry.Settled

/-!
# Asking for sizes

To make a table, the engine asks for sizes, one after the other, notes what it read, and computes.
`Asking` says so of a query, with the types it asks about and its answer when `σ` gives the sizes:
one constructor for each thing that a query can do.

* `LayoutEngine.memory`   what an engine answers from: target, tables and sizes;
* `Asking`                a query that asks only for sizes;
* `asking_newTable`       a table is made by asking for the sizes of its listed fields.
-/

namespace ProgramScan

namespace LayoutEngine

variable {α β : Type}

/-- the engine without sink, diagnostics and notes -/
def memory (e : LayoutEngine) : LayoutEngine :=
  { target := e.target, tables := e.tables, sizes := e.sizes }

theorem memory_eq_iff {e e' : LayoutEngine} : e.memory = e'.memory ↔
    e.target = e'.target ∧ e.tables = e'.tables ∧ e.sizes = e'.sizes := by
  simp [memory]

/-- `x` asks for the sizes of `ts` and answers `a` if they are as `σ` says -/
inductive Asking (τ : Target) (σ : TypeId → UInt32) (sizeOf : TypeId → LayoutQuery UInt32) :
    {α : Type} → LayoutQuery α → List TypeId → α → Prop
  | pure {α : Type} (a : α) : Asking τ σ sizeOf (pure a) [] a
  | note {f : LayoutEngine → LayoutEngine} (h : ∀ e, (f e).memory = e.memory) :
      Asking τ σ sizeOf (modify f) [] ()
  | target {α : Type} (g : Target → α) :
      Asking τ σ sizeOf (get >>= fun e => pure (g e.target)) [] (g τ)
  | size (t : TypeId) : Asking τ σ sizeOf (sizeOf t) [t] (σ t)
  | bind {α β : Type} {x : LayoutQuery α} {k : α → LayoutQuery β} {ts us : List TypeId} {a : α}
      {b : β} (hx : Asking τ σ sizeOf x ts a) (hk : Asking τ σ sizeOf (k a) us b) :
      Asking τ σ sizeOf (x >>= k) (ts ++ us) b

variable {r : Registry} {τ : Target} {σ : TypeId → UInt32} {sizeOf : TypeId → LayoutQuery UInt32}

theorem Asking.map {x : LayoutQuery α} {ts : List TypeId} {a : α} (hx : Asking τ σ sizeOf x ts a)
    (g : α → β) : Asking τ σ sizeOf (x >>= fun a => Pure.pure (g a)) ts (g a) := by
  have h := Asking.bind (k := fun a => Pure.pure (g a)) hx (.pure (g a))
  rw [List.append_nil] at h
  exact h

theorem Asking.mapTarget {x : LayoutQuery α} {ts : List TypeId} {a : α}
    (hx : Asking τ σ sizeOf x ts a) (g : α → Target → β) :
    Asking τ σ sizeOf (x >>= fun a => get >>= fun e => Pure.pure (g a e.target)) ts (g a τ) := by
  have h := Asking.bind (k := fun a => get >>= fun e => Pure.pure (g a e.target)) hx (.target (g a))
  rw [List.append_nil] at h
  exact h

theorem Asking.mapM {γ : Type} {f : γ → LayoutQuery α} {g : γ → α} {ts : γ → List TypeId}
    {l : List γ} (h : ∀ c ∈ l, Asking τ σ sizeOf (f c) (ts c) (g c)) :
    Asking τ σ sizeOf (l.mapM f) (l.flatMap ts) (l.map g) := by
  induction l with
  | nil => exact .pure []
  | cons c l ih =>
    rw [List.mapM_cons, List.flatMap_cons, List.map_cons]
    have hl := ih fun c' hc' => h c' (List.mem_cons_of_mem _ hc')
    exact .bind (h c List.mem_cons_self) (hl.map (g c :: ·))

/-- Up to the first size that it asks for, a query changes nothing that is remembered.  If this size
fails, so does the query. -/
theorem Asking.first {x : LayoutQuery α} {ts : List TypeId} {a : α}
    (h : Asking τ σ sizeOf x ts a) (e : LayoutEngine) (he : e.target = τ) :
    (ts = [] ∧ ∃ e', x e = .ok a e' ∧ e.memory = e'.memory) ∨
      ∃ t rest, ts = t :: rest ∧ ∀ err,
        (∀ e', e.memory = e'.memory → ∃ e'', sizeOf t e' = .error err e'') →
          ∃ e', x e = .error err e' := by
  induction h generalizing e with
  | pure a => exact .inl ⟨rfl, e, rfl, rfl⟩
  | @note f hm => exact .inl ⟨rfl, f e, rfl, (hm e).symm⟩
  | target g => exact .inl ⟨rfl, e, by rw [← he]; rfl, rfl⟩
  | size t => exact .inr ⟨t, [], rfl, fun err hfail => hfail e rfl⟩
  | @bind _ _ x k ts us a b _ _ ihx ihk =>
    rcases ihx e he with ⟨rfl, e₁, hx, hm⟩ | ⟨t, rest, rfl, hfails⟩
    · rcases ihk e₁ ((memory_eq_iff.mp hm).1 ▸ he) with ⟨rfl, e₂, hk, hm'⟩ | ⟨t, rest, rfl, hfails⟩
      · exact .inl ⟨rfl, e₂, Registry.bind_eq_ok_iff.mpr ⟨a, e₁, hx, hk⟩, hm.trans hm'⟩
      · refine .inr ⟨t, rest, rfl, fun err hfail => ?_⟩
        obtain ⟨e₂, hk⟩ := hfails err fun e' hm' => hfail e' (hm.trans hm')
        exact ⟨e₂, by rw [Registry.bind_apply, hx]; exact hk⟩
    · refine .inr ⟨t, rest ++ us, rfl, fun err hfail => ?_⟩
      obtain ⟨e₁, hx⟩ := hfails err hfail
      exact ⟨e₁, by rw [Registry.bind_apply, hx]⟩

/-! ## the functions of the engine -/

theorem asking_readNames (ts : List TypeId) : Asking τ σ sizeOf (readNames ts) [] () :=
  .note fun _ => rfl

theorem asking_describe (declaring : TypeId) (f : FieldId) :
    Asking τ σ sizeOf (describe r sizeOf declaring f) [(r.field f).type]
      (r.entryOf σ declaring f) :=
  .bind (.size _) (.bind (asking_readNames _) (.pure _))

theorem asking_describeMember (declaring : TypeId) (f : FieldId) :
    Asking τ σ sizeOf (describeMember r sizeOf declaring f) [(r.field f).type]
      (r.memberEntry σ declaring f) := by
  have h : Asking τ σ sizeOf (describe r sizeOf declaring f) [(r.field f).type]
      (r.entryOf σ declaring f) := asking_describe declaring f
  unfold describeMember Registry.memberEntry
  cases (r.field f).explicitOffset? with
  | none => exact h.map fun e => { e with isStatic := (r.field f).isStatic }
  | some offset =>
    exact h.map fun e =>
      { e with isStatic := (r.field f).isStatic, offset, hasExplicitOffset := true }

/-- the sizes that one level of a reference type asks for -/
def levelTypes (r : Registry) (withStatic : Bool) (level : TypeId) : List TypeId :=
  (r.byFieldName (r.listedAt withStatic level)).flatMap fun f => [(r.field f).type]

theorem asking_describeLevel (b : Bool) (level : TypeId) :
    Asking τ σ sizeOf (describeLevel r sizeOf b level) (levelTypes r b level)
      (r.levelEntries σ b level) :=
  .mapM fun f _ => asking_describeMember level f

theorem asking_referenceFields (t : TypeId) (b : Bool) :
    Asking τ σ sizeOf (referenceFields r sizeOf t b)
      ((t :: r.ancestors t).flatMap (levelTypes r b)) (r.referenceTable σ t b) := by
  have hlevels : Asking τ σ sizeOf ((t :: r.ancestors t).mapM (describeLevel r sizeOf b))
      ((t :: r.ancestors t).flatMap (levelTypes r b))
      ((t :: r.ancestors t).map (r.levelEntries σ b)) :=
    .mapM fun level _ => asking_describeLevel b level
  exact hlevels.map fun levels => placeDense 0 levels.flatten.reverse

/-- the sizes that sequential layout asks for: all for the alignment, then one by one -/
def sequentialTypes (r : Registry) (t : TypeId) : List TypeId :=
  (r.instanceFields t).flatMap (fun f => [(r.field f).type]) ++
    (r.byFieldToken (r.instanceFields t)).flatMap fun f => [(r.field f).type]

theorem asking_sequentialFields (t : TypeId) :
    Asking τ σ sizeOf (sequentialFields r sizeOf t) (sequentialTypes r t)
      (r.sequentialTable τ σ t) := by
  have hsizes : Asking τ σ sizeOf ((r.instanceFields t).mapM fun f => sizeOf (r.field f).type)
      ((r.instanceFields t).flatMap fun f => [(r.field f).type])
      ((r.instanceFields t).map fun f => σ (r.field f).type) :=
    .mapM fun f _ => .size _
  have hentries : Asking τ σ sizeOf
      ((r.byFieldToken (r.instanceFields t)).mapM (describe r sizeOf t))
      ((r.byFieldToken (r.instanceFields t)).flatMap fun f => [(r.field f).type])
      ((r.byFieldToken (r.instanceFields t)).map (r.entryOf σ t)) :=
    .mapM fun f _ => asking_describe t f
  exact hsizes.bind (hentries.mapTarget fun entries target =>
    placeAligned (min (target.packing (r.type t))
      (largest id ((r.instanceFields t).map fun f => σ (r.field f).type))) 0 entries)

theorem asking_describeFixed (t : TypeId) (f : FieldId) :
    Asking τ σ sizeOf (describeFixed r sizeOf t f) [(r.field f).type] (r.fixedEntry σ t f) :=
  (asking_describe t f).map fun e =>
    { e with offset := (r.field f).explicitOffset?.getD 0, hasExplicitOffset := true }

theorem asking_describeStatic (t : TypeId) (f : FieldId) :
    Asking τ σ sizeOf (describeStatic r sizeOf t f) [(r.field f).type] (r.staticEntry σ t f) :=
  (asking_describe t f).map fun e => { e with isStatic := true }

def staticTypes (r : Registry) (t : TypeId) (withStatic : Bool) : List TypeId :=
  if withStatic then (r.staticFields t).flatMap fun f => [(r.field f).type] else []

theorem asking_statics (t : TypeId) (b : Bool) (placed : List FieldEntry) :
    Asking τ σ sizeOf
      (if b then (r.staticFields t).mapM (describeStatic r sizeOf t) >>= fun statics =>
          pure (placed ++ statics)
        else pure (placed ++ []))
      (staticTypes r t b)
      (placed ++ if b then (r.staticFields t).map (r.staticEntry σ t) else []) := by
  cases b with
  | true => exact Asking.map (.mapM fun f _ => asking_describeStatic t f) (placed ++ ·)
  | false => exact .pure (placed ++ [])

def valueTypes (r : Registry) (t : TypeId) (withStatic : Bool) : LayoutKind → List TypeId
  | .auto | .sequential => sequentialTypes r t ++ staticTypes r t withStatic
  | .explicit =>
    (r.instanceFields t).flatMap (fun f => [(r.field f).type]) ++ staticTypes r t withStatic

theorem asking_valueFields {t : TypeId} (b : Bool) {kind : LayoutKind}
    (hk : r.layoutKind t = .ok kind) :
    Asking τ σ sizeOf (valueFields r sizeOf t b) (valueTypes r t b kind)
      (r.valueTable τ σ t b kind) := by
  unfold valueFields
  rw [hk]
  simp only [MonadExcept.ofExcept, pure_bind]
  cases kind with
  | auto => exact (asking_sequentialFields t).bind (asking_statics t b _)
  | sequential => exact (asking_sequentialFields t).bind (asking_statics t b _)
  | explicit => exact (Asking.mapM fun f _ => asking_describeFixed t f).bind (asking_statics t b _)

theorem valueFields_error {t : TypeId} (b : Bool) {err : Error} (hk : r.layoutKind t = .error err)
    (e : LayoutEngine) : valueFields r sizeOf t b e = .error err e := by
  unfold valueFields
  rw [hk]
  rfl

theorem memory_report (what : String) (record : DebugRecord) (e : LayoutEngine) :
    (report what record e).memory = e.memory := by
  unfold report
  cases e.sink with
  | none => rfl
  | some sink =>
    cases hw : sink.write record with
    | ok sink' => simp only [hw, memory]
    | error err => simp only [hw, memory]

theorem asking_reportTable (t : TypeId) (entries : List FieldEntry) :
    Asking τ σ sizeOf (reportTable r t entries) [] () :=
  .bind (.note (memory_report _ _)) (.note (memory_report _ _))

def newTable (r : Registry) (sizeOf : TypeId → LayoutQuery UInt32) (t : TypeId) (withStatic : Bool) :
    LayoutQuery (List FieldEntry) :=
  if (r.type t).form.isValueType then valueFields r sizeOf t withStatic
  else do
    let entries ← referenceFields r sizeOf t withStatic
    reportTable r t entries
    pure entries

def askedTypes (r : Registry) (t : TypeId) (withStatic : Bool) : List TypeId :=
  if (r.type t).form.isValueType then
    match r.layoutKind t with
    | .ok kind => valueTypes r t withStatic kind
    | .error _ => []
  else (t :: r.ancestors t).flatMap (levelTypes r withStatic)

/-- A new table asks for sizes only, and is the one that these sizes give. -/
theorem asking_newTable {t : TypeId} {b : Bool} {entries : List FieldEntry}
    (h : r.table τ σ t b = .ok entries) :
    Asking τ σ sizeOf (newTable r sizeOf t b) (askedTypes r t b) entries := by
  unfold newTable askedTypes
  cases hv : (r.type t).form.isValueType with
  | true =>
    rw [Registry.table_value hv] at h
    cases hk : r.layoutKind t with
    | ok kind =>
      rw [hk] at h
      cases h
      exact asking_valueFields b hk
    | error err => rw [hk] at h; cases h
  | false =>
    rw [Registry.table_reference hv] at h
    cases h
    have hreport : Asking τ σ sizeOf
        (reportTable r t (r.referenceTable σ t b) >>= fun _ => pure (r.referenceTable σ t b)) []
        (r.referenceTable σ t b) := (asking_reportTable t _).map fun _ => _
    have hall := Asking.bind (k := fun entries => reportTable r t entries >>= fun _ => pure entries)
      (asking_referenceFields t b) hreport
    rw [List.append_nil] at hall
    exact hall

theorem newTable_error {t : TypeId} {b : Bool} {err : Error} (h : r.table τ σ t b = .error err)
    (e : LayoutEngine) : newTable r sizeOf t b e = .error err e := by
  unfold newTable
  cases hv : (r.type t).form.isValueType with
  | false => rw [Registry.table_reference hv] at h; cases h
  | true =>
    rw [Registry.table_value hv] at h
    cases hk : r.layoutKind t with
    | ok kind => rw [hk] at h; cases h
    | error err' =>
      rw [hk] at h
      cases h
      exact valueFields_error b hk e

theorem mem_askedTypes {t u : TypeId} {b : Bool} {entries : List FieldEntry}
    (h : r.table τ σ t b = .ok entries) : u ∈ askedTypes r t b ↔ u ∈ r.listedTypes t b := by
  unfold askedTypes
  rw [Registry.mem_listedTypes]
  cases hv : (r.type t).form.isValueType with
  | true =>
    rw [Registry.table_value hv] at h
    cases hk : r.layoutKind t with
    | error err => rw [hk] at h; cases h
    | ok kind =>
      rw [Registry.levels_value hv]
      cases kind <;> cases b <;>
        simp [valueTypes, sequentialTypes, staticTypes, Registry.mem_byFieldToken,
          Registry.mem_listedAt_iff, or_and_right, exists_or, eq_comm]
  | false =>
    rw [Registry.levels_reference hv]
    simp [levelTypes, Registry.mem_byFieldName, eq_comm]

end LayoutEngine

end ProgramScan

import ProgramScan.Proofs.Layout.Transparent
import ProgramScan.Proofs.Registry.Building

/-!
# Sequences of queries

An engine is asked one thing after the other, and some queries fail.

* `Query`, `Query.run`   what an engine can be asked, and its answer;
* `Query.applyAll`       the engine after a sequence of queries;
* `run_after_queries`    what a fresh engine answers is answered after any queries.
-/

namespace ProgramScan

namespace LayoutEngine

variable {r : Registry} {τ : Target} {A : Set TypeId} {e : LayoutEngine}

inductive Query
  | fields (t : TypeId) (withStatic : Bool)
  | size (t : TypeId)
  | storage (t : TypeId)
  | slots (t : TypeId)
  | resolve (t : TypeId) (id : String) (onlyInstance : Bool)
  | resolveOf (f : FieldId)

inductive Answer
  | table (entries : List FieldEntry)
  | number (n : UInt32)
  | entry (e : FieldEntry)

namespace Query

def type (r : Registry) : Query → TypeId
  | fields t _ => t
  | size t => t
  | storage t => t
  | slots t => t
  | resolve t _ _ => t
  | resolveOf f => (r.field f).declaring

def run (r : Registry) : Query → LayoutQuery Answer
  | fields t withStatic => return .table (← fieldTable r t withStatic)
  | size t => return .number (← sizeOfType r t)
  | storage t => return .number (← storageSize r t)
  | slots t => return .number (← stackSlots r t)
  | resolve t id onlyInstance => return .entry (← resolveField r t id onlyInstance)
  | resolveOf f => return .entry (← resolveFieldOf r f)

def apply (r : Registry) (q : Query) (e : LayoutEngine) : LayoutEngine :=
  match q.run r e with
  | .ok _ e' => e'
  | .error _ e' => e'

def applyAll (r : Registry) (qs : List Query) (e : LayoutEngine) : LayoutEngine :=
  qs.foldl (fun e q => q.apply r e) e

variable (hkeys : r.KeysDistinctOn A)
include hkeys

theorem transparent_run {q : Query} (hq : q.type r ∈ A) : Transparent r τ A (q.run r) := by
  have ht : r.Reaches A (q.type r) := .asked hq
  cases q with
  | fields t b => exact (transparent_fieldTable hkeys ht).bind fun _ => transparent_pure _
  | size t => exact (transparent_sizeOfType hkeys ht).bind fun _ => transparent_pure _
  | storage t => exact (transparent_storageSize hkeys ht).bind fun _ => transparent_pure _
  | slots t => exact (transparent_stackSlots hkeys ht).bind fun _ => transparent_pure _
  | resolve t id only =>
    exact (transparent_resolveField hkeys ht id only).bind fun _ => transparent_pure _
  | resolveOf f => exact (transparent_resolveFieldOf hkeys ht).bind fun _ => transparent_pure _

theorem remembers_apply {q : Query} (hq : q.type r ∈ A) (he : Remembers r τ A e) :
    Remembers r τ A (q.apply r e) ∧ e.Within (q.apply r e) := by
  have hkeeps := (transparent_run hkeys hq).keeps e he
  unfold apply
  split
  · rename_i hrun
    exact hkeeps.ok hrun
  · rename_i hrun
    exact hkeeps.error hrun

theorem remembers_applyAll {qs : List Query} (hqs : ∀ q ∈ qs, q.type r ∈ A)
    (he : Remembers r τ A e) :
    Remembers r τ A (applyAll r qs e) ∧ e.Within (applyAll r qs e) := by
  induction qs generalizing e with
  | nil => exact ⟨he, .refl e⟩
  | cons q qs ih =>
    obtain ⟨he', hle⟩ := remembers_apply hkeys (hqs q List.mem_cons_self) he
    obtain ⟨he'', hle'⟩ := ih (fun q hq => hqs q (List.mem_cons_of_mem _ hq)) he'
    exact ⟨he'', hle.trans hle'⟩

omit hkeys in
theorem applyAll_append (qs qs' : List Query) (e : LayoutEngine) :
    applyAll r (qs ++ qs') e = applyAll r qs' (applyAll r qs e) := List.foldl_append

/-- **What is remembered changes no answer.**  What a fresh engine answers, any engine for the same
target answers after any queries, those that failed included. -/
theorem run_after_queries {fresh start : LayoutEngine} (hfresh : Fresh τ fresh)
    (hstart : Fresh τ start) {qs : List Query} (hqs : ∀ q ∈ qs, q.type r ∈ A) {q : Query}
    (hq : q.type r ∈ A) {a : Answer} (h : q.run r fresh = .ok a e) :
    ∃ e', q.run r (applyAll r qs start) = .ok a e' := by
  have hlater := (remembers_applyAll hkeys hqs hstart.remembers).1
  obtain ⟨e', hrun, -⟩ :=
    (transparent_run hkeys hq).repeats hfresh.remembers hlater (hfresh.within hlater) h
  exact ⟨e', hrun⟩

end Query

/-- an engine for `τ` that was asked about types in `A`, or nothing yet -/
def Reached (r : Registry) (τ : Target) (A : Set TypeId) (e : LayoutEngine) : Prop :=
  ∃ start qs, Fresh τ start ∧ (∀ q ∈ qs, q.type r ∈ A) ∧ Query.applyAll r qs start = e

theorem Reached.remembers (hkeys : r.KeysDistinctOn A) (he : Reached r τ A e) :
    Remembers r τ A e := by
  obtain ⟨start, qs, hstart, hqs, rfl⟩ := he
  exact (Query.remembers_applyAll hkeys hqs hstart.remembers).1

theorem Fresh.reached (h : Fresh τ e) : Reached r τ A e := ⟨e, [], h, by simp, rfl⟩

theorem Reached.applyAll (he : Reached r τ A e) {qs : List Query} (hqs : ∀ q ∈ qs, q.type r ∈ A) :
    Reached r τ A (Query.applyAll r qs e) := by
  obtain ⟨start, before, hstart, hbefore, rfl⟩ := he
  refine ⟨start, before ++ qs, hstart, fun q hq => ?_, Query.applyAll_append before qs start⟩
  exact (List.mem_append.mp hq).elim (hbefore q) (hqs q)

theorem Reached.apply (he : Reached r τ A e) {q : Query} (hq : q.type r ∈ A) :
    Reached r τ A (q.apply r e) :=
  he.applyAll fun _ h => List.mem_singleton.mp h ▸ hq

theorem Reached.fieldTable_ok (he : Reached r τ A e) {t : TypeId} {s : Bool} (ht : t ∈ A)
    {entries : List FieldEntry} {e' : LayoutEngine} (h : fieldTable r t s e = .ok entries e') :
    Reached r τ A e' := by
  have hrun : (Query.fields t s).run r e = .ok (.table entries) e' :=
    Registry.bind_eq_ok_iff.mpr ⟨entries, e', h, rfl⟩
  have hafter := he.apply (q := .fields t s) ht
  rwa [Query.apply, hrun] at hafter

theorem Reached.fieldTable_error (he : Reached r τ A e) {t : TypeId} {s : Bool} (ht : t ∈ A)
    {err : Error} {e' : LayoutEngine} (h : fieldTable r t s e = .error err e') :
    Reached r τ A e' := by
  have hrun : (Query.fields t s).run r e = .error err e' := by
    rw [Query.run, Registry.bind_apply, h]
  have hafter := he.apply (q := .fields t s) ht
  rwa [Query.apply, hrun] at hafter

/-! ## an engine that failed before -/

/-- a struct `Pair` with fields of one and of eight bytes, a struct `Knot` inside itself, and two
generic parameters of one name, which have one identity key -/
def pairEdits : List Edit :=
  [.addModule "App",
    .define ⟨1⟩ "App" "Pair" .valueType 0 [] none,
    .declareField ⟨1⟩ ⟨20⟩ "first" ⟨9⟩ 0 [],
    .declareField ⟨1⟩ ⟨20⟩ "second" ⟨14⟩ 0 [],
    .define ⟨1⟩ "App" "Knot" .valueType 0 [] none,
    .declareField ⟨1⟩ ⟨21⟩ "knot" ⟨21⟩ 0 [],
    .addParameter ⟨1⟩ "T" 0 .type,
    .addParameter ⟨1⟩ "T" 0 .type]

def Query.number? (r : Registry) (q : Query) (e : LayoutEngine) : Option UInt32 :=
  match q.run r e with
  | .ok (.number n) _ => some n
  | _ => none

theorem Query.exists_of_number? {q : Query} {n : UInt32} (h : q.number? r e = some n) :
    ∃ e', q.run r e = .ok (.number n) e' := by
  unfold number? at h
  split at h
  · rename_i m e' hrun
    cases h
    exact ⟨e', hrun⟩
  · cases h

theorem run_after_queries_pair : ∃ e',
    ¬ (Registry.core.applyAll pairEdits).KeysDistinct ∧
    (Query.size ⟨21⟩).number? (Registry.core.applyAll pairEdits) {} = none ∧
    (Query.storage ⟨20⟩).run (Registry.core.applyAll pairEdits)
      (Query.applyAll (Registry.core.applyAll pairEdits)
        [.size ⟨21⟩, .fields ⟨20⟩ true, .storage ⟨21⟩] {}) = .ok (.number 12) e' := by
  obtain ⟨hclash, hkeys, hbefore, hq, hnone, hanswer⟩ :
      ¬ (Registry.core.applyAll pairEdits).KeysDistinct ∧
      (Registry.core.applyAll pairEdits).ToldApart [⟨20⟩, ⟨21⟩] ∧
      (∀ q ∈ [Query.size ⟨21⟩, .fields ⟨20⟩ true, .storage ⟨21⟩],
        q.type (Registry.core.applyAll pairEdits) ∈ [(⟨20⟩ : TypeId), ⟨21⟩]) ∧
      (Query.storage ⟨20⟩).type (Registry.core.applyAll pairEdits) ∈ [(⟨20⟩ : TypeId), ⟨21⟩] ∧
      (Query.size ⟨21⟩).number? (Registry.core.applyAll pairEdits) {} = none ∧
      (Query.storage ⟨20⟩).number? (Registry.core.applyAll pairEdits) {} = some 12 := by
    decide +kernel
  have hfresh : Fresh {} {} := ⟨rfl, rfl, rfl⟩
  obtain ⟨e, hrun⟩ := Query.exists_of_number? hanswer
  have hpair : (Registry.core.applyAll pairEdits).KeysDistinctOn {t | t ∈ [⟨20⟩, ⟨21⟩]} :=
    hkeys.on fun _ h => h
  obtain ⟨e', hrun'⟩ := Query.run_after_queries hpair hfresh hfresh hbefore hq hrun
  exact ⟨e', hclash, hnone, hrun'⟩

end LayoutEngine

end ProgramScan

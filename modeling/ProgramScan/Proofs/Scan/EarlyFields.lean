import ProgramScan.Proofs.Scan.Queued
import ProgramScan.Proofs.Scan.Sequence

/-!
# Fields that are emitted early

A boot emits the early fields of the configuration before it looks into the queue, and does not put
them there.  If it succeeds, it has emitted these, then the blocks of the elements of the queue, the
method tables and the entry (`Scan.Call.scan_emits_blocks`).

The blocks emit the fields of the queue, each once.  So a field is emitted twice if it is an early
one and the scan reaches it too, and at most once otherwise (`Scan.boot_fields`).
-/

namespace ProgramScan

namespace Scan

open Run

variable {r : Registry} {config : ScanConfig} {generator : Generator} {run run' : Run}

/-! ## what a call emits -/

section
variable (hw : r.WellFormed) {call : Call} (hcall : ∀ x ∈ call.items, r.Has x)
  (hconfig : ∀ m ∈ config.explicitEntries, r.Has (.method m))
include hw hcall hconfig

/-- only early fields are emitted before plugs are checked -/
theorem emissions_gather (hr : call.gather (.fresh r config generator) = .ok () run) :
    run.generator.emissions = generator.emissions ++ call.early config := by
  obtain ⟨_, run₁, hr₁, hr⟩ := Registry.bind_eq_ok_iff.mp hr
  rw [Registry.get_bind_apply] at hr
  obtain ⟨_, run₂, hr₂, hr⟩ := Registry.bind_eq_ok_iff.mp hr
  cases hr
  show run₂.generator.emissions = _
  rw [((leaves_drain _).ok hr₂).generator]
  exact (gathering_approach hw hconfig hcall hr₁).2

end

/-- what is emitted after plugs were checked -/
theorem output_ok (h : run.Gathered) {call : Call} {entries : List (Item × Option MethodId)}
    (hitems : entries.map Prod.fst = run.scanner.queue.items)
    (hentries : ∀ entry ∈ entries, Checked run entry) (hr : call.output entries run = .ok () run') :
    run'.Sound ∧ ∃ blocks methods,
      List.Forall₂ (IsBlock run') run'.scanner.queue.items blocks ∧
      run'.generator.emissions = run.generator.emissions ++ (blocks.flatten ++
        [.tables run'.scanner.queue.types.zipIdx methods, call.entry]) := by
  obtain ⟨_, run₁, hr₁, hr⟩ := Registry.bind_eq_ok_iff.mp hr
  obtain ⟨_, run₂, hr₂, hr⟩ := Registry.bind_eq_ok_iff.mp hr
  obtain ⟨_, run₃, hr₃, hr⟩ := Registry.bind_eq_ok_iff.mp hr
  cases hr
  obtain ⟨_, hem, blocks, hblocks, rfl⟩ :=
    (emitting_assembleItems h.sound h.complete 0 hentries (.refl _)).ok hr₁
  have hs₁ := hem.after.sound
  have htables := emitWith_methodTables hs₁ (fun key => by rw [hem.types, h.types])
    (hem.typeCount.trans h.typeCount)
  rw [hr₂] at htables
  obtain ⟨hafter₂, methods, -, hgenerator⟩ := htables
  have hentry := scanner_emit call.entry run₂
  rw [hr₃] at hentry
  have hafter : run₁.After (run₃.withPhase .done) := by
    obtain ⟨_, hem₃, -⟩ := (emitting_emit hafter₂.sound call.entry
      (E := fun _ _ _ => False)).ok hr₃
    exact (hafter₂.trans hem₃.after).trans (.withPhase hem₃.after.sound .done)
  have hqueue : (run₃.withPhase .done).scanner.queue.items = run₁.scanner.queue.items :=
    hafter.items
  refine ⟨hafter.sound, blocks, methods, ?_, ?_⟩
  · rw [hitems, ← hem.after.items] at hblocks
    show List.Forall₂ _ (run₃.withPhase .done).scanner.queue.items _
    rw [hqueue]
    exact forall₂_isBlock_after hafter hs₁ (fun x hx => (hs₁.item hx).1) hblocks
  · have htypes : (run₃.withPhase .done).scanner.queue.types = run₁.scanner.queue.types := by
      rw [WorkQueue.types, WorkQueue.types, hqueue]
    show run₃.generator.emissions =
      _ ++ (_ ++ [.tables (run₃.withPhase .done).scanner.queue.types.zipIdx methods, _])
    rw [emissions_emit hr₃, hgenerator, htypes]
    simp [Generator.counted, Generator.record, hem.generator]

section
variable (hw : r.WellFormed) {call : Call} (hcall : ∀ x ∈ call.items, r.Has x)
  (hconfig : ∀ m ∈ config.explicitEntries, r.Has (.method m))
include hw hcall hconfig

/-- **The emissions of a successful call** of a new scanner are the early fields, one block for each
element of the queue, the method tables and the entry. -/
theorem Call.scan_emits_blocks (hr : call.scan (.fresh r config generator) = .ok () run) :
    run.Sound ∧ ∃ blocks methods,
      List.Forall₂ (IsBlock run) run.scanner.queue.items blocks ∧
      run.generator.emissions = generator.emissions ++ (call.early config ++ (blocks.flatten ++
        [.tables run.scanner.queue.types.zipIdx methods, call.entry])) := by
  rw [call.scan_eq_gather] at hr
  obtain ⟨_, run₁, hr₁, hr⟩ := Registry.bind_eq_ok_iff.mp hr
  rw [Registry.get_bind_apply] at hr
  obtain ⟨entries, run₂, hr₂, hr⟩ := Registry.bind_eq_ok_iff.mp hr
  have hgather := gather_spec hw hconfig hcall generator
  rw [hr₁] at hgather
  obtain ⟨h₁, -⟩ := hgather
  obtain ⟨h₂, hchecked⟩ := gathered_checkPlugs h₁ (fun _ hx => hx) hr₂
  have hstep : Steps Nothing [] (checkPlugs run₁.scanner.queue.items) run₁ fun entries run' =>
    ∀ entry ∈ entries, Checked run' entry := steps_checkPlugs h₁.sound fun _ hx => hx
  have hitems : entries.map Prod.fst = run₂.scanner.queue.items := by
    rw [map_fst_of_checkPlugs hr₂, (hstep.ok hr₂).1.items_eq]
  obtain ⟨hs, blocks, methods, hblocks, hemissions⟩ := output_ok h₂ hitems hchecked hr
  refine ⟨hs, blocks, methods, hblocks, ?_⟩
  rw [hemissions, ((leaves_checkPlugs _).ok hr₂).generator,
    emissions_gather hw hcall hconfig hr₁, List.append_assoc]

end

/-! ## which fields are emitted -/

theorem IsBlock.fields {x : Item} {block : List Emission} (h : IsBlock run x block) :
    block.filterMap Emission.field? = x.field?.toList := by
  cases h <;> rfl

theorem fields_of_blocks {items : List Item} {blocks : List (List Emission)}
    (h : List.Forall₂ (IsBlock run) items blocks) :
    blocks.flatten.filterMap Emission.field? = items.filterMap Item.field? := by
  induction h with
  | nil => rfl
  | @cons x block items blocks hx _ ih =>
    rw [List.flatten_cons, List.filterMap_append, hx.fields, ih]
    cases x <;> rfl

theorem mem_fields_iff {q : WorkQueue} {f : FieldId} : f ∈ q.fields ↔ .field f ∈ q.items := by
  simp only [WorkQueue.fields, List.mem_filterMap]
  constructor
  · rintro ⟨x, hx, hxf⟩
    cases x <;> simp_all [Item.field?]
  · intro h
    exact ⟨.field f, h, rfl⟩

theorem nodup_fields (hs : run.Sound) : run.scanner.queue.fields.Nodup := by
  refine (nodup_items hs).filterMap fun x y f hx hy => ?_
  cases x <;> cases hx
  cases y <;> cases hy
  rfl

section
variable (hw : r.WellFormed) {entries : List MethodId} {included : List Item}
  (hentries : ∀ m ∈ entries, r.Has (.method m)) (hincluded : ∀ x ∈ included, r.Has x)
  (hconfig : ∀ m ∈ config.explicitEntries, r.Has (.method m))
include hw hentries hincluded hconfig

/-- **The fields that a boot emits** are the early ones and those of the queue, in this order.  The
queue holds none twice; if no early field stands in the configuration twice, a field is emitted at
most twice, and twice just if it is an early one and was reached. -/
theorem boot_fields (hr : boot entries included (.fresh r config generator) = .ok () run) :
    run.generator.fields =
        generator.fields ++ (config.earlyFields ++ run.scanner.queue.fields) ∧
      run.scanner.queue.fields.Nodup ∧
      (generator.fields = [] → config.earlyFields.Nodup → ∀ f,
        run.generator.fields.count f ≤ 2 ∧
        (run.generator.fields.count f = 2 ↔
          f ∈ config.earlyFields ∧ .field f ∈ run.scanner.queue.items)) := by
  have hcall : ∀ x ∈ (Call.boot entries included).items, r.Has x := by
    intro x hx
    rcases List.mem_append.mp hx with hx | hx
    · obtain ⟨m, hm, rfl⟩ := List.mem_map.mp hx
      exact hentries m hm
    · exact hincluded x hx
  obtain ⟨hs, blocks, methods, hblocks, hemissions⟩ :=
    Call.scan_emits_blocks hw hcall hconfig hr
  have hearly : (Call.early config (.boot entries included)).filterMap Emission.field? =
      config.earlyFields := by
    simp [Call.early, List.filterMap_map, Function.comp_def, Emission.field?]
  have hfields : run.generator.fields =
      generator.fields ++ (config.earlyFields ++ run.scanner.queue.fields) := by
    rw [Generator.fields, hemissions, List.filterMap_append, List.filterMap_append,
      List.filterMap_append, hearly, fields_of_blocks hblocks]
    simp [Generator.fields, WorkQueue.fields, Emission.field?, Call.entry]
  have hnodup := nodup_fields hs
  refine ⟨hfields, hnodup, fun hnone hdistinct f => ?_⟩
  rw [hfields, hnone, List.nil_append, List.count_append, ← mem_fields_iff,
    hdistinct.count, hnodup.count]
  by_cases hf : f ∈ config.earlyFields <;> by_cases hq : f ∈ run.scanner.queue.fields <;>
    simp [hf, hq]

end

/-- `Program.Main` reads the static field `Program.Counter`; nothing reads `Program.Spare`. -/
def declareCounter : Action MethodId := do
  let module ← Registry.addModule "Program"
  let program ← Registry.declareType { module, namespaceName := "", name := "Program" }
  let int ← Registry.wellKnown "System.Int32"
  let counter ← Registry.declareField module program "Counter" int FieldFlags.isStatic []
  let _ ← Registry.declareField module program "Spare" int FieldFlags.isStatic []
  let token ← Registry.tokenFor module (.field (some counter))
  declareStatic module program "Main" (some { code := 0x7E :: token.bytes ++ [0x26, 0x2A] }) []

/-- of two early fields, the one that `Main` reads is emitted again -/
theorem boot_fields_counter : ∃ run,
    boot [⟨0⟩] [] (.fresh (onCore declareCounter) { earlyFields := [⟨1⟩, ⟨0⟩] } {}) = .ok () run ∧
    run.generator.fields = [⟨1⟩, ⟨0⟩] ++ run.scanner.queue.fields ∧
    run.generator.fields.count ⟨0⟩ = 2 ∧ run.generator.fields.count ⟨1⟩ ≠ 2 := by
  let config : ScanConfig := { earlyFields := [⟨1⟩, ⟨0⟩] }
  obtain ⟨hw, hentries, heval⟩ : (onCore declareCounter).WellFormed ∧
      (∀ m ∈ [(⟨0⟩ : MethodId)], (onCore declareCounter).Has (.method m)) ∧
      succeedsWith (boot [⟨0⟩] []) (.fresh (onCore declareCounter) config {})
        (fun run => decide (.field ⟨0⟩ ∈ run.scanner.queue.items) &&
          !decide (.field ⟨1⟩ ∈ run.scanner.queue.items)) = true := by
    decide +kernel
  obtain ⟨run, hrun, hP⟩ := exists_of_succeedsWith heval
  simp only [Bool.and_eq_true, decide_eq_true_eq, Bool.not_eq_true', decide_eq_false_iff_not] at hP
  obtain ⟨hfields, -, hcount⟩ := boot_fields hw hentries (by simp) (by simp [config]) hrun
  have htwice := hcount rfl (by decide)
  refine ⟨run, hrun, hfields, (htwice ⟨0⟩).2.mpr ⟨by decide, hP.1⟩, fun h => ?_⟩
  exact hP.2 ((htwice ⟨1⟩).2.mp h).2

/-- the storage of a static field is emitted twice by a boot that succeeds, although the
configuration names the field once -/
theorem boot_emits_field_twice :
    (onCore declareCounter).WellFormed ∧ ∃ run,
      boot [⟨0⟩] [] (.fresh (onCore declareCounter) { earlyFields := [⟨0⟩] } {}) = .ok () run ∧
      run.generator.fields = [⟨0⟩, ⟨0⟩] := by
  obtain ⟨hw, heval⟩ : (onCore declareCounter).WellFormed ∧
      succeedsWith (boot [⟨0⟩] [])
        (.fresh (onCore declareCounter) { earlyFields := [⟨0⟩] } {})
        (fun run => decide (run.generator.fields = [⟨0⟩, ⟨0⟩])) = true := by
    decide +kernel
  obtain ⟨run, hrun, hP⟩ := exists_of_succeedsWith heval
  exact ⟨hw, run, hrun, of_decide_eq_true hP⟩

end Scan

end ProgramScan

import ProgramScan.Proofs.Scan.Blocks
import ProgramScan.Proofs.Scan.Closure

/-!
# The stages of a scan

A scan first finds out what it has to emit (`Scan.prepare`), then emits it (`Scan.finish`):

* before it is done with the first, it hands nothing to the generator (`Scan.leaves_prepare`), and
  when it is, every element of the queue was looked into and has its plug (`Scan.Ready`);
* the second gives the blocks of the elements, then the method tables, where types have the numbers
  `0, 1, 2, …` in the order of the queue, then the entry (`Scan.Closed`).

Only damaged code of an inline plug can stop the second stage, unless the generator does
(`Scan.finish_error`).  `Scan.Finished` sums up what a successful scan leaves.
-/

namespace ProgramScan

open Registry (Grows)

namespace Scan

open Run

variable {α β : Type} {run run' start : Run}

/-! ## two stages -/

def explore (entry : MethodId) : Scan Unit := do
  indexPlugs
  enqueue (.method entry) .entryPoint none
  drainQueue
  enter .finalizing

def prepare (entry : MethodId) : Scan (List (Item × Option MethodId)) := do
  explore entry
  checkPlugs (← get).scanner.queue.items

def close (entry : MethodId) : Scan Unit := do
  emitWith methodTables
  emit (.entry (some entry) [])
  enter .done

def finish (entry : MethodId) (entries : List (Item × Option MethodId)) : Scan Unit := do
  assembleItems 0 entries
  close entry

theorem execute_eq (entry : MethodId) : execute entry = prepare entry >>= finish entry := by
  simp only [execute, assemble, prepare, explore, bind_assoc]
  rfl

/-! ## the first stage -/

theorem leaves_prepare (entry : MethodId) : Leaves (fun _ => True) (prepare entry) := by
  refine Leaves.bind ?_ fun _ => .get fun run => (leaves_checkPlugs _).anyway
  refine leaves_indexPlugs.anyway.bind fun _ => (leaves_enqueue _ _ _).bind fun _ => ?_
  exact leaves_drainQueue.anyway.bind fun _ => leaves_enter _

theorem ends_explore {entry : MethodId} (h : start.Between [.method entry] [])
    (hentry : start.registry.Has (.method entry)) :
    Ends (explore entry) start
      (fun run => Within start [.method entry] [] run ∧ run.Complete [])
      (Failed start [.method entry] []) := by
  refine (ends_indexPlugs h).bind fun run₁ h₁ => ?_
  refine (ends_enqueue h₁ (by simp) (h₁.onward.grows.has hentry) .entryPoint).bind ?_
  rintro run₂ ⟨h₂, -⟩
  refine (ends_drainQueue h₂).bind ?_
  rintro run₃ ⟨h₃, -, hc₃⟩
  exact ⟨h₃.withPhase .finalizing, hc₃.withPhase .finalizing⟩

/-- pairs that are made from the elements of a list have these as first components -/
theorem map_fst_of_mapM {f : α → Scan (α × β)}
    (hf : ∀ a run b run', f a run = .ok b run' → b.1 = a) {l : List α} {bs : List (α × β)}
    (h : l.mapM f run = .ok bs run') : bs.map Prod.fst = l := by
  induction l generalizing run bs with
  | nil =>
    cases h
    rfl
  | cons a l ih =>
    rw [List.mapM_cons] at h
    obtain ⟨b, run₁, hb, h⟩ := Registry.bind_eq_ok_iff.mp h
    obtain ⟨bs', run₂, hbs, h⟩ := Registry.bind_eq_ok_iff.mp h
    cases h
    rw [List.map_cons, hf a run b run₁ hb, ih hbs]

/-- the second component of a pair does not matter for the first -/
theorem fst_of_pair {f : α → Scan β} (a : α) (run : Run) (b : α × β) (run' : Run)
    (h : (do return (a, ← f a) : Scan (α × β)) run = .ok b run') : b.1 = a := by
  obtain ⟨c, run₁, -, h⟩ := Registry.bind_eq_ok_iff.mp h
  cases h
  rfl

theorem map_fst_of_checkPlugs {items : List Item} {entries : List (Item × Option MethodId)}
    (h : checkPlugs items run = .ok entries run') : entries.map Prod.fst = items := by
  refine map_fst_of_mapM (fun item run b run' hb => ?_) h
  cases item with
  | method m =>
    obtain ⟨answer, run₁, -, hb⟩ := Registry.bind_eq_ok_iff.mp hb
    cases hb
    rfl
  | type t =>
    cases hb
    rfl
  | field f =>
    cases hb
    rfl

/-- What a scan from `entry` that began in `start` knows before its first emission. -/
structure Ready (start : Run) (entry : MethodId) (entries : List (Item × Option MethodId))
    (run : Run) : Prop where
  within : Within start [.method entry] [] run
  complete : run.Complete []
  untouched : start.Untouched run
  items : entries.map Prod.fst = run.scanner.queue.items
  checked : ∀ e ∈ entries, Checked run e

theorem Ready.sound {entry : MethodId} {entries : List (Item × Option MethodId)}
    (h : Ready start entry entries run) : run.Sound := h.within.progress.sound

theorem ready_of_prepare {entry : MethodId} (h : start.Between [.method entry] [])
    (hentry : start.registry.Has (.method entry)) {entries : List (Item × Option MethodId)}
    (hrun : prepare entry start = .ok entries run) : Ready start entry entries run := by
  have huntouched := (leaves_prepare entry).ok hrun
  obtain ⟨_, run₁, hexplore, hcheck⟩ := Registry.bind_eq_ok_iff.mp hrun
  obtain ⟨hwithin, hcomplete⟩ := (ends_explore h hentry).ok hexplore
  have hcheck : checkPlugs run₁.scanner.queue.items run₁ = .ok entries run := hcheck
  have hsteps : Steps Nothing [] (checkPlugs run₁.scanner.queue.items) run₁ fun entries run' =>
      ∀ e ∈ entries, Checked run' e := steps_checkPlugs hwithin.progress.sound fun x hx => hx
  obtain ⟨hstep, hchecked⟩ := hsteps.ok hcheck
  refine ⟨hwithin.idle hstep, hcomplete.step hstep, huntouched, ?_, hchecked⟩
  rw [map_fst_of_checkPlugs hcheck, hstep.items_eq]

/-! ## method tables -/

def numberType (run : Run) (t : TypeId) : Run :=
  (run.useNames (run.registry.itemUses (.type t))).modifyScanner fun s =>
    { s with uids := { s.uids with
      types := s.uids.types.insert (run.registry.typeKey t) s.uids.typeCount
      typeCount := s.uids.typeCount + 1 } }

theorem typeUid_apply {t : TypeId}
    (hq : run.scanner.queue.contains run.registry (.type t) = true)
    (hn : run.scanner.uids.types.get? (run.registry.typeKey t) = none) :
    typeUid t run = .ok run.scanner.uids.typeCount (numberType run t) := by
  have hnumber : run.scanner.uids.typeUid run.registry run.scanner.queue t =
      .ok (run.scanner.uids.typeCount, (numberType run t).scanner.uids) := by
    rw [Uids.typeUid, if_pos hq, hn]
    rfl
  show (MonadExcept.ofExcept (run.scanner.uids.typeUid run.registry run.scanner.queue t) >>= _ :
    Scan Nat) (run.useNames (run.registry.itemUses (.type t))) = _
  rw [hnumber]
  rfl

theorem get?_numberType_of_ne {t u : TypeId}
    (h : run.registry.typeKey u ≠ run.registry.typeKey t) :
    (numberType run t).scanner.uids.types.get? ((numberType run t).registry.typeKey u) =
      run.scanner.uids.types.get? (run.registry.typeKey u) :=
  Table.get?_insert_of_ne _ _ h

/-- types of the queue that have no number yet are numbered in order -/
theorem mapM_typeUid {ts : List TypeId} (hs : run.Sound)
    (hmem : ∀ t ∈ ts, .type t ∈ run.scanner.queue.items)
    (hdistinct : (ts.map run.registry.typeKey).Nodup)
    (hnew : ∀ t ∈ ts, run.scanner.uids.types.get? (run.registry.typeKey t) = none) :
    ∃ run', ts.mapM (fun t => do return (t, ← typeUid t) : TypeId → Scan (TypeId × Nat)) run =
        .ok (ts.zipIdx run.scanner.uids.typeCount) run' ∧
      run.After run' ∧ run'.generator = run.generator := by
  induction ts generalizing run with
  | nil => exact ⟨run, rfl, .refl hs, rfl⟩
  | cons t ts ih =>
    have hreached := hs.item (hmem t List.mem_cons_self)
    have hone := typeUid_apply ((WorkQueue.hasKey_iff _ _).mpr hreached.2)
      (hnew t List.mem_cons_self)
    have hafter : run.After (numberType run t) :=
      .of_step ((steps_typeUid hs t).ok hone).1 rfl (fun _ _ h => h) fun _ _ h => h
    obtain ⟨hfirst, hrest⟩ := List.nodup_cons.mp hdistinct
    -- identities differ, so numbering `t` numbers none of the types that follow
    have hnew' : ∀ u ∈ ts, (numberType run t).scanner.uids.types.get?
        ((numberType run t).registry.typeKey u) = none := by
      intro u hu
      have hne : run.registry.typeKey u ≠ run.registry.typeKey t := by
        intro heq
        exact hfirst (heq ▸ List.mem_map_of_mem hu)
      rw [get?_numberType_of_ne hne, hnew u (List.mem_cons_of_mem _ hu)]
    obtain ⟨run', hmap, hafter', hgenerator⟩ := ih hafter.sound
      (fun u hu => hmem u (List.mem_cons_of_mem _ hu)) hrest hnew'
    refine ⟨run', ?_, hafter.trans hafter', hgenerator⟩
    rw [List.mapM_cons]
    refine Registry.bind_eq_ok_iff.mpr ⟨_, _, Registry.bind_eq_ok_iff.mpr ⟨_, _, hone, rfl⟩, ?_⟩
    exact Registry.bind_eq_ok_iff.mpr ⟨_, _, hmap, rfl⟩

theorem mapM_methodUid (hs : run.Sound) (ms : List MethodId) :
    ∃ numbered run',
      ms.mapM (fun m => do return (m, ← methodUid m) : MethodId → Scan (MethodId × Nat)) run =
        .ok numbered run' ∧
      numbered.map Prod.fst = ms ∧ run.After run' ∧ run'.generator = run.generator := by
  let act : Scan (List (MethodId × Nat)) := ms.mapM fun m => do return (m, ← methodUid m)
  have hleaves : Leaves (fun _ => False) act :=
    .mapM (fun m => (leaves_methodUid m).bind fun _ => .pure _) ms
  have hsteps : Steps Nothing [] act run fun bs _ => True ∧ ∀ b ∈ bs, True :=
    .mapM hs (fun _ => True) (fun _ _ => True) trivial
      (fun m _ run' hs' _ => Steps.bind (steps_methodUid hs' m) fun _ _ hstep _ =>
        .pure hstep.sound ⟨trivial, trivial⟩) fun _ _ _ _ _ _ => trivial
  cases hr : act run with
  | error e run' => exact absurd hr (hleaves.ne_error e run')
  | ok numbered run' =>
    have huntouched := hleaves.ok hr
    exact ⟨numbered, run', hr, map_fst_of_mapM fst_of_pair hr,
      .of_step (hsteps.ok hr).1 huntouched.generator huntouched.labels huntouched.numbers,
      huntouched.generator⟩

theorem mem_types_iff {q : WorkQueue} {t : TypeId} : t ∈ q.types ↔ .type t ∈ q.items := by
  simp only [WorkQueue.types, List.mem_filterMap]
  constructor
  · rintro ⟨x, hx, hxt⟩
    cases x <;> simp_all [Item.type?]
  · intro h
    exact ⟨.type t, h, rfl⟩

theorem mem_methods_iff {q : WorkQueue} {m : MethodId} : m ∈ q.methods ↔ .method m ∈ q.items := by
  simp only [WorkQueue.methods, List.mem_filterMap]
  constructor
  · rintro ⟨x, hx, hxm⟩
    cases x <;> simp_all [Item.method?]
  · intro h
    exact ⟨.method m, h, rfl⟩

theorem nodup_types (hs : run.Sound) :
    (run.scanner.queue.types.map run.registry.typeKey).Nodup := by
  have hnodup : (run.scanner.queue.items.map run.registry.itemKey).Nodup := by
    rw [← hs.keys_eq]
    exact hs.distinct
  have hsub : (run.scanner.queue.types.map Item.type).Sublist run.scanner.queue.items := by
    rw [WorkQueue.types]
    generalize run.scanner.queue.items = items
    induction items with
    | nil => exact .slnil
    | cons x items ih =>
      cases x with
      | type t => exact ih.cons_cons _
      | method m => exact ih.cons _
      | field f => exact ih.cons _
  have htypes := hnodup.sublist (hsub.map run.registry.itemKey)
  rwa [List.map_map] at htypes

theorem methodTables_spec (hs : run.Sound) (htypes : ∀ key, run.scanner.uids.types.get? key = none)
    (hcount : run.scanner.uids.typeCount = 0) :
    ∃ methods run', methodTables run = .ok (.tables run.scanner.queue.types.zipIdx methods) run' ∧
      methods.map Prod.fst = run.scanner.queue.methods ∧ run.After run' ∧
      run'.generator = run.generator := by
  obtain ⟨run₁, hmap₁, hafter₁, hg₁⟩ := mapM_typeUid hs (fun t ht => mem_types_iff.mp ht)
    (nodup_types hs) fun t _ => htypes _
  rw [hcount] at hmap₁
  obtain ⟨methods, run₂, hmap₂, hfst, hafter₂, hg₂⟩ :=
    mapM_methodUid hafter₁.sound run.scanner.queue.methods
  refine ⟨methods, run₂, ?_, hfst, hafter₁.trans hafter₂, hg₂.trans hg₁⟩
  show (_ >>= _ : Scan Emission) run = _
  refine Registry.bind_eq_ok_iff.mpr ⟨_, _, rfl, ?_⟩
  refine Registry.bind_eq_ok_iff.mpr ⟨_, _, hmap₁, ?_⟩
  exact Registry.bind_eq_ok_iff.mpr ⟨_, _, hmap₂, rfl⟩

/-! ## the second stage -/

/-- The state after `tables` and entry were emitted. -/
structure Closed (entry : MethodId) (run run' : Run) : Prop where
  after : run.After run'
  emissions : ∃ methods, methods.map Prod.fst = run.scanner.queue.methods ∧
    run'.generator.emissions = run.generator.emissions ++
      [.tables run.scanner.queue.types.zipIdx methods, .entry (some entry) []]

section
variable (hs : run.Sound) (htypes : ∀ key, run.scanner.uids.types.get? key = none)
  (hcount : run.scanner.uids.typeCount = 0)
include hs htypes hcount

/-- the method tables are emitted unless the generator refuses, which is all that can fail -/
theorem emitWith_methodTables :
    match emitWith methodTables run with
    | .ok _ run' => run.After run' ∧ ∃ methods,
        methods.map Prod.fst = run.scanner.queue.methods ∧
        run'.generator = run.generator.counted.record
          (.tables run.scanner.queue.types.zipIdx methods)
    | .error e run' => run.generator.failAt ≠ none ∧ run'.scanner = run.scanner ∧
        run'.generator.emissions = run.generator.emissions ∧
        e = .generatorRefused run.generator.calls := by
  have hcounted : run.After { run with generator := run.generator.counted } := .feeding hs _
  obtain ⟨methods, run₁, htables, hfst, hafter₁, hg₁⟩ :=
    methodTables_spec hcounted.sound htypes hcount
  rw [emitWith_apply]
  cases hn : run.generator.refusesNext with
  | true => exact ⟨failAt_of_refusesNext hn, rfl, rfl, rfl⟩
  | false =>
    simp only [Bool.false_eq_true, if_false, htables]
    refine ⟨(hcounted.trans hafter₁).trans (.feeding hafter₁.sound _), methods, hfst, ?_⟩
    rw [hg₁]

/-- method tables and entry are emitted unless the generator refuses -/
theorem close_spec (entry : MethodId) :
    match close entry run with
    | .ok _ run' => Closed entry run run'
    | .error _ _ => run.generator.failAt ≠ none := by
  have htables := emitWith_methodTables hs htypes hcount
  rw [close, Registry.bind_apply]
  cases hr₁ : emitWith methodTables run with
  | error e run₁ =>
    rw [hr₁] at htables
    exact htables.1
  | ok u run₁ =>
    rw [hr₁] at htables
    obtain ⟨hafter₁, methods, hfst, hg₁⟩ := htables
    have hentry := emitting_emit (E := fun _ _ _ => False) hafter₁.sound (.entry (some entry) [])
    dsimp only
    rw [Registry.bind_apply]
    cases hr₂ : emit (.entry (some entry) []) run₁ with
    | error e run₂ =>
      intro hf
      obtain ⟨_, _, h⟩ := hentry.error (by rw [hg₁]; exact hf) hr₂
      exact h
    | ok v run₂ =>
      obtain ⟨_, hem, rfl⟩ := hentry.ok hr₂
      have hafter₂ := hafter₁.trans hem.after
      refine ⟨hafter₂.trans (.withPhase hafter₂.sound .done), methods, hfst, ?_⟩
      show run₂.generator.emissions = _
      rw [hem.generator, hg₁]
      simp [Generator.counted, Generator.record]

end

theorem forall₂_isBlock_after (h : run.After run') (hs : run.Sound) {items : List Item}
    {blocks : List (List Emission)} (hitems : ∀ x ∈ items, run.registry.Has x)
    (hb : List.Forall₂ (IsBlock run) items blocks) : List.Forall₂ (IsBlock run') items blocks := by
  induction hb with
  | nil => exact .nil
  | @cons x block items blocks hx _ ih =>
    refine .cons (hx.after h hs (hitems x List.mem_cons_self)) (ih fun y hy => ?_)
    exact hitems y (List.mem_cons_of_mem _ hy)

section
variable {entry : MethodId} {entries : List (Item × Option MethodId)}
  (h : Ready start entry entries run)
include h

/-- types get their numbers from the method tables -/
theorem Ready.unnumbered (hfresh : start.scanner.uids = {}) {new : List Emission}
    (hem : run.Emits run' new) :
    (∀ key, run'.scanner.uids.types.get? key = none) ∧ run'.scanner.uids.typeCount = 0 := by
  constructor
  · intro key
    rw [hem.types, h.untouched.types, hfresh]
    rfl
  · rw [hem.typeCount, h.untouched.typeCount, hfresh]

/-- the second stage succeeds only if it emits all blocks, the method tables and the entry -/
theorem finish_ok (hfresh : start.scanner.uids = {})
    (hrun : finish entry entries run = .ok () run') :
    run.After run' ∧ ∃ blocks methods,
      List.Forall₂ (IsBlock run') run'.scanner.queue.items blocks ∧
      methods.map Prod.fst = run'.scanner.queue.methods ∧
      run'.generator.emissions = start.generator.emissions ++ (blocks.flatten ++
        [.tables run'.scanner.queue.types.zipIdx methods, .entry (some entry) []]) := by
  have hitems := emitting_assembleItems h.sound h.complete 0 h.checked (.refl _)
  obtain ⟨_, run₁, hr₁, hr₂⟩ := Registry.bind_eq_ok_iff.mp hrun
  obtain ⟨_, hem, blocks, hblocks, rfl⟩ := hitems.ok hr₁
  have hs₁ := hem.after.sound
  rw [h.items, ← hem.after.items] at hblocks
  obtain ⟨htypes, hcount⟩ := h.unnumbered hfresh hem
  have hclosed := close_spec hs₁ htypes hcount entry
  rw [hr₂] at hclosed
  obtain ⟨methods, hmethods, hemissions⟩ := hclosed.emissions
  have hqueue := hclosed.after.items
  refine ⟨hem.after.trans hclosed.after, blocks, methods, ?_, ?_, ?_⟩
  · rw [hqueue]
    exact forall₂_isBlock_after hclosed.after hs₁ (fun x hx => (hs₁.item hx).1) hblocks
  · rw [hmethods, WorkQueue.methods, WorkQueue.methods, hqueue]
  · rw [hemissions, hem.generator, h.untouched.generator, WorkQueue.types, WorkQueue.types, hqueue]
    simp only [List.append_assoc]

/-- with a generator that refuses nothing, the second stage fails only where the code of an inline
plug is damaged -/
theorem finish_error (hfresh : start.scanner.uids = {}) (hfail : start.generator.failAt = none)
    {e : Error} (hrun : finish entry entries run = .error e run') :
    run.After run' ∧ ∃ done x rest blocks,
      run'.scanner.queue.items = done ++ x :: rest ∧
      List.Forall₂ (IsBlock run') done blocks ∧
      run'.generator = { start.generator with
        calls := start.generator.calls + blocks.flatten.length
        emissions := start.generator.emissions ++ blocks.flatten } ∧
      BreaksAt run.registry e run' x := by
  have hfail : run.generator.failAt = none := by rw [h.untouched.generator, hfail]
  have hitems := emitting_assembleItems h.sound h.complete 0 h.checked (.refl _)
  rw [finish, Registry.bind_apply] at hrun
  cases hr₁ : assembleItems 0 entries run with
  | error e₁ run₁ =>
    rw [hr₁] at hrun
    cases hrun
    obtain ⟨_, hem, done, x, rest, blocks, hsplit, hblocks, rfl, hb⟩ := hitems.error hfail hr₁
    refine ⟨hem.after, done, x, rest, blocks, ?_, hblocks, ?_, hb⟩
    · rw [hem.after.items, ← h.items, hsplit]
    · rw [hem.generator, h.untouched.generator]
  | ok u run₁ =>
    rw [hr₁] at hrun
    obtain ⟨_, hem, -⟩ := hitems.ok hr₁
    obtain ⟨htypes, hcount⟩ := h.unnumbered hfresh hem
    have hclosed := close_spec hem.after.sound htypes hcount entry
    rw [show close entry run₁ = .error e run' from hrun] at hclosed
    exact absurd (hem.failAt.trans hfail) hclosed

end

/-! ## whole scans -/

theorem ready_fresh {r : Registry} (hw : r.WellFormed) {entry : MethodId}
    (hentry : r.Has (.method entry)) {config : ScanConfig} {generator : Generator}
    {entries : List (Item × Option MethodId)}
    (h : prepare entry (.fresh r config generator) = .ok entries run) :
    Ready (.fresh r config generator) entry entries run :=
  ready_of_prepare ((blank_fresh hw config generator).between [.method entry] []) hentry h

/-- What a successful scan from `entry` with a new scanner leaves. -/
structure Finished (r : Registry) (config : ScanConfig) (generator : Generator) (entry : MethodId)
    (run : Run) : Prop where
  sound : run.Sound
  complete : run.Complete []
  index : PlugIndex.findImplementors r config.plugModules {} = .ok () run.scanner.plugs.index
  checked : ∀ x ∈ run.scanner.queue.items, ∃ answer, Checked run (x, answer)
  emissions : ∃ blocks methods,
    List.Forall₂ (IsBlock run) run.scanner.queue.items blocks ∧
    methods.map Prod.fst = run.scanner.queue.methods ∧
    run.generator.emissions = generator.emissions ++ (blocks.flatten ++
      [.tables run.scanner.queue.types.zipIdx methods, .entry (some entry) []])

theorem finished_of_execute {r : Registry} (hw : r.WellFormed) {entry : MethodId}
    (hentry : r.Has (.method entry)) {config : ScanConfig} {generator : Generator}
    (hrun : execute entry (.fresh r config generator) = .ok () run) :
    Finished r config generator entry run := by
  rw [execute_eq] at hrun
  obtain ⟨entries, run₁, hprepare, hfinish⟩ := Registry.bind_eq_ok_iff.mp hrun
  have hready := ready_fresh hw hentry hprepare
  obtain ⟨hafter, hemissions⟩ := finish_ok hready rfl hfinish
  refine ⟨hafter.sound, hafter.complete hready.complete, ?_, ?_, hemissions⟩
  · rw [show run.scanner.plugs.index = run₁.scanner.plugs.index from hafter.step.index]
    exact hready.within.filed rfl
  · intro x hx
    rw [hafter.items, ← hready.items] at hx
    obtain ⟨⟨y, answer⟩, hmem, rfl⟩ := List.mem_map.mp hx
    exact ⟨answer, hafter.checked hready.sound (hready.checked _ hmem)⟩

end Scan

end ProgramScan

import ProgramScan.Proofs.Scan.Closure
import ProgramScan.Proofs.Scan.Repeating

/-!
# Scanning again

A scan makes the constructed types, instances and members that it comes upon, and leaves them in the
program.  A later scan finds them there.  It cannot tell: over the program that a successful scan left,
and over any later state of it, a new scanner with the same configuration and entry succeeds again,
reaches the same elements in the same order with the same counts, hands out the same numbers, and
emits the same (`Scan.execute_repeats`).

The proof follows the stages of a scan.  Filing plug types, draining the queue and emitting are each
repeated (`Scan.Repeats`), with the invariants of `Scan.ends_execute` in between.
-/

namespace ProgramScan

open Registry (Grows Settled HasPlug Builds)

namespace Scan

open Run

variable {run start : Run} {roots lost : List Item}

/-! ## filing plug types -/

def filedRun (run : Run) (index : PlugIndex) (fields : FieldPlugs) (diagnostics : Diagnostics) :
    Run :=
  let noted := run.registry.useNames
    (PlugIndex.findUses run.registry run.scanner.config.plugModules)
  { run with
    registry := noted.useNames (noted.checkUses index)
    scanner := { run.scanner with
      plugs := { run.scanner.plugs with index, fields, diagnostics }
      plugsIndexed := true
      phase := .discovering } }

theorem indexPlugs_eq_ok_iff (h : run.scanner.plugsIndexed = false) {run' : Run} :
    indexPlugs run = .ok () run' ↔ ∃ index fields diagnostics,
      PlugIndex.findImplementors run.registry run.scanner.config.plugModules
        run.scanner.plugs.index = .ok () index ∧
      run.registry.checkPlugs index run.scanner.plugs.diagnostics = .ok fields diagnostics ∧
      run' = filedRun run index fields diagnostics := by
  rw [indexPlugs_unindexed h]
  simp only [Registry.bind_apply, enter, reading, onPlugs, PlugManager.findImplementors,
    PlugManager.scanFound, modify, Registry.modifyGet_apply, Run.useNames, Run.modifyScanner]
  cases hf : PlugIndex.findImplementors run.registry run.scanner.config.plugModules
      run.scanner.plugs.index with
  | error e index => simp
  | ok u index =>
    dsimp only
    cases hc : run.registry.checkPlugs index run.scanner.plugs.diagnostics with
    | error e diagnostics => simp [hc]
    | ok fields diagnostics =>
      constructor
      · intro heq
        cases heq
        exact ⟨index, fields, diagnostics, rfl, hc, rfl⟩
      · rintro ⟨index', fields', diagnostics', hindex, hchecked, rfl⟩
        cases hindex
        rw [hc] at hchecked
        cases hchecked
        rfl

theorem repeats_indexPlugs (h : start.Between roots lost) : Repeats indexPlugs start := by
  have hw := h.progress.sound.wellFormed
  intro _ run hr
  cases hn : start.scanner.plugsIndexed with
  | true =>
    rw [indexPlugs_indexed hn] at hr
    cases hr
    exact ⟨.refl _, fun r _ _ => ⟨r, indexPlugs_indexed hn, rfl⟩⟩
  | false =>
    obtain ⟨index, fields, diagnostics, hindex, hchecked, rfl⟩ := (indexPlugs_eq_ok_iff hn).mp hr
    have hhas := Registry.hasIndex_findImplementors hw start.scanner.config.plugModules
      h.progress.sound.index
    rw [hindex] at hhas
    have hgrows : start.registry.Grows (filedRun start index fields diagnostics).registry :=
      (Grows.useNames _ _).trans (.useNames _ _)
    refine ⟨hgrows, fun r hg _ => ?_⟩
    have hgr := hgrows.trans hg
    refine ⟨(filedRun (start.upon r) index fields diagnostics).registry, ?_, rfl⟩
    have hn' : (start.upon r).scanner.plugsIndexed = false := hn
    apply (indexPlugs_eq_ok_iff hn').mpr
    refine ⟨index, fields, diagnostics, ?_, ?_, rfl⟩
    · show PlugIndex.findImplementors r _ _ = _
      rw [hgr.findImplementors hw]
      exact hindex
    · show r.checkPlugs index _ = _
      rw [hgr.checkPlugs hw hhas]
      exact hchecked

/-! ## draining the queue -/

theorem repeats_drain (budget : Nat) (h : run.Progress roots lost) :
    Repeats (drain budget) run := by
  induction budget generalizing run with
  | zero =>
    intro _ run' hr
    rw [drain_zero_apply] at hr
    split at hr
    · cases hr
    · rename_i hpending
      cases hr
      refine ⟨.refl _, fun r _ _ => ⟨r, ?_, rfl⟩⟩
      rw [drain_zero_apply]
      exact if_neg hpending
  | succ budget ih =>
    cases he : run.scanner.queue.entries[run.scanner.queue.taken]? with
    | none =>
      have hrun : ∀ r, drain (budget + 1) (run.upon r) = .ok () (run.upon r) := by
        intro r
        have he' : (run.upon r).scanner.queue.entries[(run.upon r).scanner.queue.taken]? = none := he
        rw [drain_succ_apply, he']
      intro _ run' hr
      have hr' : drain (budget + 1) run = .ok () run := hrun run.registry
      rw [hr'] at hr
      cases hr
      exact ⟨.refl _, fun r _ _ => ⟨r, hrun r, rfl⟩⟩
    | some entry =>
      have hrun : ∀ r, drain (budget + 1) (run.upon r) =
          (scanItem entry.item >>= fun _ => drain budget)
            ((run.withTaken (run.scanner.queue.taken + 1)).upon r) := by
        intro r
        have he' : (run.upon r).scanner.queue.entries[(run.upon r).scanner.queue.taken]? =
          some entry := he
        rw [drain_succ_apply, he']
        rfl
      have hmem : entry.item ∈ (run.withTaken (run.scanner.queue.taken + 1)).scanner.queue.items :=
        List.mem_map_of_mem (List.mem_of_getElem? he)
      -- the element is looked into, and the rest is drained from the state that leaves
      have hlook : Repeats (scanItem entry.item >>= fun _ => drain budget)
          (run.withTaken (run.scanner.queue.taken + 1)) := by
        apply Repeats.bind (repeats_scanItem (h.sound.withTaken _) hmem)
        intro _ run₁ hr₁
        have hprogress := progress_look h he
        rw [hr₁] at hprogress
        exact ih hprogress.2
      intro u run' hr
      have hr' : drain (budget + 1) (run.upon run.registry) = .ok u run' := hr
      rw [hrun] at hr'
      obtain ⟨hg, hagain⟩ := hlook u run' hr'
      refine ⟨hg, fun r hgr hw => ?_⟩
      rw [hrun]
      exact hagain r hgr hw

theorem repeats_drainQueue (h : Within start roots lost run) : Repeats drainQueue run := by
  apply Repeats.bind (repeats_enter _)
  intro _ run₁ hr
  cases hr
  exact Repeats.get (repeats_drain _ (h.withPhase .draining).progress) fun _ _ _ => rfl

/-! ## emitting -/

theorem repeats_emitWith {make : Scan Emission}
    (hm : Repeats make { run with generator := run.generator.counted }) :
    Repeats (emitWith make) run := by
  apply Repeats.get
  · apply Repeats.bind (Repeats.modifyGet (.refl _) fun r _ _ => ⟨rfl, r, rfl, rfl⟩)
    intro _ run₁ hr
    cases hr
    split
    · exact Repeats.throw _
    · apply Repeats.bind hm
      intro em run₂ _
      exact Repeats.modifyGet (.refl _) fun r _ _ => ⟨rfl, r, rfl, rfl⟩
  · intro r _ _
    rfl

theorem repeats_emit (em : Emission) : Repeats (emit em) run :=
  repeats_emitWith (Repeats.pure em)

theorem typeUid_eq_ok_iff {t : TypeId} {uid : Nat} {run' : Run} :
    typeUid t run = .ok uid run' ↔ ∃ uids,
      run.scanner.uids.typeUid run.registry run.scanner.queue t = .ok (uid, uids) ∧
      run' = (run.useNames (run.registry.itemUses (.type t))).modifyScanner
        fun s => { s with uids } := by
  have hrun : typeUid t run = (MonadExcept.ofExcept
      (run.scanner.uids.typeUid run.registry run.scanner.queue t) >>= fun found => do
        set ((run.useNames (run.registry.itemUses (.type t))).modifyScanner
          fun s => { s with uids := found.2 })
        return found.1 : Scan Nat) (run.useNames (run.registry.itemUses (.type t))) := rfl
  rw [hrun]
  cases run.scanner.uids.typeUid run.registry run.scanner.queue t with
  | error e =>
    constructor
    · intro h
      cases h
    · rintro ⟨uids, h, -⟩
      cases h
  | ok found =>
    constructor
    · intro h
      cases h
      exact ⟨found.2, rfl, rfl⟩
    · rintro ⟨uids, h, rfl⟩
      cases h
      rfl

theorem repeats_typeUid (hw : run.registry.WellFormed) {t : TypeId}
    (ht : run.registry.Has (.type t)) : Repeats (typeUid t) run := by
  intro uid run' hr
  obtain ⟨uids, hnumber, rfl⟩ := typeUid_eq_ok_iff.mp hr
  refine ⟨.useNames _ _, fun r hg _ => ?_⟩
  have hgr : run.registry.Grows r := (Grows.useNames _ _).trans hg
  refine ⟨r.useNames (r.itemUses (.type t)), ?_, rfl⟩
  apply typeUid_eq_ok_iff.mpr
  refine ⟨uids, ?_, rfl⟩
  show run.scanner.uids.typeUid r run.scanner.queue t = _
  have hkey : r.itemKey (.type t) = run.registry.itemKey (.type t) := hgr.itemKey hw ht
  rw [← hnumber, Uids.typeUid, Uids.typeUid, WorkQueue.contains, WorkQueue.contains, hkey,
    hgr.typeKey ht, hgr.fullName ht]

section
variable (hs : run.Sound)
include hs

theorem repeats_checkedPlug {m : MethodId} (hm : .method m ∈ run.scanner.queue.items) :
    Repeats (checkedPlug m) run := by
  have hhas := (hs.item hm).1
  apply Repeats.after Anything [] (steps_resolvePlug hs hm)
    (repeats_resolvePlug hs hhas)
  intro answer run₁ hstep₁ hans
  have hs₁ := hstep₁.sound
  have hw₁ := hs₁.wellFormed
  have hhas₁ := hstep₁.grows.has hhas
  cases answer with
  | none =>
    apply Repeats.get
    · dsimp only
      split
      · exact Repeats.pure _
      split
      · exact Repeats.throw _
      · exact Repeats.pure _
    · intro r hg _
      simp only [Run.upon, hg.method hhas₁, hg.methodName hw₁ hhas₁]
  | some found =>
    have hfound := (hans.2 found rfl).has
    apply Repeats.get
    · dsimp only
      split
      · exact Repeats.pure _
      · apply Repeats.bind (repeats_identify _)
        intro _ run₂ _
        split
        · exact Repeats.pure _
        · exact Repeats.throw _
    · intro r hg _
      have hkey : r.itemKey (.method found) = run₁.registry.itemKey (.method found) :=
        hg.itemKey hw₁ hfound
      simp only [Run.upon, hg.method hhas₁, hg.methodName hw₁ hhas₁, hg.method hfound,
        hg.methodName hw₁ hfound, WorkQueue.contains, hkey]
      rfl

theorem repeats_checkPlugs {items : List Item} (hi : ∀ x ∈ items, x ∈ run.scanner.queue.items) :
    Repeats (checkPlugs items) run := by
  unfold checkPlugs
  apply Repeats.mapM Nothing []
    (fun run' => run'.Sound ∧ ∀ x ∈ items, x ∈ run'.scanner.queue.items) ⟨hs, hi⟩
  rintro x hx run' ⟨hs', hi'⟩
  cases x with
  | method m =>
    have hm := hi' _ hx
    constructor
    · apply Steps.bind (steps_checkedPlug hs' hm)
      intro answer run₁ hstep₁ _
      exact Steps.pure hstep₁.sound ⟨hstep₁.sound, fun y hy => hstep₁.items (hi' y hy)⟩
    · apply Repeats.bind (repeats_checkedPlug hs' hm)
      intro answer run₁ _
      exact Repeats.pure _
  | type t => exact ⟨Steps.pure hs' ⟨hs', hi'⟩, Repeats.pure _⟩
  | field f => exact ⟨Steps.pure hs' ⟨hs', hi'⟩, Repeats.pure _⟩

theorem repeats_newRecord {m : MethodId} (hm : run.registry.Has (.method m)) (place uid : Nat)
    (kind : EmissionKind) : Repeats (newRecord m place uid kind) run := by
  apply Repeats.bind (repeats_methodLabel hs hm)
  intro label run₁ _
  exact Repeats.pure _

theorem repeats_assembleNormal {m : MethodId} (hm : run.registry.Has (.method m))
    (place uid : Nat) : Repeats (assembleNormal place uid m) run := by
  apply Repeats.registry
  · dsimp only
    split
    · apply Repeats.after _ [] (steps_newRecord hs m place uid .normal)
        (repeats_newRecord hs hm place uid .normal)
      intro record run₁ hstep₁ _
      apply Repeats.bind (repeats_decodeStamped hstep₁.sound (hstep₁.grows.has hm))
      intro code run₂ _
      exact repeats_emit _
    · exact Repeats.pure _
  · intro r hg _
    simp only [hg.method hm]

theorem repeats_standIn {record plugRecord : MethodRecord}
    (hr : run.registry.Has (.method record.method))
    (hp : run.registry.Has (.method plugRecord.method)) {k : String → List Instruction → Scan Unit}
    (hk : ∀ label code run', Repeats (k label code) run') :
    Repeats (do
      let label ← methodLabel record.method
      let code ← decodeStamped plugRecord.method
      k label code) run := by
  apply Repeats.after Nothing [] (steps_methodLabel hs _)
    (repeats_methodLabel hs hr)
  intro label run₁ hstep₁ _
  apply Repeats.bind (repeats_decodeStamped hstep₁.sound (hstep₁.grows.has hp))
  intro code run₂ _
  exact hk label code run₂

theorem repeats_forwardWithOptions {record plugRecord : MethodRecord}
    (hr : run.registry.Has (.method record.method))
    (hp : run.registry.Has (.method plugRecord.method)) (options : PlugOptions) :
    Repeats (forwardWithOptions record plugRecord options) run := by
  unfold forwardWithOptions
  dsimp only
  split
  · apply repeats_standIn hs hr hp
    intro label code run'
    split
    · apply Repeats.bind (repeats_emit _)
      intro _ run₁ _
      exact repeats_emit _
    · exact repeats_emit _
  · exact repeats_emit _

theorem repeats_forwardInline {record plugRecord : MethodRecord}
    (hr : run.registry.Has (.method record.method))
    (hp : run.registry.Has (.method plugRecord.method)) :
    Repeats (forwardInline record plugRecord) run := by
  apply repeats_standIn hs hr hp
  intro label code run'
  apply Repeats.bind (repeats_emit _)
  intro _ run₁ _
  exact repeats_emit _

theorem repeats_assemblePlugged {m plug : MethodId} (hm : run.registry.Has (.method m))
    (hp : run.registry.Has (.method plug)) (place uid : Nat) :
    Repeats (assemblePlugged place uid m plug) run := by
  apply Repeats.after Nothing [] (steps_identify hs _) (repeats_identify _)
  intro _ run₁ hstep₁ _
  have hs₁ := hstep₁.sound
  have hp₁ := hstep₁.grows.has hp
  have hm₁ := hstep₁.grows.has hm
  apply Repeats.get
  · apply Repeats.after Nothing [] (steps_methodUid hs₁ plug)
      (repeats_methodUid hs₁ hp₁)
    intro plugUid run₂ hstep₂ _
    have hs₂ := hstep₂.sound
    have hm₂ := hstep₂.grows.has hm₁
    apply Repeats.after _ [] (steps_newRecord hs₂ m place uid .needsPlug)
      (repeats_newRecord hs₂ hm₂ place uid .needsPlug)
    rintro record run₃ hstep₃ ⟨hrec, -⟩
    have hs₃ := hstep₃.sound
    have hp₃ := hstep₃.grows.has (hstep₂.grows.has hp₁)
    have hm₃ : run₃.registry.Has (.method record.method) := by
      rw [hrec.method]
      exact hstep₃.grows.has hm₂
    dsimp only
    split
    · apply Repeats.after _ [] (steps_newRecord hs₃ plug place plugUid .plug)
        (repeats_newRecord hs₃ hp₃ place plugUid .plug)
      rintro plugRecord run₄ hstep₄ ⟨hprec, -⟩
      apply repeats_forwardInline hstep₄.sound (hstep₄.grows.has hm₃)
      rw [hprec.method]
      exact hstep₄.grows.has hp₃
    · apply Repeats.after _ [] (steps_newRecord hs₃ plug _ plugUid .plug)
        (repeats_newRecord hs₃ hp₃ _ plugUid .plug)
      rintro plugRecord run₄ hstep₄ ⟨hprec, -⟩
      split
      · apply repeats_forwardWithOptions hstep₄.sound (hstep₄.grows.has hm₃)
        rw [hprec.method]
        exact hstep₄.grows.has hp₃
      · exact repeats_emit _
  · intro r hg _
    have hkey : r.itemKey (.method plug) = run₁.registry.itemKey (.method plug) :=
      hg.itemKey hs₁.wellFormed hp₁
    simp only [Run.upon, hg.method hp₁, WorkQueue.indexOf?, hkey]

theorem repeats_assembleItem (place : Nat) {entry : Item × Option MethodId}
    (hentry : Checked run entry) : Repeats (assembleItem place entry) run := by
  obtain ⟨item, answer⟩ := entry
  obtain ⟨hmem, hans, -⟩ := hentry
  cases item with
  | type t => exact Repeats.pure _
  | field f => exact repeats_emit _
  | method m =>
    have hhas := (hs.item hmem).1
    have hplug := (hans m rfl).2
    apply Repeats.registry
    · split
      · apply Repeats.after Nothing [] (steps_methodUid hs m)
          (repeats_methodUid hs hhas)
        intro uid run₁ hstep₁ _
        have hhas₁ := hstep₁.grows.has hhas
        cases answer with
        | some plug =>
          exact repeats_assemblePlugged hstep₁.sound hhas₁
            (hstep₁.grows.has (hplug plug rfl).has) place uid
        | none => exact repeats_assembleNormal hstep₁.sound hhas₁ place uid
      · exact Repeats.pure _
    · intro r hg _
      simp only [hg.method hhas]

theorem repeats_assembleItems (hc : run.Complete lost) (place : Nat)
    {entries : List (Item × Option MethodId)} (hentries : ∀ e ∈ entries, Checked run e) :
    Repeats (assembleItems place entries) run := by
  induction entries generalizing run place with
  | nil => exact Repeats.pure _
  | cons entry rest ih =>
    have hentry := hentries entry List.mem_cons_self
    apply Repeats.after _ _ (steps_assembleItem hc hs place hentry)
      (repeats_assembleItem hs place hentry)
    intro _ run₁ hstep₁ _
    apply ih hstep₁.sound (hc.step hstep₁)
    intro e he
    exact (hentries e (List.mem_cons_of_mem _ he)).step hs hstep₁

theorem repeats_methodTables : Repeats methodTables run := by
  have htypes : ∀ t ∈ run.scanner.queue.types, run.registry.Has (.type t) := by
    intro t ht
    obtain ⟨x, hx, htype⟩ := List.mem_filterMap.mp ht
    have hxt : x = .type t := by
      cases x <;> simp_all [Item.type?]
    rw [← hxt]
    exact (hs.item hx).1
  have hmethods : ∀ m ∈ run.scanner.queue.methods, run.registry.Has (.method m) := by
    intro m hm
    obtain ⟨x, hx, hmethod⟩ := List.mem_filterMap.mp hm
    have hxm : x = .method m := by
      cases x <;> simp_all [Item.method?]
    rw [← hxm]
    exact (hs.item hx).1
  let within : Run → Prop := fun run' => run'.Sound ∧ run.registry.Grows run'.registry
  have hnumber : Steps Nothing []
        (run.scanner.queue.types.mapM fun t => do return (t, ← typeUid t)) run
        (fun _ run' => within run') ∧
      Repeats (run.scanner.queue.types.mapM fun t => do return (t, ← typeUid t)) run := by
    have hone : ∀ t ∈ run.scanner.queue.types, ∀ run', within run' →
        Steps Nothing [] (do return (t, ← typeUid t)) run' (fun _ run'' => within run'') ∧
        Repeats (do return (t, ← typeUid t)) run' := by
      rintro t ht run' ⟨hs', hg'⟩
      constructor
      · apply Steps.bind (steps_typeUid hs' t)
        intro uid run₁ hstep₁ _
        exact Steps.pure hstep₁.sound ⟨hstep₁.sound, hg'.trans hstep₁.grows⟩
      · apply Repeats.bind (repeats_typeUid hs'.wellFormed (hg'.has (htypes t ht)))
        intro uid run₁ _
        exact Repeats.pure _
    constructor
    · apply Steps.weaken (Steps.mapM hs within (fun _ _ => True) ⟨hs, .refl _⟩ ?_
        fun _ _ _ _ _ _ => trivial) fun _ _ _ hq => hq.1
      intro t ht run' _ hin
      exact ((hone t ht run' hin).1).weaken fun _ _ _ hq => ⟨hq, trivial⟩
    · exact Repeats.mapM _ _ within ⟨hs, .refl _⟩ hone
  apply Repeats.get
  · apply Repeats.after _ _ hnumber.1 hnumber.2
    rintro types run₁ - ⟨hs₁, hg₁⟩
    refine Repeats.bind ?_ fun _ _ _ => Repeats.pure _
    apply Repeats.mapM Nothing [] within ⟨hs₁, hg₁⟩
    rintro m hm run' ⟨hs', hg'⟩
    constructor
    · apply Steps.bind (steps_methodUid hs' m)
      intro uid run₂ hstep₂ _
      exact Steps.pure hstep₂.sound ⟨hstep₂.sound, hg'.trans hstep₂.grows⟩
    · apply Repeats.bind (repeats_methodUid hs' (hg'.has (hmethods m hm)))
      intro uid run₂ _
      exact Repeats.pure _
  · intro r _ _
    rfl

end

theorem repeats_assemble (h : Within start roots lost run) (hc : run.Complete lost) :
    Repeats assemble run := by
  have hs := (h.withPhase .finalizing).progress.sound
  have hc := hc.withPhase .finalizing
  apply Repeats.bind (repeats_enter _)
  intro _ run₀ hr
  cases hr
  have hcheck : Steps _ lost _ _ _ := steps_checkPlugs hs fun x hx => hx
  apply Repeats.get
  · apply Repeats.after _ _ hcheck (repeats_checkPlugs hs fun x hx => hx)
    intro entries run₁ hstep₁ hentries
    have hs₁ := hstep₁.sound
    have hc₁ := hc.step hstep₁
    apply Repeats.after _ _ (steps_assembleItems hc₁ hs₁ 0 hentries)
      (repeats_assembleItems hs₁ hc₁ 0 hentries)
    intro _ run₂ hstep₂ _
    apply repeats_emitWith
    apply repeats_methodTables
    have hcount : run₂.Step Nothing lost { run₂ with generator := run₂.generator.counted } :=
      quiet_counted hstep₂.sound _ rfl
    exact hcount.sound
  · intro r _ _
    rfl

/-! ## whole scans -/

theorem repeats_execute {entry : MethodId} (h : start.Between roots lost)
    (hentry : start.registry.Has (.method entry)) (hroots : .method entry ∈ roots) :
    Repeats (execute entry) start := by
  apply Repeats.bind (repeats_indexPlugs h)
  intro _ run₁ hr₁
  have h₁ := (ends_indexPlugs h).ok hr₁
  have hentry₁ := h₁.onward.grows.has hentry
  apply Repeats.bind (repeats_enqueue h₁.progress.sound hentry₁ _ _)
  intro _ run₂ hr₂
  obtain ⟨h₂, -⟩ := (ends_enqueue h₁ hroots hentry₁ .entryPoint).ok hr₂
  apply Repeats.bind (repeats_drainQueue h₂)
  intro _ run₃ hr₃
  obtain ⟨h₃, -, hc₃⟩ := (ends_drainQueue h₂).ok hr₃
  apply Repeats.bind (repeats_assemble h₃ hc₃)
  intro _ run₄ _
  apply Repeats.bind (repeats_emit _)
  intro _ run₅ _
  exact repeats_enter _

/-- Two scans that went the same way: same elements in the same order, same counts, numbers and
emissions. -/
structure SameScan (run run' : Run) : Prop where
  scanner : run'.scanner = run.scanner
  generator : run'.generator = run.generator
  keys : run'.scanner.queue.items.map run'.registry.itemKey =
    run.scanner.queue.items.map run.registry.itemKey
  uids : ∀ m, run.registry.Has (.method m) →
    run'.scanner.uids.methodUid run'.registry m = run.scanner.uids.methodUid run.registry m

theorem sameScan_over (hs : run.Sound) {r : Registry} (hg : run.registry.Grows r) :
    SameScan run (run.upon r) := by
  refine ⟨rfl, rfl, ?_, ?_⟩
  · apply List.map_congr_left
    intro x hx
    exact hg.itemKey hs.wellFormed (hs.item hx).1
  · intro m hm
    exact hg.methodUid hs.wellFormed _ hm

/-- **What a scan adds to the program is invisible to later scans.**  After a successful scan, a new
scanner of the same configuration started from the same entry over the program that the scan left, or
over any later state of it, succeeds, goes the same way and adds nothing. -/
theorem execute_repeats {r : Registry} (hw : r.WellFormed) {entry : MethodId}
    (hentry : r.Has (.method entry)) (config : ScanConfig) (generator : Generator) {run : Run}
    (hrun : execute entry (.fresh r config generator) = .ok () run) :
    run.registry.WellFormed ∧
    ∀ later, run.registry.Grows later → later.WellFormed →
      ∃ run', execute entry (.fresh later config generator) = .ok () run' ∧ SameScan run run' ∧
        run'.registry.forget = later.forget := by
  have hbetween := (blank_fresh hw config generator).between [.method entry] []
  have hs : run.Sound :=
    ((ends_execute hbetween hentry (by simp)).ok hrun).within.progress.sound
  refine ⟨hs.wellFormed, ?_⟩
  intro later hg hwl
  obtain ⟨-, hagain⟩ := repeats_execute hbetween hentry (by simp) () run hrun
  obtain ⟨r', hr', hf⟩ := hagain later hg hwl
  have hgr : run.registry.Grows r' := hg.trans (.of_forget hf.symm)
  exact ⟨run.upon r', hr', sameScan_over hs hgr, hf⟩

/-- `Program` has a field of type `System.Int32[]`, and `Program.Main` makes an array of `Program`.
`System.SZArrayHelper` has a hidden generic method, which is instantiated for arrays that are
reached. -/
def declareArrays : Action MethodId := do
  let module ← Registry.addModule "Program"
  let helper ← Registry.declareType { module, namespaceName := "System", name := "SZArrayHelper" }
  let param ← Registry.addParameter module "T" 0 .method
  let count : MethodDesign :=
    { module, name := "Count", declaring := some helper, genericParams := [param],
      body := some { code := [0x2A] } }
  let _ ← Registry.declareMethod (count.withOptions { isPrivate := true })
  let program ← Registry.declareType { module, namespaceName := "", name := "Program" }
  let int ← Registry.wellKnown "System.Int32"
  let _ ← Registry.declareField module program "data" (← Registry.construct .szArray int) 0 []
  let token ← Registry.tokenFor module (.type (some program))
  declareStatic module program "Main"
    (some { code := 0x16 :: 0x8D :: token.bytes ++ [0x26, 0x2A] }) []

/-- the first scan makes an array type and an instance of the helper; the second finds both -/
theorem execute_repeats_arrays : ∃ run run',
    execute ⟨1⟩ (.fresh (onCore declareArrays) {} {}) = .ok () run ∧
    (onCore declareArrays).types.size < run.registry.types.size ∧
    (onCore declareArrays).methods.size < run.registry.methods.size ∧
    .method ⟨2⟩ ∈ run.scanner.queue.items ∧
    execute ⟨1⟩ (.fresh run.registry {} {}) = .ok () run' ∧ SameScan run run' := by
  obtain ⟨hw, hmain, hfirst⟩ : (onCore declareArrays).WellFormed ∧
      (onCore declareArrays).Has (.method ⟨1⟩) ∧
      succeedsWith (execute ⟨1⟩) (.fresh (onCore declareArrays) {} {}) (fun run =>
        decide ((onCore declareArrays).types.size < run.registry.types.size) &&
          decide ((onCore declareArrays).methods.size < run.registry.methods.size) &&
          run.scanner.queue.items.contains (.method ⟨2⟩)) = true := by
    decide +kernel
  obtain ⟨run, hrun, hgrown⟩ := exists_of_succeedsWith hfirst
  simp only [Bool.and_eq_true, decide_eq_true_eq, List.contains_iff_mem] at hgrown
  obtain ⟨⟨htypes, hmethods⟩, hmade⟩ := hgrown
  obtain ⟨hw', hagain⟩ := execute_repeats hw hmain {} {} hrun
  obtain ⟨run', hrun', hsame, -⟩ := hagain run.registry (.refl _) hw'
  exact ⟨run, run', hrun, htypes, hmethods, hmade, hrun', hsame⟩

end Scan

end ProgramScan

import ProgramScan.Proofs.Scan.Assembling

/-!
# One call of a scanner

What holds of a scanner between two calls (`Run.Between`), and what a call of `execute` makes of it
(`Scan.between_execute`).  The call files plug types if that has not been done, puts its entry into
the queue, drains the queue and emits what it holds:

* if it succeeds, every element of the queue that was not lost before is explored, and what was
  emitted names only elements that were reached;
* if it fails, the element it was looking into may be lost (`Run.interrupted`); nothing else is.
-/

namespace ProgramScan

open Registry (Grows HasIndex)

theorem Emission.Reached.of_nil {run : Run} {em : Emission} (h : em.Reached [] run)
    (lost : List Item) : em.Reached lost run := by
  cases em with
  | body record code => exact ⟨h.method, h.hasCode, h.inPlace, fun hi _ => h.names hi (by simp)⟩
  | _ => trivial

namespace Run

def withPhase (run : Run) (phase : Phase) : Run := run.modifyScanner fun s => { s with phase }

structure Blank (run : Run) : Prop where
  wellFormed : run.registry.WellFormed
  index : run.registry.HasIndex run.scanner.plugs.index
  entries : run.scanner.queue.entries = []
  taken : run.scanner.queue.taken = 0
  answers : ∀ key, run.scanner.plugs.resolved.get? key = none

/-- What holds of a scanner between two calls, after calls from `roots` that lost `lost`. -/
structure Between (run : Run) (roots lost : List Item) : Prop where
  progress : run.Progress roots lost
  /-- nothing is reached before plug types are filed -/
  blank : run.scanner.plugsIndexed = false → run.Blank

/-- the element that a failure interrupted: elements are looked into in one phase only -/
def interrupted (run : Run) : List Item :=
  if run.scanner.phase = .draining then run.lastTaken else []

/-- A later state of a scan, in whatever phase. -/
structure Onward (lost : List Item) (run run' : Run) : Prop where
  grows : run.registry.Grows run'.registry
  config : run'.scanner.config = run.scanner.config
  entries : ∀ e ∈ run.scanner.queue.entries, e ∈ run'.scanner.queue.entries
  emitted : ∃ new, run'.generator.emissions = run.generator.emissions ++ new ∧
    ∀ em ∈ new, em.Reached lost run'

variable {run run' run'' : Run} {roots lost : List Item} {S : Item → Registry → Prop}

/-! ## later states -/

theorem Step.onward (h : Step S lost run run') : run.Onward lost run' :=
  ⟨h.grows, h.config, h.entries, h.emitted⟩

theorem Onward.refl (run : Run) : run.Onward lost run :=
  ⟨.refl _, rfl, fun _ h => h, ⟨[], by simp, by simp⟩⟩

theorem Onward.withPhase (run : Run) (phase : Phase) : run.Onward lost (run.withPhase phase) :=
  ⟨.refl _, rfl, fun _ h => h, ⟨[], by simp [Run.withPhase, modifyScanner], by simp⟩⟩

theorem Onward.reached (h : run.Onward lost run') (hw : run.registry.WellFormed)
    {y : Item} (hy : run.Reached y) : run'.Reached y := by
  refine ⟨h.grows.has hy.1, ?_⟩
  rw [h.grows.itemKey hw hy.1]
  obtain ⟨e, he, hk⟩ := List.mem_map.mp hy.2
  exact List.mem_map.mpr ⟨e, h.entries e he, hk⟩

theorem Onward.emission (h : run.Onward lost run') (hw : run.registry.WellFormed) {em : Emission}
    (he : em.Reached lost run) : em.Reached lost run' :=
  he.mono h.grows fun _ hy => h.reached hw hy

theorem Onward.trans (h : run.Onward lost run') (hw : run'.registry.WellFormed)
    (h' : run'.Onward lost run'') : run.Onward lost run'' := by
  obtain ⟨new, hnew, hreached⟩ := h.emitted
  obtain ⟨new', hnew', hreached'⟩ := h'.emitted
  refine ⟨h.grows.trans h'.grows, h'.config.trans h.config, fun e he => h'.entries e (h.entries e he),
    ⟨new ++ new', by rw [hnew', hnew, List.append_assoc], fun em hem => ?_⟩⟩
  rcases List.mem_append.mp hem with hem | hem
  · exact h'.emission hw (hreached em hem)
  · exact hreached' em hem

theorem Drains.onward (h : run.Drains run') : run.Onward lost run' := by
  obtain ⟨new, hnew, hreached⟩ := h.emitted
  exact ⟨h.grows, h.config, h.entries, ⟨new, hnew, fun em hem => (hreached em hem).of_nil lost⟩⟩

/-! ## what does not depend on the phase -/

theorem Sound.withPhase (h : run.Sound) (phase : Phase) : (run.withPhase phase).Sound :=
  ⟨h.wellFormed, h.index, h.entries, h.distinct, h.answers⟩

theorem Explored.withPhase {x : Item} (h : run.Explored x) (phase : Phase) :
    (run.withPhase phase).Explored x :=
  ⟨h.closed, h.managed⟩

theorem Progress.withPhase (h : run.Progress roots lost) (phase : Phase) :
    (run.withPhase phase).Progress roots lost :=
  ⟨h.sound.withPhase phase, h.bound,
    fun e he => (h.explored e he).imp id fun hx => hx.withPhase phase, h.rooted⟩

theorem Complete.withPhase (h : run.Complete lost) (phase : Phase) :
    (run.withPhase phase).Complete lost :=
  fun x hx hl => (h x hx hl).withPhase phase

/-! ## nothing reached yet -/

theorem Blank.progress (h : run.Blank) (roots lost : List Item) : run.Progress roots lost where
  sound :=
    { wellFormed := h.wellFormed
      index := h.index
      entries e he := by simp [h.entries] at he
      distinct := by simp [WorkQueue.keys, h.entries]
      answers key answer ha := by simp [h.answers key] at ha }
  bound := by simp [h.taken]
  explored e he := by simp [h.entries] at he
  rooted := fun r hg hw T hr hc x hx => by simp [WorkQueue.items, h.entries] at hx

theorem Blank.between (h : run.Blank) (roots lost : List Item) : run.Between roots lost :=
  ⟨h.progress roots lost, fun _ => h⟩

/-- when everything was taken, everything but the lost elements is explored -/
theorem Progress.complete (h : run.Progress roots lost)
    (hall : run.scanner.queue.taken = run.scanner.queue.entries.length) : run.Complete lost := by
  intro x hx hl
  obtain ⟨e, he, rfl⟩ := List.mem_map.mp hx
  have hexplored := h.explored e
  rw [hall, List.take_length] at hexplored
  exact (hexplored he).resolve_left hl

end Run

namespace Scan

open Run

variable {run : Run} {roots lost : List Item}

/-! ## filing plug types -/

theorem indexPlugs_indexed (h : run.scanner.plugsIndexed = true) :
    indexPlugs run = .ok () run := by
  show (if !run.scanner.plugsIndexed then _ else _ : Scan Unit) run = _
  rw [h]
  rfl

theorem indexPlugs_unindexed (h : run.scanner.plugsIndexed = false) :
    indexPlugs run = (do
      enter .discovering
      reading fun run' => PlugIndex.findUses run'.registry run.scanner.config.plugModules
      onPlugs (PlugManager.findImplementors run.registry run.scanner.config.plugModules)
      reading fun run => run.registry.checkUses run.scanner.plugs.index
      onPlugs (PlugManager.scanFound run.registry)
      modify fun run => run.modifyScanner fun s => { s with plugsIndexed := true } : Scan Unit)
        run := by
  show (if !run.scanner.plugsIndexed then _ else _ : Scan Unit) run = _
  rw [h]
  rfl

/-- the state after filing plug types, compared with the one before -/
structure Filed (run run' : Run) : Prop where
  onward : ∀ lost, run.Onward lost run'
  blank : run'.Blank

theorem blank_discovering (h : run.Blank) {r : Registry} (hr : r.forget = run.registry.forget)
    {plugs : PlugManager} (hi : run.registry.HasIndex plugs.index)
    (hm : plugs.resolved = run.scanner.plugs.resolved) (indexed : Bool) :
    Filed run { run with
      registry := r
      scanner := { run.scanner with
        plugs
        plugsIndexed := indexed
        phase := .discovering } } where
  onward _ := ⟨.of_forget hr.symm, rfl, fun _ hk => hk, ⟨[], by simp, by simp⟩⟩
  blank :=
    { wellFormed := .of_forget hr.symm h.wellFormed
      index := (Grows.of_forget hr.symm).hasIndex hi
      entries := h.entries
      taken := h.taken
      answers key := by
        show plugs.resolved.get? key = none
        rw [hm]
        exact h.answers key }

theorem filed_indexPlugs (h : run.Blank) (hn : run.scanner.plugsIndexed = false) :
    match indexPlugs run with
    | .ok _ run' => Filed run run' ∧ run'.scanner.plugsIndexed = true ∧
        PlugIndex.findImplementors run.registry run.scanner.config.plugModules
          run.scanner.plugs.index = .ok () run'.scanner.plugs.index
    | .error _ run' => Filed run run' := by
  have hindex := Registry.hasIndex_findImplementors h.wellFormed
    run.scanner.config.plugModules h.index
  rw [indexPlugs_unindexed hn]
  simp only [Registry.bind_apply, enter, reading, onPlugs, PlugManager.findImplementors,
    PlugManager.scanFound, modify, Registry.modifyGet_apply, Run.useNames, Run.modifyScanner]
  cases hf : PlugIndex.findImplementors run.registry run.scanner.config.plugModules
      run.scanner.plugs.index with
  | error e index =>
    rw [hf] at hindex
    refine blank_discovering h ?_ hindex ?_ _
    · rw [Registry.forget_useNames]
    · rfl
  | ok u index =>
    rw [hf] at hindex
    dsimp only
    cases hc : run.registry.checkPlugs index run.scanner.plugs.diagnostics with
    | error e diagnostics =>
      refine blank_discovering h ?_ hindex ?_ _
      · rw [Registry.forget_useNames, Registry.forget_useNames]
      · rfl
    | ok fields diagnostics =>
      refine ⟨blank_discovering h ?_ hindex ?_ _, rfl, rfl⟩
      · rw [Registry.forget_useNames, Registry.forget_useNames]
      · rfl

/-! ## the stages of a call -/

/-- the operation ends in a state with `Q`, or fails in a state with `E` -/
def Ends (act : Scan Unit) (run : Run) (Q E : Run → Prop) : Prop :=
  match act run with
  | .ok _ run' => Q run'
  | .error _ run' => E run'

theorem Ends.ok {act : Scan Unit} {Q E : Run → Prop} (h : Ends act run Q E) {run' : Run}
    (hr : act run = .ok () run') : Q run' := by
  rw [Ends, hr] at h
  exact h

theorem Ends.bind {x : Scan Unit} {k : Unit → Scan Unit} {Q R E : Run → Prop} (hx : Ends x run Q E)
    (hk : ∀ run', Q run' → Ends (k ()) run' R E) : Ends (x >>= k) run R E := by
  simp only [Ends, Registry.bind_apply] at hx ⊢
  cases hr : x run with
  | ok u run' =>
    rw [hr] at hx
    exact hk run' hx
  | error e run' =>
    rw [hr] at hx
    exact hx

theorem Ends.of_steps {S : Item → Registry → Prop} {act : Scan Unit} {P : Unit → Run → Prop}
    {Q E : Run → Prop} (h : Steps S lost act run P)
    (hok : ∀ run', run.Step S lost run' → P () run' → Q run')
    (herr : ∀ run', run.Step S lost run' → E run') : Ends act run Q E := by
  simp only [Steps] at h
  simp only [Ends]
  cases hr : act run with
  | ok u run' =>
    rw [hr] at h
    exact hok run' h.1 h.2
  | error e run' =>
    rw [hr] at h
    exact herr run' h

/-- A state within a call that began in `start`, once plug types are filed. -/
structure Within (start : Run) (roots lost : List Item) (run : Run) : Prop where
  onward : start.Onward lost run
  progress : run.Progress roots lost
  indexed : run.scanner.plugsIndexed = true
  filed : start.scanner.plugsIndexed = false →
    PlugIndex.findImplementors start.registry start.scanner.config.plugModules
      start.scanner.plugs.index = .ok () run.scanner.plugs.index

/-- The state in which a call that began in `start` failed. -/
structure Failed (start : Run) (roots lost : List Item) (run : Run) : Prop where
  grows : start.registry.Grows run.registry
  config : run.scanner.config = start.scanner.config
  entries : ∀ e ∈ start.scanner.queue.entries, e ∈ run.scanner.queue.entries
  between : run.Between roots (lost ++ run.interrupted)

variable {start : Run}

theorem Within.between (h : Within start roots lost run) : run.Between roots lost :=
  ⟨h.progress, fun hn => by simp [h.indexed] at hn⟩

theorem Within.withPhase (h : Within start roots lost run) (phase : Phase) :
    Within start roots lost (run.withPhase phase) :=
  ⟨h.onward.trans h.progress.sound.wellFormed (.withPhase run phase), h.progress.withPhase phase,
    h.indexed, h.filed⟩

theorem Within.failed (h : Within start roots lost run) : Failed start roots lost run :=
  ⟨h.onward.grows, h.onward.config, h.onward.entries, h.progress.mono fun _ => List.mem_append_left _,
    h.between.blank⟩

/-- a stage that adds nothing -/
theorem Within.idle {run' : Run} (h : Within start roots lost run)
    (hstep : run.Step Nothing lost run') : Within start roots lost run' :=
  ⟨h.onward.trans h.progress.sound.wellFormed hstep.onward, h.progress.idle hstep,
    by rw [hstep.indexed, h.indexed], by rw [hstep.index]; exact h.filed⟩

theorem ends_indexPlugs (h : start.Between roots lost) :
    Ends indexPlugs start (Within start roots lost) (Failed start roots lost) := by
  cases hn : start.scanner.plugsIndexed with
  | true =>
    simp only [Ends, indexPlugs_indexed hn]
    exact ⟨.refl _, h.progress, hn, by simp [hn]⟩
  | false =>
    have hfiled := filed_indexPlugs (h.blank hn) hn
    simp only [Ends]
    cases hr : indexPlugs start with
    | ok u run =>
      rw [hr] at hfiled
      exact ⟨hfiled.1.onward lost, hfiled.1.blank.progress _ _, hfiled.2.1, fun _ => hfiled.2.2⟩
    | error e run =>
      rw [hr] at hfiled
      exact ⟨(hfiled.onward []).grows, (hfiled.onward []).config, (hfiled.onward []).entries,
        hfiled.blank.between _ _⟩

/-- putting a root into the queue -/
theorem ends_enqueue (h : Within start roots lost run) {x : Item} (hx : x ∈ roots)
    (hhas : run.registry.Has x) (reason : Reason) :
    Ends (enqueue x reason none) run (fun run' => Within start roots lost run' ∧ run'.Reached x)
      (Failed start roots lost) := by
  have hsteps : Steps (fun y _ => y ∈ roots) lost (enqueue x reason none) run
      fun _ run' => run'.Reached x :=
    steps_enqueue h.progress.sound ⟨hhas, .inr fun _ _ _ => hx⟩ reason none
  have hwithin : ∀ run', run.Step (fun y _ => y ∈ roots) lost run' →
      Within start roots lost run' := fun run' hstep =>
    ⟨h.onward.trans h.progress.sound.wellFormed hstep.onward,
      h.progress.extend (fun _ hy => hy) hstep, by rw [hstep.indexed, h.indexed],
      by rw [hstep.index]; exact h.filed⟩
  exact .of_steps hsteps (fun run' hstep hr => ⟨hwithin run' hstep, hr⟩)
    fun run' hstep => (hwithin run' hstep).failed

theorem ends_drainQueue (h : Within start roots lost run) :
    Ends drainQueue run
      (fun run' => Within start roots lost run' ∧ run.Onward lost run' ∧ run'.Complete lost)
      (Failed start roots lost) := by
  have h₁ := h.withPhase .draining
  have hphase : run.Onward lost (run.withPhase .draining) := .withPhase run _
  have hdrain := progress_drain run.scanner.config.budget h₁.progress
  have hrun : drainQueue run = drain run.scanner.config.budget (run.withPhase .draining) := rfl
  simp only [Ends, hrun]
  cases hr : drain run.scanner.config.budget (run.withPhase .draining) with
  | ok u run' =>
    rw [hr] at hdrain
    obtain ⟨hd, hp, hall⟩ := hdrain
    have hfiled := h.filed
    rw [← show run'.scanner.plugs.index = run.scanner.plugs.index from hd.index] at hfiled
    exact ⟨⟨h₁.onward.trans h₁.progress.sound.wellFormed hd.onward, hp, hd.indexed.trans h.indexed,
        hfiled⟩,
      hphase.trans h.progress.sound.wellFormed hd.onward, hp.complete hall⟩
  | error e run' =>
    rw [hr] at hdrain
    obtain ⟨hd, hp⟩ := hdrain
    have hphase' : run'.scanner.phase = .draining := hd.phase
    have hinterrupted : run'.interrupted = run'.lastTaken := by
      rw [interrupted, if_pos hphase']
    have hindexed : run'.scanner.plugsIndexed = true := hd.indexed.trans h.indexed
    refine ⟨h.onward.grows.trans hd.grows, hd.config.trans h.onward.config,
      fun e he => hd.entries e (h.onward.entries e he), ?_, ?_⟩
    · rw [hinterrupted]
      exact hp
    · simp [hindexed]

theorem ends_assemble (h : Within start roots lost run) (hc : run.Complete lost) :
    Ends assemble run
      (fun run' => Within start roots lost run' ∧ run.Onward lost run' ∧ run'.Complete lost)
      (Failed start roots lost) := by
  have h₁ := h.withPhase .finalizing
  have hc₁ := hc.withPhase .finalizing
  refine Ends.bind (Q := fun run' => run' = run.withPhase .finalizing) rfl ?_
  rintro _ rfl
  refine .of_steps (steps_assembleQueue hc₁ h₁.progress.sound) (fun run' hstep _ => ?_)
    fun run' hstep => (h₁.idle hstep).failed
  exact ⟨h₁.idle hstep, (Onward.withPhase run .finalizing).trans h.progress.sound.wellFormed
    hstep.onward,
    hc₁.step hstep⟩

theorem ends_emit (h : Within start roots lost run) (hc : run.Complete lost) (em : Emission)
    (he : em.Reached lost run) :
    Ends (emit em) run
      (fun run' => Within start roots lost run' ∧ run.Onward lost run' ∧ run'.Complete lost)
      (Failed start roots lost) :=
  .of_steps (steps_emit (S := Nothing) h.progress.sound he)
    (fun _ hstep _ => ⟨h.idle hstep, hstep.onward, hc.step hstep⟩)
    fun _ hstep => (h.idle hstep).failed

/-- The state in which a call from `entry` that began in `start` succeeded. -/
structure Succeeded (start : Run) (entry : Item) (roots lost : List Item) (run : Run) : Prop where
  within : Within start roots lost run
  complete : run.Complete lost
  reached : run.Reached entry

/-- **One call**: if it succeeds, everything but what was lost before is explored; if it fails, the
element it was looking into may be lost. -/
theorem ends_execute (h : start.Between roots lost) {entry : MethodId}
    (hentry : start.registry.Has (.method entry)) (hroots : .method entry ∈ roots) :
    Ends (execute entry) start (Succeeded start (.method entry) roots lost)
      (Failed start roots lost) := by
  refine (ends_indexPlugs h).bind fun run₁ h₁ => ?_
  refine (ends_enqueue h₁ hroots (h₁.onward.grows.has hentry) .entryPoint).bind ?_
  rintro run₂ ⟨h₂, hr₂⟩
  refine (ends_drainQueue h₂).bind ?_
  rintro run₃ ⟨h₃, hon₃, hc₃⟩
  have hr₃ := hon₃.reached h₂.progress.sound.wellFormed hr₂
  refine (ends_assemble h₃ hc₃).bind ?_
  rintro run₄ ⟨h₄, hon₄, hc₄⟩
  have hr₄ := hon₄.reached h₃.progress.sound.wellFormed hr₃
  refine (ends_emit h₄ hc₄ (.entry (some entry) []) trivial).bind ?_
  rintro run₅ ⟨h₅, hon₅, hc₅⟩
  have hr₅ := hon₅.reached h₄.progress.sound.wellFormed hr₄
  exact ⟨h₅.withPhase .done, hc₅.withPhase .done, hr₅⟩

end Scan

end ProgramScan

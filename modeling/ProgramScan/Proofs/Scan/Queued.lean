import ProgramScan.Proofs.Scan.Confined
import ProgramScan.Proofs.Scan.Feeding
import ProgramScan.Proofs.Scan.Rescanning

/-!
# What a call asks for was queued

Before it emits, a call asks for the plug of each method in its queue, and fails if the plug was
not reached; for the method tables it asks for the numbers of types, and fails if a type was not
reached.  With a new scanner no call fails for either reason (`Scan.Call.scan_finds_queued`):

* a method that is looked into leads to its plug, and all methods of the queue were looked into when
  plugs are checked;
* both times the plug is the one that the index gives, whether the answer was remembered or not;
* the method tables are made of the types in the queue.

The states on the way are those of a call that puts elements into the queue (`Run.Gathering`) and
of one that has looked into all of them (`Run.Gathered`).
-/

namespace ProgramScan

open Registry (Grows)

namespace Run

variable {r : Registry} {config : ScanConfig} {run run' run'' : Run}

/-! ## states -/

/-- A scan of `r` that has put elements into the queue and looked into none of them. -/
structure Gathering (r : Registry) (config : ScanConfig) (run : Run) : Prop where
  sound : run.Sound
  grows : r.Grows run.registry
  taken : run.scanner.queue.taken = 0
  answers : ∀ key, run.scanner.plugs.resolved.get? key = none
  numbers : run.scanner.uids = {}
  config : run.scanner.config = config

theorem gathering_fresh (hw : r.WellFormed) (generator : Generator) :
    (fresh r config generator).Gathering r config :=
  ⟨((blank_fresh hw config generator).progress [] []).sound, .refl r, rfl, fun _ => rfl, rfl, rfl⟩

namespace Gathering

theorem withOutput (h : run.Gathering r config) (generator : Generator) (phase : Phase) :
    (run.withOutput generator phase).Gathering r config :=
  ⟨h.sound.withOutput generator phase, h.grows, h.taken, h.answers, h.numbers, h.config⟩

/-- the elements that are in the queue are those that led to it -/
theorem progress (h : run.Gathering r config) : run.Progress run.scanner.queue.items [] where
  sound := h.sound
  bound := by simp [h.taken]
  explored e he := by simp [h.taken] at he
  rooted _ _ _ _ hroots _ := hroots

end Gathering

/-- A scan that has looked into everything it reached, and has not numbered types yet. -/
structure Gathered (run : Run) : Prop where
  sound : run.Sound
  complete : run.Complete []
  types : ∀ key, run.scanner.uids.types.get? key = none
  typeCount : run.scanner.uids.typeCount = 0

theorem Gathered.withOutput (h : run.Gathered) (generator : Generator) (phase : Phase) :
    (run.withOutput generator phase).Gathered :=
  ⟨h.sound.withOutput generator phase, fun x hx hl => ⟨(h.complete x hx hl).closed,
    (h.complete x hx hl).managed⟩, h.types, h.typeCount⟩

/-- from one state to a later one, the only method tables handed over are those of the types in the
queue -/
def Tabled (run run' : Run) : Prop :=
  ∃ new, run'.generator.emissions = run.generator.emissions ++ new ∧
    ∀ types methods, .tables types methods ∈ new →
      types.map Prod.fst = run'.scanner.queue.types

/-- from one state to a later one, method tables were handed over -/
def HandsTables (run run' : Run) : Prop :=
  ∃ new types methods, run'.generator.emissions = run.generator.emissions ++ new ∧
    .tables types methods ∈ new

theorem HandsTables.of_fed (h : run.Fed run') (h' : run'.HandsTables run'') :
    run.HandsTables run'' := by
  obtain ⟨new, hnew, -⟩ := h
  obtain ⟨more, types, methods, hmore, hmem⟩ := h'
  exact ⟨new ++ more, types, methods, by rw [hmore, hnew, List.append_assoc],
    List.mem_append_right _ hmem⟩

theorem HandsTables.fed (h : run.HandsTables run') (h' : run'.Fed run'') :
    run.HandsTables run'' := by
  obtain ⟨new, types, methods, hnew, hmem⟩ := h
  obtain ⟨more, hmore, -⟩ := h'
  exact ⟨new ++ more, types, methods, by rw [hmore, hnew, List.append_assoc],
    List.mem_append_left _ hmem⟩

theorem Fed.tabled (h : run.Fed run') : run.Tabled run' := by
  obtain ⟨new, hnew, hno⟩ := h
  refine ⟨new, hnew, fun types methods hmem => ?_⟩
  have hfalse := hno _ hmem
  cases hfalse

theorem Tabled.of_fed (h : run.Fed run') (h' : run'.Tabled run'') : run.Tabled run'' := by
  obtain ⟨new, hnew, hno⟩ := h
  obtain ⟨more, hmore, htables⟩ := h'
  refine ⟨new ++ more, by rw [hmore, hnew, List.append_assoc], fun types methods hmem => ?_⟩
  rcases List.mem_append.mp hmem with hmem | hmem
  · have hfalse := hno _ hmem
    cases hfalse
  · exact htables types methods hmem

theorem Tabled.fed (h : run.Tabled run') (h' : run'.Fed run'')
    (hq : run''.scanner.queue = run'.scanner.queue) : run.Tabled run'' := by
  obtain ⟨new, hnew, htables⟩ := h
  obtain ⟨more, hmore, hno⟩ := h'
  refine ⟨new ++ more, by rw [hmore, hnew, List.append_assoc], fun types methods hmem => ?_⟩
  rcases List.mem_append.mp hmem with hmem | hmem
  · rw [hq]
    exact htables types methods hmem
  · have hfalse := hno _ hmem
    cases hfalse

end Run

namespace Scan

open Run

variable {r : Registry} {config : ScanConfig} {run run' : Run}

/-! ## stages of a call -/

namespace Call

/-- everything that a call does before it checks plugs -/
def gather (call : Call) : Scan Unit := do
  call.approach
  drain (← get).scanner.config.budget
  enter .finalizing

def early (config : ScanConfig) : Call → List Emission
  | .execute _ => []
  | .boot _ _ => config.earlyFields.map .field

def entry : Call → Emission
  | .execute entry => .entry (some entry) []
  | .boot entries _ => .entry none entries

/-- what a call does with the elements of the queue and their plugs -/
def output (call : Call) (entries : List (Item × Option MethodId)) : Scan Unit := do
  assembleItems 0 entries
  emitWith methodTables
  emit call.entry
  enter .done

theorem scan_eq_gather (call : Call) :
    call.scan = call.gather >>= fun _ => get >>= fun run =>
      checkPlugs run.scanner.queue.items >>= call.output := by
  rw [call.scan_eq]
  cases call with
  | execute entry =>
    simp only [gather, conclude, assemble, bind_assoc]
    rfl
  | boot entries included =>
    simp only [gather, conclude, assemble, bind_assoc]
    rfl

end Call

/-! ## putting elements into the queue -/

theorem gathering_enqueue {x : Item} (hx : r.Has x) (reason : Reason) (source : Option String) :
    Keeps (Gathering r config) (enqueue x reason source) fun _ => True := by
  refine ⟨fun {run _ run'} h hr => ⟨?_, trivial⟩, fun _ hr => by cases hr⟩
  have hsteps : Steps (fun _ _ => True) [] (enqueue x reason source) run
      fun _ run' => run'.Reached x :=
    steps_enqueue h.sound ⟨h.grows.has hx, .inr fun _ _ _ => trivial⟩ reason source
  obtain ⟨hstep, -⟩ := hsteps.ok hr
  cases hr
  exact ⟨hstep.sound, h.grows.trans hstep.grows, hstep.taken.trans h.taken, h.answers, h.numbers,
    h.config⟩

theorem gathering_emit (em : Emission) :
    Keeps (Gathering r config) (emit em) fun _ => True := by
  constructor
  · intro run _ run' h hr
    rw [emit, emitWith_apply] at hr
    dsimp only at hr
    split at hr
    · cases hr
    · cases hr
      exact ⟨h.withOutput _ _, trivial⟩
  · intro run e run' h hr
    rw [emit, emitWith_apply] at hr
    dsimp only at hr
    split at hr
    · cases hr
      exact h.withOutput _ _
    · cases hr

theorem leaves_enqueueBootEntry (m : MethodId) :
    Leaves Error.OfProgram (enqueueBootEntry m) := by
  refine .registry fun r => ?_
  split
  · exact (leaves_enqueue _ _ _).bind fun _ => leaves_enqueue _ _ _
  · exact leaves_enqueue _ _ _

theorem emissions_emit {em : Emission} (hr : emit em run = .ok () run') :
    run'.generator.emissions = run.generator.emissions ++ [em] := by
  rw [emit, emitWith_apply] at hr
  dsimp only at hr
  split at hr
  · cases hr
  · cases hr
    rfl

theorem emissions_emitFields {fs : List FieldId}
    (hr : (fs.forM fun f => emit (.field f)) run = .ok () run') :
    run'.generator.emissions = run.generator.emissions ++ fs.map .field := by
  induction fs generalizing run with
  | nil =>
    cases hr
    simp
  | cons f fs ih =>
    obtain ⟨_, run₁, hr₁, hr⟩ := Registry.bind_eq_ok_iff.mp hr
    rw [ih hr, emissions_emit hr₁, List.map_cons, List.append_assoc, List.singleton_append]

/-- filing plug types does not change the queue, and no answer is remembered for them yet -/
theorem gathering_indexPlugs (h : run.Gathering r config) (hr : indexPlugs run = .ok () run') :
    run'.Gathering r config := by
  cases hn : run.scanner.plugsIndexed with
  | true =>
    rw [indexPlugs_indexed hn] at hr
    cases hr
    exact h
  | false =>
    obtain ⟨index, fields, diagnostics, hindex, -, rfl⟩ := (indexPlugs_eq_ok_iff hn).mp hr
    let run' := filedRun run index fields diagnostics
    have hw := h.sound.wellFormed
    have hgrows : run.registry.Grows run'.registry := (Grows.useNames _ _).trans (.useNames _ _)
    have hhas := Registry.hasIndex_findImplementors hw run.scanner.config.plugModules h.sound.index
    rw [hindex] at hhas
    have hquiet : run.Quiet { run with registry := run'.registry } :=
      ⟨hgrows, (hw.useNames _).useNames _, rfl, rfl, rfl, rfl, rfl, rfl⟩
    have hs := h.sound.quiet hquiet
    refine ⟨⟨hs.wellFormed, hgrows.hasIndex hhas, hs.entries, hs.distinct, fun key answer ha => ?_⟩,
      h.grows.trans hgrows, h.taken, h.answers, h.numbers, h.config⟩
    cases (h.answers key).symm.trans ha

section
variable (hw : r.WellFormed)
include hw

theorem gathering_enqueueBootEntry {m : MethodId} (hm : r.Has (.method m)) :
    Keeps (Gathering r config) (enqueueBootEntry m) fun _ => True := by
  refine keeps_registry fun run h => ?_
  split
  · rename_i declaring hdeclaring
    rw [h.grows.method hm] at hdeclaring
    refine (gathering_enqueue (hw.declaring hm hdeclaring) _ _).bind fun _ _ => ?_
    exact gathering_enqueue hm _ _
  · exact gathering_enqueue hm _ _

variable (hconfig : ∀ m ∈ config.explicitEntries, r.Has (.method m)) {call : Call}
  (hcall : ∀ x ∈ call.items, r.Has x) {generator : Generator}
include hconfig hcall

/-- what a call has put into the queue, and emitted, when it begins to look into the queue -/
theorem gathering_approach (hr : call.approach (.fresh r config generator) = .ok () run) :
    run.Gathering r config ∧
      run.generator.emissions = generator.emissions ++ call.early config := by
  have hfresh : (fresh r config generator).Gathering r config := gathering_fresh hw generator
  cases call with
  | execute entry =>
    have hentry : r.Has (.method entry) := hcall _ List.mem_cons_self
    obtain ⟨_, run₁, hr₁, hr⟩ := Registry.bind_eq_ok_iff.mp hr
    obtain ⟨_, run₂, hr₂, hr⟩ := Registry.bind_eq_ok_iff.mp hr
    cases hr
    have h₂ := ((gathering_enqueue hentry _ _).ok (gathering_indexPlugs hfresh hr₁) hr₂).1
    have hu₁ := leaves_indexPlugs.ok hr₁
    have hu₂ := (leaves_enqueue (E := Error.OfProgram) _ _ _).ok hr₂
    refine ⟨h₂.withOutput run₂.generator .draining, ?_⟩
    show run₂.generator.emissions = _
    rw [(hu₁.trans hu₂).generator]
    exact (List.append_nil _).symm
  | boot entries included =>
    have hentries : ∀ m ∈ entries, r.Has (.method m) := fun m hm =>
      hcall _ (List.mem_append_left _ (List.mem_map_of_mem hm))
    have hincluded : ∀ x ∈ included, r.Has x := fun x hx => hcall x (List.mem_append_right _ hx)
    obtain ⟨_, run₁, hr₁, hr⟩ := Registry.bind_eq_ok_iff.mp hr
    obtain ⟨_, run₂, hr₂, hr⟩ := Registry.bind_eq_ok_iff.mp hr
    obtain ⟨_, run₃, hr₃, hr⟩ := Registry.bind_eq_ok_iff.mp hr
    rw [Registry.get_bind_apply] at hr
    obtain ⟨_, run₄, hr₄, hr⟩ := Registry.bind_eq_ok_iff.mp hr
    obtain ⟨_, run₅, hr₅, hr⟩ := Registry.bind_eq_ok_iff.mp hr
    cases hr
    have hboot : Keeps (Gathering r config) (entries.forM enqueueBootEntry) fun _ => True :=
      .forM fun m hm => gathering_enqueueBootEntry hw (hentries m hm)
    have h₁ := (hboot.ok hfresh hr₁).1
    have h₂ := ((Keeps.forM fun x hx => gathering_enqueue (hincluded x hx) _ _).ok h₁ hr₂).1
    have h₃ := gathering_indexPlugs h₂ hr₃
    rw [h₃.config] at hr₄ hr₅
    have h₄ := ((Keeps.forM fun m hm => gathering_enqueue (hconfig m hm) _ _).ok h₃ hr₄).1
    have h₅ := ((Keeps.forM fun f _ => gathering_emit _).ok h₄ hr₅).1
    -- the early fields are the first that is emitted
    have hu₁ := (Leaves.forM leaves_enqueueBootEntry entries).ok hr₁
    have hu₂ := (Leaves.forM (E := Error.OfProgram)
      (fun x => leaves_enqueue x .forceInclude none) included).ok hr₂
    have hu₄ := (Leaves.forM (E := Error.OfProgram)
      (fun m => leaves_enqueue (.method m) .explicitEntry none) config.explicitEntries).ok hr₄
    have hu := ((hu₁.trans hu₂).trans (leaves_indexPlugs.ok hr₃)).trans hu₄
    refine ⟨h₅.withOutput run₅.generator .draining, ?_⟩
    show run₅.generator.emissions = _
    rw [emissions_emitFields hr₅, hu.generator]
    rfl

end

theorem feeds_approach (call : Call) : Feeds call.approach := by
  have hindex : Feeds indexPlugs := .of_leaves leaves_indexPlugs
  have henqueue : ∀ x reason source, Feeds (enqueue x reason source) :=
    fun _ _ _ => .of_leaves (leaves_enqueue _ _ _)
  have henter : ∀ phase, Feeds (enter phase) := fun phase => .of_leaves (leaves_enter phase)
  cases call with
  | execute entry => exact hindex.bind fun _ => (henqueue _ _ _).bind fun _ => henter _
  | boot entries included =>
    refine (Feeds.forM (fun m => .of_leaves (leaves_enqueueBootEntry m)) entries).bind fun _ => ?_
    refine (Feeds.forM (fun x => henqueue _ _ _) included).bind fun _ => hindex.bind fun _ => ?_
    refine .get fun run => (Feeds.forM (fun m => henqueue _ _ _) _).bind fun _ => ?_
    exact (Feeds.forM (fun f => feeds_emit rfl) _).bind fun _ => henter _

/-! ## looking into the queue -/

/-- **Everything is looked into** when a call comes to check plugs. -/
theorem gather_spec (hw : r.WellFormed) (hconfig : ∀ m ∈ config.explicitEntries, r.Has (.method m))
    {call : Call} (hcall : ∀ x ∈ call.items, r.Has x) (generator : Generator) :
    match call.gather (.fresh r config generator) with
    | .ok _ run => run.Gathered ∧ (fresh r config generator).Fed run
    | .error e run => e.NotUnqueued ∧ (fresh r config generator).Fed run := by
  rw [Call.gather, Registry.bind_apply]
  cases hr₁ : call.approach (.fresh r config generator) with
  | error e run₁ =>
    obtain ⟨hfed, he⟩ := (feeds_approach call).error hr₁
    exact ⟨he.notUnqueued, hfed⟩
  | ok u run₁ =>
    obtain ⟨h₁, -⟩ := gathering_approach hw hconfig hcall hr₁
    have hfed₁ := (feeds_approach call).ok hr₁
    have hdrain := progress_drain run₁.scanner.config.budget h₁.progress
    dsimp only
    rw [Registry.get_bind_apply, Registry.bind_apply]
    cases hr₂ : drain run₁.scanner.config.budget run₁ with
    | error e run₂ =>
      obtain ⟨hu, he⟩ := (leaves_drain _).error hr₂
      exact ⟨he, hfed₁.trans (.of_eq (congrArg _ hu.generator))⟩
    | ok v run₂ =>
      rw [hr₂] at hdrain
      obtain ⟨-, hprogress, hall⟩ := hdrain
      have hu := (leaves_drain _).ok hr₂
      have h₂ : run₂.Gathered := by
        refine ⟨hprogress.sound, hprogress.complete hall, fun key => ?_, ?_⟩
        · rw [hu.types, h₁.numbers]
          rfl
        · rw [hu.typeCount, h₁.numbers]
      exact ⟨h₂.withOutput run₂.generator .finalizing,
        hfed₁.trans (.of_eq (congrArg _ hu.generator))⟩

/-! ## checking plugs -/

theorem checkedPlug_notUnqueued (hs : run.Sound) (hc : run.Complete []) {m : MethodId}
    (hm : .method m ∈ run.scanner.queue.items) {e : Error}
    (hr : checkedPlug m run = .error e run') : e.NotUnqueued := by
  have hresolve : Steps Nothing [] (resolvePlug m) run fun answer run' => Answered run' m answer :=
    steps_resolvePlug hs hm
  rcases Registry.bind_eq_error_iff.mp hr with hr | ⟨answer, run₁, hr₁, hr⟩
  · exact ((leaves_resolvePlug m).error hr).2.notUnqueued
  · obtain ⟨hstep, hans⟩ := hresolve.ok hr₁
    rw [Registry.get_bind_apply] at hr
    split at hr
    · cases hr
    · rename_i hi
      cases answer with
      | none =>
        dsimp only at hr
        split at hr
        · cases hr
          exact ⟨(fun _ _ h => by cases h), fun _ h => by cases h⟩
        · cases hr
      | some p =>
        have hx := hc.step hstep _ (hstep.items hm) (by simp)
        have hp := reached_answer hstep.sound hx hans (by simpa using hi)
        have hqueued : run₁.scanner.queue.contains run₁.registry (.method p) = true :=
          (WorkQueue.hasKey_iff _ _).mpr hp.2
        simp only [hqueued, Bool.true_or, if_true] at hr
        cases hr

/-- a failure over a list is the failure of one element, in a state that the elements before it led
to -/
theorem error_of_mapM {α β : Type} {E : Error → Prop} {f : α → Scan β} {l : List α} (P : Run → Prop)
    (hok : ∀ a ∈ l, ∀ run b run', P run → f a run = .ok b run' → P run')
    (herror : ∀ a ∈ l, ∀ run e run', P run → f a run = .error e run' → E e)
    (hP : P run) {e : Error} (hr : l.mapM f run = .error e run') : E e := by
  induction l generalizing run with
  | nil => cases hr
  | cons a l ih =>
    rw [List.mapM_cons] at hr
    rcases Registry.bind_eq_error_iff.mp hr with hr | ⟨b, run₁, hr₁, hr⟩
    · exact herror a List.mem_cons_self run e run' hP hr
    · rcases Registry.bind_eq_error_iff.mp hr with hr | ⟨bs, run₂, -, hr⟩
      · exact ih (fun c hc => hok c (List.mem_cons_of_mem _ hc))
          (fun c hc => herror c (List.mem_cons_of_mem _ hc))
          (hok a List.mem_cons_self run b run₁ hP hr₁) hr
      · cases hr

section
variable {items : List Item}

/-- **Checking plugs** finds none that was not reached. -/
theorem checkPlugs_notUnqueued (hs : run.Sound) (hc : run.Complete [])
    (hitems : ∀ x ∈ items, x ∈ run.scanner.queue.items) {e : Error}
    (hr : checkPlugs items run = .error e run') : e.NotUnqueued := by
  refine error_of_mapM
    (fun run => run.Sound ∧ run.Complete [] ∧ ∀ x ∈ items, x ∈ run.scanner.queue.items)
    ?_ ?_ ⟨hs, hc, hitems⟩ hr
  · intro x hx run entry run' ⟨hs, hc, hitems⟩ hr
    cases x with
    | method m =>
      obtain ⟨answer, run₁, hr₁, hr⟩ := Registry.bind_eq_ok_iff.mp hr
      cases hr
      have hchecked : Steps Nothing [] (checkedPlug m) run _ := steps_checkedPlug hs (hitems _ hx)
      have hstep := (hchecked.ok hr₁).1
      exact ⟨hstep.sound, hc.step hstep, fun y hy => hstep.items (hitems y hy)⟩
    | type t =>
      cases hr
      exact ⟨hs, hc, hitems⟩
    | field f =>
      cases hr
      exact ⟨hs, hc, hitems⟩
  · intro x hx run e run' ⟨hs, hc, hitems⟩ hr
    cases x with
    | method m =>
      rcases Registry.bind_eq_error_iff.mp hr with hr | ⟨answer, run₁, -, hr⟩
      · exact checkedPlug_notUnqueued hs hc (hitems _ hx) hr
      · cases hr
    | type t => cases hr
    | field f => cases hr

variable {entries : List (Item × Option MethodId)}

theorem gathered_checkPlugs (h : run.Gathered) (hitems : ∀ x ∈ items, x ∈ run.scanner.queue.items)
    (hr : checkPlugs items run = .ok entries run') :
    run'.Gathered ∧ ∀ entry ∈ entries, Checked run' entry := by
  have hsteps : Steps Nothing [] (checkPlugs items) run fun entries run' =>
      ∀ entry ∈ entries, Checked run' entry := steps_checkPlugs h.sound hitems
  obtain ⟨hstep, hchecked⟩ := hsteps.ok hr
  have hu := (leaves_checkPlugs items).ok hr
  refine ⟨⟨hstep.sound, h.complete.step hstep, fun key => ?_, hu.typeCount.trans h.typeCount⟩,
    hchecked⟩
  rw [hu.types, h.types]

theorem contains_of_checkPlugs (h : run.Gathered)
    (hitems : ∀ x ∈ items, x ∈ run.scanner.queue.items)
    (hr : checkPlugs items run = .ok entries run') {m p : MethodId}
    (hentry : (.method m, some p) ∈ entries) (hi : (run'.registry.method m).isInline = false) :
    run'.scanner.queue.contains run'.registry (.method p) = true := by
  obtain ⟨h', hchecked⟩ := gathered_checkPlugs h hitems hr
  have hc := hchecked _ hentry
  have hx := h'.complete _ hc.mem (by simp)
  exact (WorkQueue.hasKey_iff _ _).mpr (reached_answer h'.sound hx (hc.answered m rfl) hi).2

end

/-! ## emitting -/

/-- handing something over does not change what the scan knows -/
theorem scanner_emit (em : Emission) (run : Run) :
    match emit em run with
    | .ok _ run' => run'.scanner = run.scanner
    | .error _ run' => run'.scanner = run.scanner := by
  rw [emit, emitWith_apply]
  cases run.generator.refusesNext <;> rfl

/-- the operation hands over method tables, and only those of the types in the queue, or it fails
for another reason than that something was not queued -/
def FindsQueued (act : Scan Unit) (run : Run) : Prop :=
  match act run with
  | .ok _ run' => run.HandsTables run' ∧ run.Tabled run'
  | .error e run' => e.NotUnqueued ∧ run.Tabled run'

/-- after an operation that hands no method tables over -/
theorem FindsQueued.bind {α : Type} {x : Scan α} {k : α → Scan Unit}
    (hok : ∀ a run', x run = .ok a run' → run.Fed run' ∧ FindsQueued (k a) run')
    (herror : ∀ e run', x run = .error e run' → e.NotUnqueued ∧ run.Fed run') :
    FindsQueued (x >>= k) run := by
  rw [FindsQueued, Registry.bind_apply]
  cases hr : x run with
  | error e run' => exact (herror e run' hr).imp id Fed.tabled
  | ok a run' =>
    obtain ⟨hfed, hk⟩ := hok a run' hr
    rw [FindsQueued] at hk
    dsimp only
    cases hr' : k a run' with
    | ok u run'' =>
      rw [hr'] at hk
      exact ⟨.of_fed hfed hk.1, .of_fed hfed hk.2⟩
    | error e run'' =>
      rw [hr'] at hk
      exact hk.imp id (.of_fed hfed)

theorem findsQueued_tables (h : run.Gathered) {em : Emission} (hem : em.isTables = false) :
    FindsQueued (do
      emitWith methodTables
      emit em
      enter .done) run := by
  have htables := emitWith_methodTables h.sound h.types h.typeCount
  rw [FindsQueued, Registry.bind_apply]
  cases hr₁ : emitWith methodTables run with
  | error e run₁ =>
    rw [hr₁] at htables
    obtain ⟨-, -, hemissions, rfl⟩ := htables
    exact ⟨⟨(fun _ _ he => by cases he), fun _ he => by cases he⟩, (Fed.of_eq hemissions).tabled⟩
  | ok v run₁ =>
    rw [hr₁] at htables
    obtain ⟨hafter, methods, -, hgenerator⟩ := htables
    have hnew : run₁.generator.emissions = run.generator.emissions ++
        [.tables run.scanner.queue.types.zipIdx methods] := by rw [hgenerator]; rfl
    have hhands : run.HandsTables run₁ := ⟨_, _, methods, hnew, List.mem_singleton.mpr rfl⟩
    have htabled : run.Tabled run₁ := by
      refine ⟨_, hnew, fun types methods' hmem => ?_⟩
      cases List.mem_singleton.mp hmem
      rw [List.zipIdx_map_fst, WorkQueue.types, WorkQueue.types, hafter.items]
    have hscanner := scanner_emit em run₁
    dsimp only
    rw [Registry.bind_apply]
    cases hr₂ : emit em run₁ with
    | error e run₂ =>
      rw [hr₂] at hscanner
      obtain ⟨hfed, he⟩ := (feeds_emit hem).error hr₂
      exact ⟨he.notUnqueued, htabled.fed hfed (congrArg (·.queue) hscanner)⟩
    | ok w run₂ =>
      rw [hr₂] at hscanner
      have hfed := (feeds_emit hem).ok hr₂
      have htabled₂ := htabled.fed hfed (congrArg (·.queue) hscanner)
      exact ⟨hhands.fed hfed, htabled₂⟩

theorem findsQueued_output (h : run.Gathered) (call : Call)
    {entries : List (Item × Option MethodId)} (hentries : ∀ entry ∈ entries, Checked run entry) :
    FindsQueued (call.output entries) run := by
  have hfeeds := feeds_assembleItems 0 entries
  have hitems := emitting_assembleItems h.sound h.complete 0 hentries (.refl _)
  refine .bind (fun _ run₁ hr₁ => ⟨hfeeds.ok hr₁, ?_⟩) fun e run₁ hr₁ => ?_
  · obtain ⟨_, hem, -⟩ := hitems.ok hr₁
    have h₁ : run₁.Gathered :=
      ⟨hem.after.sound, hem.after.complete h.complete, fun key => by rw [hem.types, h.types],
        hem.typeCount.trans h.typeCount⟩
    exact findsQueued_tables h₁ (by cases call <;> rfl)
  · obtain ⟨hfed, he⟩ := hfeeds.error hr₁
    exact ⟨he.notUnqueued, hfed⟩

/-! ## whole calls -/

section
variable (hw : r.WellFormed) {call : Call} (hcall : ∀ x ∈ call.items, r.Has x)
  (hconfig : ∀ m ∈ config.explicitEntries, r.Has (.method m)) (generator : Generator)
include hw hcall hconfig

theorem findsQueued_scan : FindsQueued call.scan (.fresh r config generator) := by
  have hgather := gather_spec hw hconfig hcall generator
  rw [call.scan_eq_gather]
  refine .bind (fun _ run₁ hr₁ => ?_) fun e run₁ hr₁ => ?_
  · rw [hr₁] at hgather
    obtain ⟨h₁, hfed₁⟩ := hgather
    refine ⟨hfed₁, ?_⟩
    -- the queue that is read is that of the state in which plugs are checked
    show FindsQueued (checkPlugs run₁.scanner.queue.items >>= call.output) run₁
    refine .bind (fun entries run₂ hr₂ => ?_) fun e run₂ hr₂ => ?_
    · have hu := (leaves_checkPlugs _).ok hr₂
      obtain ⟨h₂, hchecked⟩ := gathered_checkPlugs h₁ (fun _ hx => hx) hr₂
      exact ⟨.of_eq (congrArg _ hu.generator), findsQueued_output h₂ call hchecked⟩
    · have hu := ((leaves_checkPlugs _).error hr₂).1
      exact ⟨checkPlugs_notUnqueued h₁.sound h₁.complete (fun _ hx => hx) hr₂,
        .of_eq (congrArg _ hu.generator)⟩
  · rw [hr₁] at hgather
    exact hgather

/-- **What a call asks for was queued.**  A call of a new scanner, from an entry or from a boot list
with further elements and the entries of the configuration, never fails because a plug or a type
was not queued.  When it comes to check plugs, whatever plug is found for a method of the queue that
is not inline is in the queue.  The method tables are handed over, if at all, with the types in the
queue, each of which got its number; a call that succeeds does hand them over. -/
theorem Call.scan_finds_queued :
    (∀ e run, call.scan (.fresh r config generator) = .error e run →
      (∀ m p, e ≠ .plugNotQueued m p) ∧ ∀ t, e ≠ .typeNotQueued t) ∧
    (∀ run, call.gather (.fresh r config generator) = .ok () run →
      ∀ items entries run', (∀ x ∈ items, x ∈ run.scanner.queue.items) →
        checkPlugs items run = .ok entries run' →
          ∀ m p, (.method m, some p) ∈ entries → (run'.registry.method m).isInline = false →
            run'.scanner.queue.contains run'.registry (.method p) = true) ∧
    (∀ run, (call.scan (.fresh r config generator) = .ok () run ∨
        ∃ e, call.scan (.fresh r config generator) = .error e run) →
      ∃ new, run.generator.emissions = generator.emissions ++ new ∧
        ∀ types methods, .tables types methods ∈ new →
          types.map Prod.fst = run.scanner.queue.types) ∧
    ∀ run, call.scan (.fresh r config generator) = .ok () run →
      ∃ new types methods, run.generator.emissions = generator.emissions ++ new ∧
        .tables types methods ∈ new := by
  have hscan := findsQueued_scan hw hcall hconfig generator
  rw [FindsQueued] at hscan
  refine ⟨fun e run hr => ?_, fun run hr items entries run' hitems hr' m p hentry hi => ?_, ?_,
    fun run hr => ?_⟩
  · rw [hr] at hscan
    exact ⟨hscan.1.plug, hscan.1.type⟩
  · have hgather := gather_spec hw hconfig hcall generator
    rw [hr] at hgather
    exact contains_of_checkPlugs hgather.1 hitems hr' hentry hi
  · rintro run (hr | ⟨e, hr⟩)
    · rw [hr] at hscan
      exact hscan.2
    · rw [hr] at hscan
      exact hscan.2
  · rw [hr] at hscan
    exact hscan.1

end

/-- a boot of `Main`, with a type and an entry of the configuration: `Native` leads to its plug,
which is in the queue when plugs are checked, and the method tables are those of the queue -/
theorem Call.scan_finds_queued_calls :
    (∃ run entries run',
      (Call.boot [⟨2⟩] [.type ⟨5⟩]).gather
        (.fresh (calls []) { plugModules := [⟨2⟩], explicitEntries := [⟨0⟩] } {}) = .ok () run ∧
      checkPlugs run.scanner.queue.items run = .ok entries run' ∧
      (.method ⟨1⟩, some ⟨3⟩) ∈ entries ∧
      run'.scanner.queue.contains run'.registry (.method ⟨3⟩) = true) ∧
    ∃ run types methods,
      Scan.boot [⟨2⟩] [.type ⟨5⟩]
        (.fresh (calls []) { plugModules := [⟨2⟩], explicitEntries := [⟨0⟩] } {}) = .ok () run ∧
      .tables types methods ∈ run.generator.emissions ∧
      types.map Prod.fst = run.scanner.queue.types := by
  let config : ScanConfig := { plugModules := [⟨2⟩], explicitEntries := [⟨0⟩] }
  let call : Call := .boot [⟨2⟩] [.type ⟨5⟩]
  obtain ⟨hitems, hentries, hgathers, hscans⟩ :
      (∀ x ∈ call.items, (calls []).Has x) ∧
      (∀ m ∈ config.explicitEntries, (calls []).Has (.method m)) ∧
      succeedsWith call.gather (.fresh (calls []) config {}) (fun run =>
        match checkPlugs run.scanner.queue.items run with
        | .ok entries run' => decide ((.method ⟨1⟩, some ⟨3⟩) ∈ entries) &&
            !(run'.registry.method ⟨1⟩).isInline
        | .error _ _ => false) = true ∧
      succeedsWith call.scan (.fresh (calls []) config {})
        (fun run => run.generator.hasTables) = true := by
    decide +kernel
  obtain ⟨-, hplugs, htables, -⟩ := call.scan_finds_queued wellFormed_calls.1 hitems hentries {}
  refine ⟨?_, ?_⟩
  · obtain ⟨run, hrun, hP⟩ := exists_of_succeedsWith hgathers
    cases hchecked : checkPlugs run.scanner.queue.items run with
    | error e run' => simp [hchecked] at hP
    | ok entries run' =>
      simp only [hchecked, Bool.and_eq_true, decide_eq_true_eq, Bool.not_eq_true'] at hP
      refine ⟨run, entries, run', hrun, hchecked, hP.1, ?_⟩
      exact hplugs run hrun _ entries run' (fun _ hx => hx) hchecked ⟨1⟩ ⟨3⟩ hP.1 hP.2
  · obtain ⟨run, hrun, hP⟩ := exists_of_succeedsWith hscans
    obtain ⟨new, hnew, hall⟩ := htables run (.inl hrun)
    obtain ⟨em, hem, htable⟩ := List.any_eq_true.mp hP
    cases em with
    | tables types methods =>
      refine ⟨run, types, methods, hrun, hem, hall types methods ?_⟩
      rwa [show new = run.generator.emissions from hnew.symm]
    | _ => cases htable

end Scan

end ProgramScan

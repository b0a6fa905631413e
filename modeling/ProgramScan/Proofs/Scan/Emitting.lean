import ProgramScan.Proofs.Scan.Calls
import ProgramScan.Proofs.Scan.Frames

/-!
# Emitting step by step

What an operation of the last phase hands to the generator, in order:

* `Run.After`       a later state of the last phase: nothing is added to the queue, labels and
                    numbers of methods stay;
* `Run.Emits`       a later state in which exactly the given emissions were made;
* `Scan.Emitting`   the operation makes emissions and ends with `Q`, or fails with `E`.  A generator
                    can refuse a call; what a failure says is asked only of one that never does.

The rule for `bind` puts the emissions of the two operations one after the other.
-/

namespace ProgramScan

open Registry (Grows Settled)

namespace Run

variable {run run' run'' : Run} {S : Item → Registry → Prop} {lost : List Item}

/-! ## generator and phase do not matter -/

def withOutput (run : Run) (generator : Generator) (phase : Phase) : Run :=
  { run with generator, scanner := { run.scanner with phase } }

theorem Sound.withOutput (h : run.Sound) (g : Generator) (phase : Phase) :
    (run.withOutput g phase).Sound :=
  ⟨h.wellFormed, h.index, h.entries, h.distinct, h.answers⟩

theorem Step.withOutput (h : Step S lost run run') (g : Generator) (phase : Phase) :
    Step S lost (run.withOutput g phase) (run'.withOutput g phase) :=
  ⟨h.grows, h.sound.withOutput g phase, h.config, h.index, h.indexed, rfl, h.taken, h.added,
    ⟨[], by simp [Run.withOutput], by simp⟩⟩

/-! ## later states -/

/-- A later state of the last phase, whatever was emitted in between. -/
structure After (run run' : Run) : Prop where
  step : run.Step Nothing [] (run'.withOutput run.generator run.scanner.phase)
  labels : ∀ key label, run.scanner.labels.labels.get? key = some label →
    run'.scanner.labels.labels.get? key = some label
  numbers : ∀ key n, run.scanner.uids.methods.get? key = some n →
    run'.scanner.uids.methods.get? key = some n

namespace After

theorem refl (hs : run.Sound) : run.After run := ⟨.refl hs, fun _ _ h => h, fun _ _ h => h⟩

theorem of_step (h : run.Step Nothing [] run') (hg : run'.generator = run.generator)
    (hl : ∀ key label, run.scanner.labels.labels.get? key = some label →
      run'.scanner.labels.labels.get? key = some label)
    (hn : ∀ key n, run.scanner.uids.methods.get? key = some n →
      run'.scanner.uids.methods.get? key = some n) : run.After run' := by
  refine ⟨?_, hl, hn⟩
  rw [← hg, ← h.phase]
  exact h

/-- handing something to the generator -/
theorem feeding (hs : run.Sound) (g : Generator) : run.After { run with generator := g } :=
  ⟨Step.refl hs, fun _ _ h => h, fun _ _ h => h⟩

/-- entering another phase -/
theorem withPhase (hs : run.Sound) (phase : Phase) : run.After (run.withPhase phase) :=
  ⟨Step.refl hs, fun _ _ h => h, fun _ _ h => h⟩

theorem trans (h : run.After run') (h' : run'.After run'') : run.After run'' :=
  ⟨h.step.trans (h'.step.withOutput run.generator run.scanner.phase),
    fun key label hl => h'.labels key label (h.labels key label hl),
    fun key n hn => h'.numbers key n (h.numbers key n hn)⟩

theorem grows (h : run.After run') : run.registry.Grows run'.registry := h.step.grows

theorem sound (h : run.After run') : run'.Sound :=
  h.step.sound.withOutput run'.generator run'.scanner.phase

theorem items (h : run.After run') : run'.scanner.queue.items = run.scanner.queue.items :=
  h.step.items_eq

theorem complete (h : run.After run') (hc : run.Complete []) : run'.Complete [] :=
  fun x hx hl => ⟨(hc.step h.step x hx hl).closed, (hc.step h.step x hx hl).managed⟩

theorem answered (h : run.After run') {m : MethodId} {answer : Option MethodId}
    (ha : Scan.Answered run m answer) : Scan.Answered run' m answer := by
  have hstep := ha.step h.step
  exact hstep

theorem checked (h : run.After run') (hs : run.Sound) {entry : Item × Option MethodId}
    (hc : Scan.Checked run entry) : Scan.Checked run' entry :=
  ⟨(hc.step hs h.step).mem, (hc.step hs h.step).answered, (hc.step hs h.step).required⟩

end After

/-- A later state of the last phase in which exactly `new` was emitted. -/
structure Emits (run run' : Run) (new : List Emission) : Prop where
  after : run.After run'
  types : run'.scanner.uids.types = run.scanner.uids.types
  typeCount : run'.scanner.uids.typeCount = run.scanner.uids.typeCount
  generator : run'.generator =
    { run.generator with
      calls := run.generator.calls + new.length
      emissions := run.generator.emissions ++ new }

namespace Emits

theorem of_step (h : run.Step Nothing [] run') (hu : run.Untouched run') : run.Emits run' [] := by
  refine ⟨.of_step h hu.generator hu.labels hu.numbers, hu.types, hu.typeCount, ?_⟩
  rw [hu.generator]
  simp

theorem trans {new more : List Emission} (h : run.Emits run' new) (h' : run'.Emits run'' more) :
    run.Emits run'' (new ++ more) := by
  refine ⟨h.after.trans h'.after, h'.types.trans h.types, h'.typeCount.trans h.typeCount, ?_⟩
  rw [h'.generator, h.generator]
  simp [Nat.add_assoc]

theorem failAt {new : List Emission} (h : run.Emits run' new) :
    run'.generator.failAt = run.generator.failAt := by
  rw [h.generator]

end Emits

end Run

namespace Scan

variable {α β : Type} {run : Run}

/-- The operation makes emissions and ends with `Q`; with a generator that refuses nothing it can only
fail with `E`. -/
def Emitting (act : Scan α) (run : Run) (Q : α → Run → List Emission → Prop)
    (E : Error → Run → List Emission → Prop) : Prop :=
  match act run with
  | .ok a run' => ∃ new, run.Emits run' new ∧ Q a run' new
  | .error e run' => run.generator.failAt = none → ∃ new, run.Emits run' new ∧ E e run' new

/-- an operation that fails with no error at all -/
theorem Leaves.ne_error {act : Scan α} (h : Leaves (fun _ => False) act) (e : Error) (run' : Run) :
    act run ≠ .error e run' := by
  intro hr
  exact (h.error hr).2

namespace Emitting

variable {Q : α → Run → List Emission → Prop} {R : β → Run → List Emission → Prop}
  {E : Error → Run → List Emission → Prop}

theorem ok {act : Scan α} (h : Emitting act run Q E) {a : α} {run' : Run}
    (hr : act run = .ok a run') : ∃ new, run.Emits run' new ∧ Q a run' new := by
  rw [Emitting, hr] at h
  exact h

theorem error {act : Scan α} (h : Emitting act run Q E) (hf : run.generator.failAt = none)
    {e : Error} {run' : Run} (hr : act run = .error e run') :
    ∃ new, run.Emits run' new ∧ E e run' new := by
  rw [Emitting, hr] at h
  exact h hf

theorem bind {x : Scan α} {k : α → Scan β} (hx : Emitting x run Q E)
    (hk : ∀ a run' new, run.Emits run' new → Q a run' new →
      Emitting (k a) run' (fun b run'' more => R b run'' (new ++ more))
        fun e run'' more => E e run'' (new ++ more)) :
    Emitting (x >>= k) run R E := by
  simp only [Emitting, Registry.bind_apply]
  cases hr : x run with
  | error e run' => exact fun hf => hx.error hf hr
  | ok a run' =>
    obtain ⟨new, hem, hq⟩ := hx.ok hr
    have hk' := hk a run' new hem hq
    dsimp only
    cases hr' : k a run' with
    | ok b run'' =>
      obtain ⟨more, hem', hR⟩ := hk'.ok hr'
      exact ⟨new ++ more, hem.trans hem', hR⟩
    | error e run'' =>
      intro hf
      obtain ⟨more, hem', hE⟩ := hk'.error (by rw [hem.failAt, hf]) hr'
      exact ⟨new ++ more, hem.trans hem', hE⟩

theorem pure (hs : run.Sound) {a : α} (ha : Q a run []) : Emitting (Pure.pure a) run Q E :=
  ⟨[], .of_step (.refl hs) (.refl run), ha⟩

theorem get {k : Run → Scan α} (hk : Emitting (k run) run Q E) :
    Emitting (MonadState.get >>= k) run Q E := hk

theorem registry {k : Registry → Scan α} (hk : Emitting (k run.registry) run Q E) :
    Emitting (Scan.registry >>= k) run Q E := hk

theorem after {F : Error → Prop} {P : α → Run → Prop} {x : Scan α} {k : α → Scan β}
    (hx : Steps Nothing [] x run P) (hl : Leaves F x) (hok : ∀ e run', x run ≠ .error e run')
    (hk : ∀ a run', run.Emits run' [] → P a run' → Emitting (k a) run' R E) :
    Emitting (x >>= k) run R E := by
  refine bind (Q := fun a run' new => new = [] ∧ P a run') ?_ ?_
  · rw [Emitting]
    cases hr : x run with
    | ok a run' =>
      obtain ⟨hstep, hp⟩ := hx.ok hr
      exact ⟨[], .of_step hstep (hl.ok hr), rfl, hp⟩
    | error e run' => exact absurd hr (hok e run')
  · rintro a run' new hem ⟨rfl, hp⟩
    exact hk a run' hem hp

/-- after an operation that emits nothing and never fails -/
theorem quietly {P : α → Run → Prop} {x : Scan α} {k : α → Scan β}
    (hx : Steps Nothing [] x run P) (hl : Leaves (fun _ => False) x)
    (hk : ∀ a run', run.Emits run' [] → P a run' → Emitting (k a) run' R E) :
    Emitting (x >>= k) run R E :=
  after hx hl hl.ne_error hk

theorem weaken {act : Scan α} {Q' : α → Run → List Emission → Prop}
    {E' : Error → Run → List Emission → Prop} (h : Emitting act run Q E)
    (hq : ∀ a run' new, run.Emits run' new → Q a run' new → Q' a run' new)
    (he : ∀ e run' new, run.Emits run' new → E e run' new → E' e run' new) :
    Emitting act run Q' E' := by
  rw [Emitting]
  cases hr : act run with
  | ok a run' =>
    obtain ⟨new, hem, hQ⟩ := h.ok hr
    exact ⟨new, hem, hq a run' new hem hQ⟩
  | error e run' =>
    intro hf
    obtain ⟨new, hem, hE⟩ := h.error hf hr
    exact ⟨new, hem, he e run' new hem hE⟩

end Emitting

/-! ## emissions -/

theorem emitWith_apply (make : Scan Emission) (run : Run) :
    emitWith make run =
      let counted := { run with generator := run.generator.counted }
      if run.generator.refusesNext then
        .error (.generatorRefused run.generator.calls) counted
      else
        match make counted with
        | .ok em run' => .ok () { run' with generator := run'.generator.record em }
        | .error e run' => .error e run' := by
  show (if run.generator.refusesNext then _ else _ : Scan Unit)
    { run with generator := run.generator.counted } = _
  cases run.generator.refusesNext with
  | true => rfl
  | false =>
    show (make >>= _) { run with generator := run.generator.counted } = _
    rw [Registry.bind_apply]
    dsimp only
    cases make { run with generator := run.generator.counted } <;> rfl

theorem failAt_of_refusesNext {g : Generator} (h : g.refusesNext = true) : g.failAt ≠ none := by
  intro hf
  simp [Generator.refusesNext, hf] at h

theorem emitting_emit (hs : run.Sound) (em : Emission) {E : Error → Run → List Emission → Prop} :
    Emitting (emit em) run (fun _ _ new => new = [em]) E := by
  simp only [Emitting, emit, emitWith_apply]
  cases hn : run.generator.refusesNext with
  | true => exact fun hf => absurd hf (failAt_of_refusesNext hn)
  | false =>
    refine ⟨[em], ⟨⟨.refl hs, fun _ _ h => h, fun _ _ h => h⟩, rfl, rfl, ?_⟩, rfl⟩
    simp [Generator.counted, Generator.record]

/-! ## code -/

theorem decodeStamped_apply (m : MethodId) (run : Run) :
    decodeStamped m run =
      match Registry.decode m run.registry with
      | .ok code registry => stamp code { run with registry }
      | .error e registry => .error e { run with registry } := by
  show (onRegistry (Registry.decode m) >>= stamp) run = _
  rw [Registry.bind_apply, onRegistry]
  cases Registry.decode m run.registry <;> rfl

theorem decodeStamped_ne_error {m : MethodId} {code : List Instruction} (hs : run.Sound)
    (hset : Settled (Registry.decode m) code run.registry) (e : Error) (run' : Run) :
    decodeStamped m run ≠ .error e run' := by
  obtain ⟨r', hdecode, -⟩ := hset.run hs.wellFormed
  rw [decodeStamped_apply, hdecode]
  exact (leaves_stamp code).ne_error e run'

/-- code that is decoded for the first time can turn out to be damaged -/
theorem emitting_decodeStamped (hs : run.Sound) {m : MethodId}
    (hm : run.registry.Has (.method m)) :
    Emitting (decodeStamped m) run (fun code run' new => new = [] ∧ StampedCode run' m code)
      fun e run' new => new = [] ∧ Registry.decode m run.registry = .error e run'.registry := by
  have hsteps : Steps Nothing [] (decodeStamped m) run fun code run' => StampedCode run' m code :=
    steps_decodeStamped hs hm
  have hleaves := leaves_decodeStamped m
  rw [Emitting]
  cases hr : decodeStamped m run with
  | ok code run' =>
    obtain ⟨hstep, hcode⟩ := hsteps.ok hr
    exact ⟨[], .of_step hstep (hleaves.ok hr), rfl, hcode⟩
  | error e run' =>
    intro _
    refine ⟨[], .of_step (hsteps.error hr) (hleaves.error hr).1, rfl, ?_⟩
    -- stamping does not fail, so it is decoding that did
    rw [decodeStamped_apply] at hr
    cases hd : Registry.decode m run.registry with
    | ok code r' =>
      rw [hd] at hr
      exact absurd hr ((leaves_stamp code).ne_error e run')
    | error e' r' =>
      rw [hd] at hr
      cases hr
      rfl

end Scan

end ProgramScan

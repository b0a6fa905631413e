import Mathlib.Data.List.Nodup
import ProgramScan.Proofs.Scan.References
import ProgramScan.Scan.Execute

/-!
# Steps of a scan

What every step of a scan keeps, whether it succeeds or fails:

* `Run.Sound`    the queue holds elements of the program, each once, and remembered plugs are those
                 that the index gives;
* `Run.Step`     from one state of a scan to a later one: the program grows, the queue is only added
                 to, and whatever is added has a given relation to the program;
* `Scan.Steps`   an operation takes a `Step`, and what it gives satisfies a condition.

The relation of `Step` says why elements are added.  While a scan looks into an element it is that
the element refers to them; while it emits, nothing is added at all.
-/

namespace ProgramScan

open Registry (Grows Settled HasPlug Builds)

namespace Run

/-- the element was reached, itself or one of the same identity -/
def Reached (run : Run) (y : Item) : Prop :=
  run.registry.Has y ∧ run.registry.itemKey y ∈ run.scanner.queue.keys

/-- The queue and the remembered plugs belong to the program. -/
structure Sound (run : Run) : Prop where
  wellFormed : run.registry.WellFormed
  index : run.registry.HasIndex run.scanner.plugs.index
  entries : ∀ e ∈ run.scanner.queue.entries,
    run.registry.Has e.item ∧ e.key = run.registry.itemKey e.item
  distinct : run.scanner.queue.keys.Nodup
  /-- plugs are remembered for elements of the queue only -/
  answers : ∀ key answer, run.scanner.plugs.resolved.get? key = some answer →
    ∃ m, .method m ∈ run.scanner.queue.items ∧ run.registry.methodKey m = key ∧
      Settled (PlugManager.resolveByIndex run.scanner.plugs.index m) answer run.registry ∧
      HasPlug answer run.registry

end Run

/-- What is known of an emitted body.  One that is expanded in place is the body of an inline plug; any
other names elements that were reached, unless it is emitted for an element in `lost`. -/
structure BodyReached (lost : List Item) (run : Run) (record : MethodRecord)
    (code : List Instruction) : Prop where
  method : run.registry.Has (.method record.method)
  hasCode : run.registry.HasCode code
  inPlace : record.isInline = true →
    record.kind = .plug ∧ (run.registry.method record.method).isInline = true
  names : record.isInline = false → .method (record.plugged.getD record.method) ∉ lost →
    ∀ y, run.registry.Names code y → run.Reached y

def Emission.Reached (lost : List Item) (run : Run) : Emission → Prop
  | .body record code => BodyReached lost run record code
  | _ => True

theorem Emission.Reached.mono {lost : List Item} {run run' : Run} {em : Emission}
    (h : em.Reached lost run) (hg : run.registry.Grows run'.registry)
    (hr : ∀ y, run.Reached y → run'.Reached y) : em.Reached lost run' := by
  cases em with
  | body record code =>
    refine ⟨hg.has h.method, hg.hasCode h.hasCode, fun hi => ?_, fun hi hl y hy => ?_⟩
    · rw [hg.method h.method]
      exact h.inPlace hi
    · exact hr y (h.names hi hl y ((hg.names h.hasCode).mp hy))
  | _ => trivial

namespace Run

/-- A later state of a scan; the elements added to the queue satisfy `S` from then on. -/
structure Step (S : Item → Registry → Prop) (lost : List Item) (run run' : Run) : Prop where
  grows : run.registry.Grows run'.registry
  sound : run'.Sound
  config : run'.scanner.config = run.scanner.config
  index : run'.scanner.plugs.index = run.scanner.plugs.index
  indexed : run'.scanner.plugsIndexed = run.scanner.plugsIndexed
  phase : run'.scanner.phase = run.scanner.phase
  taken : run'.scanner.queue.taken = run.scanner.queue.taken
  added : ∃ new, run'.scanner.queue.entries = run.scanner.queue.entries ++ new ∧
    ∀ e ∈ new, ∀ r, run'.registry.Grows r → r.WellFormed → S e.item r
  emitted : ∃ new, run'.generator.emissions = run.generator.emissions ++ new ∧
    ∀ em ∈ new, em.Reached lost run'

/-- A later state of a scan with the same queue, plugs and emissions. -/
structure Quiet (run run' : Run) : Prop where
  grows : run.registry.Grows run'.registry
  wellFormed : run'.registry.WellFormed
  config : run'.scanner.config = run.scanner.config
  plugs : run'.scanner.plugs = run.scanner.plugs
  indexed : run'.scanner.plugsIndexed = run.scanner.plugsIndexed
  phase : run'.scanner.phase = run.scanner.phase
  queue : run'.scanner.queue = run.scanner.queue
  generator : run'.generator = run.generator

variable {run run' run'' : Run} {S : Item → Registry → Prop} {lost : List Item}

/-! ## sound states -/

namespace Sound

theorem item (h : run.Sound) {x : Item} (hx : x ∈ run.scanner.queue.items) : run.Reached x := by
  obtain ⟨e, he, rfl⟩ := List.mem_map.mp hx
  obtain ⟨hhas, hkey⟩ := h.entries e he
  refine ⟨hhas, ?_⟩
  rw [← hkey]
  exact List.mem_map_of_mem he

/-- elements of the queue have identities of their own -/
theorem item_inj (h : run.Sound) {x y : Item} (hx : x ∈ run.scanner.queue.items)
    (hy : y ∈ run.scanner.queue.items) (hk : run.registry.itemKey x = run.registry.itemKey y) :
    x = y := by
  obtain ⟨e, he, rfl⟩ := List.mem_map.mp hx
  obtain ⟨d, hd, rfl⟩ := List.mem_map.mp hy
  rw [← (h.entries e he).2, ← (h.entries d hd).2] at hk
  rw [List.inj_on_of_nodup_map h.distinct he hd hk]

/-- the method of the queue under an identity has this identity -/
theorem canonicalMethod (h : run.Sound) {m c : MethodId}
    (hc : run.scanner.queue.canonicalMethod? run.registry m = some c) :
    .method c ∈ run.scanner.queue.items ∧
      run.registry.methodKey c = run.registry.methodKey m := by
  obtain ⟨e, he, hkey, hitem⟩ := WorkQueue.exists_of_canonicalMethod? hc
  refine ⟨List.mem_map.mpr ⟨e, he, hitem⟩, ?_⟩
  rw [← hkey, (h.entries e he).2, hitem]
  rfl

theorem quiet (h : run.Sound) (hq : run.Quiet run') : run'.Sound where
  wellFormed := hq.wellFormed
  index := by
    rw [hq.plugs]
    exact hq.grows.hasIndex h.index
  entries e he := by
    rw [hq.queue] at he
    obtain ⟨hhas, hkey⟩ := h.entries e he
    exact ⟨hq.grows.has hhas, by rw [hq.grows.itemKey h.wellFormed hhas, hkey]⟩
  distinct := by
    rw [hq.queue]
    exact h.distinct
  answers key answer ha := by
    rw [hq.plugs] at ha ⊢
    rw [hq.queue]
    obtain ⟨m, hm, hk, hs, hp⟩ := h.answers key answer ha
    refine ⟨m, hm, ?_, hs.mono hq.grows, hp.mono hq.grows⟩
    rw [hq.grows.methodKey h.wellFormed (h.item hm).1, hk]

end Sound

theorem Quiet.refl (hw : run.registry.WellFormed) : run.Quiet run :=
  ⟨.refl _, hw, rfl, rfl, rfl, rfl, rfl, rfl⟩

/-! ## what was reached stays reached -/

theorem Reached.later (hs : run.Sound) {y : Item} (hy : run.Reached y) {r : Registry}
    (hg : run.registry.Grows r) : r.Has y ∧ r.itemKey y ∈ run.scanner.queue.keys := by
  rw [hg.itemKey hs.wellFormed hy.1]
  exact ⟨hg.has hy.1, hy.2⟩

namespace Step

theorem refl (hs : run.Sound) : Step S lost run run :=
  ⟨.refl _, hs, rfl, rfl, rfl, rfl, rfl, ⟨[], by simp, by simp⟩, ⟨[], by simp, by simp⟩⟩

theorem of_quiet (hs : run.Sound) (hq : run.Quiet run') : Step S lost run run' :=
  ⟨hq.grows, hs.quiet hq, hq.config, by rw [hq.plugs], hq.indexed, hq.phase, by rw [hq.queue],
    ⟨[], by simp [hq.queue], by simp⟩, ⟨[], by simp [hq.generator], by simp⟩⟩

theorem entries (h : Step S lost run run') (e : QueueEntry) (he : e ∈ run.scanner.queue.entries) :
    e ∈ run'.scanner.queue.entries := by
  obtain ⟨new, hnew, -⟩ := h.added
  rw [hnew]
  exact List.mem_append_left _ he

theorem keys (h : Step S lost run run') {key : String} (hk : key ∈ run.scanner.queue.keys) :
    key ∈ run'.scanner.queue.keys := by
  obtain ⟨e, he, rfl⟩ := List.mem_map.mp hk
  exact List.mem_map_of_mem (h.entries e he)

theorem items (h : Step S lost run run') {x : Item} (hx : x ∈ run.scanner.queue.items) :
    x ∈ run'.scanner.queue.items := by
  obtain ⟨e, he, rfl⟩ := List.mem_map.mp hx
  exact List.mem_map_of_mem (h.entries e he)

theorem reached (h : Step S lost run run') (hs : run.Sound) {y : Item} (hy : run.Reached y) :
    run'.Reached y :=
  ⟨h.grows.has hy.1, h.keys (hy.later hs h.grows).2⟩

theorem emission (h : Step S lost run run') (hs : run.Sound) {em : Emission}
    (he : em.Reached lost run) : em.Reached lost run' :=
  he.mono h.grows fun _ hy => h.reached hs hy

theorem trans (h : Step S lost run run') (h' : Step S lost run' run'') : Step S lost run run'' := by
  obtain ⟨new, hnew, hS⟩ := h.added
  obtain ⟨new', hnew', hS'⟩ := h'.added
  obtain ⟨em, hem, hR⟩ := h.emitted
  obtain ⟨em', hem', hR'⟩ := h'.emitted
  refine ⟨h.grows.trans h'.grows, h'.sound, h'.config.trans h.config, h'.index.trans h.index,
    h'.indexed.trans h.indexed, h'.phase.trans h.phase, h'.taken.trans h.taken,
    ⟨new ++ new', by rw [hnew', hnew, List.append_assoc], ?_⟩,
    ⟨em ++ em', by rw [hem', hem, List.append_assoc], ?_⟩⟩
  · intro e he r hg hw
    rcases List.mem_append.mp he with he | he
    · exact hS e he r (h'.grows.trans hg) hw
    · exact hS' e he r hg hw
  · intro e he
    rcases List.mem_append.mp he with he | he
    · exact h'.emission h.sound (hR e he)
    · exact hR' e he

/-- the reason for additions can be weakened -/
theorem weaken {S' : Item → Registry → Prop} (h : Step S lost run run')
    (hS : ∀ y r, S y r → S' y r) : Step S' lost run run' := by
  obtain ⟨new, hnew, hadd⟩ := h.added
  exact ⟨h.grows, h.sound, h.config, h.index, h.indexed, h.phase, h.taken,
    ⟨new, hnew, fun e he r hg hw => hS _ _ (hadd e he r hg hw)⟩, h.emitted⟩

end Step

end Run

namespace Scan

variable {α β : Type} {S : Item → Registry → Prop} {lost : List Item} {run : Run}

/-- anything may be added to the queue -/
def Anything : Item → Registry → Prop := fun _ _ => True

/-- the operation takes a step, and what it gives satisfies `Q` -/
def Steps (S : Item → Registry → Prop) (lost : List Item) (act : Scan α) (run : Run)
    (Q : α → Run → Prop) : Prop :=
  match act run with
  | .ok a run' => run.Step S lost run' ∧ Q a run'
  | .error _ run' => run.Step S lost run'

namespace Steps

variable {Q : α → Run → Prop} {R : β → Run → Prop}

theorem ok {act : Scan α} (h : Steps S lost act run Q) {a : α} {run' : Run}
    (hr : act run = .ok a run') : run.Step S lost run' ∧ Q a run' := by
  rw [Steps, hr] at h
  exact h

theorem error {act : Scan α} (h : Steps S lost act run Q) {e : Error} {run' : Run}
    (hr : act run = .error e run') : run.Step S lost run' := by
  rw [Steps, hr] at h
  exact h

theorem pure (hs : run.Sound) {a : α} (ha : Q a run) : Steps S lost (Pure.pure a) run Q :=
  ⟨.refl hs, ha⟩

theorem throw (hs : run.Sound) (e : Error) : Steps S lost (MonadExcept.throw e : Scan α) run Q :=
  Run.Step.refl (S := S) hs

theorem bind {x : Scan α} {k : α → Scan β} (hx : Steps S lost x run Q)
    (hk : ∀ a run', run.Step S lost run' → Q a run' → Steps S lost (k a) run' R) :
    Steps S lost (x >>= k) run R := by
  simp only [Steps] at hx ⊢
  rw [Registry.bind_apply]
  cases h : x run with
  | error e run' =>
    rw [h] at hx
    exact hx
  | ok a run' =>
    rw [h] at hx
    have hk' := hk a run' hx.1 hx.2
    simp only [Steps] at hk'
    dsimp only
    cases h' : k a run' with
    | ok b run'' =>
      rw [h'] at hk'
      exact ⟨hx.1.trans hk'.1, hk'.2⟩
    | error e run'' =>
      rw [h'] at hk'
      exact hx.1.trans hk'

theorem weaken {act : Scan α} {Q' : α → Run → Prop} (h : Steps S lost act run Q)
    (hq : ∀ a run', run.Step S lost run' → Q a run' → Q' a run') : Steps S lost act run Q' := by
  simp only [Steps] at h ⊢
  cases ha : act run with
  | ok a run' =>
    rw [ha] at h
    exact ⟨h.1, hq a run' h.1 h.2⟩
  | error e run' =>
    rw [ha] at h
    exact h

theorem get {k : Run → Scan α} (hk : Steps S lost (k run) run Q) :
    Steps S lost (MonadState.get >>= k) run Q := hk

theorem registry {k : Registry → Scan α} (hk : Steps S lost (k run.registry) run Q) :
    Steps S lost (Scan.registry >>= k) run Q := hk

/-- an operation that succeeds and leaves queue, plugs and emissions alone -/
theorem of_quiet {act : Scan α} {a : α} {run' : Run} (hs : run.Sound)
    (hact : act run = .ok a run') (hq : run.Quiet run') (ha : Q a run') : Steps S lost act run Q := by
  simp only [Steps, hact]
  exact ⟨.of_quiet hs hq, ha⟩

theorem forM {f : α → Scan Unit} {l : List α} (hs : run.Sound) (P : Run → Prop)
    (T : α → Run → Prop) (hP : P run) (hf : ∀ a ∈ l, ∀ run', run'.Sound → P run' →
      Steps S lost (f a) run' fun _ run'' => P run'' ∧ T a run'')
    (hT : ∀ a run' run'', run'.Sound → run'.Step S lost run'' → T a run' → T a run'') :
    Steps S lost (l.forM f) run fun _ run' => P run' ∧ ∀ a ∈ l, T a run' := by
  induction l generalizing run with
  | nil => exact pure hs ⟨hP, by simp⟩
  | cons a l ih =>
    show Steps S lost (f a >>= fun _ => l.forM f) run _
    refine bind (hf a List.mem_cons_self run hs hP) fun _ run' hstep ha => ?_
    refine (ih hstep.sound ha.1 fun b hb => hf b (List.mem_cons_of_mem _ hb)).weaken ?_
    intro _ run'' hstep' hl
    refine ⟨hl.1, fun b hb => ?_⟩
    rcases List.mem_cons.mp hb with rfl | hb
    · exact hT b run' run'' hstep.sound hstep' ha.2
    · exact hl.2 b hb

theorem mapM {f : α → Scan β} {l : List α} (hs : run.Sound) (P : Run → Prop)
    (T : β → Run → Prop) (hP : P run) (hf : ∀ a ∈ l, ∀ run', run'.Sound → P run' →
      Steps S lost (f a) run' fun b run'' => P run'' ∧ T b run'')
    (hT : ∀ b run' run'', run'.Sound → run'.Step S lost run'' → T b run' → T b run'') :
    Steps S lost (l.mapM f) run fun bs run' => P run' ∧ ∀ b ∈ bs, T b run' := by
  induction l generalizing run with
  | nil => exact pure hs ⟨hP, by simp⟩
  | cons a l ih =>
    rw [List.mapM_cons]
    refine bind (hf a List.mem_cons_self run hs hP) fun b run₁ hstep₁ hb => ?_
    refine bind (ih hstep₁.sound hb.1 fun c hc => hf c (List.mem_cons_of_mem _ hc)) ?_
    intro bs run₂ hstep₂ hbs
    refine pure hstep₂.sound ⟨hbs.1, fun c hc => ?_⟩
    rcases List.mem_cons.mp hc with rfl | hc
    · exact hT c run₁ run₂ hstep₁.sound hstep₂ hb.2
    · exact hbs.2 c hc

end Steps

end Scan

end ProgramScan

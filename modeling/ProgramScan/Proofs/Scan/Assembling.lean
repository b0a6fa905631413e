import ProgramScan.Proofs.Scan.Draining

/-!
# Emitting what was reached

Emitting decodes bodies again, those of methods without plug and those of wildcard and inline plugs.
It adds nothing to the queue, and the bodies it emits, inline plugs apart, name only elements that
were reached (`Scan.steps_assemble`): decoding is settled, so a body names what it named when the
scan looked into the method it is emitted for.
-/

namespace ProgramScan

open Registry (Grows Settled HasPlug)

def Nothing : Item → Registry → Prop := fun _ _ => False

namespace Run

/-- all elements of the queue but the lost ones are explored -/
def Complete (run : Run) (lost : List Item) : Prop :=
  ∀ x ∈ run.scanner.queue.items, x ∉ lost → run.Explored x

variable {run run' : Run} {lost : List Item}

theorem Step.items_eq (h : Step Nothing lost run run') :
    run'.scanner.queue.items = run.scanner.queue.items := by
  obtain ⟨new, hnew, hadded⟩ := h.added
  cases new with
  | nil => rw [WorkQueue.items, hnew, List.append_nil, WorkQueue.items]
  | cons e new =>
    exact (hadded e List.mem_cons_self _ (.refl _) h.sound.wellFormed).elim

theorem Complete.step (h : run.Complete lost) (hstep : Step Nothing lost run run') :
    run'.Complete lost := by
  intro x hx hl
  rw [hstep.items_eq] at hx
  exact (h x hx hl).step hstep

end Run

namespace Scan

variable {run : Run} {lost : List Item}

/-! ## plugs -/

/-- the method cannot be compiled without a plug; a wildcard stands for others and can -/
def requiresPlug (d : Method) : Bool :=
  d.plugOptions?.any fun options => options.required && !options.wildcard

/-- a method that is not inline has a plug if it requires one -/
def HasRequired (run : Run) (m : MethodId) (answer : Option MethodId) : Prop :=
  (run.registry.method m).isInline = false → requiresPlug (run.registry.method m) = true →
    answer ≠ none

theorem HasRequired.step {run' : Run} {m : MethodId} {answer : Option MethodId}
    (h : HasRequired run m answer) (hm : run.registry.Has (.method m))
    (hstep : run.Step Nothing lost run') : HasRequired run' m answer := by
  intro hi hr
  rw [hstep.grows.method hm] at hi hr
  exact h hi hr

theorem steps_checkedPlug (hs : run.Sound) {m : MethodId}
    (hm : .method m ∈ run.scanner.queue.items) :
    Steps Nothing lost (checkedPlug m) run fun answer run' =>
      Answered run' m answer ∧ HasRequired run' m answer := by
  refine Steps.bind (steps_resolvePlug hs hm) fun answer run₁ hstep₁ hans => ?_
  have hs₁ := hstep₁.sound
  refine Steps.get ?_
  dsimp only
  split
  · rename_i hi
    exact Steps.pure hs₁ ⟨hans, fun hn => by rw [hi] at hn; cases hn⟩
  · cases answer with
    | some found =>
      refine Steps.bind (steps_identify hs₁ _) fun _ run₂ hstep₂ _ => ?_
      split
      · exact Steps.pure hstep₂.sound ⟨hans.step hstep₂, fun _ _ => by simp⟩
      · exact Steps.throw hstep₂.sound _
    | none =>
      dsimp only
      split
      · exact Steps.throw hs₁ _
      · rename_i hr
        exact Steps.pure hs₁ ⟨hans, fun _ hreq => absurd hreq hr⟩

/-- An element of the queue with its plug. -/
structure Checked (run : Run) (entry : Item × Option MethodId) : Prop where
  mem : entry.1 ∈ run.scanner.queue.items
  answered : ∀ m, entry.1 = .method m → Answered run m entry.2
  required : ∀ m, entry.1 = .method m → HasRequired run m entry.2

theorem Checked.step {run' : Run} {entry : Item × Option MethodId} (h : Checked run entry)
    (hs : run.Sound) (hstep : run.Step Nothing lost run') : Checked run' entry := by
  refine ⟨hstep.items h.mem, fun m hm => (h.answered m hm).step hstep, fun m hm => ?_⟩
  have hhas := (hs.item h.mem).1
  rw [hm] at hhas
  exact (h.required m hm).step hhas hstep

theorem steps_checkPlugs (hs : run.Sound) {items : List Item}
    (hi : ∀ x ∈ items, x ∈ run.scanner.queue.items) :
    Steps Nothing lost (checkPlugs items) run fun entries run' =>
      ∀ entry ∈ entries, Checked run' entry := by
  rw [checkPlugs]
  refine Steps.weaken (Steps.mapM hs (fun run' => ∀ x ∈ items, x ∈ run'.scanner.queue.items)
    (fun entry run' => Checked run' entry) hi ?_ fun _ _ _ hs' hstep h => h.step hs' hstep)
    fun _ _ _ hq => hq.2
  intro x hx run₁ hs₁ hi₁
  cases x with
  | method m =>
    refine Steps.bind (steps_checkedPlug hs₁ (hi₁ _ hx)) fun answer run₂ hstep₂ hans => ?_
    refine Steps.pure hstep₂.sound ⟨fun y hy => hstep₂.items (hi₁ y hy), hstep₂.items (hi₁ _ hx),
      ?_, ?_⟩
    · intro m' hm'
      cases hm'
      exact hans.1
    · intro m' hm'
      cases hm'
      exact hans.2
  | type t => exact Steps.pure hs₁ ⟨hi₁, hi₁ _ hx, (fun m hm => by cases hm), fun m hm => by cases hm⟩
  | field f => exact Steps.pure hs₁ ⟨hi₁, hi₁ _ hx, (fun m hm => by cases hm), fun m hm => by cases hm⟩

/-! ## bodies -/

theorem StampedCode.hasCode {m : MethodId} {stamped : List Instruction}
    (h : StampedCode run m stamped) : run.registry.HasCode stamped := by
  obtain ⟨code, -, hc, hst⟩ := h
  exact hasCode_stamped hst hc

theorem reached_own (hs : run.Sound) {m : MethodId} (hx : run.Explored (.method m))
    (hans : Answered run m none) (hi : (run.registry.method m).isInline = false)
    {stamped : List Instruction} (hst : StampedCode run m stamped) {y : Item}
    (hy : run.registry.Names stamped y) : run.Reached y := by
  obtain ⟨code, hset, hc, hst⟩ := hst
  rcases names_of_stamped hst hy with hn | hmem
  · obtain ⟨r, hr, -⟩ := hans.1.run hs.wellFormed
    obtain ⟨r', hr', -⟩ := hset.run hs.wellFormed
    exact hx.closed _ (.refl _) hs.wellFormed y (.code ⟨r, hr⟩ hi ⟨r', hr'⟩ hn)
  · exact hs.item hmem

theorem reached_plug (hs : run.Sound) {m p : MethodId} (hx : run.Explored (.method m))
    (hans : Answered run m (some p)) (hi : (run.registry.method p).isInline = false)
    {stamped : List Instruction} (hst : StampedCode run p stamped) {y : Item}
    (hy : run.registry.Names stamped y) : run.Reached y := by
  obtain ⟨code, hset, hc, hst⟩ := hst
  rcases names_of_stamped hst hy with hn | hmem
  · obtain ⟨r, hr, -⟩ := hans.1.run hs.wellFormed
    obtain ⟨r', hr', -⟩ := hset.run hs.wellFormed
    exact hx.closed _ (.refl _) hs.wellFormed y (.plugCode ⟨r, hr⟩ hi ⟨r', hr'⟩ hn)
  · exact hs.item hmem

theorem reached_answer (hs : run.Sound) {m p : MethodId} (hx : run.Explored (.method m))
    (hans : Answered run m (some p)) (hi : (run.registry.method m).isInline = false) :
    run.Reached (.method p) := by
  obtain ⟨r, hr, -⟩ := hans.1.run hs.wellFormed
  exact hx.closed _ (.refl _) hs.wellFormed _ (.plug ⟨r, hr⟩ hi)

/-- a record of `m` that stands for nothing else -/
structure IsRecord (m : MethodId) (kind : EmissionKind) (record : MethodRecord) : Prop where
  method : record.method = m
  kind : record.kind = kind
  plugged : record.plugged = none
  isInline : record.isInline = false

theorem steps_newRecord (hs : run.Sound) (m : MethodId) (place uid : Nat) (kind : EmissionKind) :
    Steps Nothing lost (newRecord m place uid kind) run fun record run' =>
      IsRecord m kind record ∧ Labelled run' m record.label :=
  Steps.bind (steps_methodLabel hs m) fun _ _ hstep hlabel =>
    Steps.pure hstep.sound ⟨⟨rfl, rfl, rfl, rfl⟩, hlabel⟩

variable {m : MethodId} (hm : .method m ∈ run.scanner.queue.items) (hcomplete : run.Complete lost)
include hm hcomplete

theorem steps_assembleNormal (hs : run.Sound) (place uid : Nat) (hans : Answered run m none)
    (hi : (run.registry.method m).isInline = false) :
    Steps Nothing lost (assembleNormal place uid m) run fun _ _ => True := by
  have hhas := (hs.item hm).1
  refine Steps.registry ?_
  dsimp only
  split
  · refine Steps.bind (steps_newRecord hs m place uid .normal) fun record run₁ hstep₁ ⟨hrec, _⟩ => ?_
    have hg₁ := hstep₁.grows
    refine Steps.bind (steps_decodeStamped hstep₁.sound (hg₁.has hhas)) ?_
    intro code run₂ hstep₂ hst
    have hstep := hstep₁.trans hstep₂
    refine steps_emit hstep₂.sound ⟨?_, hst.hasCode, fun hn => ?_, fun _ hl y hy => ?_⟩
    · rw [hrec.method]
      exact hstep.grows.has hhas
    · rw [hrec.isInline] at hn
      cases hn
    · have hl : .method m ∉ lost := by
        simpa [hrec.method, hrec.plugged] using hl
      have hx := (hcomplete _ hm hl).step hstep
      refine reached_own hstep₂.sound hx (hans.step hstep) ?_ hst hy
      rw [hstep.grows.method hhas, hi]
  · exact Steps.pure hs trivial

variable {plug : MethodId} (hans : Answered run m (some plug))
include hans

theorem steps_forwardWithOptions (hs : run.Sound) {record plugRecord : MethodRecord}
    (hr : record.method = m) (hp : IsRecord plug .plug plugRecord)
    (hi : (run.registry.method plug).isInline = false) (options : PlugOptions) :
    Steps Nothing lost (forwardWithOptions record plugRecord options) run fun _ _ => True := by
  have hplug := (hans.2 plug rfl).has
  simp only [forwardWithOptions]
  split
  · refine Steps.bind (steps_methodLabel hs _) fun label run₁ hstep₁ _ => ?_
    refine Steps.bind (Q := fun code run' => StampedCode run' plug code) ?_ ?_
    · have hst : Steps Nothing lost (decodeStamped plug) run₁ fun code run' =>
          StampedCode run' plug code :=
        steps_decodeStamped hstep₁.sound (hstep₁.grows.has hplug)
      simpa only [MethodRecord.forPlugged, hp.method] using hst
    · intro code run₂ hstep₂ hst
      have hstep := hstep₁.trans hstep₂
      split
      · refine Steps.bind
          (steps_emit hstep₂.sound ⟨?_, hst.hasCode, fun hn => ?_, fun _ hl y hy => ?_⟩)
          fun _ run₃ hstep₃ _ => steps_emit hstep₃.sound trivial
        · rw [← hp.method] at hplug
          exact hstep.grows.has hplug
        · have hn : plugRecord.isInline = true := hn
          rw [hp.isInline] at hn
          cases hn
        · have hl : .method m ∉ lost := by
            simpa [MethodRecord.forPlugged, hr] using hl
          have hx := (hcomplete _ hm hl).step hstep
          refine reached_plug hstep₂.sound hx (hans.step hstep) ?_ hst hy
          rw [hstep.grows.method hplug, hi]
      · exact steps_emit hstep₂.sound trivial
  · exact steps_emit hs trivial

omit hm hcomplete in
theorem steps_forwardInline (hs : run.Sound) {record plugRecord : MethodRecord}
    (hp : IsRecord plug .plug plugRecord) (hi : (run.registry.method plug).isInline = true) :
    Steps Nothing lost (forwardInline record plugRecord) run fun _ _ => True := by
  have hplug := (hans.2 plug rfl).has
  refine Steps.bind (steps_methodLabel hs _) fun label run₁ hstep₁ _ => ?_
  refine Steps.bind (Q := fun code run' => StampedCode run' plug code) ?_ ?_
  · have hst : Steps Nothing lost (decodeStamped plug) run₁ fun code run' =>
        StampedCode run' plug code :=
      steps_decodeStamped hstep₁.sound (hstep₁.grows.has hplug)
    simpa only [MethodRecord.forPlugged, hp.method] using hst
  · intro code run₂ hstep₂ hst
    have hg := (hstep₁.trans hstep₂).grows
    obtain ⟨rfl, hkind, -, -⟩ := hp
    refine Steps.bind
      (steps_emit hstep₂.sound ⟨hg.has hplug, hst.hasCode, fun _ => ⟨hkind, ?_⟩, fun hn => ?_⟩)
      fun _ run₃ hstep₃ _ => steps_emit hstep₃.sound trivial
    · show (run₂.registry.method plugRecord.method).isInline = true
      rw [hg.method hplug, hi]
    · cases hn

theorem steps_assemblePlugged (hs : run.Sound) (place uid : Nat) :
    Steps Nothing lost (assemblePlugged place uid m plug) run fun _ _ => True := by
  refine Steps.bind (steps_identify hs _) fun _ run₁ hstep₁ _ => ?_
  refine Steps.get ?_
  refine Steps.bind (steps_methodUid hstep₁.sound plug) fun plugUid run₂ hstep₂ _ => ?_
  refine Steps.bind (steps_newRecord hstep₂.sound m place uid .needsPlug) ?_
  intro record run₃ hstep₃ ⟨hrec, _⟩
  have hstep := (hstep₁.trans hstep₂).trans hstep₃
  have hplug₁ := hstep₁.grows.has (hans.2 plug rfl).has
  dsimp only
  split
  · rename_i hinline
    refine Steps.bind (steps_newRecord hstep₃.sound plug place plugUid .plug) ?_
    intro plugRecord run₄ hstep₄ ⟨hprec, _⟩
    refine steps_forwardInline (hans.step (hstep.trans hstep₄)) hstep₄.sound hprec ?_
    rw [((hstep₂.trans hstep₃).trans hstep₄).grows.method hplug₁, hinline]
  · rename_i hinline
    refine Steps.bind (steps_newRecord hstep₃.sound plug _ plugUid .plug) ?_
    intro plugRecord run₄ hstep₄ ⟨hprec, _⟩
    have hstep₄' := hstep.trans hstep₄
    split
    · refine steps_forwardWithOptions (hstep₄'.items hm) (hcomplete.step hstep₄')
        (hans.step hstep₄') hstep₄.sound hrec.method hprec ?_ _
      have hg := ((hstep₂.trans hstep₃).trans hstep₄).grows
      rw [hg.method hplug₁]
      simpa using hinline
    · exact steps_emit hstep₄.sound trivial

omit hans hm

theorem steps_assembleItem (hs : run.Sound) (place : Nat) {entry : Item × Option MethodId}
    (hentry : Checked run entry) :
    Steps Nothing lost (assembleItem place entry) run fun _ _ => True := by
  obtain ⟨item, answer⟩ := entry
  obtain ⟨hmem, hans, -⟩ := hentry
  cases item with
  | type t => exact Steps.pure hs trivial
  | field f => exact steps_emit hs trivial
  | method m =>
    have hhas := (hs.item hmem).1
    have hans := hans m rfl
    refine Steps.registry ?_
    split
    · rename_i hinline
      refine Steps.bind (steps_methodUid hs m) fun uid run₁ hstep₁ _ => ?_
      have hmem₁ := hstep₁.items hmem
      have hcomplete₁ := hcomplete.step hstep₁
      have hans₁ := hans.step hstep₁
      cases answer with
      | some plug => exact steps_assemblePlugged hmem₁ hcomplete₁ hans₁ hstep₁.sound place uid
      | none =>
        refine steps_assembleNormal hmem₁ hcomplete₁ hstep₁.sound place uid hans₁ ?_
        rw [hstep₁.grows.method hhas]
        simpa using hinline
    · exact Steps.pure hs trivial

theorem steps_assembleItems (hs : run.Sound) (place : Nat)
    {entries : List (Item × Option MethodId)} (hentries : ∀ e ∈ entries, Checked run e) :
    Steps Nothing lost (assembleItems place entries) run fun _ _ => True := by
  induction entries generalizing run place with
  | nil => exact Steps.pure hs trivial
  | cons entry rest ih =>
    refine Steps.bind (steps_assembleItem hcomplete hs place (hentries _ List.mem_cons_self)) ?_
    intro _ run₁ hstep₁ _
    exact ih (hcomplete.step hstep₁) hstep₁.sound (place + 1)
      fun e he => (hentries e (List.mem_cons_of_mem _ he)).step hs hstep₁

omit hcomplete

theorem steps_methodTables (hs : run.Sound) :
    Steps Nothing lost methodTables run fun em run' => em.Reached lost run' := by
  refine Steps.get ?_
  refine Steps.bind (Q := fun _ _ => True) ?_ fun types run₁ hstep₁ _ => ?_
  · refine Steps.weaken (Steps.mapM hs (fun _ => True) (fun _ _ => True) trivial
      (fun t _ run' hs' _ => ?_) fun _ _ _ _ _ _ => trivial) fun _ _ _ _ => trivial
    exact Steps.bind (steps_typeUid hs' t) fun _ _ hstep _ => Steps.pure hstep.sound ⟨trivial, trivial⟩
  · refine Steps.bind (Q := fun _ _ => True) ?_ fun methods run₂ hstep₂ _ =>
      Steps.pure hstep₂.sound trivial
    refine Steps.weaken (Steps.mapM hstep₁.sound (fun _ => True) (fun _ _ => True) trivial
      (fun m _ run' hs' _ => ?_) fun _ _ _ _ _ _ => trivial) fun _ _ _ _ => trivial
    exact Steps.bind (steps_methodUid hs' m) fun _ _ hstep _ =>
      Steps.pure hstep.sound ⟨trivial, trivial⟩

include hcomplete

/-- **Emitting adds nothing**, and what it emits names elements that were reached. -/
theorem steps_assembleQueue (hs : run.Sound) :
    Steps Nothing lost (do
      let items := (← get).scanner.queue.items
      assembleItems 0 (← checkPlugs items)
      emitWith methodTables) run fun _ _ => True := by
  refine Steps.get ?_
  refine Steps.bind (steps_checkPlugs hs fun x hx => hx) fun entries run₁ hstep₁ hentries => ?_
  refine Steps.bind (steps_assembleItems (hcomplete.step hstep₁) hstep₁.sound 0 hentries) ?_
  intro _ run₂ hstep₂ _
  exact steps_emitWith hstep₂.sound fun _ hstep₃ => steps_methodTables hstep₃.sound

end Scan

end ProgramScan

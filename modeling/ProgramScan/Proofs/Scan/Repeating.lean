import ProgramScan.Proofs.Plug.Checking
import ProgramScan.Proofs.Registry.Slots
import ProgramScan.Proofs.Scan.Looking

/-!
# Repeating a step over a later program

A step of a scan reads the program, adds to it, and changes scanner and generator.  `Scan.Repeats`
says that what it added makes no difference to doing it again: started from the same scanner and
generator over any later state of the program, it succeeds again, answers the same, leaves scanner and
generator the same, and adds nothing.

Identity keys, names and references are the same later (`Registry.Grows`), and what an action on the
program made before is found again (`Registry.Settled`).  This file has a rule for each way to put
steps together and one lemma for each step up to looking into an element (`repeats_scanItem`).
-/

namespace ProgramScan

open Registry (Grows Settled HasPlug Builds)

namespace Run

def upon (run : Run) (r : Registry) : Run := { run with registry := r }

end Run

namespace Registry

variable {r r' : Registry}

/-! ## references are the same later -/

theorem Grows.signatureReferences (hg : r.Grows r') {m : MethodId} (hm : r.Has (.method m))
    (asPlug : Bool) : r'.signatureReferences m asPlug = r.signatureReferences m asPlug := by
  unfold Registry.signatureReferences
  rw [hg.method hm]

theorem Grows.fieldReferences (hg : r.Grows r') {f : FieldId} (hf : r.Has (.field f)) :
    r'.fieldReferences f = r.fieldReferences f := by
  unfold Registry.fieldReferences
  rw [hg.field hf]

theorem Grows.operandReferences (hg : r.Grows r') {operand : Operand}
    (ho : ∀ x ∈ operand.items, r.Has x) :
    r'.operandReferences operand = r.operandReferences operand := by
  cases operand with
  | field f => exact hg.fieldReferences (ho (.field f) (List.mem_singleton.mpr rfl))
  | token item =>
    cases item with
    | field f => exact hg.fieldReferences (ho (.field f) (List.mem_singleton.mpr rfl))
    | type t => rfl
    | method m => rfl
  | _ => rfl

theorem Grows.codeReferences (hg : r.Grows r') {code : List Instruction} (hc : r.HasCode code) :
    r'.codeReferences code = r.codeReferences code := by
  unfold Registry.codeReferences
  rw [List.flatMap_def, List.flatMap_def]
  congr 1
  apply List.map_congr_left
  intro i hi
  exact hg.operandReferences (hc i hi)

theorem Grows.baseReferences (hg : r.Grows r') (hw : r.WellFormed) {t : TypeId}
    (ht : r.Has (.type t)) : r'.baseReferences t = r.baseReferences t := by
  have hfilter : (r.type t).methods.filter (fun m => (r'.method m).isTypeConstructor) =
      (r.type t).methods.filter fun m => (r.method m).isTypeConstructor := by
    apply List.filter_congr
    intro m hm
    rw [hg.method (hw.methodOf ht hm)]
  unfold Registry.baseReferences
  rw [hg.type ht, hfilter]

theorem Grows.memberReferences (hg : r.Grows r') (hw : r.WellFormed) {t : TypeId}
    (ht : r.Has (.type t)) : r'.memberReferences t = r.memberReferences t := by
  have hfields : ∀ f ∈ (r.type t).fields, r'.field f = r.field f := by
    intro f hf
    exact hg.field (hw.fieldOf ht hf)
  have hfilter : (r.type t).fields.filter (fun f => !(r'.field f).isStatic) =
      (r.type t).fields.filter fun f => !(r.field f).isStatic := by
    apply List.filter_congr
    intro f hf
    rw [hfields f hf]
  unfold Registry.memberReferences
  rw [hg.type ht, hfilter]
  congr 1
  apply List.map_congr_left
  intro f hf
  rw [hfields f (List.mem_filter.mp hf).1]

def HasReferences (r : Registry) (references : List Reference) : Prop :=
  ∀ ref ∈ references, r.Has ref.item

theorem WellFormed.signatureReferences (hw : r.WellFormed) {m : MethodId} (hm : r.Has (.method m))
    (asPlug : Bool) : r.HasReferences (r.signatureReferences m asPlug) := by
  intro ref href
  simp only [Registry.signatureReferences, List.mem_append, List.mem_map] at href
  rcases href with (⟨t, ht, rfl⟩ | ⟨t, ht, rfl⟩) | ⟨t, ht, rfl⟩
  · exact hw.param hm ht
  · split at ht
    · cases ht
    · exact hw.declaring hm (Option.mem_toList.mp ht)
  · split at ht
    · cases ht
    · rw [List.mem_singleton.mp ht]
      exact hw.returnType hm

theorem WellFormed.codeReferences (hw : r.WellFormed) {code : List Instruction}
    (hc : r.HasCode code) : r.HasReferences (r.codeReferences code) := by
  intro ref href
  have hnames := mem_codeReferences.mp ⟨ref, href, rfl⟩
  exact hnames.has hw hc

theorem WellFormed.baseReferences (hw : r.WellFormed) {t : TypeId} (ht : r.Has (.type t)) :
    r.HasReferences (r.baseReferences t) := by
  intro ref href
  simp only [Registry.baseReferences, List.mem_append, List.mem_map, Option.mem_toList,
    List.mem_filter] at href
  rcases href with ⟨b, hb, rfl⟩ | ⟨m, ⟨hm, -⟩, rfl⟩
  · exact hw.base ht hb
  · exact hw.methodOf ht hm

theorem WellFormed.memberReferences (hw : r.WellFormed) {t : TypeId} (ht : r.Has (.type t)) :
    r.HasReferences (r.memberReferences t) := by
  intro ref href
  simp only [Registry.memberReferences, List.mem_append, List.mem_map, List.mem_filter] at href
  rcases href with ⟨f, ⟨hf, -⟩, rfl⟩ | ⟨i, hi, rfl⟩
  · exact hw.typeOf (hw.fieldOf ht hf)
  · exact hw.interface ht hi

end Registry

namespace Scan

variable {α β : Type} {run : Run}

/-- If the operation succeeds, it only adds to the program, and over every later program it does the
same once more and adds nothing. -/
def Repeats (act : Scan α) (run : Run) : Prop :=
  ∀ a run', act run = .ok a run' → run.registry.Grows run'.registry ∧
    ∀ r, run'.registry.Grows r → r.WellFormed →
      ∃ r', act (run.upon r) = .ok a (run'.upon r') ∧ r'.forget = r.forget

/-! ## rules -/

namespace Repeats

theorem pure (a : α) : Repeats (Pure.pure a) run := by
  intro b run' hr
  cases hr
  exact ⟨.refl _, fun r _ _ => ⟨r, rfl, rfl⟩⟩

theorem throw (e : Error) : Repeats (MonadExcept.throw e : Scan α) run := by
  intro a run' hr
  cases hr

theorem bind {x : Scan α} {k : α → Scan β} (hx : Repeats x run)
    (hk : ∀ a run', x run = .ok a run' → Repeats (k a) run') : Repeats (x >>= k) run := by
  intro b run' hr
  obtain ⟨a, run₁, hx₁, hk₁⟩ := Registry.bind_eq_ok_iff.mp hr
  obtain ⟨hg₁, hagain₁⟩ := hx a run₁ hx₁
  obtain ⟨hg₂, hagain₂⟩ := hk a run₁ hx₁ b run' hk₁
  refine ⟨hg₁.trans hg₂, fun r hg hw => ?_⟩
  -- the first part adds only notes on names, so the second still runs over a later program
  obtain ⟨r₁, hr₁, hf₁⟩ := hagain₁ r (hg₂.trans hg) hw
  obtain ⟨r₂, hr₂, hf₂⟩ := hagain₂ r₁ (hg.trans (.of_forget hf₁.symm)) (hw.of_forget hf₁.symm)
  exact ⟨r₂, Registry.bind_eq_ok_iff.mpr ⟨a, run₁.upon r₁, hr₁, hr₂⟩, hf₂.trans hf₁⟩

/-- the same with what is known of the first part -/
theorem after (S : Item → Registry → Prop) (lost : List Item) {x : Scan α} {k : α → Scan β}
    {Q : α → Run → Prop} (hs : Steps S lost x run Q) (hx : Repeats x run)
    (hk : ∀ a run', run.Step S lost run' → Q a run' → Repeats (k a) run') :
    Repeats (x >>= k) run := by
  apply bind hx
  intro a run' hr
  obtain ⟨hstep, hq⟩ := hs.ok hr
  exact hk a run' hstep hq

/-- what follows must not depend on what the program gains -/
theorem get {k : Run → Scan α} (hk : Repeats (k run) run)
    (hsame : ∀ r, run.registry.Grows r → r.WellFormed → k (run.upon r) = k run) :
    Repeats (MonadState.get >>= k) run := by
  intro a run' hr
  have hr : k run run = .ok a run' := hr
  obtain ⟨hg, hagain⟩ := hk a run' hr
  refine ⟨hg, fun r hg' hw => ?_⟩
  obtain ⟨r', hr', hf⟩ := hagain r hg' hw
  refine ⟨r', ?_, hf⟩
  show k (run.upon r) (run.upon r) = _
  rw [hsame r (hg.trans hg') hw]
  exact hr'

theorem registry {k : Registry → Scan α} (hk : Repeats (k run.registry) run)
    (hsame : ∀ r, run.registry.Grows r → r.WellFormed → k r = k run.registry) :
    Repeats (Scan.registry >>= k) run :=
  get (k := fun run => k run.registry) hk hsame

/-- a step that cannot fail -/
theorem modifyGet {f : Run → α × Run} (hg : run.registry.Grows (f run).2.registry)
    (hsame : ∀ r, run.registry.Grows r → r.WellFormed → (f (run.upon r)).1 = (f run).1 ∧
      ∃ r', (f (run.upon r)).2 = (f run).2.upon r' ∧ r'.forget = r.forget) :
    Repeats (MonadStateOf.modifyGet f : Scan α) run := by
  intro a run' hr
  cases hr
  refine ⟨hg, fun r hg' hw => ?_⟩
  obtain ⟨hanswer, r', hstate, hf⟩ := hsame r (hg.trans hg') hw
  refine ⟨r', ?_, hf⟩
  show EStateM.Result.ok (f (run.upon r)).1 (f (run.upon r)).2 = _
  rw [hanswer, hstate]

/-- a change of the scanner that reads only what stays -/
theorem modifyScanner {f : Run → Scanner}
    (hsame : ∀ r, run.registry.Grows r → r.WellFormed → f (run.upon r) = f run) :
    Repeats (modify fun run => { run with scanner := f run } : Scan Unit) run := by
  apply modifyGet (.refl _)
  intro r hg hw
  refine ⟨rfl, r, ?_, rfl⟩
  show ({ run with registry := r, scanner := f (run.upon r) } : Run) = _
  rw [hsame r hg hw]
  rfl

theorem forM (S : Item → Registry → Prop) (lost : List Item) {f : α → Scan Unit} {l : List α}
    (P : Run → Prop) (hP : P run)
    (hf : ∀ a ∈ l, ∀ run', P run' →
      Steps S lost (f a) run' (fun _ run'' => P run'') ∧ Repeats (f a) run') :
    Repeats (l.forM f) run := by
  induction l generalizing run with
  | nil => exact pure ()
  | cons a l ih =>
    show Repeats (f a >>= fun _ => l.forM f) run
    obtain ⟨hsteps, hrepeats⟩ := hf a List.mem_cons_self run hP
    apply after S lost hsteps hrepeats
    intro _ run' _ hP'
    exact ih hP' fun b hb => hf b (List.mem_cons_of_mem _ hb)

theorem mapM (S : Item → Registry → Prop) (lost : List Item) {f : α → Scan β} {l : List α}
    (P : Run → Prop) (hP : P run)
    (hf : ∀ a ∈ l, ∀ run', P run' →
      Steps S lost (f a) run' (fun _ run'' => P run'') ∧ Repeats (f a) run') :
    Repeats (l.mapM f) run := by
  induction l generalizing run with
  | nil => exact pure []
  | cons a l ih =>
    rw [List.mapM_cons]
    obtain ⟨hsteps, hrepeats⟩ := hf a List.mem_cons_self run hP
    apply after S lost hsteps hrepeats
    intro b run₁ _ hP₁
    apply bind (ih hP₁ fun c hc => hf c (List.mem_cons_of_mem _ hc))
    intro bs run₂ _
    exact pure _

end Repeats

/-! ## operations -/

theorem resolvePlug_remembered {m : MethodId} {answer : Option MethodId}
    (h : run.scanner.plugs.resolved.get? (run.registry.methodKey m) = some answer) :
    resolvePlug m run = .ok answer (run.useNames (run.registry.methodUses m)) := by
  rw [resolvePlug_apply]
  simp only [h]
  rfl

theorem resolvePlug_searched {m : MethodId} {answer : Option MethodId} {r : Registry}
    (h : run.scanner.plugs.resolved.get? (run.registry.methodKey m) = none)
    (hfind : PlugManager.resolveByIndex run.scanner.plugs.index m
      (run.registry.useNames (run.registry.methodUses m)) = .ok answer r) :
    resolvePlug m run = .ok answer (remember (run.upon r) (run.registry.methodKey m) answer) := by
  rw [resolvePlug_apply]
  simp only [h, hfind]
  rfl

theorem repeats_reading (uses : Run → List TypeId) : Repeats (reading uses) run := by
  apply Repeats.modifyGet (.useNames _ _)
  intro r _ _
  exact ⟨rfl, r.useNames (uses (run.upon r)), rfl, rfl⟩

theorem repeats_identify (item : Item) : Repeats (identify item) run := repeats_reading _

theorem repeats_enter (phase : Phase) : Repeats (enter phase) run :=
  .modifyScanner fun _ _ _ => rfl

theorem repeats_onRegistry {x : Action α} {Q : α → Registry → Prop}
    (hx : Builds x run.registry Q) : Repeats (onRegistry x) run := by
  intro a run' hr
  unfold onRegistry at hr
  cases h : x run.registry with
  | error e r₁ =>
    rw [h] at hr
    cases hr
  | ok b r₁ =>
    rw [h] at hr
    cases hr
    obtain ⟨hg, -, hset, -⟩ := hx.ok h
    refine ⟨hg, fun r hgr hw => ?_⟩
    obtain ⟨r', hr', hf⟩ := hset r hgr hw
    refine ⟨r', ?_, hf⟩
    show onRegistry x (run.upon r) = _
    unfold onRegistry
    rw [show x (run.upon r).registry = .ok a r' from hr']
    rfl

section
variable (hs : run.Sound)
include hs

theorem repeats_enqueue {item : Item} (hi : run.registry.Has item) (reason : Reason)
    (source : Option String) : Repeats (enqueue item reason source) run := by
  apply Repeats.after Anything [] (steps_identify hs item) (repeats_identify item)
  intro _ run₁ hstep₁ _
  apply Repeats.modifyScanner
  intro r hg _
  have hkey : r.itemKey item = run₁.registry.itemKey item :=
    hg.itemKey hstep₁.sound.wellFormed (hstep₁.grows.has hi)
  show ({ run₁.scanner with queue := run₁.scanner.queue.push r item reason source } : Scanner) = _
  unfold WorkQueue.push
  rw [hkey]

theorem repeats_follow (source : String) {references : List Reference}
    (hr : run.registry.HasReferences references) : Repeats (follow source references) run := by
  unfold follow
  apply Repeats.forM Anything []
    (fun run' => run'.Sound ∧ run'.registry.HasReferences references) ⟨hs, hr⟩
  rintro ref href run' ⟨hs', hr'⟩
  constructor
  · apply (steps_enqueue hs' (canEnter_of (hr' ref href) fun _ _ _ => trivial) _ _).weaken
    intro _ run'' hstep _
    exact ⟨hstep.sound, fun ref' href' => hstep.grows.has (hr' ref' href')⟩
  · exact repeats_enqueue hs' (hr' ref href) _ _

theorem repeats_methodUid {m : MethodId} (hm : run.registry.Has (.method m)) :
    Repeats (methodUid m) run := by
  apply Repeats.after Anything [] (steps_reading hs _) (repeats_reading _)
  intro _ run₁ hstep₁ _
  apply Repeats.modifyGet (.refl _)
  intro r hg _
  have hsame : run₁.scanner.uids.methodUid r m = run₁.scanner.uids.methodUid run₁.registry m :=
    hg.methodUid hstep₁.sound.wellFormed _ (hstep₁.grows.has hm)
  refine ⟨?_, r, ?_, rfl⟩
  · show (run₁.scanner.uids.methodUid r m).1 = _
    rw [hsame]
  · show (run₁.upon r).modifyScanner (fun s =>
      { s with uids := (run₁.scanner.uids.methodUid r m).2 }) = _
    rw [hsame]
    rfl

theorem repeats_methodLabel {m : MethodId} (hm : run.registry.Has (.method m)) :
    Repeats (methodLabel m) run := by
  apply Repeats.after Anything [] (steps_identify hs _) (repeats_identify _)
  intro _ run₁ hstep₁ _
  have hm₁ := hstep₁.grows.has hm
  have hw₁ := hstep₁.sound.wellFormed
  apply Repeats.modifyGet (.refl _)
  intro r hg _
  have hsame : run₁.scanner.labels.methodLabel r m =
      run₁.scanner.labels.methodLabel run₁.registry m := by
    unfold LabelCache.methodLabel
    rw [hg.methodKey hw₁ hm₁, hg.methodName hw₁ hm₁]
  refine ⟨?_, r, ?_, rfl⟩
  · show (run₁.scanner.labels.methodLabel r m).1 = _
    rw [hsame]
  · show (run₁.upon r).modifyScanner (fun s =>
      { s with labels := (run₁.scanner.labels.methodLabel r m).2 }) = _
    rw [hsame]
    rfl

omit hs in
theorem repeats_markUsed (m : ModuleId) : Repeats (markUsed m) run :=
  .modifyScanner fun _ _ _ => rfl

theorem repeats_resolvePlug {m : MethodId} (hm : run.registry.Has (.method m)) :
    Repeats (resolvePlug m) run := by
  have hgn := Grows.useNames run.registry (run.registry.methodUses m)
  have hwn := hs.wellFormed.useNames (run.registry.methodUses m)
  have hkey : ∀ {r}, run.registry.Grows r → r.methodKey m = run.registry.methodKey m :=
    fun hg => hg.methodKey hs.wellFormed hm
  intro answer run' hr
  cases hmemo : run.scanner.plugs.resolved.get? (run.registry.methodKey m) with
  | some found =>
    rw [resolvePlug_remembered hmemo] at hr
    cases hr
    refine ⟨hgn, fun r hg _ => ⟨r.useNames (r.methodUses m), ?_, rfl⟩⟩
    apply resolvePlug_remembered
    show run.scanner.plugs.resolved.get? (r.methodKey m) = some answer
    rw [hkey (hgn.trans hg), hmemo]
  | none =>
    have hb := Registry.builds_resolveByIndex hwn (hgn.hasIndex hs.index) (hgn.has hm)
    cases hfind : PlugManager.resolveByIndex run.scanner.plugs.index m
        (run.registry.useNames (run.registry.methodUses m)) with
    | error e r₁ =>
      rw [resolvePlug_apply] at hr
      simp only [hmemo, hfind] at hr
      cases hr
    | ok found r₁ =>
      rw [resolvePlug_searched hmemo hfind] at hr
      cases hr
      obtain ⟨hg₁, -, hset, -⟩ := hb.ok hfind
      refine ⟨hgn.trans hg₁, fun r hg hw => ?_⟩
      have hg : r₁.Grows r := hg
      have hkey' := hkey (hgn.trans (hg₁.trans hg))
      -- the answer was not remembered before, so it is looked for again, and found again
      obtain ⟨r₂, hr₂, hf₂⟩ := hset (r.useNames (r.methodUses m))
        (hg.trans (.useNames _ _)) (hw.useNames _)
      have hmemo' : (run.upon r).scanner.plugs.resolved.get? (r.methodKey m) = none := by
        rw [hkey']
        exact hmemo
      refine ⟨r₂, ?_, hf₂⟩
      have hsearched : resolvePlug m (run.upon r) = _ := resolvePlug_searched hmemo' hr₂
      rw [hsearched]
      show EStateM.Result.ok answer (remember (run.upon r₂) (r.methodKey m) answer) = _
      rw [hkey']
      rfl

/-! ## code -/

theorem repeats_stampOperand {operand : Operand} (ho : ∀ x ∈ operand.items, run.registry.Has x) :
    Repeats (stampOperand operand) run := by
  cases operand with
  | method m uid =>
    have hm := ho (.method m) (List.mem_singleton.mpr rfl)
    apply Repeats.after Anything [] (steps_identify hs _) (repeats_identify _)
    intro _ run₁ hstep₁ _
    have hs₁ := hstep₁.sound
    have hm₁ := hstep₁.grows.has hm
    have htarget : run₁.registry.Has
        (.method ((run₁.scanner.queue.canonicalMethod? run₁.registry m).getD m)) := by
      cases hc : run₁.scanner.queue.canonicalMethod? run₁.registry m with
      | none => exact hm₁
      | some found => exact (hs₁.item (hs₁.canonicalMethod hc).1).1
    apply Repeats.get
    · apply Repeats.bind (repeats_methodUid hs₁ htarget)
      intro uid' run₂ _
      exact Repeats.pure _
    · intro r hg _
      have hkey := hg.methodKey hs₁.wellFormed hm₁
      simp only [Run.upon, WorkQueue.canonicalMethod?, hkey]
  | _ => exact Repeats.pure _

theorem repeats_stamp {code : List Instruction} (hc : run.registry.HasCode code) :
    Repeats (stamp code) run := by
  unfold stamp
  apply Repeats.mapM Anything []
    (fun run' => run'.Sound ∧ run'.registry.HasCode code) ⟨hs, hc⟩
  rintro i hi run' ⟨hs', hc'⟩
  constructor
  · apply Steps.bind (steps_stampOperand hs' (hc' i hi))
    intro o run₁ hstep₁ _
    exact Steps.pure hstep₁.sound ⟨hstep₁.sound, hstep₁.grows.hasCode hc'⟩
  · apply Repeats.bind (repeats_stampOperand hs' (hc' i hi))
    intro o run₁ _
    exact Repeats.pure _

theorem repeats_decodeStamped {m : MethodId} (hm : run.registry.Has (.method m)) :
    Repeats (decodeStamped m) run := by
  have hbuilds := Registry.builds_decode hs.wellFormed hm
  apply Repeats.after Anything [] (steps_onRegistry hs hbuilds)
    (repeats_onRegistry hbuilds)
  rintro code run₁ hstep₁ ⟨-, hc⟩
  exact repeats_stamp hstep₁.sound hc

theorem repeats_scanCode {m : MethodId} (hm : run.registry.Has (.method m)) :
    Repeats (scanCode m) run := by
  apply Repeats.registry
  · split
    · exact Repeats.throw _
    split
    · apply Repeats.after Anything [] (steps_decodeStamped hs hm)
        (repeats_decodeStamped hs hm)
      intro code run₁ hstep₁ hstamped
      have hs₁ := hstep₁.sound
      obtain ⟨plain, -, hplain, hst⟩ := hstamped
      have hc := hasCode_stamped hst hplain
      apply Repeats.registry
      · exact repeats_follow hs₁ _ (hs₁.wellFormed.codeReferences hc)
      · intro r hg _
        rw [hg.methodName hs₁.wellFormed (hstep₁.grows.has hm), hg.codeReferences hc]
    · exact Repeats.pure _
  · intro r hg _
    simp only [hg.method hm, hg.methodName hs.wellFormed hm]

/-! ## methods -/

theorem repeats_scanPlug {plug : MethodId} (hp : run.registry.Has (.method plug)) :
    Repeats (scanPlug plug) run := by
  apply Repeats.after Anything [] (steps_identify hs _) (repeats_identify _)
  intro _ run₁ hstep₁ _
  have hs₁ := hstep₁.sound
  have hp₁ := hstep₁.grows.has hp
  have hrefs := hs₁.wellFormed.signatureReferences hp₁ true
  apply Repeats.registry
  · apply Repeats.after Anything [] (steps_follow hs₁ _
      fun ref href => canEnter_of (hrefs ref href) fun _ _ _ => trivial) (repeats_follow hs₁ _ hrefs)
    intro _ run₂ hstep₂ _
    exact repeats_scanCode hstep₂.sound (hstep₂.grows.has hp₁)
  · intro r hg _
    rw [hg.methodName hs₁.wellFormed hp₁, hg.signatureReferences hp₁]

theorem repeats_scanMethod {m : MethodId} (hm : .method m ∈ run.scanner.queue.items) :
    Repeats (scanMethod m) run := by
  have hhas := (hs.item hm).1
  have hrefs := hs.wellFormed.signatureReferences hhas false
  apply Repeats.registry
  · apply Repeats.after Anything [] (steps_follow hs _
      fun ref href => canEnter_of (hrefs ref href) fun _ _ _ => trivial) (repeats_follow hs _ hrefs)
    intro _ run₁ hstep₁ _
    have hs₁ := hstep₁.sound
    have hhas₁ := hstep₁.grows.has hhas
    split
    · exact repeats_scanCode hs₁ hhas₁
    · apply Repeats.after Anything [] (steps_resolvePlug hs₁ (hstep₁.items hm))
        (repeats_resolvePlug hs₁ hhas₁)
      intro answer run₂ hstep₂ hans
      have hs₂ := hstep₂.sound
      cases answer with
      | none => exact repeats_scanCode hs₂ (hstep₂.grows.has hhas₁)
      | some plug =>
        have hplug := (hans.2 plug rfl).has
        have hsteps : Steps Anything [] (scanPlug plug) run₂ _ :=
          steps_scanPlug hs₂ hplug (fun _ _ _ _ _ => trivial) (fun _ _ _ _ => trivial)
            (fun _ _ _ _ _ _ _ _ => trivial)
        apply Repeats.after _ _ hsteps (repeats_scanPlug hs₂ hplug)
        intro _ run₃ hstep₃ _
        split
        · exact repeats_enqueue hstep₃.sound (hstep₃.grows.has hplug) _ _
        · exact Repeats.pure _
  · intro r hg _
    simp only [hg.methodName hs.wellFormed hhas, hg.signatureReferences hhas, hg.method hhas]

/-! ## types -/

theorem repeats_enqueueHelpers (source : String) {element : TypeId}
    (he : run.registry.Has (.type element)) : Repeats (enqueueHelpers source element) run := by
  apply Repeats.get
  · cases hf : run.registry.find? run.scanner.config.arrayHelper with
    | none => exact Repeats.pure _
    | some helper =>
      have hhelper := hs.wellFormed.found hf
      apply Repeats.forM Anything []
        (fun run' => run'.Sound ∧ run.registry.Grows run'.registry) ⟨hs, .refl _⟩
      rintro m hm run' ⟨hs', hg'⟩
      have hmethod := hg'.has (hs.wellFormed.methodOf hhelper (List.mem_filter.mp hm).1)
      have hargs : ∀ a ∈ [element], run'.registry.Has (.type a) := by
        intro a ha
        rw [List.mem_singleton.mp ha]
        exact hg'.has he
      have hbuilds := Registry.builds_instantiateMethod hs'.wellFormed hmethod hargs
      have hsteps : Steps Anything [] _ run' _ := steps_onRegistry hs' hbuilds
      constructor
      · apply Steps.bind hsteps
        intro made run₁ hstep₁ hmade
        apply (steps_enqueue hstep₁.sound (canEnter_of hmade.2 fun _ _ _ => trivial) _ _).weaken
        intro _ run₂ hstep₂ _
        exact ⟨hstep₂.sound, hg'.trans (hstep₁.grows.trans hstep₂.grows)⟩
      · apply Repeats.after _ _ hsteps (repeats_onRegistry hbuilds)
        intro made run₁ hstep₁ hmade
        exact repeats_enqueue hstep₁.sound hmade.2 _ _
  · intro r hg _
    simp only [Run.upon, hg.find?]
    cases hf : run.registry.find? run.scanner.config.arrayHelper with
    | none => rfl
    | some helper =>
      have hhelper := hs.wellFormed.found hf
      have hfilter : (run.registry.type helper).methods.filter r.isArrayHelper =
          (run.registry.type helper).methods.filter run.registry.isArrayHelper := by
        apply List.filter_congr
        intro m hm
        unfold Registry.isArrayHelper
        rw [hg.method (hs.wellFormed.methodOf hhelper hm)]
      simp only [hg.type hhelper, hfilter]

theorem repeats_scanType {t : TypeId} (ht : run.registry.Has (.type t)) :
    Repeats (scanType t) run := by
  have hw := hs.wellFormed
  have hbase := hw.baseReferences ht
  apply Repeats.registry
  · apply Repeats.after Anything [] (steps_follow hs _
      fun ref href => canEnter_of (hbase ref href) fun _ _ _ => trivial) (repeats_follow hs _ hbase)
    intro _ run₁ hstep₁ _
    have hs₁ := hstep₁.sound
    have hhelpers : Steps Anything []
          ((run.registry.helpedElement? t).forM (enqueueHelpers (run.registry.fullName t))) run₁
          (fun _ _ => True) ∧
        Repeats ((run.registry.helpedElement? t).forM
          (enqueueHelpers (run.registry.fullName t))) run₁ := by
      cases he : run.registry.helpedElement? t with
      | none => exact ⟨Steps.pure hs₁ trivial, Repeats.pure _⟩
      | some element =>
        obtain ⟨-, hform, -⟩ := Registry.helpedElement?_eq_some.mp he
        have helement := hstep₁.grows.has (hw.element ht hform)
        constructor
        · apply (steps_enqueueHelpers hs₁ _ helement fun _ _ _ _ _ _ _ _ => trivial).weaken
          intro _ _ _ _
          trivial
        · exact repeats_enqueueHelpers hs₁ _ helement
    apply Repeats.after _ _ hhelpers.1 hhelpers.2
    intro _ run₂ hstep₂ _
    have hs₂ := hstep₂.sound
    have ht₂ := hstep₂.grows.has (hstep₁.grows.has ht)
    have hmembers := hs₂.wellFormed.memberReferences ht₂
    apply Repeats.registry
    · apply Repeats.bind (repeats_follow hs₂ _ hmembers)
      intro _ run₃ _
      exact repeats_markUsed _
    · intro r hg _
      rw [hg.fullName ht₂, hg.memberReferences hs₂.wellFormed ht₂, hg.type ht₂]
  · intro r hg _
    simp only [hg.fullName ht, hg.baseReferences hw ht, hg.helpedElement? hw ht]

/-- **Looking into an element is repeated over every later program.** -/
theorem repeats_scanItem {x : Item} (hx : x ∈ run.scanner.queue.items) :
    Repeats (scanItem x) run := by
  cases x with
  | method m => exact repeats_scanMethod hs hx
  | type t => exact repeats_scanType hs (hs.item hx).1
  | field f => exact Repeats.pure _

end

end Scan

end ProgramScan

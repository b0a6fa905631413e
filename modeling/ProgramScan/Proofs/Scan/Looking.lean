import ProgramScan.Proofs.Scan.Operations

/-!
# Looking into an element

When a scan looks into an element, it adds to the queue only what the element refers to, also if it
fails on the way.  If it succeeds, everything that the element refers to was reached, and a method
or the plug that stands in for it needs no native code and can be decoded (`Scan.steps_scanItem`).

Both hold from then on: references are settled, so they are the same in every later state of the
program (`Run.Explored`).
-/

namespace ProgramScan

open Registry (Grows Settled HasPlug Builds)

namespace Registry

/-- `m` needs no native code and, unless it is inline, has code that can be decoded -/
structure Managed (r : Registry) (m : MethodId) : Prop where
  has : r.Has (.method m)
  managed : (r.method m).needsNativeCode = false
  code : (r.method m).isInline = false → ∃ code, Settled (decode m) code r

theorem Managed.mono {r r' : Registry} {m : MethodId} (h : r.Managed m) (hg : r.Grows r') :
    r'.Managed m := by
  have hm := hg.method h.has
  refine ⟨hg.has h.has, by rw [hm, h.managed], fun hi => ?_⟩
  rw [hm] at hi
  obtain ⟨code, hset⟩ := h.code hi
  exact ⟨code, hset.mono hg⟩

end Registry

namespace Run

/-- the reason for additions while `x` is looked into: `x` refers to them -/
def ReferredBy (run : Run) (x : Item) : Item → Registry → Prop :=
  fun y r => r.Refers run.scanner.plugs.index run.scanner.config.arrayHelper x y

/-- Everything that `x` refers to was reached; if `x` is a method, it or its plug is managed. -/
structure Explored (run : Run) (x : Item) : Prop where
  closed : ∀ r, run.registry.Grows r → r.WellFormed → ∀ y, run.ReferredBy x y r →
    r.Has y ∧ r.itemKey y ∈ run.scanner.queue.keys
  managed : ∀ m, x = .method m → ∃ answer, Scan.Answered run m answer ∧
    run.registry.Managed (answer.getD m)

theorem Step.referredBy {S : Item → Registry → Prop} {lost : List Item} {run run' : Run}
    (h : run.Step S lost run') (x : Item) : run'.ReferredBy x = run.ReferredBy x := by
  unfold ReferredBy
  rw [h.index, h.config]

theorem Explored.step {S : Item → Registry → Prop} {lost : List Item} {run run' : Run} {x : Item}
    (h : run.Explored x) (hstep : run.Step S lost run') : run'.Explored x where
  closed r hg hw y hy := by
    rw [hstep.referredBy] at hy
    exact (h.closed r (hstep.grows.trans hg) hw y hy).imp id hstep.keys
  managed m hx := by
    obtain ⟨answer, hans, hm⟩ := h.managed m hx
    exact ⟨answer, hans.step hstep, hm.mono hstep.grows⟩

theorem Explored.plugged {run : Run} {x : Item} (h : run.Explored x) (m : MethodId)
    (hx : x = .method m) (r : Registry) (hg : run.registry.Grows r) (hw : r.WellFormed)
    (hn : (r.method m).needsNativeCode = true) :
    ∃ p, r.PlugOf run.scanner.plugs.index m (some p) := by
  obtain ⟨answer, hans, hm⟩ := h.managed m hx
  cases answer with
  | some p =>
    obtain ⟨r', hr', -⟩ := (hans.1.mono hg).run hw
    exact ⟨p, r', hr'⟩
  | none =>
    have hmanaged : (r.method m).needsNativeCode = false := (hm.mono hg).managed
    rw [hmanaged] at hn
    cases hn

end Run

/-! ## array helpers -/

namespace Registry

theorem helpsArrays_iff {r : Registry} {helper : String} {m : MethodId} :
    r.HelpsArrays helper m ↔
      ∃ h, r.find? helper = some h ∧ m ∈ (r.type h).methods.filter r.isArrayHelper := by
  constructor
  · rintro ⟨⟨h, hf, hm⟩, hs, hp, hg, hone⟩
    exact ⟨h, hf, List.mem_filter.mpr ⟨hm, by simp [Registry.isArrayHelper, hs, hp, hg, hone]⟩⟩
  · rintro ⟨h, hf, hm⟩
    obtain ⟨hm, hc⟩ := List.mem_filter.mp hm
    simp only [Registry.isArrayHelper, Bool.and_eq_true, Bool.not_eq_true', beq_iff_eq] at hc
    exact ⟨⟨h, hf, hm⟩, hc.1.1.1, hc.1.1.2, hc.1.2, hc.2⟩

theorem WellFormed.helpsArrays {r : Registry} (hw : r.WellFormed) {helper : String} {m : MethodId}
    (h : r.HelpsArrays helper m) : r.Has (.method m) := by
  obtain ⟨h, hf, hm⟩ := h.declared
  exact hw.methodOf (hw.found hf) hm

theorem Grows.helpsArrays {r r' : Registry} (hg : r.Grows r') (hw : r.WellFormed)
    {helper : String} {m : MethodId} : r'.HelpsArrays helper m ↔ r.HelpsArrays helper m := by
  rw [helpsArrays_iff, helpsArrays_iff, hg.find?]
  refine exists_congr fun h => and_congr_right fun hf => ?_
  rw [hg.type (hw.found hf), List.filter_congr fun m hm => ?_]
  simp only [Registry.isArrayHelper, hg.method (hw.methodOf (hw.found hf) hm)]

theorem helpedElement?_eq_some {r : Registry} {t e : TypeId} :
    r.helpedElement? t = some e ↔
      (∃ b, (r.type t).base = some b ∧ r.fullName b = "System.Array") ∧
        (r.type t).form.element? = some e ∧ (r.type e).form.isPointer = false := by
  simp only [Registry.helpedElement?]
  cases hb : (r.type t).base with
  | none => simp
  | some b =>
    by_cases hn : r.fullName b = "System.Array"
    · simp [hn, Option.filter_eq_some_iff]
    · simp [hn]

theorem Grows.helpedElement? {r r' : Registry} (hg : r.Grows r') (hw : r.WellFormed) {t : TypeId}
    (ht : r.Has (.type t)) : r'.helpedElement? t = r.helpedElement? t := by
  refine Option.ext fun e => ?_
  rw [helpedElement?_eq_some, helpedElement?_eq_some, hg.type ht]
  refine and_congr (exists_congr fun b => and_congr_right fun hb => ?_)
    (and_congr_right fun he => ?_)
  · rw [hg.fullName (hw.base ht hb)]
  · rw [hg.type (hw.element ht he)]

end Registry

namespace Scan

variable {S : Item → Registry → Prop} {lost : List Item} {run : Run}

/-- an element that is reached and referred to can enter -/
theorem canEnter_of {y : Item} (hy : run.registry.Has y)
    (hS : ∀ r, run.registry.Grows r → r.WellFormed → S y r) : CanEnter S run y :=
  ⟨hy, .inr hS⟩

/-! ## code -/

def CodeReached (run : Run) (m : MethodId) : Prop :=
  ∃ code, Settled (Registry.decode m) code run.registry ∧ run.registry.HasCode code ∧
    ∀ y, run.registry.Names code y → run.Reached y

theorem CodeReached.step {run' : Run} {m : MethodId} (h : CodeReached run m) (hs : run.Sound)
    (hstep : run.Step S lost run') : CodeReached run' m := by
  obtain ⟨code, hset, hc, hn⟩ := h
  refine ⟨code, hset.mono hstep.grows, hstep.grows.hasCode hc, fun y hy => ?_⟩
  exact hstep.reached hs (hn y ((hstep.grows.names hc).mp hy))

theorem CodeReached.later {m : MethodId} (h : CodeReached run m) (hs : run.Sound) {r : Registry}
    (hg : run.registry.Grows r) (hw : r.WellFormed) {code : List Instruction}
    (hcode : r.CodeOf m code) {y : Item} (hy : r.Names code y) :
    r.Has y ∧ r.itemKey y ∈ run.scanner.queue.keys := by
  obtain ⟨code', hset, hc, hn⟩ := h
  obtain ⟨r', hr'⟩ := hcode
  obtain ⟨rfl, -⟩ := (hset.mono hg).eq hw hr'
  exact (hn y ((hg.names hc).mp hy)).later hs hg

theorem steps_scanCode (hs : run.Sound) {m : MethodId} (hm : run.registry.Has (.method m))
    (hS : ∀ code r, run.registry.Grows r → r.WellFormed → (r.method m).isInline = false →
      r.CodeOf m code → ∀ y, r.Names code y → S y r) :
    Steps S lost (scanCode m) run fun _ run' =>
      (run.registry.method m).needsNativeCode = false ∧
        ((run.registry.method m).isInline = false → CodeReached run' m) := by
  refine Steps.registry ?_
  split
  · exact Steps.throw hs _
  · rename_i hnative
    have hnative : (run.registry.method m).needsNativeCode = false := by simpa using hnative
    split
    · rename_i hinline
      have hinline : (run.registry.method m).isInline = false := by simpa using hinline
      refine Steps.bind (steps_decodeStamped hs hm) fun stamped run₁ hstep₁ hstamped => ?_
      obtain ⟨code, hset, hc, hst⟩ := hstamped
      have hs₁ := hstep₁.sound
      refine Steps.registry ?_
      refine (steps_follow hs₁ _ fun ref href => ?_).weaken fun _ run₂ hstep₂ hreached => ?_
      · -- what is followed is named by the code or is in the queue
        have hnames := Registry.mem_codeReferences.mp ⟨ref, href, rfl⟩
        have hhas := hnames.has hs₁.wellFormed (hasCode_stamped hst hc)
        rcases names_of_stamped hst hnames with hy | hy
        · refine canEnter_of hhas fun r hg hw => ?_
          have hgr := hstep₁.grows.trans hg
          obtain ⟨r', hr', -⟩ := (hset.mono hg).run hw
          refine hS code r hgr hw ?_ ⟨r', hr'⟩ _ ((hg.names hc).mpr hy)
          rw [hgr.method hm, hinline]
        · exact ⟨hhas, .inl (hs₁.item hy)⟩
      · refine ⟨hnative, fun _ => ⟨code, hset.mono hstep₂.grows, hstep₂.grows.hasCode hc, ?_⟩⟩
        intro y hy
        have hy₁ := (hstep₂.grows.names hc).mp hy
        obtain ⟨z, hz, hkey⟩ := stamped_of_names hst hy₁
        obtain ⟨ref, href, rfl⟩ := Registry.mem_codeReferences.mpr hz
        have hhas := hy₁.has hs₁.wellFormed hc
        refine ⟨hstep₂.grows.has hhas, ?_⟩
        rw [hstep₂.grows.itemKey hs₁.wellFormed hhas, ← hkey,
          ← hstep₂.grows.itemKey hs₁.wellFormed
            (hz.has hs₁.wellFormed (hasCode_stamped hst hc))]
        exact (hreached ref href).2
    · rename_i hinline
      refine Steps.pure hs ⟨hnative, fun h => ?_⟩
      rw [h] at hinline
      simp at hinline

/-! ## methods -/

structure SignatureReached (run : Run) (m : MethodId) : Prop where
  parameter : ∀ t ∈ (run.registry.method m).paramTypes, run.Reached (.type t)
  returnType : (run.registry.method m).isConstructor = false →
    run.Reached (.type (run.registry.method m).returnType)

theorem SignatureReached.step {run' : Run} {m : MethodId} (h : SignatureReached run m)
    (hm : run.registry.Has (.method m)) (hs : run.Sound) (hstep : run.Step S lost run') :
    SignatureReached run' m := by
  have hmethod := hstep.grows.method hm
  refine ⟨fun t ht => ?_, fun hc => ?_⟩
  · rw [hmethod] at ht
    exact hstep.reached hs (h.parameter t ht)
  · rw [hmethod] at hc ⊢
    exact hstep.reached hs (h.returnType hc)

def DeclaringReached (run : Run) (m : MethodId) : Prop :=
  ∀ t, (run.registry.method m).declaring = some t → run.Reached (.type t)

theorem DeclaringReached.step {run' : Run} {m : MethodId} (h : DeclaringReached run m)
    (hm : run.registry.Has (.method m)) (hs : run.Sound) (hstep : run.Step S lost run') :
    DeclaringReached run' m := by
  intro t ht
  rw [hstep.grows.method hm] at ht
  exact hstep.reached hs (h t ht)

theorem steps_signature (hs : run.Sound) {m : MethodId} (hm : run.registry.Has (.method m))
    (source : String) (asPlug : Bool)
    (hp : ∀ r, run.registry.Grows r → r.WellFormed → ∀ t ∈ (r.method m).paramTypes,
      S (.type t) r)
    (hd : asPlug = false → ∀ r, run.registry.Grows r → r.WellFormed → ∀ t,
      (r.method m).declaring = some t → S (.type t) r)
    (hr : ∀ r, run.registry.Grows r → r.WellFormed → (r.method m).isConstructor = false →
      S (.type (r.method m).returnType) r) :
    Steps S lost (follow source (run.registry.signatureReferences m asPlug)) run fun _ run' =>
      SignatureReached run' m ∧ (asPlug = false → DeclaringReached run' m) := by
  have hw := hs.wellFormed
  refine (steps_follow hs source fun ref href => ?_).weaken fun _ run' hstep hreached => ?_
  · simp only [Registry.signatureReferences, List.mem_append, List.mem_map] at href
    rcases href with (⟨t, ht, rfl⟩ | ⟨t, ht, rfl⟩) | ⟨t, ht, rfl⟩
    · refine canEnter_of (hw.param hm ht) fun r hg hw' => hp r hg hw' t ?_
      rwa [hg.method hm]
    · cases asPlug with
      | true => simp at ht
      | false =>
        have hdecl : (run.registry.method m).declaring = some t := by simpa using ht
        refine canEnter_of (hw.declaring hm hdecl) fun r hg hw' => hd rfl r hg hw' t ?_
        rwa [hg.method hm]
    · split at ht
      · cases ht
      · rename_i hc
        rw [List.mem_singleton.mp ht]
        refine canEnter_of (hw.returnType hm) fun r hg hw' => ?_
        have hret := hr r hg hw'
        rw [hg.method hm] at hret
        exact hret (by simpa using hc)
  · have hmethod := hstep.grows.method hm
    refine ⟨⟨fun t ht => ?_, fun hc => ?_⟩, fun hplug t ht => ?_⟩
    · rw [hmethod] at ht
      exact hreached ⟨.type t, .parameter⟩ (by simp [Registry.signatureReferences, ht])
    · rw [hmethod] at hc ⊢
      exact hreached ⟨.type _, .returnType⟩ (by simp [Registry.signatureReferences, hc])
    · rw [hmethod] at ht
      exact hreached ⟨.type t, .declaringType⟩ (by simp [Registry.signatureReferences, hplug, ht])

theorem steps_scanPlug (hs : run.Sound) {plug : MethodId} (hp : run.registry.Has (.method plug))
    (hparam : ∀ r, run.registry.Grows r → r.WellFormed → ∀ t ∈ (r.method plug).paramTypes,
      S (.type t) r)
    (hreturn : ∀ r, run.registry.Grows r → r.WellFormed →
      (r.method plug).isConstructor = false → S (.type (r.method plug).returnType) r)
    (hcode : ∀ code r, run.registry.Grows r → r.WellFormed → (r.method plug).isInline = false →
      r.CodeOf plug code → ∀ y, r.Names code y → S y r) :
    Steps S lost (scanPlug plug) run fun _ run' =>
      SignatureReached run' plug ∧ (run.registry.method plug).needsNativeCode = false ∧
        ((run.registry.method plug).isInline = false → CodeReached run' plug) := by
  refine Steps.bind (steps_identify hs _) fun _ run₁ hstep₁ _ => ?_
  have hg₁ := hstep₁.grows
  have hp₁ := hg₁.has hp
  refine Steps.registry ?_
  refine Steps.bind (steps_signature hstep₁.sound hp₁ _ true
    (fun r hg hw => hparam r (hg₁.trans hg) hw) (fun h => by cases h)
    (fun r hg hw => hreturn r (hg₁.trans hg) hw)) fun _ run₂ hstep₂ hsig => ?_
  have hg₂ := hg₁.trans hstep₂.grows
  refine (steps_scanCode hstep₂.sound (hg₂.has hp) fun code r hg hw =>
    hcode code r (hg₂.trans hg) hw).weaken fun _ run₃ hstep₃ hc => ?_
  rw [hg₂.method hp] at hc
  exact ⟨hsig.1.step (hg₂.has hp) hstep₂.sound hstep₃, hc⟩

/-- what is known of a method after it was looked into -/
structure MethodReached (run : Run) (m : MethodId) (answer : Option MethodId) : Prop where
  answered : Answered run m answer
  signature : SignatureReached run m
  declaring : DeclaringReached run m
  unplugged : answer = none → (run.registry.method m).needsNativeCode = false ∧
    ((run.registry.method m).isInline = false → CodeReached run m)
  plug : ∀ p, answer = some p → SignatureReached run p ∧
    ((run.registry.method p).isInline = false → CodeReached run p) ∧
    ((run.registry.method m).isInline = false → run.Reached (.method p))
  plugManaged : ∀ p, answer = some p → (run.registry.method p).needsNativeCode = false

theorem CodeReached.settled {m : MethodId} (h : CodeReached run m) :
    ∃ code, Settled (Registry.decode m) code run.registry := by
  obtain ⟨code, hset, -⟩ := h
  exact ⟨code, hset⟩

/-- what is known of a method covers all it refers to -/
theorem MethodReached.explored {m : MethodId} {answer : Option MethodId}
    (h : MethodReached run m answer) (hs : run.Sound) (hm : run.registry.Has (.method m)) :
    run.Explored (.method m) := by
  have hplugOf : ∀ {r}, run.registry.Grows r → r.WellFormed → ∀ {found},
      r.PlugOf run.scanner.plugs.index m found → found = answer := by
    intro r hg hw found ⟨r', hr'⟩
    exact ((h.answered.1.mono hg).eq hw hr').1
  refine ⟨fun r hg hw y hy => ?_, fun m' hm' => ⟨answer, ?_⟩⟩
  · cases hy with
    | parameter ht =>
      rw [hg.method hm] at ht
      exact (h.signature.parameter _ ht).later hs hg
    | declaring ht =>
      rw [hg.method hm] at ht
      exact (h.declaring _ ht).later hs hg
    | returnType hc =>
      rw [hg.method hm] at hc ⊢
      exact (h.signature.returnType hc).later hs hg
    | plug hp hi =>
      have hans := hplugOf hg hw hp
      rw [hg.method hm] at hi
      exact ((h.plug _ hans.symm).2.2 hi).later hs hg
    | plugParameter hp ht =>
      have hans := (hplugOf hg hw hp).symm
      rw [hg.method (h.answered.2 _ hans).has] at ht
      exact ((h.plug _ hans).1.parameter _ ht).later hs hg
    | plugReturnType hp hc =>
      have hans := (hplugOf hg hw hp).symm
      rw [hg.method (h.answered.2 _ hans).has] at hc ⊢
      exact ((h.plug _ hans).1.returnType hc).later hs hg
    | plugCode hp hi hc hn =>
      have hans := (hplugOf hg hw hp).symm
      rw [hg.method (h.answered.2 _ hans).has] at hi
      exact ((h.plug _ hans).2.1 hi).later hs hg hw hc hn
    | code hp hi hc hn =>
      have hans := (hplugOf hg hw hp).symm
      rw [hg.method hm] at hi
      exact ((h.unplugged hans).2 hi).later hs hg hw hc hn
  · cases hm'
    refine ⟨h.answered, ?_⟩
    cases answer with
    | some p =>
      exact ⟨(h.answered.2 p rfl).has, h.plugManaged p rfl, fun hi => ((h.plug p rfl).2.1 hi).settled⟩
    | none => exact ⟨hm, (h.unplugged rfl).1, fun hi => ((h.unplugged rfl).2 hi).settled⟩

/-- a method without declaring type has no plug -/
theorem answered_dynamic {m : MethodId} (hm : run.registry.Has (.method m))
    (hd : (run.registry.method m).isDynamic = true) : Answered run m none := by
  refine ⟨fun r hg hw => ?_, fun p hp => by cases hp⟩
  have hdecl : (r.method m).declaring = none := by
    rw [hg.method hm]
    simpa [Method.isDynamic] using hd
  refine ⟨r, ?_, rfl⟩
  rw [PlugManager.resolveByIndex, Registry.get_bind_apply, hdecl]
  rfl

section
variable {m : MethodId} (hm : run.registry.Has (.method m)) (hs : run.Sound)
include hm hs

/-- a method without plug, after its signature was followed -/
theorem steps_unplugged (hans : Answered run m none) (hsig : SignatureReached run m)
    (hdecl : DeclaringReached run m) :
    Steps (run.ReferredBy (.method m)) lost (scanCode m) run fun _ run' =>
      run'.Explored (.method m) := by
  refine (steps_scanCode hs hm fun code r hg hw hi hcode y hy => ?_).weaken
    fun _ run' hstep hcode => ?_
  · obtain ⟨r', hr', -⟩ := (hans.1.mono hg).run hw
    exact .code ⟨r', hr'⟩ hi hcode hy
  · have hmethod := hstep.grows.method hm
    refine MethodReached.explored ⟨hans.step hstep, hsig.step hm hs hstep, hdecl.step hm hs hstep,
      fun _ => ?_, (fun p hp => by cases hp), fun p hp => by cases hp⟩ hstep.sound
      (hstep.grows.has hm)
    rw [hmethod]
    exact hcode

theorem steps_plugged {plug : MethodId} (hans : Answered run m (some plug))
    (hsig : SignatureReached run m) (hdecl : DeclaringReached run m)
    {isInline : Bool} (hinline : (run.registry.method m).isInline = isInline) (source : String) :
    Steps (run.ReferredBy (.method m)) lost
      (do
        scanPlug plug
        if !isInline then
          enqueue (.method plug) .plugMethod (some source)) run
      fun _ run' => run'.Explored (.method m) := by
  have hplug := (hans.2 plug rfl).has
  have hplugOf : ∀ r, run.registry.Grows r → r.WellFormed →
      r.PlugOf run.scanner.plugs.index m (some plug) := by
    intro r hg hw
    obtain ⟨r', hr', -⟩ := (hans.1.mono hg).run hw
    exact ⟨r', hr'⟩
  refine Steps.bind (steps_scanPlug hs hplug
    (fun r hg hw t ht => .plugParameter (hplugOf r hg hw) ht)
    (fun r hg hw hc => .plugReturnType (hplugOf r hg hw) hc)
    (fun code r hg hw hi hcode y hy => .plugCode (hplugOf r hg hw) hi hcode hy)) ?_
  intro _ run₁ hstep₁ ⟨hpsig, hpnative, hpcode⟩
  -- all but the plug itself was reached; it is added unless the method is inline
  have hdone : ∀ {run₂}, run₁.Step (run.ReferredBy (.method m)) lost run₂ →
      (isInline = false → run₂.Reached (.method plug)) → run₂.Explored (.method m) := by
    intro run₂ hstep₂ hentered
    have hstep := hstep₁.trans hstep₂
    have hmethod := hstep.grows.method hm
    refine MethodReached.explored ⟨hans.step hstep, hsig.step hm hs hstep, hdecl.step hm hs hstep,
      (fun h => by cases h), fun p hp => ?_, fun p hp => ?_⟩ hstep₂.sound (hstep.grows.has hm)
    · cases hp
      refine ⟨hpsig.step (hstep₁.grows.has hplug) hstep₁.sound hstep₂, fun hi => ?_, fun hi => ?_⟩
      · rw [hstep.grows.method hplug] at hi
        exact (hpcode hi).step hstep₁.sound hstep₂
      · rw [hmethod, hinline] at hi
        exact hentered hi
    · cases hp
      rw [hstep.grows.method hplug, hpnative]
  cases isInline with
  | true => exact Steps.pure hstep₁.sound (hdone (.refl hstep₁.sound) fun h => by cases h)
  | false =>
    refine (steps_enqueue hstep₁.sound (canEnter_of (hstep₁.grows.has hplug) ?_) _ _).weaken
      fun _ run₂ hstep₂ hr => hdone hstep₂ fun _ => hr
    intro r hg hw
    have hgr := hstep₁.grows.trans hg
    exact .plug (hplugOf r hgr hw) (by rw [hgr.method hm, hinline])

end

theorem steps_scanMethod (hs : run.Sound) {m : MethodId}
    (hm : .method m ∈ run.scanner.queue.items) :
    Steps (run.ReferredBy (.method m)) lost (scanMethod m) run fun _ run' =>
      run'.Explored (.method m) := by
  have hhas := (hs.item hm).1
  refine Steps.registry (Steps.bind (steps_signature hs hhas _ false
    (fun r _ _ t ht => .parameter ht) (fun _ r _ _ t ht => .declaring ht)
    (fun r _ _ hc => .returnType hc)) ?_)
  intro _ run₁ hstep₁ ⟨hsig, hdecl⟩
  have hs₁ := hstep₁.sound
  have hhas₁ := hstep₁.grows.has hhas
  have hmethod₁ := hstep₁.grows.method hhas
  rw [← hstep₁.referredBy]
  split
  · rename_i hdyn
    rw [← hmethod₁] at hdyn
    exact steps_unplugged hhas₁ hs₁ (answered_dynamic hhas₁ hdyn) hsig (hdecl rfl)
  · refine Steps.bind (steps_resolvePlug hs₁ (hstep₁.items hm)) fun answer run₂ hstep₂ hans => ?_
    have hs₂ := hstep₂.sound
    have hhas₂ := hstep₂.grows.has hhas₁
    have hsig₂ := hsig.step hhas₁ hs₁ hstep₂
    have hdecl₂ := (hdecl rfl).step hhas₁ hs₁ hstep₂
    rw [← hstep₂.referredBy]
    cases answer with
    | none => exact steps_unplugged hhas₂ hs₂ hans hsig₂ hdecl₂
    | some plug =>
      exact steps_plugged hhas₂ hs₂ hans hsig₂ hdecl₂
        (by rw [hstep₂.grows.method hhas₁, hmethod₁]) _

/-! ## types -/

/-- the helper `m` was instantiated at `element`, and reached -/
def HelperReached (run : Run) (element : TypeId) (m : MethodId) : Prop :=
  ∃ made, Settled (Registry.instantiateMethod m [element]) made run.registry ∧
    run.Reached (.method made)

theorem HelperReached.step {run' : Run} {element : TypeId} {m : MethodId}
    (h : HelperReached run element m) (hs : run.Sound) (hstep : run.Step S lost run') :
    HelperReached run' element m := by
  obtain ⟨made, hset, hr⟩ := h
  exact ⟨made, hset.mono hstep.grows, hstep.reached hs hr⟩

theorem steps_enqueueHelpers (hs : run.Sound) (source : String) {element : TypeId}
    (he : run.registry.Has (.type element))
    (hS : ∀ m made r r', run.registry.Grows r → r.WellFormed →
      r.HelpsArrays run.scanner.config.arrayHelper m →
      Registry.instantiateMethod m [element] r = .ok made r' → S (.method made) r) :
    Steps S lost (enqueueHelpers source element) run fun _ run' =>
      ∀ m, run.registry.HelpsArrays run.scanner.config.arrayHelper m →
        HelperReached run' element m := by
  refine Steps.get ?_
  cases hf : run.registry.find? run.scanner.config.arrayHelper with
  | none =>
    refine Steps.pure hs fun m hm => ?_
    obtain ⟨h, hh, -⟩ := hm.declared
    rw [hf] at hh
    cases hh
  | some helper =>
    have hmem : ∀ {m}, run.registry.HelpsArrays run.scanner.config.arrayHelper m ↔
        m ∈ (run.registry.type helper).methods.filter run.registry.isArrayHelper := by
      intro m
      rw [Registry.helpsArrays_iff, hf]
      simp
    refine Steps.weaken (Steps.forM hs (fun run' => run.registry.Grows run'.registry)
      (fun m run' => HelperReached run' element m) (.refl _) ?_
      fun m run' run'' hs' hstep h => h.step hs' hstep)
      fun _ run' _ hq m hm => hq.2 m (hmem.mp hm)
    intro m hm run₁ hs₁ hg₁
    have hhelps := hmem.mpr hm
    have helement : ∀ a ∈ [element], run₁.registry.Has (.type a) := by
      intro a ha
      rw [List.mem_singleton.mp ha]
      exact hg₁.has he
    have hhas := hs.wellFormed.helpsArrays hhelps
    refine Steps.bind (steps_onRegistry hs₁ (Registry.builds_instantiateMethod hs₁.wellFormed
      (hg₁.has hhas) helement)) fun made run₂ hstep₂ hmade => ?_
    have hg₂ := hg₁.trans hstep₂.grows
    refine (steps_enqueue hstep₂.sound (canEnter_of hmade.2 ?_) _ _).weaken
      fun _ run₃ hstep₃ hr => ⟨hg₂.trans hstep₃.grows, made, hmade.1.mono hstep₃.grows, hr⟩
    intro r hg hw
    obtain ⟨r', hr', -⟩ := (hmade.1.mono hg).run hw
    exact hS m made r r' (hg₂.trans hg) hw
      (((hg₂.trans hg).helpsArrays hs.wellFormed).mpr hhelps) hr'

structure BaseReached (run : Run) (t : TypeId) : Prop where
  base : ∀ b, (run.registry.type t).base = some b → run.Reached (.type b)
  typeConstructor : ∀ m ∈ (run.registry.type t).methods,
    (run.registry.method m).isTypeConstructor = true → run.Reached (.method m)

structure MembersReached (run : Run) (t : TypeId) : Prop where
  fieldType : ∀ f ∈ (run.registry.type t).fields, (run.registry.field f).isStatic = false →
    run.Reached (.type (run.registry.field f).type)
  interface : ∀ i ∈ (run.registry.type t).interfaces, run.Reached (.type i)

/-- the helpers of `t` were reached, if it is an array that has them -/
def HelpersReached (run : Run) (t : TypeId) : Prop :=
  ∀ e, run.registry.helpedElement? t = some e → ∀ m,
    run.registry.HelpsArrays run.scanner.config.arrayHelper m → HelperReached run e m

section
variable {run' : Run} {t : TypeId} (ht : run.registry.Has (.type t)) (hs : run.Sound)
include ht hs

theorem BaseReached.step (h : BaseReached run t) (hstep : run.Step S lost run') :
    BaseReached run' t := by
  refine ⟨fun b hb => ?_, fun m hm hc => ?_⟩
  · rw [hstep.grows.type ht] at hb
    exact hstep.reached hs (h.base b hb)
  · rw [hstep.grows.type ht] at hm
    rw [hstep.grows.method (hs.wellFormed.methodOf ht hm)] at hc
    exact hstep.reached hs (h.typeConstructor m hm hc)

theorem MembersReached.step (h : MembersReached run t) (hstep : run.Step S lost run') :
    MembersReached run' t := by
  refine ⟨fun f hf hstatic => ?_, fun i hi => ?_⟩
  · rw [hstep.grows.type ht] at hf
    rw [hstep.grows.field (hs.wellFormed.fieldOf ht hf)] at hstatic ⊢
    exact hstep.reached hs (h.fieldType f hf hstatic)
  · rw [hstep.grows.type ht] at hi
    exact hstep.reached hs (h.interface i hi)

theorem HelpersReached.step (h : HelpersReached run t) (hstep : run.Step S lost run') :
    HelpersReached run' t := by
  intro e he m hm
  rw [hstep.grows.helpedElement? hs.wellFormed ht] at he
  rw [hstep.config] at hm
  exact (h e he m ((hstep.grows.helpsArrays hs.wellFormed).mp hm)).step hs hstep

theorem steps_base (source : String) :
    Steps (run.ReferredBy (.type t)) lost (follow source (run.registry.baseReferences t)) run
      fun _ run' => BaseReached run' t := by
  have hw := hs.wellFormed
  refine (steps_follow hs _ fun ref href => ?_).weaken fun _ run' hstep hreached => ?_
  · simp only [Registry.baseReferences, List.mem_append, List.mem_map, Option.mem_toList,
      List.mem_filter] at href
    rcases href with ⟨b, hb, rfl⟩ | ⟨m, ⟨hm, hc⟩, rfl⟩
    · refine canEnter_of (hw.base ht hb) fun r hg _ => .base ?_
      rwa [hg.type ht]
    · refine canEnter_of (hw.methodOf ht hm) fun r hg _ => .typeConstructor ?_ ?_
      · rwa [hg.type ht]
      · rwa [hg.method (hw.methodOf ht hm)]
  · refine ⟨fun b hb => ?_, fun m hm hc => ?_⟩
    · rw [hstep.grows.type ht] at hb
      exact hreached ⟨.type b, .baseType⟩ (by simp [Registry.baseReferences, hb])
    · rw [hstep.grows.type ht] at hm
      rw [hstep.grows.method (hw.methodOf ht hm)] at hc
      exact hreached ⟨.method m, .staticConstructor⟩
        (by simp [Registry.baseReferences, hm, hc])

theorem steps_members (source : String) :
    Steps (run.ReferredBy (.type t)) lost (follow source (run.registry.memberReferences t)) run
      fun _ run' => MembersReached run' t := by
  have hw := hs.wellFormed
  refine (steps_follow hs _ fun ref href => ?_).weaken fun _ run' hstep hreached => ?_
  · simp only [Registry.memberReferences, List.mem_append, List.mem_map, List.mem_filter,
      Bool.not_eq_true'] at href
    rcases href with ⟨f, ⟨hf, hstatic⟩, rfl⟩ | ⟨i, hi, rfl⟩
    · have hfhas := hw.fieldOf ht hf
      refine canEnter_of (hw.typeOf hfhas) fun r hg _ => ?_
      rw [← hg.field hfhas]
      refine .fieldType ?_ ?_
      · rwa [hg.type ht]
      · rwa [hg.field hfhas]
    · refine canEnter_of (hw.interface ht hi) fun r hg _ => .interface ?_
      rwa [hg.type ht]
  · refine ⟨fun f hf hstatic => ?_, fun i hi => ?_⟩
    · rw [hstep.grows.type ht] at hf
      rw [hstep.grows.field (hw.fieldOf ht hf)] at hstatic ⊢
      exact hreached ⟨.type (run.registry.field f).type, .fieldType⟩
        (List.mem_append_left _ (List.mem_map.mpr ⟨f, by simp [hf, hstatic], rfl⟩))
    · rw [hstep.grows.type ht] at hi
      exact hreached ⟨.type i, .implementedInterface⟩
        (List.mem_append_right _ (List.mem_map.mpr ⟨i, hi, rfl⟩))

theorem steps_helpers (source : String) :
    Steps (run.ReferredBy (.type t)) lost
      ((run.registry.helpedElement? t).forM (enqueueHelpers source)) run
      fun _ run' => HelpersReached run' t := by
  have hw := hs.wellFormed
  cases he : run.registry.helpedElement? t with
  | none =>
    refine Steps.pure hs fun e h => ?_
    rw [he] at h
    cases h
  | some element =>
    obtain ⟨⟨b, hb, hn⟩, hel, hp⟩ := Registry.helpedElement?_eq_some.mp he
    have hehas := hw.element ht hel
    refine (steps_enqueueHelpers hs source hehas ?_).weaken fun _ run' hstep h => ?_
    · intro m made r r' hg _ hm hmade
      refine .arrayHelper (b := b) (e := element) ?_ ?_ ?_ ?_ hm hmade
      · rwa [hg.type ht]
      · rwa [hg.fullName (hw.base ht hb)]
      · rwa [hg.type ht]
      · rwa [hg.type hehas]
    · intro e h' m hm
      rw [hstep.grows.helpedElement? hw ht, he] at h'
      cases h'
      rw [hstep.config] at hm
      exact h m ((hstep.grows.helpsArrays hw).mp hm)

/-- what is known of a type covers all it refers to -/
theorem explored_type (hbase : BaseReached run t) (hmembers : MembersReached run t)
    (hhelpers : HelpersReached run t) : run.Explored (.type t) := by
  have hw := hs.wellFormed
  refine ⟨fun r hg hwr y hy => ?_, fun m hm => by cases hm⟩
  cases hy with
  | base hb =>
    rw [hg.type ht] at hb
    exact (hbase.base _ hb).later hs hg
  | typeConstructor hm hc =>
    rw [hg.type ht] at hm
    rw [hg.method (hw.methodOf ht hm)] at hc
    exact (hbase.typeConstructor _ hm hc).later hs hg
  | fieldType hf hstatic =>
    rw [hg.type ht] at hf
    rw [hg.field (hw.fieldOf ht hf)] at hstatic ⊢
    exact (hmembers.fieldType _ hf hstatic).later hs hg
  | interface hi =>
    rw [hg.type ht] at hi
    exact (hmembers.interface _ hi).later hs hg
  | arrayHelper hb hn he hp hm hmade =>
    rw [hg.type ht] at hb he
    rw [hg.fullName (hw.base ht hb)] at hn
    rw [hg.type (hw.element ht he)] at hp
    obtain ⟨made, hset, hr⟩ := hhelpers _
      (Registry.helpedElement?_eq_some.mpr ⟨⟨_, hb, hn⟩, he, hp⟩) _
      ((hg.helpsArrays hw).mp hm)
    obtain ⟨rfl, -⟩ := (hset.mono hg).eq hwr hmade
    exact hr.later hs hg

theorem steps_scanType :
    Steps (run.ReferredBy (.type t)) lost (scanType t) run fun _ run' => run'.Explored (.type t) := by
  have hw := hs.wellFormed
  refine Steps.registry (Steps.bind (steps_base ht hs _) fun _ run₁ hstep₁ hbase => ?_)
  have ht₁ := hstep₁.grows.has ht
  rw [← hstep₁.referredBy, ← hstep₁.grows.helpedElement? hw ht]
  refine Steps.bind (steps_helpers ht₁ hstep₁.sound _) fun _ run₂ hstep₂ hhelpers => ?_
  have ht₂ := hstep₂.grows.has ht₁
  rw [← hstep₂.referredBy]
  refine Steps.registry (Steps.bind (steps_members ht₂ hstep₂.sound _) ?_)
  intro _ run₃ hstep₃ hmembers
  have ht₃ := hstep₃.grows.has ht₂
  refine (steps_markUsed hstep₃.sound _).weaken fun _ run₄ hstep₄ _ => ?_
  have hstep₂₄ := hstep₃.trans hstep₄
  exact explored_type (hstep₄.grows.has ht₃) hstep₄.sound
    ((hbase.step ht₁ hstep₁.sound hstep₂).step ht₂ hstep₂.sound hstep₂₄)
    (hmembers.step ht₃ hstep₃.sound hstep₄) (hhelpers.step ht₂ hstep₂.sound hstep₂₄)

end

/-- **Looking into an element** adds what it refers to and nothing else; if it succeeds, all of that
was reached. -/
theorem steps_scanItem (hs : run.Sound) {x : Item} (hx : x ∈ run.scanner.queue.items) :
    Steps (run.ReferredBy x) lost (scanItem x) run fun _ run' => run'.Explored x := by
  cases x with
  | method m => exact steps_scanMethod hs hx
  | type t => exact steps_scanType (hs.item hx).1 hs
  | field f =>
    refine Steps.pure hs ⟨fun r _ _ y hy => ?_, fun m hm => by cases hm⟩
    cases hy

end Scan

end ProgramScan

import ProgramScan.Proofs.Instruction.Pushed

/-!
# Instructions of closed methods

The code of a method is read in the context of the method.  If the method is closed, and the targets of
the tokens mention only parameters that the context has arguments for, then the operands are closed, and
so is what the instructions push, but for locals and results of indirect calls
(`Registry.decode_closed`).

* `Registry.Reads`             the body that is decoded as the code of a method;
* `Registry.CoversCode`        the tokens of a body mention only what a context covers;
* `closed_of_target`, `closed_of_operands`
                               operands that are read in a context of closed types;
* `openAsDeclared_of_decodeAs` a body that is read in such a context;
* `openAsDeclared_of_replacement`
                               instructions that stand in for the code of a method.
-/

namespace ProgramScan

namespace Registry

variable {r r' s s' : Registry}

/-! ## operands of closed methods -/

section
variable {ctx : GenericContext} (hr : r.Coherent) (hctx : r.HasContext ctx) (hg : r.Grows r')
  (hstep : Step [] r r') (hs : r.Scoped) (h : r'.Faithful) (hc : r'.Coherent)
  (hclosed : r'.ClosedContext ctx)
include hr hctx hg hstep hs h hc hclosed

/-- **What a token denotes in a context of closed types** is closed, if its target was there before the
context was used, and mentions only what the context covers. -/
theorem closed_of_target {target : TokenTarget} {found : Resolved}
    (hitems : ∀ x ∈ target.items, r.Has x) (hcovers : r.CoversTarget ctx target)
    (hfound : r'.Denotes ctx target found) {kind : OperandKind} {operand : Operand}
    (hoperand : operandOf? kind found = some operand) : r'.ClosedOperand operand := by
  have hcovers' := hcovers.mono hr.wellFormed hg hstep.persists hitems
  have hctx' := hg.hasContext hctx
  have hitem : ∀ x, found.item? = some x → r'.ClosedItem x := by
    intro x hx
    cases hfound with
    | type hu =>
      cases hx
      exact hu.isOpen_eq_false h hc.orderly hctx' hclosed
        (hg.has (hitems _ (List.mem_singleton.mpr rfl))) hcovers'
    | method hy =>
      cases hx
      have hmethod := hitems _ (List.mem_singleton.mpr rfl)
      exact hy.closedItem h hc hctx' hclosed (hg.has hmethod) hcovers'.1 hcovers'.2
        (hs.later hr hg hstep.persists hmethod)
    | field hy =>
      cases hx
      exact hy.closedItem hr hctx hg hstep hs h hc hclosed (hitems _ (List.mem_singleton.mpr rfl))
        hcovers'.1 hcovers'.2
    | string => cases hx
    | signature => cases hx
  intro x hx
  refine hitem x ?_
  cases found <;> cases kind <;> cases hoperand <;> exact hx

theorem closed_of_operands {dctx : DecodeContext} (hgeneric : dctx.generic = ctx) {start : Nat}
    {segments : List Segment} {operands : List Operand}
    (hcode : ∀ g ∈ segments, g.opcode.operand.isToken = true → ∀ target,
      (r.module dctx.module).tokens.get? g.token = some target → r.CoversTarget ctx target)
    (hoperands : Operands dctx start segments s operands s') (hrs : Grown r s) (hend : Grown s' r') :
    ∀ operand ∈ operands, r'.ClosedOperand operand := by
  subst hgeneric
  induction hoperands with
  | nil => exact fun operand h => by cases h
  | @cons start g segments s₀ s₁ s₂ operand operands hfirst hrest ih =>
    have hctx₀ := hrs.grows.hasContext hctx
    have hfirst' := (grown_of_operands (.cons hfirst .nil) hrs.coherent hctx₀).1
    have hlater := (grown_of_operands hrest hfirst'.coherent (hfirst'.grows.hasContext hctx₀)).1
    intro other hmem
    rcases List.mem_cons.mp hmem with rfl | hmem
    · cases hfirst with
      | plain =>
        intro x hx
        rw [item?_eq_none (items_value g _)] at hx
        cases hx
      | token htoken hfound hoperand =>
        obtain ⟨target, htarget, hdenotes⟩ := Denotes.of_run hrs.coherent hctx₀ hfound
        -- the tokens are those of the program that the body is read in
        rw [hrs.grows.module] at htarget
        have hitems : ∀ x ∈ target.items, r.Has x := fun x hx => hr.wellFormed.tokenTarget htarget hx
        have hdenotes' := hdenotes.mono hfirst'.coherent (hlater.trans hend)
          (hfirst'.grows.hasContext hctx₀)
          fun x hx => hfirst'.grows.has (hrs.grows.has (hitems x hx))
        exact closed_of_target hr hctx hg hstep hs h hc hclosed hitems
          (hcode g List.mem_cons_self htoken target htarget) hdenotes' hoperand
    · exact ih (hrs.trans hfirst') hend (fun g hg => hcode g (List.mem_cons_of_mem _ hg)) other hmem

end

/-! ## bodies that are read in the context of a method -/

/-- the tokens of the code mention only parameters that the context has arguments for -/
def CoversCode (r : Registry) (module : ModuleId) (ctx : GenericContext) (code : List UInt8) : Prop :=
  ∀ segments, Segment.join segments = code → ∀ g ∈ segments, g.opcode.operand.isToken = true →
    ∀ target, (r.module module).tokens.get? g.token = some target → r.CoversTarget ctx target

theorem step_of_operands {ctx : DecodeContext} {start : Nat} {segments : List Segment}
    {operands : List Operand} (h : Operands ctx start segments r operands r') (hc : r.Coherent)
    (hctx : r.HasContext ctx.generic) : Step [] r r' := by
  induction h with
  | nil => exact .refl hc.orderly
  | @cons start g segments r₀ r₁ r₂ operand operands hfirst hrest ih =>
    have hg := (grown_of_operands (.cons hfirst .nil) hc hctx).1
    have hstep : Step [] r₀ r₁ := by
      cases hfirst with
      | plain => exact .refl hc.orderly
      | token _ hfound _ => exact (coheres_resolveToken hc hctx _ _).step hfound
    exact hstep.trans (ih hg.coherent (hg.grows.hasContext hctx))

section
variable {m : MethodId} (hr : r.Coherent) (hs : r.Scoped) (hnames : r.ClosedNames)
  (hm : r.Has (.method m)) (hmethod : r.ClosedMethod m) (h : r'.Faithful)
include hr hnames hm hmethod h

theorem openAsDeclared_of_stacked (hrs : Grown r s) {code code' : List Instruction}
    (hcode : s.HasCode code) (hclosed : ∀ i ∈ code, r'.ClosedOperand i.operand)
    (hrun : (liftM (withStackEffects m code) : Action (List Instruction)) s = .ok code' r') :
    r'.OpenAsDeclared (r.localsOf m) code' := by
  have hw := hr.wellFormed
  have hms := hrs.grows.has hm
  have hend := (coheres_withStackEffects hrs.coherent hms hcode).ok hrun
  have hg := hrs.grows.trans hend.grows
  have hlocals : s.localsOf m = r.localsOf m := by
    rw [localsOf, localsOf, hrs.grows.body? hw hm]
  rw [← hlocals]
  exact openAsDeclared_of_withStackEffects h (hmethod.mono hw hg hm) (hnames.mono hw hg)
    hrs.coherent hms (.refl hend.coherent) hcode hclosed hrun

include hs

/-- **A body that is read as code of a closed method**, with tokens that mention only parameters of the
method, gives instructions that push open types only as they were declared. -/
theorem openAsDeclared_of_decodeAs {ts : List TypeId} {module : ModuleId} {body : Body}
    {code : List Instruction} (hcovers : r.CoversCode module (r.contextOf m) body.code)
    (hrun : decodeAs m module body (r.useNames ts) = .ok code r') :
    r'.OpenAsDeclared (r.localsOf m) code := by
  have hw := hr.wellFormed
  obtain ⟨_, s, ⟨segments, operands, hjoin, -, hoperands, rfl⟩, hstack⟩ := decodeAs_eq_ok_iff.mp hrun
  have hctx := hw.contextOf hm
  have hrs : Grown r (r.useNames ts) := .useNames hr ts
  have hctx' := hrs.grows.hasContext hctx
  obtain ⟨hread, hhas⟩ := grown_of_operands hoperands hrs.coherent hctx'
  have hs₁ := hrs.trans hread
  have hcode : s.HasCode (Segment.instructions body.regions 0 segments operands) := fun i hi =>
    hhas i.operand (operand_mem_of_instructions hi)
  have hcoheres := coheres_withStackEffects hs₁.coherent (hs₁.grows.has hm) hcode
  have hend := hcoheres.ok hstack
  have hall := hs₁.trans hend
  have hstep : Step [] r r' := (Step.useNames hr.orderly ts).trans
    ((step_of_operands hoperands hrs.coherent hctx').trans (hcoheres.step hstack))
  have hcontext : r'.ClosedContext (r.contextOf m) := by
    have hclosed := (hmethod.mono hw hall.grows hm).closedContext h hall.coherent.orderly
      (hall.grows.has hm)
    rwa [hall.grows.contextOf hw hm] at hclosed
  have hclosed := closed_of_operands hr hctx hall.grows hstep hs h hall.coherent hcontext rfl
    (fun g hg htoken target => hcovers segments hjoin.symm g hg htoken target) hoperands hrs hend
  exact openAsDeclared_of_stacked hr hnames hm hmethod h hs₁ hcode
    (fun i hi => hclosed i.operand (operand_mem_of_instructions hi)) hstack

end

/-! ## replacement bodies -/

theorem eq_of_wellKnown {name : String} {t : TypeId} (hrun : wellKnown name r = .ok t r') :
    r.find? name = some t ∧ r = r' := by
  rw [wellKnown, get_bind_apply] at hrun
  cases ht : r.find? name with
  | none =>
    rw [ht] at hrun
    cases hrun
  | some u =>
    rw [ht] at hrun
    cases hrun
    exact ⟨rfl, rfl⟩

theorem names_of_findConstructor {t : TypeId} {params : List TypeId} {found : Option MethodId}
    (hrun : (liftM (findConstructor t params) : Action (Option MethodId)) r = .ok found r') :
    ∃ ts, r' = r.useNames ts := by
  cases hrun
  exact ⟨_, rfl⟩

/-- an operand of instructions that are given for a method: it names no element, or a field of the type
that declares the method -/
def GivenOperand (r : Registry) (m : MethodId) (operand : Operand) : Prop :=
  operand.items = [] ∨
    ∃ t f, (r.method m).declaring = some t ∧ f ∈ (r.type t).fields ∧ operand = .field f

/-- What stands in for the code of `m`, with the program that finding it leaves. -/
inductive StandsIn (r : Registry) (m : MethodId) : Replacement → Registry → Prop
  /-- a body, which is found without making anything -/
  | redirect (body : Body) (module : ModuleId) (ts : List TypeId) :
    StandsIn r m (.redirect body module) (r.useNames ts)
  | given {ts : List TypeId} {source : List (Opcode × Nat × Nat × Operand)} {code : List Instruction}
    {r' : Registry} (hsource : ∀ e ∈ source, r.GivenOperand m e.2.2.2)
    (hrun : (liftM (withStackEffects m (source.map fun (op, offset, next, operand) =>
      Instruction.ofEncoded op offset next operand)) : Action (List Instruction)) (r.useNames ts) =
        .ok code r') : StandsIn r m (.synthesized code) r'
  /-- instructions that push types by name -/
  | named {ts : List TypeId} {code : List Instruction}
    (hpushed : ∀ i ∈ code, ∀ u, some u ∈ i.stack.pushTypes →
      ∃ name ∈ stackNames, r.find? name = some u) : StandsIn r m (.synthesized code) (r.useNames ts)

namespace StandsIn

variable {m : MethodId} {b : Replacement}

theorem of_synthesize (ts : List TypeId) {source : List (Opcode × Nat × Nat × Operand)}
    (hsource : ∀ e ∈ source, r.GivenOperand m e.2.2.2)
    (hrun : (liftM (synthesize m source) : Action Replacement) (r.useNames ts) = .ok b r') :
    r.StandsIn m b r' := by
  rw [synthesize, lift_bind] at hrun
  obtain ⟨code, s, hcode, hpure⟩ := bind_eq_ok_iff.mp hrun
  cases hpure
  exact .given hsource hcode

theorem of_facade (hrun : facadeReplacement m r = .ok (some b) r') : r.StandsIn m b r' := by
  rw [facadeReplacement, get_bind_apply] at hrun
  cases himplementation : r.find? memoryImplementation with
  | none =>
    rw [himplementation] at hrun
    cases hrun
  | some implementation =>
    rw [himplementation] at hrun
    dsimp only at hrun
    rw [modify_bind_apply] at hrun
    generalize List.filter _ _ = found at hrun
    match found with
    | [] => cases hrun
    | [x] =>
      dsimp only at hrun
      cases hbody : r.body? x with
      | none =>
        rw [hbody] at hrun
        cases hrun
      | some body =>
        cases hd : (r.method x).declaring with
        | none =>
          rw [hbody, hd] at hrun
          cases hrun
        | some owner =>
          rw [hbody, hd] at hrun
          cases hrun
          exact .redirect _ _ _
    | _ :: _ :: _ => cases hrun

theorem of_byReference {t : TypeId} (ht : (r.method m).declaring = some t)
    (hrun : byReferenceReplacement m t r = .ok b r') : r.StandsIn m b r' := by
  rw [byReferenceReplacement, get_bind_apply] at hrun
  cases hvalue : r.fieldNamed? t "_value" with
  | none =>
    rw [hvalue] at hrun
    cases hrun
  | some value =>
    rw [hvalue] at hrun
    have hgiven : r.GivenOperand m (.field value) :=
      .inr ⟨t, value, ht, List.mem_of_find?_eq_some hvalue, rfl⟩
    dsimp only at hrun
    split at hrun
    · refine of_synthesize [] (fun e he => ?_) hrun
      simp only [List.mem_cons, List.not_mem_nil, or_false] at he
      rcases he with rfl | rfl | rfl | rfl <;> first | exact hgiven | exact .inl rfl
    · split at hrun
      · refine of_synthesize [] (fun e he => ?_) hrun
        simp only [List.mem_cons, List.not_mem_nil, or_false] at he
        rcases he with rfl | rfl | rfl <;> first | exact hgiven | exact .inl rfl
      · cases hrun

theorem of_onlyReturn (hrun : (liftM (onlyReturn m) : Action Replacement) r = .ok b r') :
    r.StandsIn m b r' := by
  refine of_synthesize [] (fun e he => ?_) hrun
  rw [List.mem_singleton.mp he]
  exact .inl rfl

theorem of_bitwise (hrun : bitwiseReplacement m r = .ok b r') : r.StandsIn m b r' := by
  rw [bitwiseReplacement, get_bind_apply] at hrun
  cases hargs : (r.method m).genericArgs with
  | nil =>
    rw [hargs] at hrun
    cases hrun
  | cons arg args =>
    rw [hargs] at hrun
    dsimp only at hrun
    rw [modify_bind_apply] at hrun
    refine of_synthesize [arg] (fun e he => ?_) hrun
    simp only [List.mem_cons, List.not_mem_nil, or_false] at he
    rcases he with rfl | rfl <;> exact .inl rfl

theorem of_typeHandle (hrun : typeHandleReplacement r = .ok b r') : r.StandsIn m b r' := by
  obtain ⟨runtimeType, s₁, hruntime, hrun₁⟩ := bind_eq_ok_iff.mp hrun
  obtain ⟨handleType, s₂, hhandle, hrun₂⟩ := bind_eq_ok_iff.mp hrun₁
  obtain ⟨int32, s₃, hint, hrun₃⟩ := bind_eq_ok_iff.mp hrun₂
  clear hrun hrun₁ hrun₂
  replace ⟨hruntime, rfl⟩ := eq_of_wellKnown hruntime
  replace ⟨hhandle, rfl⟩ := eq_of_wellKnown hhandle
  replace ⟨hint, rfl⟩ := eq_of_wellKnown hint
  rw [get_bind_apply] at hrun₃
  obtain ⟨found, s₄, hfound, hrun₄⟩ := bind_eq_ok_iff.mp hrun₃
  obtain ⟨ts, rfl⟩ := names_of_findConstructor hfound
  clear hrun₃
  cases found with
  | none => cases hrun₄
  | some typeConstructor =>
    dsimp only at hrun₄
    cases hfield : r.fieldNamed? runtimeType "m_handle" with
    | none =>
      rw [hfield] at hrun₄
      cases hrun₄
    | some handleField =>
      rw [hfield] at hrun₄
      obtain ⟨found, s₅, hfound, hrun₅⟩ := bind_eq_ok_iff.mp hrun₄
      obtain ⟨ts', rfl⟩ := names_of_findConstructor hfound
      clear hrun₄
      cases found with
      | none => cases hrun₅
      | some handleConstructor =>
        obtain ⟨rfl, rfl⟩ := pure_eq_ok_iff.mp hrun₅
        rw [useNames_useNames]
        refine .named fun i hi u hu => ?_
        have hpushed : u = runtimeType ∨ u = handleType ∨ u = int32 := by
          simp only [List.mem_cons, List.not_mem_nil, or_false] at hi
          rcases hi with rfl | rfl | rfl | rfl | rfl | rfl <;> simp [withTypes] at hu <;> simp [hu]
        rcases hpushed with rfl | rfl | rfl
        · exact ⟨_, by decide, hruntime⟩
        · exact ⟨_, by decide, hhandle⟩
        · exact ⟨_, by decide, hint⟩

/-- **What is found in place of the code of a method.** -/
theorem of_run (hrun : replacement? m r = .ok (some b) r') : r.StandsIn m b r' := by
  have hsome : ∀ {act : Action Replacement}, (act >>= fun b => pure (some b)) r = .ok (some b) r' →
      act r = .ok b r' := by
    intro act hact
    obtain ⟨b', s, hb, hpure⟩ := bind_eq_ok_iff.mp hact
    cases hpure
    exact hb
  rw [replacement?, get_bind_apply] at hrun
  cases hd : (r.method m).declaring with
  | none =>
    rw [hd] at hrun
    cases hrun
  | some t =>
    rw [hd] at hrun
    dsimp only at hrun
    split at hrun
    · exact of_facade hrun
    split at hrun
    · exact of_byReference hd (hsome hrun)
    split at hrun
    · exact of_onlyReturn (hsome hrun)
    split at hrun
    · exact of_typeHandle (hsome hrun)
    split at hrun
    · exact of_onlyReturn (hsome hrun)
    split at hrun
    · exact of_bitwise (hsome hrun)
    · cases hrun

end StandsIn

theorem GivenOperand.has (hw : r.WellFormed) {m : MethodId} (hm : r.Has (.method m))
    {operand : Operand} (hgiven : r.GivenOperand m operand) : ∀ x ∈ operand.items, r.Has x := by
  intro x hx
  obtain hnone | ⟨t, f, ht, hf, rfl⟩ := hgiven
  · rw [hnone] at hx
    cases hx
  · rw [List.mem_singleton.mp hx]
    exact hw.fieldOf (hw.declaring hm ht) hf

section
variable {m : MethodId} (hr : r.Coherent) (hs : r.Scoped) (hnames : r.ClosedNames)
  (hm : r.Has (.method m)) (hmethod : r.ClosedMethod m) (h : r'.Faithful)
include hr hs hm hmethod h

theorem GivenOperand.closed (hg : Grown r r') {operand : Operand} (hgiven : r.GivenOperand m operand) :
    r'.ClosedOperand operand := by
  intro x hx
  obtain hnone | ⟨t, f, ht, hf, rfl⟩ := hgiven
  · rw [item?_eq_none hnone] at hx
    cases hx
  · cases hx
    have hw := hr.wellFormed
    have hthas := hw.declaring hm ht
    have hfhas := hw.fieldOf hthas hf
    have hscoped := (hs.fields f hfhas).mono hw hg.grows hg.persists hfhas
    have hdeclaring : (r'.field f).declaring = t := by
      rw [hg.grows.field hfhas, hr.listed.fields t f hf]
    refine hscoped.isOpen_eq_false h hg.coherent.orderly
      (hg.coherent.wellFormed.typeOf (hg.grows.has hfhas)) (fun u hu => ?_) fun u hu => ?_
    · rw [List.mem_singleton.mp hu, hdeclaring]
      exact hg.grows.has hthas
    · rw [List.mem_singleton.mp hu, hdeclaring, hg.grows.isOpen hw hthas]
      exact hmethod.declaring t ht

include hnames

/-- what stands in for the code of a closed method pushes open types only as they were declared -/
theorem StandsIn.openAsDeclared {code : List Instruction}
    (hstands : r.StandsIn m (.synthesized code) r') : r'.OpenAsDeclared (r.localsOf m) code := by
  have hw := hr.wellFormed
  cases hstands with
  | @given ts source _ _ hsource hrun =>
    have hrs : Grown r (r.useNames ts) := .useNames hr ts
    have hcode : (r.useNames ts).HasCode (source.map fun (op, offset, next, operand) =>
        Instruction.ofEncoded op offset next operand) := by
      intro i hi x hx
      obtain ⟨e, he, rfl⟩ := List.mem_map.mp hi
      exact hrs.grows.has ((hsource e he).has hw hm x hx)
    have hend := (coheres_withStackEffects hrs.coherent (hrs.grows.has hm) hcode).ok hrun
    refine openAsDeclared_of_stacked hr hnames hm hmethod h hrs hcode (fun i hi => ?_) hrun
    obtain ⟨e, he, rfl⟩ := List.mem_map.mp hi
    exact (hsource e he).closed hr hs hm hmethod h (hrs.trans hend)
  | named hpushed =>
    intro i hi u hu hopen
    obtain ⟨name, hn, hfind⟩ := hpushed i hi u hu
    have hopen' : r.isOpen u = true := by
      rw [← (Grown.useNames hr _).grows.isOpen hw (hw.found hfind)]
      exact hopen
    rw [hnames name hn u hfind] at hopen'
    cases hopen'

end

/-! ## whole methods -/

/-- `body` is decoded as the code of `m`, with the tokens of `module`: the body of a method that stands in
for `m`, or else that of `m` itself -/
def Reads (r : Registry) (m : MethodId) (body : Body) (module : ModuleId) : Prop :=
  (∃ s, replacement? m r = .ok (some (.redirect body module)) s) ∨
    ∃ s t, replacement? m r = .ok none s ∧ r.body? m = some body ∧
      (r.method m).declaring = some t ∧ (r.type t).module = module

/-- **What the instructions of a closed method push.**  No generic parameter stands in what `m` is declared
with, and the tokens of its code mention only parameters that `m` has arguments for.  Then open types
are pushed only by loads of locals, and as results of indirect calls, as these were declared: locals and
signatures of calls are not seen from the context of the method.  The program is faithful at the end,
and its members have scoped signatures. -/
theorem decode_closed (hr : r.Built) (hs : r.Scoped) (hnames : r.ClosedNames) {m : MethodId}
    (hm : r.Has (.method m)) (hmethod : r.ClosedMethod m)
    (hcode : ∀ body module, r.Reads m body module →
      r.CoversCode module (r.contextOf m) body.code)
    {code : List Instruction} (hrun : decode m r = .ok code r') (hf : r'.Faithful) :
    r'.OpenAsDeclared (r.localsOf m) code := by
  have hc := hr.coherent
  obtain ⟨found, s, hfound, hrest⟩ := bind_eq_ok_iff.mp hrun
  cases found with
  | none =>
    obtain ⟨ts, rfl⟩ := leavesNone_replacement? m r s hfound
    cases hb : r.body? m with
    | none =>
      rw [decode_eq_nil hfound hb hrun]
      exact fun i hi => absurd hi List.not_mem_nil
    | some body =>
      obtain ⟨t, ht⟩ := exists_declaring_of_decode hfound hb hrun
      have hown : decodeAs m (r.type t).module body (r.useNames ts) = .ok code r' := by
        have hb' : (r.useNames ts).body? m = some body := (bodyWithin_useNames r ts _ m).trans hb
        have ht' : ((r.useNames ts).method m).declaring = some t := ht
        dsimp only at hrest
        rw [get_bind_apply, hb', ht'] at hrest
        exact hrest
      exact openAsDeclared_of_decodeAs hc hs hnames hm hmethod hf
        (hcode body _ (.inr ⟨_, t, hfound, hb, ht, rfl⟩)) hown
  | some b =>
    cases b with
    | synthesized standing =>
      cases hrest
      exact (StandsIn.of_run hfound).openAsDeclared hc hs hnames hm hmethod hf
    | redirect body module =>
      cases StandsIn.of_run hfound
      exact openAsDeclared_of_decodeAs hc hs hnames hm hmethod hf
        (hcode body module (.inl ⟨_, hfound⟩)) hrest

theorem coversCode_of_check (ho : r.Orderly) {module : ModuleId} {ctx : GenericContext}
    {segments : List Segment} {code : List UInt8} (hjoin : Segment.join segments = code)
    (hall : (segments.all fun g =>
      ((r.module module).tokens.get? g.token).all (r.coversTargetCheck ctx)) = true) :
    r.CoversCode module ctx code := by
  intro other hother g hg _ target htarget
  obtain rfl := Segment.join_inj (hother.trans hjoin.symm)
  have hcheck := List.all_eq_true.mp hall g hg
  rw [htarget] at hcheck
  exact coversTarget_of_check ho (fun x hx => ho.wellFormed.tokenTarget htarget hx) hcheck

def fillSegments : List Segment :=
  [⟨.ldsfld, [1, 0, 0, 4], rfl⟩, ⟨.pop, [], OperandKind.fits_nil⟩,
    ⟨.call, [1, 0, 0, 0x0A], rfl⟩, ⟨.ldcI40, [], OperandKind.fits_nil⟩,
    ⟨.newarr, [1, 0, 0, 0x1B], rfl⟩, ⟨.pop, [], OperandKind.fits_nil⟩,
    ⟨.ret, [], OperandKind.fits_nil⟩]

/-- `Store<System.Int32>.Fill<System.String>` -/
theorem decode_closed_stores : ∃ code r', decode ⟨3⟩ stores = .ok code r' ∧ code.length = 7 ∧
    r'.OpenAsDeclared (stores.localsOf ⟨3⟩) code := by
  obtain ⟨hP, hn, hscoped, hnames, hhas, hmethod, hcut, hdeclaring, hcovers⟩ :
      answersWith (decode ⟨3⟩) stores (fun code r' => decide (code.length = 7 ∧ r'.Faithful)) =
        true ∧
      answersWith (replacement? ⟨3⟩) stores (fun found _ => found.isNone) = true ∧
      stores.scopedCheck = true ∧ stores.ClosedNames ∧ stores.Has (.method ⟨3⟩) ∧
      stores.ClosedMethod ⟨3⟩ ∧
      (stores.body? ⟨3⟩).map Body.code = some (Segment.join fillSegments) ∧
      (stores.method ⟨3⟩).declaring.map (fun t => (stores.type t).module) = some ⟨1⟩ ∧
      (fillSegments.all fun g => ((stores.module ⟨1⟩).tokens.get? g.token).all
        (stores.coversTargetCheck (stores.contextOf ⟨3⟩))) = true := by
    decide +kernel
  obtain ⟨code, r', hrun, hP⟩ := exists_of_answersWith hP
  obtain ⟨hlength, hf⟩ := of_decide_eq_true hP
  obtain ⟨found, noted, hn, hnone⟩ := exists_of_answersWith hn
  rw [Option.isNone_iff_eq_none] at hnone
  subst hnone
  have ho := built_stores.orderly
  refine ⟨code, r', hrun, hlength, decode_closed built_stores (scoped_of_check ho hscoped) hnames hhas
    hmethod (fun body module hreads => ?_) hrun hf⟩
  obtain ⟨s, hredirect⟩ | ⟨s, t, -, hb, ht, rfl⟩ := hreads
  · rw [hn] at hredirect
    cases hredirect
  · rw [hb] at hcut
    rw [ht] at hdeclaring
    have hmodule : (stores.type t).module = ⟨1⟩ := Option.some.inj hdeclaring
    rw [hmodule]
    exact coversCode_of_check ho (Option.some.inj hcut).symm hcovers

/-- The static method `Load` of `Box<T>` has a local of type `T`, which it loads. -/
def loadDesign : MethodDesign where
  module := ⟨1⟩
  name := "Load"
  declaring := some ⟨21⟩
  modifiers := MethodFlags.isStatic
  body := some { code := [0x06, 0x26, 0x2A], locals := [⟨20⟩] }

def boxes : Registry :=
  core.applyAll [.addModule "App",
    .declareType { module := ⟨1⟩, namespaceName := "", name := "Box", generic := ["T"] },
    .declareMethod loadDesign, .instantiate ⟨21⟩ [⟨12⟩]]

/-- `Box<System.Int32>.Load` loads a `T`. -/
theorem decode_closed_local : boxes.Built ∧ boxes.Scoped ∧ boxes.ClosedNames ∧
    boxes.ClosedMethod ⟨1⟩ ∧ boxes.localsOf ⟨1⟩ = (boxes.type ⟨21⟩).form.genericArgs ∧
    ∃ code r' i u, decode ⟨1⟩ boxes = .ok code r' ∧ r'.Faithful ∧ i ∈ code ∧ i.opcode = .ldloc ∧
      some u ∈ i.stack.pushTypes ∧ r'.isOpen u = true := by
  have hb : boxes.Built := Built.core.applyAll (by decide +kernel)
  obtain ⟨hscoped, hnames, hmethod, hlocals, hP⟩ :
      boxes.scopedCheck = true ∧ boxes.ClosedNames ∧ boxes.ClosedMethod ⟨1⟩ ∧
      boxes.localsOf ⟨1⟩ = (boxes.type ⟨21⟩).form.genericArgs ∧
      answersWith (decode ⟨1⟩) boxes (fun code r' => decide (r'.Faithful ∧ ∃ i ∈ code,
        i.opcode = .ldloc ∧ some ⟨20⟩ ∈ i.stack.pushTypes ∧ r'.isOpen ⟨20⟩ = true)) = true := by
    decide +kernel
  refine ⟨hb, scoped_of_check hb.orderly hscoped, hnames, hmethod, hlocals, ?_⟩
  obtain ⟨code, r', hrun, hP⟩ := exists_of_answersWith hP
  obtain ⟨hf, i, hi, hop, hpushed, hopen⟩ := of_decide_eq_true hP
  exact ⟨code, r', i, ⟨20⟩, hrun, hf, hi, hop, hpushed, hopen⟩

end Registry

end ProgramScan

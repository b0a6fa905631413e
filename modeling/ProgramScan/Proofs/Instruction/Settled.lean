import ProgramScan.Instruction.Decode
import ProgramScan.Proofs.Registry.Members

/-!
# Decoding is settled

Decoding a method makes the types and members that its code names, and those that its stack effects
need.  Done again it makes nothing, and gives the same instructions (`Registry.builds_decode`).  All
items that operands name are elements of the program.

The parts follow the decoder: stack effects, replacement bodies, operands, whole bodies.
-/

namespace ProgramScan

def Operand.items : Operand → List Item
  | .method m _ => [.method m]
  | .field f => [.field f]
  | .type t => [.type t]
  | .token item => [item]
  | .signature site => site.returnType.toList.map .type
  | _ => []

def NamesOnly (P : Item → Prop) (code : List Instruction) : Prop :=
  ∀ i ∈ code, ∀ x ∈ i.operand.items, P x

namespace Registry

def HasCode (r : Registry) (code : List Instruction) : Prop :=
  ∀ i ∈ code, ∀ x ∈ i.operand.items, r.Has x

theorem Grows.hasCode {r r' : Registry} (hg : r.Grows r') {code : List Instruction}
    (h : r.HasCode code) : r'.HasCode code :=
  fun i hi x hx => hg.has (h i hi x hx)

/-! ## stack effects -/

def HasKnown (known : Option TypeId) (r : Registry) : Prop := ∀ t, known = some t → r.Has (.type t)

section
variable {r : Registry} (hw : r.WellFormed)
include hw

theorem builds_constructKnown (shape : Shape) {known : Option TypeId} (hk : HasKnown known r) :
    Builds (liftM (constructKnown shape known)) r HasKnown := by
  cases known with
  | none => exact .pure hw fun t ht => by cases ht
  | some t =>
    show Builds (liftM (construct shape t) >>= fun u => pure (some u)) r HasKnown
    refine Builds.bind (builds_construct hw shape (hk t rfl)) fun u s _ hw' hu => ?_
    exact .pure hw' fun v hv => by
      cases hv
      exact hu.1

variable {m : MethodId} (hm : r.Has (.method m))
include hm

theorem builds_argumentType (index : Nat) :
    Builds (liftM (argumentType m index)) r HasKnown := by
  have hparam : ∀ i, HasKnown (r.method m).paramTypes[i]? r :=
    fun i t ht => hw.param hm (List.mem_of_getElem? ht)
  rw [argumentType, lift_bind]
  refine Builds.get ?_ fun r' hg _ => ?_
  · dsimp only
    cases (r.method m).isStatic with
    | true => exact .pure hw (hparam index)
    | false =>
      cases index with
      | succ position => exact .pure hw (hparam position)
      | zero =>
        cases hd : (r.method m).declaring with
        | none => exact .pure hw fun t ht => by cases ht
        | some t =>
          have ht : HasKnown (some t) r := fun u hu => by
            cases hu
            exact hw.declaring hm hd
          simp only
          split
          · exact builds_constructKnown hw .byRef ht
          · exact .pure hw ht
  · simp only [hg.method hm]
    cases hd : (r.method m).declaring with
    | none => rfl
    | some t => simp only [hg.type (hw.declaring hm hd)]

theorem builds_selectedArgument (operand : Operand) :
    Builds (liftM (selectedArgument m operand)) r HasKnown := by
  simp only [selectedArgument]
  cases operand.var? with
  | none => exact .pure hw fun t ht => by cases ht
  | some index => exact builds_argumentType hw hm index

variable {operand : Operand} (ho : ∀ x ∈ operand.items, r.Has x)
include ho

omit hw hm in
theorem hasKnown_type : HasKnown operand.type? r := by
  intro t ht
  refine ho (.type t) ?_
  cases operand <;> simp_all [Operand.type?, Operand.items]

omit hm in
theorem hasKnown_field : HasKnown (r.fieldOperandType? operand) r := by
  intro t ht
  obtain ⟨f, hf, rfl⟩ := Option.map_eq_some_iff.mp ht
  refine hw.typeOf (ho (.field f) ?_)
  cases operand <;> simp_all [Operand.field?, Operand.items]

omit hw hm in
theorem Grows.fieldOperandType? {r' : Registry} (hg : r.Grows r') :
    r'.fieldOperandType? operand = r.fieldOperandType? operand := by
  simp only [Registry.fieldOperandType?]
  cases hf : operand.field? with
  | none => rfl
  | some f =>
    have hhas : r.Has (.field f) := ho (.field f) (by
      cases operand <;> simp_all [Operand.field?, Operand.items])
    simp only [Option.map_some, hg.field hhas]

theorem builds_pushedType {locals : List TypeId} (hl : ∀ t ∈ locals, r.Has (.type t))
    (rule : PushRule) :
    Builds (liftM (pushedType m locals operand rule)) r fun _ _ => True := by
  have hlocal : HasKnown (operand.var?.bind (locals[·]?)) r := by
    intro t ht
    obtain ⟨i, -, hi⟩ := Option.bind_eq_some_iff.mp ht
    exact hl t (List.mem_of_getElem? hi)
  cases rule with
  | unknown => exact .pure hw trivial
  | named name =>
    exact .get (k := fun r => pure (r.find? name)) (.pure hw trivial)
      fun r' hg _ => by simp only [hg.find?]
  | argument => exact (builds_selectedArgument hw hm operand).plain
  | argumentRef =>
    show Builds (liftM (selectedArgument m operand) >>= fun t => liftM (constructKnown .byRef t)) r _
    refine Builds.bind (builds_selectedArgument hw hm operand) fun t s _ hw' ht => ?_
    exact (builds_constructKnown hw' .byRef ht).plain
  | localVar => exact .pure hw trivial
  | localRef => exact (builds_constructKnown hw .byRef hlocal).plain
  | typeOperand => exact .pure hw trivial
  | typeRef => exact (builds_constructKnown hw .byRef (hasKnown_type ho)).plain
  | typeArray => exact (builds_constructKnown hw .szArray (hasKnown_type ho)).plain
  | fieldValue =>
    exact .get (k := fun r => pure (r.fieldOperandType? operand)) (.pure hw trivial)
      fun r' hg _ => by simp only [hg.fieldOperandType? ho]
  | fieldRef =>
    exact .get (k := fun r => liftM (constructKnown .byRef (r.fieldOperandType? operand)))
      (builds_constructKnown hw .byRef (hasKnown_field hw ho)).plain
      fun r' hg _ => by simp only [hg.fieldOperandType? ho]
  | handle =>
    cases operand with
    | token item =>
      exact .get (k := fun r => pure (r.find? (handleTypeName item))) (.pure hw trivial)
        fun r' hg _ => by simp only [hg.find?]
    | _ => exact .pure hw trivial

theorem builds_applyRule {locals : List TypeId} (hl : ∀ t ∈ locals, r.Has (.type t))
    (rule : StackRule) :
    Builds (liftM (applyRule m locals operand rule)) r fun _ _ => True := by
  cases rule with
  | fixed pops pushes =>
    show Builds (liftM (pushes.mapM (pushedType m locals operand)) >>= fun ts =>
      pure ({ pops := pops, pushTypes := ts } : StackEffect)) r _
    rw [lift_mapM]
    refine Builds.bind (Builds.mapM (R := fun _ _ => True) (P := fun _ => True)
      (fun _ _ _ _ _ => trivial) hw trivial fun rule _ s hg hw' _ => ?_)
      fun _ s _ hw' _ => .pure hw' trivial
    exact (builds_pushedType hw' (hg.has hm) (fun x hx => hg.has (ho x hx))
      (fun t ht => hg.has (hl t ht)) rule).weaken fun _ _ _ _ _ => ⟨trivial, trivial⟩
  | call =>
    cases operand with
    | method callee uid =>
      have hc : r.Has (.method callee) := ho _ (List.mem_singleton.mpr rfl)
      exact .get (k := fun r => pure (r.callEffect callee)) (.pure hw trivial) fun r' hg _ => by
        simp only [callEffect, hg.method hc, hg.returnsValue hw hc]
    | _ => exact .pure hw trivial
  | construct =>
    cases operand with
    | method callee uid =>
      have hc : r.Has (.method callee) := ho _ (List.mem_singleton.mpr rfl)
      exact .get (k := fun r => pure (r.constructEffect callee)) (.pure hw trivial)
        fun r' hg _ => by simp only [constructEffect, hg.method hc]
    | _ => exact .pure hw trivial
  | indirectCall =>
    cases operand with
    | signature site =>
      have hs : ∀ t, site.returnType = some t → r.Has (.type t) :=
        fun t ht => ho _ (by simp [Operand.items, ht])
      exact .get (k := fun r => pure (r.indirectEffect site)) (.pure hw trivial) fun r' hg _ => by
        simp only [indirectEffect, hg.siteReturnsValue hs]
    | _ => exact .pure hw trivial
  | result =>
    exact .get (k := fun r => pure ({ pops := if r.returnsValue m then 1 else 0 } : StackEffect))
      (.pure hw trivial) fun r' hg _ => by simp only [hg.returnsValue hw hm]

omit ho

/-- the local variables of a method, none if it has no body -/
def localsOf (r : Registry) (m : MethodId) : List TypeId :=
  match r.body? m with
  | some body => body.locals
  | none => []

theorem has_localsOf : ∀ t ∈ r.localsOf m, r.Has (.type t) := by
  intro t ht
  rw [localsOf] at ht
  cases hb : r.body? m with
  | none =>
    rw [hb] at ht
    cases ht
  | some body =>
    rw [hb] at ht
    exact hw.bodyLocal hm hb ht

omit hw hm in
theorem withStackEffects_eq (m : MethodId) (code : List Instruction) :
    (liftM (withStackEffects m code) : Action (List Instruction)) =
      ((modify fun r => r.useNames (code.flatMap (r.effectUses m)) : Action Unit) >>= fun _ =>
        get >>= fun r => code.mapM fun i => liftM (withStackEffect m (r.localsOf m) i)) := by
  rw [withStackEffects, lift_bind, lift_modify]
  congr 1
  funext _
  rw [lift_bind, lift_get]
  congr 1
  funext r
  rw [lift_mapM]
  rfl

theorem builds_withStackEffects {code : List Instruction} (hc : r.HasCode code) :
    Builds (liftM (withStackEffects m code)) r fun code' s => s.HasCode code' := by
  rw [withStackEffects_eq]
  refine Builds.noting hw fun s hf hw' => ?_
  have hg₀ : r.Grows s := .of_forget hf.symm
  refine Builds.get ?_ fun r' hg _ => by
    simp only [localsOf, hg.body? hw' (hg₀.has hm)]
  have hl : ∀ t ∈ s.localsOf m, s.Has (.type t) := has_localsOf hw' (hg₀.has hm)
  have hmap := Builds.mapM (f := fun i => (liftM (withStackEffect m (s.localsOf m) i) : Action _))
    (l := code) (R := fun i s => ∀ x ∈ i.operand.items, s.Has x) (P := fun _ => True)
    (fun _ _ _ hg h x hx => hg.has (h x hx)) hw' trivial fun i hi s' hg' hw'' _ => ?_
  · exact hmap.weaken fun code' s' _ _ h => h.1
  · have ho : ∀ x ∈ i.operand.items, s'.Has x := fun x hx => (hg₀.trans hg').has (hc i hi x hx)
    show Builds (liftM (applyRule m (s.localsOf m) i.operand (stackRule i.opcode)) >>= fun stack =>
      pure { i with stack }) s' _
    refine Builds.bind (builds_applyRule hw'' ((hg₀.trans hg').has hm) ho
      (fun t ht => hg'.has (hl t ht)) _) fun stack s'' hg'' hw''' _ => ?_
    exact .pure hw''' ⟨fun x hx => hg''.has (ho x hx), trivial⟩

end

/-! ## replacement bodies -/

def HasReplacement (r : Registry) : Replacement → Prop
  | .redirect _ _ => True
  | .synthesized code => r.HasCode code

section
variable {r r' : Registry} (hg : r.Grows r') (hw : r.WellFormed)
include hg hw

theorem Grows.parameterMatchesWithin (depth : Nat) {c d : TypeId} (hc : r.Has (.type c))
    (hd : r.Has (.type d)) :
    r'.parameterMatchesWithin depth c d = r.parameterMatchesWithin depth c d := by
  induction depth generalizing c d with
  | zero => rfl
  | succ depth ih =>
    simp only [Registry.parameterMatchesWithin, hg.type hc, hg.type hd]
    cases hfc : (r.type c).form with
    | constructed shape element =>
      cases hfd : (r.type d).form with
      | constructed shape' element' =>
        simp only
        rw [ih (hw.element hc (by rw [hfc]; rfl)) (hw.element hd (by rw [hfd]; rfl))]
      | _ => rfl
    | parameter index owner => rfl
    | _ => simp only [hg.isAssignable hw hc hd]

theorem Grows.implementsFacade (name : String) {definition : Method}
    (hdef : ∀ t ∈ definition.paramTypes, r.Has (.type t)) {c : MethodId} (hc : r.Has (.method c)) :
    r'.implementsFacade name definition c = r.implementsFacade name definition c := by
  simp only [Registry.implementsFacade, resemblesFacade, hg.method hc]
  congr 1
  refine all_congr_mem fun p hp => ?_
  exact hg.parameterMatchesWithin hw _ (hw.param hc (List.of_mem_zip hp).1)
    (hdef p.2 (List.of_mem_zip hp).2)

omit hw in
theorem Grows.isIntegralOrPointer {t : TypeId} (ht : r.Has (.type t)) :
    r'.isIntegralOrPointer t = r.isIntegralOrPointer t := by
  simp only [Registry.isIntegralOrPointer, isIntegerBased, isLongBased, isNamed, hg.type ht,
    hg.fullName ht]

end

section
variable {r : Registry} (hw : r.WellFormed)
include hw

theorem builds_wellKnown (name : String) :
    Builds (wellKnown name) r fun t s => s.Has (.type t) := by
  refine Builds.get ?_ fun r' hg _ => by rw [hg.find?]
  split
  · rename_i t ht
    exact .pure hw (hw.found ht)
  · exact .throw hw _

theorem builds_findConstructor {t : TypeId} (ht : r.Has (.type t)) {params : List TypeId}
    (hp : ∀ p ∈ params, r.Has (.type p)) :
    Builds (liftM (findConstructor t params)) r fun found s =>
      ∀ m, found = some m → s.Has (.method m) where
  ok hr := by
    rw [lift_apply] at hr
    cases hr
    refine ⟨.useNames r _, hw.useNames _, ?_, ?_⟩
    · intro s hg _
      have hg' := (Grows.useNames r _).trans hg
      refine ⟨s.useNames (s.findMethodUses t ".ctor" false params), ?_, forget_useNames s _⟩
      show EStateM.Result.ok (s.findMethod? t ".ctor" false params) _ =
        .ok (r.findMethod? t ".ctor" false params) _
      rw [hg'.findMethod? hw ht ".ctor" false hp]
    · intro m hm
      have hmem := List.mem_of_find?_eq_some hm
      exact hw.methodOf ht (List.mem_filter.mp hmem).1
  error hr := by
    rw [lift_apply] at hr
    cases hr

variable {m : MethodId} (hm : r.Has (.method m))
include hm

theorem builds_facadeReplacement :
    Builds (facadeReplacement m) r fun found s => ∀ b, found = some b → s.HasReplacement b := by
  have hd := hw.methodDefinitionOf hm
  have hdef : ∀ t ∈ (r.method (r.methodDefinitionOf m)).paramTypes, r.Has (.type t) :=
    fun t ht => hw.param hd ht
  refine Builds.get ?_ fun r' hg _ => ?_
  · cases hf : r.find? memoryImplementation with
    | none => exact .throw hw _
    | some implementation =>
      refine Builds.noting hw fun s hs hw' => ?_
      have hnone : Builds (pure none : Action (Option Replacement)) s fun found s =>
          ∀ b, found = some b → s.HasReplacement b :=
        .pure hw' fun b hb => by cases hb
      split
      · exact hnone
      · split
        · exact .pure hw' fun b hb => by
            cases hb
            trivial
        · exact hnone
      · exact .throw hw' _
  · rw [hg.find?, hg.method hm]
    cases hf : r.find? memoryImplementation with
    | none => rfl
    | some implementation =>
      have hi := hw.found hf
      have hfilter : (r.type implementation).methods.filter
            (r'.implementsFacade (r.method m).name (r.method (r.methodDefinitionOf m))) =
          (r.type implementation).methods.filter
            (r.implementsFacade (r.method m).name (r.method (r.methodDefinitionOf m))) :=
        List.filter_congr fun c hc => hg.implementsFacade hw _ hdef (hw.methodOf hi hc)
      simp only [hg.type hi]
      rw [show (r.method m).genericDefinition?.getD m = r.methodDefinitionOf m from rfl,
        hg.method hd, hfilter, hg.methodName hw hm]
      congr 1
      funext _
      cases hfound : (r.type implementation).methods.filter
          (r.implementsFacade (r.method m).name (r.method (r.methodDefinitionOf m))) with
      | nil => rfl
      | cons found rest =>
        cases rest with
        | cons _ _ => rfl
        | nil =>
          have hc : r.Has (.method found) := by
            have hmem : found ∈ (r.type implementation).methods.filter _ :=
              hfound ▸ List.mem_cons_self
            exact hw.methodOf hi (List.mem_filter.mp hmem).1
          simp only [hg.body? hw hc, hg.method hc]
          cases r.body? found with
          | none => rfl
          | some body =>
            cases hdecl : (r.method found).declaring with
            | none => rfl
            | some owner => simp only [hg.type (hw.declaring hc hdecl)]

/-- instructions given one by one are settled as soon as their operands are -/
theorem builds_synthesize {code : List (Opcode × Nat × Nat × Operand)}
    (hc : ∀ e ∈ code, ∀ x ∈ e.2.2.2.items, r.Has x) :
    Builds (liftM (synthesize m code)) r fun b s => s.HasReplacement b := by
  simp only [synthesize, lift_bind, lift_pure]
  refine Builds.bind (builds_withStackEffects hw hm ?_) fun code' s _ hw' h => .pure hw' h
  intro i hi x hx
  obtain ⟨e, he, rfl⟩ := List.mem_map.mp hi
  exact hc e he x hx

theorem builds_onlyReturn : Builds (liftM (onlyReturn m)) r fun b s => s.HasReplacement b := by
  rw [onlyReturn]
  refine builds_synthesize hw hm fun e he x hx => ?_
  rw [List.mem_singleton.mp he] at hx
  cases hx

theorem builds_byReferenceReplacement {declaring : TypeId} (hd : r.Has (.type declaring)) :
    Builds (byReferenceReplacement m declaring) r fun b s => s.HasReplacement b := by
  refine Builds.get ?_ fun r' hg _ => by
    simp only [hg.fieldNamed? hw hd, hg.fullName hd, hg.method hm, hg.methodName hw hm]
  split
  · exact .throw hw _
  · rename_i value hv
    have hvalue : r.Has (.field value) := hw.fieldOf hd (List.mem_of_find?_eq_some hv)
    split
    · refine builds_synthesize hw hm fun e he x hx => ?_
      simp only [List.mem_cons, List.not_mem_nil, or_false] at he
      rcases he with rfl | rfl | rfl | rfl <;> simp [Operand.items] at hx
      subst hx
      exact hvalue
    · split
      · refine builds_synthesize hw hm fun e he x hx => ?_
        simp only [List.mem_cons, List.not_mem_nil, or_false] at he
        rcases he with rfl | rfl | rfl <;> simp [Operand.items] at hx
        subst hx
        exact hvalue
      · exact .throw hw _

theorem builds_bitwiseReplacement :
    Builds (bitwiseReplacement m) r fun b s => s.HasReplacement b := by
  refine Builds.get ?_ fun r' hg _ => ?_
  · cases (r.method m).genericArgs with
    | nil => exact .throw hw _
    | cons arg args =>
      refine Builds.noting hw fun s hs hw' => ?_
      have hm' : s.Has (.method m) := (Grows.of_forget hs.symm).has hm
      refine builds_synthesize hw' hm' fun e he x hx => ?_
      simp only [List.mem_cons, List.not_mem_nil, or_false] at he
      rcases he with rfl | rfl <;> cases hx
  · rw [hg.method hm, hg.methodName hw hm]
    cases ha : (r.method m).genericArgs with
    | nil => rfl
    | cons arg args =>
      have harg : r.Has (.type arg) := hw.genericArg hm (ha ▸ List.mem_cons_self)
      simp only [hg.isIntegralOrPointer harg]

omit hm in
theorem builds_typeHandleReplacement :
    Builds typeHandleReplacement r fun b s => s.HasReplacement b := by
  refine Builds.bind (builds_wellKnown hw _) fun runtimeType s₁ hg₁ hw₁ hrt => ?_
  refine Builds.bind (builds_wellKnown hw₁ _) fun handleType s₂ hg₂ hw₂ hht => ?_
  refine Builds.bind (builds_wellKnown hw₂ _) fun int32 s₃ hg₃ hw₃ hint => ?_
  have hrt₃ := hg₃.has (hg₂.has hrt)
  have hht₃ := hg₃.has hht
  refine Builds.get ?_ fun r' hg _ => by
    simp only [hg.fullName hrt₃, hg.fullName hht₃, hg.fieldNamed? hw₃ hrt₃]
  refine Builds.bind (builds_findConstructor hw₃ hrt₃ (by simp)) fun found s₄ hg₄ hw₄ hc => ?_
  cases found with
  | none => exact .throw hw₄ _
  | some typeConstructor =>
    cases hf : s₃.fieldNamed? runtimeType "m_handle" with
    | none => exact .throw hw₄ _
    | some handleField =>
      have hfield : s₃.Has (.field handleField) :=
        hw₃.fieldOf hrt₃ (List.mem_of_find?_eq_some hf)
      have hparams : ∀ p ∈ [runtimeType], s₄.Has (.type p) := by
        intro p hp
        rw [List.mem_singleton.mp hp]
        exact hg₄.has hrt₃
      refine Builds.bind (builds_findConstructor hw₄ (hg₄.has hht₃) hparams)
        fun found s₅ hg₅ hw₅ hc' => ?_
      cases found with
      | none => exact .throw hw₅ _
      | some handleConstructor =>
        refine .pure hw₅ fun i hi x hx => ?_
        simp only [List.mem_cons, List.not_mem_nil, or_false] at hi
        rcases hi with rfl | rfl | rfl | rfl | rfl | rfl <;>
          simp [withTypes, Instruction.ofEncoded, Operand.items] at hx <;> subst hx
        · exact hg₅.has (hc _ rfl)
        · exact (hg₄.trans hg₅).has hfield
        · exact hc' _ rfl

theorem builds_replacement? :
    Builds (replacement? m) r fun found s => ∀ b, found = some b → s.HasReplacement b := by
  have hsome : ∀ {act : Action Replacement}, Builds act r (fun b s => s.HasReplacement b) →
      Builds (act >>= fun b => pure (some b)) r fun found s =>
        ∀ b, found = some b → s.HasReplacement b := by
    intro act h
    refine Builds.bind h fun b s _ hw' hb => .pure hw' ?_
    intro c hc
    cases hc
    exact hb
  have hnone : Builds (pure none : Action (Option Replacement)) r fun found s =>
      ∀ b, found = some b → s.HasReplacement b :=
    .pure hw fun b hb => by cases hb
  refine Builds.get ?_ fun r' hg _ => ?_
  · dsimp only
    cases hd : (r.method m).declaring with
    | none => exact hnone
    | some declaring =>
      have hdecl := hw.declaring hm hd
      dsimp only
      split
      · exact builds_facadeReplacement hw hm
      split
      · exact hsome (builds_byReferenceReplacement hw hm hdecl)
      split
      · exact hsome (builds_onlyReturn hw hm)
      split
      · exact hsome (builds_typeHandleReplacement hw)
      split
      · exact hsome (builds_onlyReturn hw hm)
      split
      · exact hsome (builds_bitwiseReplacement hw hm)
      · exact hnone
  · dsimp only
    rw [hg.method hm]
    cases hd : (r.method m).declaring with
    | none => rfl
    | some declaring =>
      have hdecl := hw.declaring hm hd
      have hname : (r.type declaring).form.definition?.map r'.fullName =
          (r.type declaring).form.definition?.map r.fullName := by
        cases hf : (r.type declaring).form.definition? with
        | none => rfl
        | some definition => simp only [Option.map_some, hg.fullName (hw.definition hdecl hf)]
      simp only [hg.type hdecl, hname]

end

/-! ## operands -/

def HasDecodeContext (r : Registry) (ctx : DecodeContext) : Prop :=
  r.Has (.method ctx.method) ∧ r.HasContext ctx.generic

theorem Grows.hasDecodeContext {r r' : Registry} (hg : r.Grows r') {ctx : DecodeContext}
    (h : r.HasDecodeContext ctx) : r'.HasDecodeContext ctx :=
  ⟨hg.has h.1, hg.hasContext h.2⟩

theorem items_operandOf? {kind : OperandKind} {found : Resolved} {operand : Operand}
    (h : operandOf? kind found = some operand) : operand.items = found.items := by
  cases kind <;> cases found <;> cases h <;> rfl

def HasOperand (found : Operand × Reader) (r : Registry) : Prop :=
  ∀ x ∈ found.1.items, r.Has x

section
variable {r : Registry} (hw : r.WellFormed)
include hw

theorem builds_readUnsigned (width : Nat) (rd : Reader) :
    Builds (readUnsigned width rd) r fun _ _ => True :=
  .ofExcept hw fun _ _ => trivial

theorem builds_readSigned (width : Nat) (rd : Reader) :
    Builds (readSigned width rd) r fun _ _ => True :=
  .ofExcept hw fun _ _ => trivial

omit hw in
theorem builds_number {α : Type} {act : Action (α × Reader)} (h : Builds act r fun _ _ => True)
    {make : α → Operand} (hmake : ∀ a, (make a).items = []) :
    Builds (act >>= fun found => pure (make found.1, found.2)) r HasOperand := by
  refine Builds.bind h fun found s _ hw' _ => .pure hw' fun x hx => ?_
  simp [hmake] at hx

variable {ctx : DecodeContext} (hctx : r.HasDecodeContext ctx)
include hctx

theorem builds_branchTarget (offset : Nat) (target : Int) :
    Builds (branchTarget ctx offset target) r fun _ _ => True := by
  rw [branchTarget]
  split
  · exact .pure hw trivial
  · exact .get (k := fun r => throw (.branchOutOfRange (r.methodName ctx.method) offset target))
      (.throw hw _) fun r' hg _ => by rw [hg.methodName hw hctx.1]

theorem builds_readBranch (offset width : Nat) (rd : Reader) :
    Builds (readBranch ctx offset width rd) r HasOperand := by
  refine Builds.bind (builds_readSigned hw width rd) fun found s hg hw' _ => ?_
  refine Builds.bind (builds_branchTarget hw' (hg.hasDecodeContext hctx) offset _)
    fun target s' _ hw'' _ => ?_
  exact .pure hw'' fun x hx => by cases hx

theorem builds_readTargets (offset tableEnd count : Nat) (rd : Reader) :
    Builds (readTargets ctx offset tableEnd count rd) r fun _ _ => True := by
  induction count generalizing r rd with
  | zero => exact .pure hw trivial
  | succ count ih =>
    refine Builds.bind (builds_readSigned hw 4 rd) fun found s₁ hg₁ hw₁ _ => ?_
    refine Builds.bind (builds_branchTarget hw₁ (hg₁.hasDecodeContext hctx) offset _)
      fun target s₂ hg₂ hw₂ _ => ?_
    refine Builds.bind (ih hw₂ ((hg₁.trans hg₂).hasDecodeContext hctx) found.2)
      fun rest s₃ _ hw₃ _ => ?_
    exact .pure hw₃ trivial

theorem builds_readSwitch (offset : Nat) (rd : Reader) :
    Builds (readSwitch ctx offset rd) r HasOperand := by
  refine Builds.bind (builds_readUnsigned hw 4 rd) fun found s hg hw' _ => ?_
  refine Builds.bind (builds_readTargets hw' (hg.hasDecodeContext hctx) offset _ _ _)
    fun targets s' _ hw'' _ => ?_
  exact .pure hw'' fun x hx => by cases hx

theorem builds_readToken (op : Opcode) (rd : Reader) :
    Builds (readToken ctx op rd) r HasOperand := by
  refine Builds.bind (builds_readUnsigned hw 4 rd) fun value s hg hw' _ => ?_
  have hctx' := hg.hasDecodeContext hctx
  refine Builds.bind (builds_resolveToken hw' hctx'.2 ctx.module _) fun found s' hg' hw'' hf => ?_
  split
  · rename_i operand ho
    refine .pure hw'' fun x hx => hf x ?_
    rwa [← items_operandOf? ho]
  · refine Builds.get (.throw hw'' _) fun r' hg'' _ => ?_
    rw [hg''.methodName hw'' (hg'.has hctx'.1)]

theorem builds_readOperand (offset : Nat) (op : Opcode) (rd : Reader) :
    Builds (readOperand ctx offset op rd) r HasOperand := by
  rw [readOperand]
  split
  · refine .pure hw fun x hx => ?_
    simp only [implicitOperand] at hx
    split at hx
    · cases hx
    · split at hx <;> cases hx
  · exact builds_readBranch hw hctx offset 1 rd
  · exact builds_readBranch hw hctx offset 4 rd
  · exact builds_number (builds_readSigned hw 1 rd) fun _ => rfl
  · exact builds_number (builds_readUnsigned hw 1 rd) fun _ => rfl
  · exact builds_number (builds_readSigned hw 4 rd) fun _ => rfl
  · exact builds_number (builds_readSigned hw 8 rd) fun _ => rfl
  · exact builds_number (builds_readUnsigned hw 4 rd) fun _ => rfl
  · exact builds_number (builds_readUnsigned hw 8 rd) fun _ => rfl
  · exact builds_number (builds_readUnsigned hw 1 rd) fun _ => rfl
  · exact builds_number (builds_readUnsigned hw 2 rd) fun _ => rfl
  · exact builds_readSwitch hw hctx offset rd
  all_goals exact builds_readToken hw hctx op rd

/-! ## bodies -/

theorem builds_decodeNext (rd : Reader) :
    Builds (decodeNext ctx rd) r fun found s => ∀ x ∈ found.1.operand.items, s.Has x := by
  refine Builds.bind (Q := fun _ _ => True) (.ofExcept hw fun _ _ => trivial)
    fun op s hg hw' _ => ?_
  refine Builds.bind (builds_readOperand hw' (hg.hasDecodeContext hctx) _ op _)
    fun found s' _ hw'' h => ?_
  exact .pure hw'' h

theorem builds_decodeFrom (regions : List Region) (count : Nat) (rd : Reader) :
    Builds (decodeFrom ctx regions count rd) r fun code s => s.HasCode code := by
  induction count generalizing r rd with
  | zero => exact .pure hw fun i hi => by cases hi
  | succ count ih =>
    rw [decodeFrom]
    split
    · refine Builds.bind (builds_decodeNext hw hctx rd) fun found s hg hw' hfound => ?_
      refine Builds.bind (ih hw' (hg.hasDecodeContext hctx) found.2) fun rest s' hg' hw'' hrest => ?_
      refine .pure hw'' fun i hi x hx => ?_
      rcases List.mem_cons.mp hi with rfl | hi
      · exact hg'.has (hfound x hx)
      · exact hrest i hi x hx
    · exact .pure hw fun i hi => by cases hi

omit hctx

variable {m : MethodId} (hm : r.Has (.method m))
include hm

theorem builds_decodeAs (module : ModuleId) (body : Body) :
    Builds (decodeAs m module body) r fun code s => s.HasCode code := by
  refine Builds.get ?_ fun r' hg _ => by simp only [hg.contextOf hw hm]
  have hctx : r.HasDecodeContext ⟨m, module, r.contextOf m, body.code.length⟩ :=
    ⟨hm, hw.contextOf hm⟩
  refine Builds.bind (builds_decodeFrom hw hctx _ _ _) fun code s hg hw' hcode => ?_
  exact builds_withStackEffects hw' (hg.has hm) hcode

/-- **Decoding a method is settled**: done again, it gives the same instructions and makes nothing. -/
theorem builds_decode : Builds (decode m) r fun code s => s.HasCode code := by
  refine Builds.bind (builds_replacement? hw hm) fun found s hg hw' hfound => ?_
  have hm' := hg.has hm
  split
  · exact .pure hw' (hfound _ rfl)
  · exact builds_decodeAs hw' hm' _ _
  · refine Builds.get ?_ fun r' hg' _ => ?_
    · split
      · exact .pure hw' fun i hi => by cases hi
      · exact .throw hw' _
      · exact builds_decodeAs hw' hm' _ _
    · simp only [hg'.body? hw' hm', hg'.method hm', hg'.methodName hw' hm']
      cases s.body? m with
      | none => rfl
      | some body =>
        cases hd : (s.method m).declaring with
        | none => rfl
        | some declaring => simp only [hg'.type (hw'.declaring hm' hd)]

end

end Registry

end ProgramScan

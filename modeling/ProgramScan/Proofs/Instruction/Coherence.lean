import ProgramScan.Proofs.Instruction.Bodies
import ProgramScan.Proofs.Registry.Coherence

/-!
# Decoding keeps programs in order

Tokens make what they denote, and stack effects make types over those that are pushed.  Everything that
decoding a body makes is made in order.

* `coheres_withStackEffects`   stack effects leave a program in order;
* `grown_of_operands`           so do the operands of segments, which name elements of it;
* `grown_of_decode`            the instructions of a method that has a body of segments, with the states
                               of the program on the way.
-/

namespace ProgramScan

namespace Registry

variable {r r' : Registry}

/-! ## stack effects -/

section
variable (h : r.Coherent)
include h

theorem coheres_constructKnown (shape : Shape) {known : Option TypeId} (hk : HasKnown known r) :
    Coheres (liftM (constructKnown shape known)) r := by
  cases known with
  | none => exact .pure h none
  | some t =>
    show Coheres (liftM (construct shape t) >>= fun u => pure (some u)) r
    exact .bind (coheres_construct h shape (hk t rfl)) fun _ _ _ _ hs => .pure hs _

variable {m : MethodId} (hm : r.Has (.method m))
include hm

theorem coheres_argumentType (index : Nat) : Coheres (liftM (argumentType m index)) r := by
  rw [argumentType, lift_bind]
  refine .get ?_
  dsimp only
  cases (r.method m).isStatic with
  | true => exact .pure h _
  | false =>
    cases index with
    | succ position => exact .pure h _
    | zero =>
      cases hd : (r.method m).declaring with
      | none => exact .pure h _
      | some t =>
        simp only
        split
        · refine coheres_constructKnown h .byRef fun u hu => ?_
          cases hu
          exact h.wellFormed.declaring hm hd
        · exact .pure h _

theorem coheres_selectedArgument (operand : Operand) :
    Coheres (liftM (selectedArgument m operand)) r := by
  simp only [selectedArgument]
  cases operand.var? with
  | none => exact .pure h _
  | some index => exact coheres_argumentType h hm index

variable {operand : Operand} (ho : ∀ x ∈ operand.items, r.Has x)
include ho

theorem coheres_pushedType {locals : List TypeId} (hl : ∀ t ∈ locals, r.Has (.type t))
    (rule : PushRule) : Coheres (liftM (pushedType m locals operand rule)) r := by
  cases rule with
  | unknown => exact .pure h _
  | named name => exact .get (k := fun r => pure (r.find? name)) (.pure h _)
  | argument => exact coheres_selectedArgument h hm operand
  | argumentRef =>
    show Coheres (liftM (selectedArgument m operand) >>= fun t => liftM (constructKnown .byRef t)) r
    refine .bind (coheres_selectedArgument h hm operand) fun t s ht _ hs => ?_
    exact coheres_constructKnown hs .byRef
      ((builds_selectedArgument h.wellFormed hm operand).ok ht).2.2.2
  | localVar => exact .pure h _
  | localRef =>
    refine coheres_constructKnown h .byRef fun t ht => ?_
    obtain ⟨i, -, hi⟩ := Option.bind_eq_some_iff.mp ht
    exact hl t (List.mem_of_getElem? hi)
  | typeOperand => exact .pure h _
  | typeRef => exact coheres_constructKnown h .byRef (hasKnown_type ho)
  | typeArray => exact coheres_constructKnown h .szArray (hasKnown_type ho)
  | fieldValue => exact .get (k := fun r => pure (r.fieldOperandType? operand)) (.pure h _)
  | fieldRef =>
    exact .get (k := fun r => liftM (constructKnown .byRef (r.fieldOperandType? operand)))
      (coheres_constructKnown h .byRef (hasKnown_field h.wellFormed ho))
  | handle =>
    cases operand with
    | token item => exact .get (k := fun r => pure (r.find? (handleTypeName item))) (.pure h _)
    | _ => exact .pure h _

theorem coheres_applyRule {locals : List TypeId} (hl : ∀ t ∈ locals, r.Has (.type t))
    (rule : StackRule) : Coheres (liftM (applyRule m locals operand rule)) r := by
  cases rule with
  | fixed pops pushes =>
    show Coheres (liftM (pushes.mapM (pushedType m locals operand)) >>= fun ts =>
      pure ({ pops := pops, pushTypes := ts } : StackEffect)) r
    rw [lift_mapM]
    refine .bind (.mapM h fun rule _ s hg hs => ?_) fun _ _ _ _ hs => .pure hs _
    exact coheres_pushedType hs (hg.has hm) (fun x hx => hg.has (ho x hx))
      (fun t ht => hg.has (hl t ht)) rule
  | call =>
    cases operand with
    | method callee uid => exact .get (k := fun r => pure (r.callEffect callee)) (.pure h _)
    | _ => exact .pure h _
  | construct =>
    cases operand with
    | method callee uid => exact .get (k := fun r => pure (r.constructEffect callee)) (.pure h _)
    | _ => exact .pure h _
  | indirectCall =>
    cases operand with
    | signature site => exact .get (k := fun r => pure (r.indirectEffect site)) (.pure h _)
    | _ => exact .pure h _
  | result =>
    exact .get (k := fun r => pure ({ pops := if r.returnsValue m then 1 else 0 } : StackEffect))
      (.pure h _)

omit ho

theorem coheres_withStackEffect {locals : List TypeId} (hl : ∀ t ∈ locals, r.Has (.type t))
    {i : Instruction} (hi : ∀ x ∈ i.operand.items, r.Has x) :
    Coheres (liftM (withStackEffect m locals i)) r := by
  rw [withStackEffect, lift_bind]
  exact .bind (coheres_applyRule h hm hi hl _) fun _ _ _ _ hs => .pure hs _

/-- stack effects leave a program in order -/
theorem coheres_withStackEffects {code : List Instruction} (hc : r.HasCode code) :
    Coheres (liftM (withStackEffects m code)) r := by
  rw [withStackEffects_eq]
  refine .noting h fun s hg hs => ?_
  refine .get (.mapM hs fun i hi s' hg' hs' => ?_)
  have hlocals := has_localsOf hs.wellFormed (hg.has hm)
  exact coheres_withStackEffect hs' (hg'.has (hg.has hm)) (fun t ht => hg'.has (hlocals t ht))
    fun x hx => hg'.has (hg.has (hc i hi x hx))

end

/-! ## segments -/

theorem items_value (s : Segment) (stop : Nat) : (s.value stop).items = [] := by
  unfold Segment.value
  split <;> try rfl
  unfold implicitOperand
  split
  · rfl
  · split <;> rfl

/-- The operands of segments are made in order, and name elements of the program. -/
theorem grown_of_operands {ctx : DecodeContext} {start : Nat} {segments : List Segment}
    {operands : List Operand} (h : Operands ctx start segments r operands r') (hc : r.Coherent)
    (hctx : r.HasContext ctx.generic) :
    Grown r r' ∧ ∀ operand ∈ operands, ∀ x ∈ operand.items, r'.Has x := by
  induction h with
  | nil => exact ⟨.refl hc, fun _ h => by cases h⟩
  | @cons start s segments r₀ r₁ r₂ operand operands hfirst hrest ih =>
    have hstep : Grown r₀ r₁ ∧ ∀ x ∈ operand.items, r₁.Has x := by
      cases hfirst with
      | plain => exact ⟨.refl hc, fun x hx => by rw [items_value] at hx; cases hx⟩
      | token _ hfound hoperand =>
        refine ⟨(coheres_resolveToken hc hctx _ _).ok hfound, ?_⟩
        rw [items_operandOf? hoperand]
        exact ((builds_resolveToken hc.wellFormed hctx _ _).ok hfound).2.2.2
    obtain ⟨hg, hhas⟩ := hstep
    obtain ⟨hg', hhas'⟩ := ih hg.coherent (hg.grows.hasContext hctx)
    refine ⟨hg.trans hg', fun o ho x hx => ?_⟩
    rcases List.mem_cons.mp ho with rfl | ho
    · exact hg'.grows.has (hhas x hx)
    · exact hhas' o ho x hx

theorem operand_mem_of_instructions {regions : List Region} {start : Nat} {segments : List Segment}
    {operands : List Operand} {i : Instruction}
    (hi : i ∈ Segment.instructions regions start segments operands) : i.operand ∈ operands := by
  induction segments generalizing start operands with
  | nil => cases hi
  | cons s segments ih =>
    cases operands with
    | nil => cases hi
    | cons operand operands =>
      rcases List.mem_cons.mp hi with rfl | hi
      · exact List.mem_cons_self
      · exact List.mem_cons_of_mem _ (ih hi)

/-- **Decoding a body is made in order**: the segments that it was cut into are read in a program that the
first one grew into, and the last one grew from what they left. -/
theorem grown_of_decode {noted : Registry} {m : MethodId} {declaring : TypeId} {body : Body}
    {code : List Instruction} (h : r.Coherent) (hm : r.Has (.method m))
    (hn : replacement? m r = .ok none noted) (hd : (r.method m).declaring = some declaring)
    (hb : r.body? m = some body) (hrun : decode m r = .ok code r') :
    ∃ segments operands s, Grown r r' ∧ Grown r noted ∧ Grown s r' ∧
      Segment.join segments = body.code ∧
      Operands (r.bodyContext m declaring body) 0 segments noted operands s ∧
      code.map Instruction.unstacked = Segment.instructions body.regions 0 segments operands := by
  obtain ⟨segments, operands, s, hjoin, hoperands, hstack⟩ := segments_of_decode hn hd hb hrun
  obtain ⟨ts, rfl⟩ := leavesNone_replacement? m r noted hn
  have hnoted : Grown r (r.useNames ts) := .useNames h ts
  obtain ⟨hs, hhas⟩ := grown_of_operands hoperands hnoted.coherent
    (hnoted.grows.hasContext (h.wellFormed.contextOf hm))
  have hcode : s.HasCode (Segment.instructions body.regions 0 segments operands) :=
    fun i hi => hhas i.operand (operand_mem_of_instructions hi)
  have hend := (coheres_withStackEffects hs.coherent (hs.grows.has (hnoted.grows.has hm)) hcode).ok
    hstack
  exact ⟨segments, operands, s, (hnoted.trans hs).trans hend, hnoted, hend, hjoin, hoperands,
    unstacked_of_withStackEffects hstack⟩

end Registry

end ProgramScan

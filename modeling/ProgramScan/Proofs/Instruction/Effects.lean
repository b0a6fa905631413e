import ProgramScan.Proofs.Instruction.Bodies
import ProgramScan.Proofs.Registry.Bare

/-!
# What stack effects depend on

The stack effect of an instruction depends on its general opcode and on its operand, but not on where
a jump leads; it depends on the signature and the local variables of the method, but not on its code.

* `Operand.untargeted`                  an operand without the places that it jumps to;
* `Instruction.Akin`                    instructions that have the same stack effect;
* `Registry.withStackEffects_akin`      akin code of a method gets the same stack effects in all
                                        programs that are the same when bare.
-/

namespace ProgramScan

/-- the operand without the places that it jumps to -/
def Operand.untargeted : Operand → Operand
  | .branch _ => .branch 0
  | .switch _ => .switch []
  | operand => operand

/-- the instructions differ at most in their encodings, their places and those that they jump to -/
def Instruction.Akin (i j : Instruction) : Prop :=
  i.opcode = j.opcode ∧ i.operand.untargeted = j.operand.untargeted

namespace Registry

/-! ## operands without targets -/

theorem applyRule_untargeted (m : MethodId) (locals : List TypeId) (operand : Operand)
    (rule : StackRule) :
    applyRule m locals operand.untargeted rule = applyRule m locals operand rule := by
  cases operand <;> rfl

theorem applyRule_akin {i j : Instruction} (h : i.Akin j) (m : MethodId) (locals : List TypeId) :
    applyRule m locals i.operand (stackRule i.opcode) =
      applyRule m locals j.operand (stackRule j.opcode) := by
  rw [← applyRule_untargeted, h.1, h.2, applyRule_untargeted]

/-! ## effects of one instruction -/

section
variable (m : MethodId)

theorem blind_constructKnown (shape : Shape) (known : Option TypeId) :
    Blind (liftM (constructKnown shape known)) := by
  cases known with
  | none => exact .pure none
  | some t => exact (blind_construct shape t).bind fun u => .pure (some u)

theorem blind_argumentType (index : Nat) : Blind (liftM (argumentType m index)) := by
  rw [argumentType, lift_bind, lift_get]
  refine .get (fun r => ?_) fun r => ?_
  · rw [method_bare]
    rfl
  · dsimp only
    split
    · exact .pure _
    · split
      · exact .pure _
      · split
        · exact blind_constructKnown _ _
        · exact .pure _
    · exact .pure _

theorem blind_selectedArgument (operand : Operand) :
    Blind (liftM (selectedArgument m operand)) := by
  rw [selectedArgument]
  split
  · exact blind_argumentType m _
  · exact .pure none

variable (locals : List TypeId) (operand : Operand)

theorem blind_pushedType (rule : PushRule) : Blind (liftM (pushedType m locals operand rule)) := by
  cases rule with
  | unknown => exact .pure _
  | named name => exact .get (k := fun r => pure (r.find? name)) (fun _ => rfl) fun _ => .pure _
  | argument => exact blind_selectedArgument m operand
  | argumentRef =>
    exact (blind_selectedArgument m operand).bind fun t => blind_constructKnown .byRef t
  | localVar => exact .pure _
  | localRef => exact blind_constructKnown _ _
  | typeOperand => exact .pure _
  | typeRef => exact blind_constructKnown _ _
  | typeArray => exact blind_constructKnown _ _
  | fieldValue =>
    exact .get (k := fun r => pure (r.fieldOperandType? operand)) (fun _ => rfl) fun _ => .pure _
  | fieldRef =>
    exact .get (k := fun r => liftM (constructKnown .byRef (r.fieldOperandType? operand)))
      (fun _ => rfl) fun _ => blind_constructKnown _ _
  | handle =>
    cases operand with
    | token item =>
      exact .get (k := fun r => pure (r.find? (handleTypeName item))) (fun _ => rfl) fun _ => .pure _
    | _ => exact .pure _

theorem callEffect_bare (r : Registry) (callee : MethodId) :
    r.bare.callEffect callee = r.callEffect callee := by
  rw [callEffect, callEffect, returnsValue_bare, method_bare]
  rfl

theorem constructEffect_bare (r : Registry) (constructor : MethodId) :
    r.bare.constructEffect constructor = r.constructEffect constructor := by
  rw [constructEffect, constructEffect, method_bare]
  rfl

theorem blind_applyRule (rule : StackRule) : Blind (liftM (applyRule m locals operand rule)) := by
  cases rule with
  | fixed pops pushes =>
    show Blind (liftM (pushes.mapM (pushedType m locals operand)) >>= fun ts =>
      pure ({ pops := pops, pushTypes := ts } : StackEffect))
    rw [lift_mapM]
    exact (Blind.mapM (fun rule => blind_pushedType m locals operand rule) _).bind fun _ => .pure _
  | call =>
    cases operand with
    | method callee uid =>
      exact .get (k := fun r => pure (r.callEffect callee))
        (fun r => by rw [callEffect_bare]) fun _ => .pure _
    | _ => exact .pure _
  | construct =>
    cases operand with
    | method callee uid =>
      exact .get (k := fun r => pure (r.constructEffect callee))
        (fun r => by rw [constructEffect_bare]) fun _ => .pure _
    | _ => exact .pure _
  | indirectCall =>
    cases operand with
    | signature site =>
      exact .get (k := fun r => pure (r.indirectEffect site)) (fun _ => rfl) fun _ => .pure _
    | _ => exact .pure _
  | result =>
    exact .get (k := fun r => pure ({ pops := if r.returnsValue m then 1 else 0 } : StackEffect))
      (fun r => by rw [returnsValue_bare]) fun _ => .pure _

end

/-! ## effects of code -/

section
variable {r₁ r₂ s₁ : Registry} {m : MethodId} {code₁ code₂ out₁ : List Instruction}

theorem mapM_withStackEffect_akin {locals : List TypeId}
    (h : List.Forall₂ Instruction.Akin code₁ code₂) (hbare : r₁.bare = r₂.bare)
    (hr : (code₁.mapM fun i => (liftM (withStackEffect m locals i) : Action Instruction)) r₁ =
      .ok out₁ s₁) :
    ∃ out₂ s₂, (code₂.mapM fun i => (liftM (withStackEffect m locals i) : Action Instruction)) r₂ =
        .ok out₂ s₂ ∧ s₁.bare = s₂.bare ∧
      List.Forall₂ (fun i j => i.stack = j.stack) out₁ out₂ := by
  induction h generalizing r₁ r₂ out₁ with
  | nil =>
    cases hr
    exact ⟨[], r₂, rfl, hbare, .nil⟩
  | @cons i j code₁ code₂ hij _ ih =>
    rw [List.mapM_cons] at hr ⊢
    obtain ⟨i', t₁, hi, hr⟩ := bind_eq_ok_iff.mp hr
    obtain ⟨rest₁, t₁', hrest, hr⟩ := bind_eq_ok_iff.mp hr
    cases hr
    rw [withStackEffect, lift_bind] at hi
    obtain ⟨stack, u₁, hstack, hi⟩ := bind_eq_ok_iff.mp hi
    cases hi
    rw [applyRule_akin hij] at hstack
    obtain ⟨t₂, ht₂, hbare₂⟩ := (blind_applyRule m locals _ _).run hbare hstack
    obtain ⟨rest₂, s₂, hs₂, hbare₃, hstacks⟩ := ih hbare₂ hrest
    refine ⟨{ j with stack } :: rest₂, s₂, ?_, hbare₃, .cons rfl hstacks⟩
    refine bind_eq_ok_iff.mpr ⟨_, t₂, ?_, bind_eq_ok_iff.mpr ⟨rest₂, s₂, hs₂, rfl⟩⟩
    rw [withStackEffect, lift_bind]
    exact bind_eq_ok_iff.mpr ⟨stack, t₂, ht₂, rfl⟩

theorem localsOf_bare (r : Registry) (m : MethodId) : r.bare.localsOf m = r.localsOf m := by
  simp only [localsOf, body?_bare]
  cases r.body? m <;> rfl

/-- **Akin code has the same stack effects**, in all programs that are the same when bare. -/
theorem withStackEffects_akin (h : List.Forall₂ Instruction.Akin code₁ code₂)
    (hbare : r₁.bare = r₂.bare)
    (hr : (liftM (withStackEffects m code₁) : Action (List Instruction)) r₁ = .ok out₁ s₁) :
    ∃ out₂ s₂, (liftM (withStackEffects m code₂) : Action (List Instruction)) r₂ = .ok out₂ s₂ ∧
      s₁.bare = s₂.bare ∧ List.Forall₂ (fun i j => i.stack = j.stack) out₁ out₂ := by
  rw [withStackEffects_eq] at hr ⊢
  rw [modify_bind_apply, get_bind_apply] at hr ⊢
  have hbare' : ∀ ts us, (r₁.useNames ts).bare = (r₂.useNames us).bare := fun ts us => hbare
  have hlocals : ∀ ts us, (r₁.useNames ts).localsOf m = (r₂.useNames us).localsOf m := by
    intro ts us
    rw [← localsOf_bare, hbare' ts us, localsOf_bare]
  rw [hlocals _ (code₂.flatMap (r₂.effectUses m))] at hr
  exact mapM_withStackEffect_akin h (hbare' _ _) hr

end

end Registry

end ProgramScan

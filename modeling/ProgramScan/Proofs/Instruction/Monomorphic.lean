import ProgramScan.Proofs.Instruction.Settled
import ProgramScan.Proofs.Plug.Overlooked
import ProgramScan.Proofs.Registry.Monomorphic

/-!
# Decoding in programs without generic elements

Decoding a body of a monomorphic program makes types for the values on the stack, but what the operands
name was there before: it is held by the program (`Registry.widens_decode`).

There is one lemma for each part of the decoder, in the order of the definitions.
-/

namespace ProgramScan

namespace Registry

variable {r₀ : Registry}

/-! ## stack effects -/

theorem widens_constructKnown (shape : Shape) (known : Option TypeId) :
    Keeps r₀.Widens (liftM (constructKnown shape known)) fun _ => True := by
  cases known with
  | none => exact .pure trivial
  | some t =>
    show Keeps r₀.Widens (liftM (construct shape t) >>= fun u => pure (some u)) _
    exact (widens_construct shape t).bind fun _ _ => .pure trivial

theorem widens_argumentType (m : MethodId) (index : Nat) :
    Keeps r₀.Widens (liftM (argumentType m index)) fun _ => True := by
  rw [argumentType, lift_bind, lift_get]
  refine .get fun r _ => ?_
  dsimp only
  split
  · exact .pure trivial
  · split
    · exact .pure trivial
    · split
      · exact widens_constructKnown _ _
      · exact .pure trivial
  · exact .pure trivial

theorem widens_selectedArgument (m : MethodId) (operand : Operand) :
    Keeps r₀.Widens (liftM (selectedArgument m operand)) fun _ => True := by
  rw [selectedArgument]
  split
  · exact widens_argumentType _ _
  · exact .pure trivial

theorem widens_pushedType (m : MethodId) (locals : List TypeId) (operand : Operand)
    (rule : PushRule) : Keeps r₀.Widens (liftM (pushedType m locals operand rule)) fun _ => True := by
  cases rule with
  | argument => exact widens_selectedArgument m operand
  | argumentRef =>
    show Keeps r₀.Widens (liftM (selectedArgument m operand) >>= fun t => liftM (constructKnown .byRef t)) _
    exact (widens_selectedArgument m operand).bind fun t _ => widens_constructKnown _ _
  | localRef => exact widens_constructKnown _ _
  | typeRef => exact widens_constructKnown _ _
  | typeArray => exact widens_constructKnown _ _
  | named name => exact .get (k := fun r : Registry => pure (r.find? name)) fun _ _ => .pure trivial
  | fieldValue =>
    exact .get (k := fun r : Registry => pure (r.fieldOperandType? operand)) fun _ _ => .pure trivial
  | fieldRef =>
    exact .get (k := fun r : Registry => liftM (constructKnown .byRef (r.fieldOperandType? operand)))
      fun _ _ => widens_constructKnown _ _
  | handle =>
    cases operand with
    | token item =>
      exact .get (k := fun r : Registry => pure (r.find? (handleTypeName item))) fun _ _ => .pure trivial
    | _ => exact .pure trivial
  | _ => exact .pure trivial

theorem widens_applyRule (m : MethodId) (locals : List TypeId) (operand : Operand)
    (rule : StackRule) : Keeps r₀.Widens (liftM (applyRule m locals operand rule)) fun _ => True := by
  cases rule with
  | fixed pops pushes =>
    show Keeps r₀.Widens (liftM (pushes.mapM (pushedType m locals operand)) >>= fun ts =>
      pure ({ pops := pops, pushTypes := ts } : StackEffect)) _
    rw [lift_mapM]
    refine (Keeps.mapM (R := fun _ => True) fun rule _ => ?_).bind fun _ _ => .pure trivial
    exact widens_pushedType m locals operand rule
  | call =>
    cases operand with
    | method callee uid =>
      exact .get (k := fun r : Registry => pure (r.callEffect callee)) fun _ _ => .pure trivial
    | _ => exact .pure trivial
  | construct =>
    cases operand with
    | method callee uid =>
      exact .get (k := fun r : Registry => pure (r.constructEffect callee)) fun _ _ => .pure trivial
    | _ => exact .pure trivial
  | indirectCall =>
    cases operand with
    | signature site =>
      exact .get (k := fun r : Registry => pure (r.indirectEffect site)) fun _ _ => .pure trivial
    | _ => exact .pure trivial
  | result =>
    exact .get (k := fun r : Registry => pure ({ pops := if r.returnsValue m then 1 else 0 } : StackEffect))
      fun _ _ => .pure trivial

/-- stack effects leave operands alone -/
theorem widens_withStackEffects {P : Item → Prop} (m : MethodId) {code : List Instruction}
    (hc : NamesOnly P code) :
    Keeps r₀.Widens (liftM (withStackEffects m code)) (NamesOnly P) := by
  rw [withStackEffects_eq]
  refine (widens_useNames _).bind fun _ _ => .get fun r _ => .mapM fun i hi => ?_
  show Keeps r₀.Widens (liftM (applyRule m (r.localsOf m) i.operand (stackRule i.opcode)) >>= fun stack =>
    pure { i with stack }) _
  exact (widens_applyRule _ _ _ _).bind fun _ _ => .pure (hc i hi)

/-! ## replacement bodies -/

/-- the instructions of a replacement name items in `P` only -/
def ReplacesWithin (P : Item → Prop) : Replacement → Prop
  | .redirect _ _ => True
  | .synthesized code => NamesOnly P code

theorem widens_wellKnown (name : String) :
    Keeps r₀.Widens (wellKnown name) fun _ => True := by
  refine .get fun r _ => ?_
  split
  · exact .pure trivial
  · exact .throw _

theorem widens_facadeReplacement {P : Item → Prop} (m : MethodId) :
    Keeps r₀.Widens (facadeReplacement m) fun found => ∀ b ∈ found, ReplacesWithin P b := by
  refine .get fun r _ => ?_
  split
  · exact .throw _
  · refine (widens_useNames _).bind fun _ _ => ?_
    split
    · exact .pure (by simp)
    · split
      · refine .pure fun b hb => ?_
        cases hb
        trivial
      · exact .pure (by simp)
    · exact .throw _

theorem widens_synthesize {P : Item → Prop} (m : MethodId)
    {code : List (Opcode × Nat × Nat × Operand)} (hc : ∀ e ∈ code, ∀ x ∈ e.2.2.2.items, P x) :
    Keeps r₀.Widens (liftM (synthesize m code)) (ReplacesWithin P) := by
  show Keeps r₀.Widens (liftM (withStackEffects m _) >>= fun code => pure (Replacement.synthesized code)) _
  refine (widens_withStackEffects (P := P) m fun i hi => ?_).bind fun _ h => .pure h
  obtain ⟨e, he, rfl⟩ := List.mem_map.mp hi
  exact hc e he

theorem widens_onlyReturn {P : Item → Prop} (m : MethodId) :
    Keeps r₀.Widens (liftM (onlyReturn m)) (ReplacesWithin P) :=
  widens_synthesize m fun e he x hx => by
    rw [List.mem_singleton.mp he] at hx
    cases hx

section
variable (hw : r₀.WellFormed)

theorem widens_byReferenceReplacement (m : MethodId) (declaring : TypeId) :
    Keeps r₀.Widens (byReferenceReplacement m declaring) (ReplacesWithin r₀.Holds) := by
  refine .get fun r h => ?_
  split
  · exact .throw _
  · rename_i value hvalue
    have hfield : r₀.Holds (.field value) := h.listed_field (List.mem_of_find?_eq_some hvalue)
    split
    · refine widens_synthesize m fun e he x hx => ?_
      simp only [List.mem_cons, List.not_mem_nil, or_false] at he
      rcases he with rfl | rfl | rfl | rfl <;> simp [Operand.items] at hx
      rw [hx]
      exact hfield
    · split
      · refine widens_synthesize m fun e he x hx => ?_
        simp only [List.mem_cons, List.not_mem_nil, or_false] at he
        rcases he with rfl | rfl | rfl <;> simp [Operand.items] at hx
        rw [hx]
        exact hfield
      · exact .throw _

include hw

theorem widens_findConstructor (t : TypeId) (params : List TypeId) :
    Keeps r₀.Widens (liftM (findConstructor t params)) fun found =>
      ∀ m ∈ found, r₀.Holds (.method m) := by
  refine .modifyGet (f := fun r : Registry => (r.findMethod? t ".ctor" false params,
    r.useNames (r.findMethodUses t ".ctor" false params))) fun r h => ⟨h.useNames _, fun m hm => ?_⟩
  exact h.listed_method hw (mem_of_findMethod? hm).1

theorem widens_typeHandleReplacement :
    Keeps r₀.Widens typeHandleReplacement (ReplacesWithin r₀.Holds) := by
  refine (widens_wellKnown _).bind fun runtimeType _ => (widens_wellKnown _).bind fun _ _ => ?_
  refine (widens_wellKnown _).bind fun _ _ => .get fun r h => ?_
  refine (widens_findConstructor hw _ _).bind fun found hfirst => ?_
  split
  · exact .throw _
  · split
    · exact .throw _
    · rename_i handleField hfield
      have hheld : r₀.Holds (.field handleField) := h.listed_field (List.mem_of_find?_eq_some hfield)
      refine (widens_findConstructor hw _ _).bind fun found hsecond => ?_
      split
      · exact .throw _
      · refine .pure fun i hi x hx => ?_
        simp only [List.mem_cons, List.not_mem_nil, or_false] at hi
        rcases hi with rfl | rfl | rfl | rfl | rfl | rfl <;>
          simp [withTypes, Instruction.ofEncoded, Operand.items] at hx <;> subst hx
        · exact hfirst _ rfl
        · exact hheld
        · exact hsecond _ rfl

omit hw in
theorem widens_bitwiseReplacement {P : Item → Prop} (m : MethodId) :
    Keeps r₀.Widens (bitwiseReplacement m) (ReplacesWithin P) := by
  refine .get fun r _ => ?_
  split
  · exact .throw _
  · refine (widens_useNames _).bind fun _ _ => widens_synthesize m fun e he x hx => ?_
    simp only [List.mem_cons, List.not_mem_nil, or_false] at he
    rcases he with rfl | rfl <;> cases hx

/-- what a replacement names is held -/
theorem widens_replacement? (m : MethodId) :
    Keeps r₀.Widens (replacement? m) fun found => ∀ b ∈ found, ReplacesWithin r₀.Holds b := by
  have hsome : ∀ {act : Action Replacement},
      Keeps r₀.Widens act (ReplacesWithin r₀.Holds) →
      Keeps r₀.Widens (act >>= fun b => pure (some b)) fun found =>
        ∀ b ∈ found, ReplacesWithin r₀.Holds b := by
    intro act hact
    refine hact.bind fun b hb => .pure fun c hc => ?_
    cases hc
    exact hb
  refine .get fun r _ => ?_
  dsimp only
  split
  · exact .pure (by simp)
  · split
    · exact widens_facadeReplacement m
    · split
      · exact hsome (widens_byReferenceReplacement m _)
      · split
        · exact hsome (widens_onlyReturn m)
        · split
          · exact hsome (widens_typeHandleReplacement hw)
          · split
            · exact hsome (widens_onlyReturn m)
            · split
              · exact hsome (widens_bitwiseReplacement m)
              · exact .pure (by simp)

end

/-! ## operands -/

theorem widens_branchTarget (ctx : DecodeContext) (offset : Nat) (target : Int) :
    Keeps r₀.Widens (branchTarget ctx offset target) fun _ => True := by
  rw [branchTarget]
  split
  · exact .pure trivial
  · exact .get fun _ _ => .throw _

theorem widens_readUnsigned (width : Nat) (rd : Reader) :
    Keeps r₀.Widens (readUnsigned width rd) fun _ => True :=
  .ofExcept fun _ _ => trivial

theorem widens_readSigned (width : Nat) (rd : Reader) :
    Keeps r₀.Widens (readSigned width rd) fun _ => True :=
  .ofExcept fun _ _ => trivial

def HoldsOperand (r₀ : Registry) (found : Operand × Reader) : Prop :=
  ∀ x ∈ found.1.items, r₀.Holds x

theorem widens_readBranch (ctx : DecodeContext) (offset width : Nat) (rd : Reader) :
    Keeps r₀.Widens (readBranch ctx offset width rd) (HoldsOperand r₀) := by
  refine (widens_readSigned width rd).bind fun _ _ => (widens_branchTarget _ _ _).bind fun _ _ => ?_
  exact .pure fun x hx => by cases hx

theorem widens_readTargets (ctx : DecodeContext) (offset tableEnd count : Nat) (rd : Reader) :
    Keeps r₀.Widens (readTargets ctx offset tableEnd count rd) fun _ => True := by
  induction count generalizing rd with
  | zero => exact .pure trivial
  | succ count ih =>
    refine (widens_readSigned 4 rd).bind fun _ _ => (widens_branchTarget _ _ _).bind fun _ _ => ?_
    exact (ih _).bind fun _ _ => .pure trivial

theorem widens_readSwitch (ctx : DecodeContext) (offset : Nat) (rd : Reader) :
    Keeps r₀.Widens (readSwitch ctx offset rd) (HoldsOperand r₀) := by
  refine (widens_readUnsigned 4 rd).bind fun _ _ => ?_
  exact (widens_readTargets _ _ _ _ _).bind fun _ _ => .pure fun x hx => by cases hx

theorem widens_number {β : Type} {act : Action (β × Reader)}
    (h : Keeps r₀.Widens act fun _ => True) {make : β → Operand} (hmake : ∀ b, (make b).items = []) :
    Keeps r₀.Widens (act >>= fun found => pure (make found.1, found.2)) (HoldsOperand r₀) := by
  refine h.bind fun found _ => .pure fun x hx => ?_
  rw [hmake] at hx
  cases hx

section
variable (hw : r₀.WellFormed) (hm : r₀.Monomorphic) {ctx : DecodeContext}
  (hctx : ctx.generic.isEmpty = true)
include hw hm hctx

theorem widens_readToken (op : Opcode) (rd : Reader) :
    Keeps r₀.Widens (readToken ctx op rd) (HoldsOperand r₀) := by
  refine (widens_readUnsigned 4 rd).bind fun _ _ => ?_
  refine (widens_resolveToken hctx hw hm _ _).bind fun found hfound => ?_
  split
  · rename_i ho
    refine .pure fun x hx => hfound x ?_
    rwa [← items_operandOf? ho]
  · exact .get fun _ _ => .throw _

theorem widens_readOperand (offset : Nat) (op : Opcode) (rd : Reader) :
    Keeps r₀.Widens (readOperand ctx offset op rd) (HoldsOperand r₀) := by
  rw [readOperand]
  split
  · refine .pure fun x hx => ?_
    simp only [implicitOperand] at hx
    split at hx
    · cases hx
    · split at hx <;> cases hx
  · exact widens_readBranch ctx offset 1 rd
  · exact widens_readBranch ctx offset 4 rd
  · exact widens_number (widens_readSigned 1 rd) fun _ => rfl
  · exact widens_number (widens_readUnsigned 1 rd) fun _ => rfl
  · exact widens_number (widens_readSigned 4 rd) fun _ => rfl
  · exact widens_number (widens_readSigned 8 rd) fun _ => rfl
  · exact widens_number (widens_readUnsigned 4 rd) fun _ => rfl
  · exact widens_number (widens_readUnsigned 8 rd) fun _ => rfl
  · exact widens_number (widens_readUnsigned 1 rd) fun _ => rfl
  · exact widens_number (widens_readUnsigned 2 rd) fun _ => rfl
  · exact widens_readSwitch ctx offset rd
  all_goals exact widens_readToken hw hm hctx op rd

/-! ## bodies -/

theorem widens_decodeNext (rd : Reader) :
    Keeps r₀.Widens (decodeNext ctx rd) fun found => ∀ x ∈ found.1.operand.items, r₀.Holds x := by
  refine Keeps.bind (Q := fun _ => True) (.ofExcept fun _ _ => trivial) fun op _ => ?_
  exact (widens_readOperand hw hm hctx _ op _).bind fun _ h => .pure h

theorem widens_decodeFrom (regions : List Region) (count : Nat) (rd : Reader) :
    Keeps r₀.Widens (decodeFrom ctx regions count rd) (NamesOnly r₀.Holds) := by
  induction count generalizing rd with
  | zero => exact .pure fun i hi => by cases hi
  | succ count ih =>
    rw [decodeFrom]
    split
    · refine (widens_decodeNext hw hm hctx rd).bind fun found hfound => ?_
      refine (ih found.2).bind fun rest hrest => .pure fun i hi => ?_
      rcases List.mem_cons.mp hi with rfl | hi
      · exact hfound
      · exact hrest i hi
    · exact .pure fun i hi => by cases hi

end

section
variable (hw : r₀.WellFormed) (hm : r₀.Monomorphic)
include hw hm

theorem widens_decodeAs (m : MethodId) (module : ModuleId) (body : Body) :
    Keeps r₀.Widens (decodeAs m module body) (NamesOnly r₀.Holds) := by
  refine .get fun r h => ?_
  have hctx : (r.contextOf m).isEmpty = true := contextOf_isEmpty (h.monomorphic hm) m
  exact (widens_decodeFrom hw hm hctx _ _ _).bind fun _ hc => widens_withStackEffects m hc

/-- **What decoded code names** was there before: it is held by the program. -/
theorem widens_decode (m : MethodId) : Keeps r₀.Widens (decode m) (NamesOnly r₀.Holds) := by
  refine (widens_replacement? hw m).bind fun found hfound => ?_
  split
  · exact .pure (hfound _ rfl)
  · exact widens_decodeAs hw hm _ _ _
  · refine .get fun r _ => ?_
    split
    · exact .pure fun i hi => by cases hi
    · exact .throw _
    · exact widens_decodeAs hw hm _ _ _

end

end Registry

end ProgramScan

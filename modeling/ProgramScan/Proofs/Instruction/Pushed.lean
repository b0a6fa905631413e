import ProgramScan.Proofs.Instruction.Instantiated
import ProgramScan.Proofs.Registry.Scoped

/-!
# Types on the stack of closed methods

The types that instructions push come from arguments, locals, operands and signatures of calls.  All but
the locals and the signatures of indirect calls are those of the method that is decoded, so they are
closed if this method and the operands are: no generic parameter stands in them.  Locals and results of
indirect calls are pushed as they were declared.

* `Registry.ClosedMethod`      no parameter stands in what a method is declared with;
* `Registry.ClosedNames`       no parameter stands in the types that instructions push by name;
* `Instruction.PushesDeclared` an instruction pushes a type as it was declared;
* `Registry.OpenAsDeclared`    open types are pushed as they were declared only;
* `closed_pushedType`, `closed_applyRule`
                               what a rule and an instruction push;
* `openAsDeclared_of_withStackEffects`
                               what is pushed by instructions with closed operands.
-/

namespace ProgramScan

/-! ## what opcodes push -/

namespace PushRule

def name? : PushRule → Option String
  | named name => some name
  | _ => none

def isLocalVar : PushRule → Bool
  | localVar => true
  | _ => false

def isLocalRef : PushRule → Bool
  | localRef => true
  | _ => false

end PushRule

/-- where the types of pushed values come from, if not from a called method -/
def StackRule.pushes : StackRule → List PushRule
  | .fixed _ pushes => pushes
  | _ => []

/-- the names of types that instructions push -/
def stackNames : List String :=
  ["System.Object", "System.String", "System.Int32", "System.Int64", "System.Single",
    "System.Double", "System.UInt32", "System.UInt64", "System.IntPtr", "System.UIntPtr",
    "System.TypedReference", "System.RuntimeArgumentHandle", "System.RuntimeTypeHandle",
    "System.RuntimeMethodHandle", "System.RuntimeFieldHandle", "System.RuntimeType"]

theorem name_mem_stackNames (op : Opcode) :
    ∀ name ∈ (stackRule op).pushes.filterMap PushRule.name?, name ∈ stackNames := by
  cases op <;> decide

theorem eq_ldloc (op : Opcode) :
    (stackRule op).pushes.any PushRule.isLocalVar = true → op = .ldloc := by
  cases op <;> decide

theorem eq_ldloca (op : Opcode) :
    (stackRule op).pushes.any PushRule.isLocalRef = true → op = .ldloca := by
  cases op <;> decide

theorem eq_calli {op : Opcode} (h : stackRule op = .indirectCall) : op = .calli := by
  cases op <;> first | rfl | cases h

def Resolved.item? : Resolved → Option Item
  | .type t => some (.type t)
  | .method m => some (.method m)
  | .field f => some (.field f)
  | _ => none

/-- The instruction pushes `u` as a local of the body is declared, or as the signature of an indirect
call has it for the result. -/
inductive Instruction.PushesDeclared (r : Registry) (locals : List TypeId) (i : Instruction)
    (u : TypeId) : Prop
  | localVar {k : Nat} (hop : i.opcode = .ldloc) (hi : i.operand = .var k) (hk : locals[k]? = some u)
  | localRef {k : Nat} {t : TypeId} (hop : i.opcode = .ldloca) (hi : i.operand = .var k)
    (hk : locals[k]? = some t) (hu : (r.type u).form = .constructed .byRef t)
  | result {site : CallSite} (hop : i.opcode = .calli) (hi : i.operand = .signature site)
    (hu : site.returnType = some u)

namespace Registry

variable {r r' s s' : Registry}

/-! ## closed methods -/

/-- No generic parameter stands in the type that declares the method, in its generic arguments, in its
parameter types or in its return type. -/
structure ClosedMethod (r : Registry) (m : MethodId) : Prop where
  declaring : ∀ t, (r.method m).declaring = some t → r.isOpen t = false
  args : ∀ a ∈ (r.method m).genericArgs, r.isOpen a = false
  params : ∀ t ∈ (r.method m).paramTypes, r.isOpen t = false
  result : r.isOpen (r.method m).returnType = false

/-- no parameter stands in the types with the names that instructions push -/
def ClosedNames (r : Registry) : Prop :=
  ∀ name ∈ stackNames, ∀ t, r.find? name = some t → r.isOpen t = false

instance (r : Registry) (m : MethodId) : Decidable (r.ClosedMethod m) :=
  decidable_of_iff
    ((∀ t ∈ (r.method m).declaring, r.isOpen t = false) ∧
      (∀ a ∈ (r.method m).genericArgs, r.isOpen a = false) ∧
      (∀ t ∈ (r.method m).paramTypes, r.isOpen t = false) ∧
      r.isOpen (r.method m).returnType = false)
    ⟨fun h => ⟨h.1, h.2.1, h.2.2.1, h.2.2.2⟩, fun h => ⟨h.declaring, h.args, h.params, h.result⟩⟩

instance (r : Registry) : Decidable r.ClosedNames :=
  inferInstanceAs (Decidable (∀ name ∈ stackNames, ∀ t ∈ r.find? name, r.isOpen t = false))

/-- instructions push open types only as these were declared -/
def OpenAsDeclared (r : Registry) (locals : List TypeId) (code : List Instruction) : Prop :=
  ∀ i ∈ code, ∀ u, some u ∈ i.stack.pushTypes → r.isOpen u = true → i.PushesDeclared r locals u

/-- no parameter stands in the element that an operand names -/
def ClosedOperand (r : Registry) (operand : Operand) : Prop :=
  ∀ x, operand.item? = some x → r.ClosedItem x

theorem ClosedMethod.mono (hw : r.WellFormed) (hg : r.Grows r') {m : MethodId}
    (hm : r.Has (.method m)) (h : r.ClosedMethod m) : r'.ClosedMethod m := by
  constructor <;> rw [hg.method hm]
  · exact fun t ht => (hg.isOpen hw (hw.declaring hm ht)).trans (h.declaring t ht)
  · exact fun a ha => (hg.isOpen hw (hw.genericArg hm ha)).trans (h.args a ha)
  · exact fun t ht => (hg.isOpen hw (hw.param hm ht)).trans (h.params t ht)
  · exact (hg.isOpen hw (hw.returnType hm)).trans h.result

theorem ClosedNames.mono (hw : r.WellFormed) (hg : r.Grows r') (h : r.ClosedNames) :
    r'.ClosedNames := by
  intro name hn t ht
  rw [hg.find?] at ht
  exact (hg.isOpen hw (hw.found ht)).trans (h name hn t ht)

/-- the arguments of a closed type are closed -/
theorem isOpen_genericArg (h : r.Faithful) (ho : r.Orderly) {t a : TypeId} (ht : r.Has (.type t))
    (hclosed : r.isOpen t = false) (ha : a ∈ (r.type t).form.genericArgs) : r.isOpen a = false := by
  by_contra hopen
  have hahas := ho.wellFormed.genericArgOf ht ha
  obtain ⟨p, index, owner, hp, hf⟩ := h.exists_parameter ho hahas (Bool.not_eq_false _ ▸ hopen)
  have hopen' := (Occurs.argument ha hp).isOpen ho ht (by rw [hf]; rfl)
  rw [hclosed] at hopen'
  cases hopen'

theorem ClosedMethod.closedContext (h : r.Faithful) (ho : r.Orderly) {m : MethodId}
    (hm : r.Has (.method m)) (hc : r.ClosedMethod m) : r.ClosedContext (r.contextOf m) := by
  intro a ha
  rcases List.mem_append.mp ha with ha | ha
  · cases hd : (r.method m).declaring with
    | none =>
      rw [contextOf, declaringArgs, hd] at ha
      cases ha
    | some t =>
      rw [contextOf, declaringArgs, hd] at ha
      exact isOpen_genericArg h ho (ho.wellFormed.declaring hm hd) (hc.declaring t hd) ha
  · exact hc.args a ha

/-! ## pushed types -/

theorem form_of_constructKnown (hr : r.Readable) (hs : s.Coherent) (hg : Grown s' r) {shape : Shape}
    {known : Option TypeId} {u : TypeId} (hk : HasKnown known s)
    (hrun : (liftM (constructKnown shape known) : Action (Option TypeId)) s = .ok (some u) s') :
    ∃ t, known = some t ∧ r.Has (.type u) ∧ (r.type u).form = .constructed shape t := by
  cases known with
  | none => cases hrun
  | some t =>
    obtain ⟨v, s₁, hv, hpure⟩ := bind_eq_ok_iff.mp
      (show ((liftM (construct shape t) : Action TypeId) >>= fun u => pure (some u)) s = _ from hrun)
    cases hpure
    have ht := hk t rfl
    have hmade : Changes [] (liftM (construct shape t)) s _ := changes_construct hs.orderly shape ht
    obtain ⟨hstep, hvhas, hconstructed⟩ := hmade.ok hv
    refine ⟨t, rfl, hg.grows.has hvhas, ?_⟩
    exact hr.constructed hg.coherent.orderly (hg.grows.has (hstep.persists.has _ ht))
      (hconstructed.mono hstep.orderly hg.persists (hstep.persists.has _ ht))

section
variable {m : MethodId} (h : r.Faithful) (hmethod : r.ClosedMethod m) (hnames : r.ClosedNames)
  (hs : s.Coherent) (hm : s.Has (.method m)) (hg : Grown s' r)
include h hs hg

omit h in
theorem closed_constructKnown (hr : r.Readable) {shape : Shape} {known : Option TypeId} {u : TypeId}
    (hk : HasKnown known s) (hclosed : ∀ t, known = some t → r.isOpen t = false)
    (hrun : (liftM (constructKnown shape known) : Action (Option TypeId)) s = .ok (some u) s') :
    r.isOpen u = false := by
  obtain ⟨t, rfl, hu, hf⟩ := form_of_constructKnown hr hs hg hk hrun
  rw [hg.coherent.orderly.isOpen_constructed hu hf]
  exact hclosed t rfl

include hmethod hm

theorem closed_selectedArgument {operand : Operand} {u : TypeId}
    (hrun : (liftM (selectedArgument m operand) : Action (Option TypeId)) s = .ok (some u) s') :
    r.isOpen u = false := by
  have hgs := (coheres_selectedArgument hs hm operand).ok hrun
  have hsame : r.method m = s.method m := (hgs.grows.trans hg.grows).method hm
  cases hv : operand.var? with
  | none =>
    rw [selectedArgument, hv] at hrun
    cases hrun
  | some index =>
    rw [selectedArgument, hv] at hrun
    dsimp only at hrun
    rw [argumentType, lift_bind, lift_get, get_bind_apply] at hrun
    have hparam : ∀ {i : Nat} {t : TypeId}, (s.method m).paramTypes[i]? = some t →
        r.isOpen t = false := fun hi =>
      hmethod.params _ (hsame ▸ List.mem_of_getElem? hi)
    cases hstatic : (s.method m).isStatic with
    | true =>
      simp only [hstatic] at hrun
      obtain ⟨hi, -⟩ := pure_eq_ok_iff.mp hrun
      exact hparam hi
    | false =>
      cases index with
      | succ position =>
        simp only [hstatic] at hrun
        obtain ⟨hi, -⟩ := pure_eq_ok_iff.mp hrun
        exact hparam hi
      | zero =>
        simp only [hstatic] at hrun
        cases hd : (s.method m).declaring with
        | none =>
          rw [hd] at hrun
          cases hrun
        | some t =>
          rw [hd] at hrun
          dsimp only at hrun
          have ht : r.isOpen t = false := hmethod.declaring t (hsame ▸ hd)
          split at hrun
          · refine closed_constructKnown hs hg h.toReadable (fun v hv => ?_) (fun v hv => ?_) hrun
            · cases hv
              exact hs.wellFormed.declaring hm hd
            · cases hv
              exact ht
          · obtain ⟨hu, -⟩ := pure_eq_ok_iff.mp hrun
            cases hu
            exact ht

include hnames

theorem closed_pushedType {locals : List TypeId} (hl : ∀ t ∈ locals, s.Has (.type t))
    {operand : Operand} (ho : ∀ x ∈ operand.items, s.Has x) (hop : r.ClosedOperand operand)
    {rule : PushRule} (hname : ∀ name, rule.name? = some name → name ∈ stackNames) {u : TypeId}
    (hrun : (liftM (pushedType m locals operand rule) : Action (Option TypeId)) s = .ok (some u) s') :
    r.isOpen u = false ∨
      (∃ k, rule.isLocalVar = true ∧ operand = .var k ∧ locals[k]? = some u) ∨
      ∃ k t, rule.isLocalRef = true ∧ operand = .var k ∧ locals[k]? = some t ∧
        (r.type u).form = .constructed .byRef t := by
  have hw := hs.wellFormed
  have hgs := (coheres_pushedType hs hm ho hl rule).ok hrun
  have hfind : ∀ {name}, name ∈ stackNames → s.find? name = some u → r.isOpen u = false := by
    intro name hn hu
    rw [← (hgs.grows.trans hg.grows).find?] at hu
    exact hnames name hn u hu
  have hvar : ∀ {t}, operand.var?.bind (locals[·]?) = some t → ∃ k, operand = .var k ∧
      locals[k]? = some t := by
    intro t ht
    obtain ⟨k, hk, hlocal⟩ := Option.bind_eq_some_iff.mp ht
    refine ⟨k, ?_, hlocal⟩
    cases operand <;> cases hk
    rfl
  have htype : ∀ t, operand.type? = some t → r.isOpen t = false := by
    intro t ht
    refine hop (.type t) ?_
    cases operand <;> cases ht
    rfl
  have hfield : ∀ t, s.fieldOperandType? operand = some t → r.isOpen t = false := by
    intro t ht
    obtain ⟨f, hf, rfl⟩ := Option.map_eq_some_iff.mp ht
    have hitem : operand.item? = some (.field f) := by
      cases operand <;> cases hf
      rfl
    have hhas : s.Has (.field f) := by
      refine ho (.field f) ?_
      cases operand <;> cases hf
      exact List.mem_singleton.mpr rfl
    have hclosed := hop (.field f) hitem
    rw [ClosedItem, (hgs.grows.trans hg.grows).field hhas] at hclosed
    exact hclosed
  cases rule with
  | unknown => cases hrun
  | named name =>
    obtain ⟨hu, -⟩ := pure_eq_ok_iff.mp
      (show (pure (s.find? name) : Action (Option TypeId)) s = .ok (some u) s' from hrun)
    exact .inl (hfind (hname name rfl) hu)
  | argument => exact .inl (closed_selectedArgument h hmethod hs hm hg hrun)
  | argumentRef =>
    obtain ⟨known, s₁, hknown, hconstruct⟩ := bind_eq_ok_iff.mp
      (show ((liftM (selectedArgument m operand) : Action (Option TypeId)) >>= fun t =>
        liftM (constructKnown .byRef t)) s = _ from hrun)
    have hg₁ := (coheres_selectedArgument hs hm operand).ok hknown
    have hhas := ((builds_selectedArgument hw hm operand).ok hknown).2.2.2
    have hg₂ := (coheres_constructKnown hg₁.coherent .byRef hhas).ok hconstruct
    refine .inl (closed_constructKnown hg₁.coherent hg h.toReadable hhas (fun t ht => ?_) hconstruct)
    rw [ht] at hknown
    exact closed_selectedArgument h hmethod hs hm (hg₂.trans hg) hknown
  | localVar =>
    obtain ⟨hu, -⟩ := pure_eq_ok_iff.mp (show
      (pure (operand.var?.bind (locals[·]?)) : Action (Option TypeId)) s = .ok (some u) s' from hrun)
    obtain ⟨k, hk, hlocal⟩ := hvar hu
    exact .inr (.inl ⟨k, rfl, hk, hlocal⟩)
  | localRef =>
    obtain ⟨t, ht, -, hform⟩ := form_of_constructKnown h.toReadable hs hg (fun t ht => by
      obtain ⟨k, -, hk⟩ := Option.bind_eq_some_iff.mp ht
      exact hl t (List.mem_of_getElem? hk)) hrun
    obtain ⟨k, hk, hlocal⟩ := hvar ht
    exact .inr (.inr ⟨k, t, rfl, hk, hlocal, hform⟩)
  | typeOperand =>
    obtain ⟨hu, -⟩ := pure_eq_ok_iff.mp
      (show (pure operand.type? : Action (Option TypeId)) s = .ok (some u) s' from hrun)
    exact .inl (htype u hu)
  | typeRef => exact .inl (closed_constructKnown hs hg h.toReadable (hasKnown_type ho) htype hrun)
  | typeArray => exact .inl (closed_constructKnown hs hg h.toReadable (hasKnown_type ho) htype hrun)
  | fieldValue =>
    obtain ⟨hu, -⟩ := pure_eq_ok_iff.mp (show
      (pure (s.fieldOperandType? operand) : Action (Option TypeId)) s = .ok (some u) s' from hrun)
    exact .inl (hfield u hu)
  | fieldRef =>
    have hconstruct : (liftM (constructKnown .byRef (s.fieldOperandType? operand)) :
        Action (Option TypeId)) s = .ok (some u) s' := hrun
    exact .inl (closed_constructKnown hs hg h.toReadable (hasKnown_field hw ho) hfield hconstruct)
  | handle =>
    cases operand with
    | token item =>
      obtain ⟨hu, -⟩ := pure_eq_ok_iff.mp (show
        (pure (s.find? (handleTypeName item)) : Action (Option TypeId)) s = .ok (some u) s' from hrun)
      refine .inl (hfind ?_ hu)
      cases item <;> (rw [handleTypeName]; decide)
    | _ => cases hrun

theorem closed_applyRule {locals : List TypeId} (hl : ∀ t ∈ locals, s.Has (.type t))
    {i : Instruction} (ho : ∀ x ∈ i.operand.items, s.Has x) (hop : r.ClosedOperand i.operand)
    {stack : StackEffect}
    (hrun : (liftM (applyRule m locals i.operand (stackRule i.opcode)) : Action StackEffect) s =
      .ok stack s') : ∀ u, some u ∈ stack.pushTypes → r.isOpen u = false ∨
        i.PushesDeclared r locals u := by
  intro u hu
  have hgs := (coheres_applyRule hs hm ho hl _).ok hrun
  have hcallee : ∀ {callee uid}, i.operand = .method callee uid →
      (∀ t, (s.method callee).declaring = some t → r.isOpen t = false) ∧
        r.isOpen (s.method callee).returnType = false := by
    intro callee uid hi
    have hhas : s.Has (.method callee) := ho _ (by rw [hi]; exact List.mem_singleton.mpr rfl)
    rw [← (hgs.grows.trans hg.grows).method hhas]
    exact hop (.method callee) (by rw [hi]; rfl)
  cases hrule : stackRule i.opcode with
  | fixed pops pushes =>
    rw [hrule] at hrun
    obtain ⟨ts, s₁, hts, hpure⟩ := bind_eq_ok_iff.mp
      (show ((liftM (pushes.mapM (pushedType m locals i.operand)) : Action (List (Option TypeId))) >>=
        fun ts => pure ({ pops := pops, pushTypes := ts } : StackEffect)) s = _ from hrun)
    cases hpure
    rw [lift_mapM] at hts
    obtain ⟨rule, hmem, s₂, s₃, hg₂, hpushed, hg₃⟩ := Coheres.exists_of_mapM hs
      (fun rule _ s₂ hg₂ hs₂ => coheres_pushedType hs₂ (hg₂.has hm) (fun x hx => hg₂.has (ho x hx))
        (fun t ht => hg₂.has (hl t ht)) rule) hts hu
    have hpushes : (stackRule i.opcode).pushes = pushes := by rw [hrule]; rfl
    rcases closed_pushedType h hmethod hnames hg₂.coherent (hg₂.grows.has hm) (hg₃.trans hg)
      (fun t ht => hg₂.grows.has (hl t ht)) (fun x hx => hg₂.grows.has (ho x hx)) hop
      (fun name hn => name_mem_stackNames i.opcode name
        (List.mem_filterMap.mpr ⟨rule, hpushes ▸ hmem, hn⟩)) hpushed with
      hclosed | ⟨k, hlocal, hk, ht⟩ | ⟨k, t, hlocal, hk, ht, hform⟩
    · exact .inl hclosed
    · exact .inr (.localVar
        (eq_ldloc _ (List.any_eq_true.mpr ⟨rule, hpushes ▸ hmem, hlocal⟩)) hk ht)
    · exact .inr (.localRef
        (eq_ldloca _ (List.any_eq_true.mpr ⟨rule, hpushes ▸ hmem, hlocal⟩)) hk ht hform)
  | call =>
    rw [hrule] at hrun
    cases hoperand : i.operand with
    | method callee uid =>
      rw [hoperand] at hrun
      obtain ⟨hstack, -⟩ := pure_eq_ok_iff.mp
        (show (pure (s.callEffect callee) : Action StackEffect) s = .ok stack s' from hrun)
      rw [← hstack, callEffect] at hu
      dsimp only at hu
      split at hu
      · cases List.mem_singleton.mp hu
        exact .inl (hcallee hoperand).2
      · cases hu
    | _ =>
      rw [hoperand] at hrun
      cases hrun
      cases hu
  | construct =>
    rw [hrule] at hrun
    cases hoperand : i.operand with
    | method callee uid =>
      rw [hoperand] at hrun
      obtain ⟨hstack, -⟩ := pure_eq_ok_iff.mp
        (show (pure (s.constructEffect callee) : Action StackEffect) s = .ok stack s' from hrun)
      rw [← hstack] at hu
      exact .inl ((hcallee hoperand).1 u (List.mem_singleton.mp hu).symm)
    | _ =>
      rw [hoperand] at hrun
      cases hrun
      cases List.mem_singleton.mp hu
  | indirectCall =>
    rw [hrule] at hrun
    cases hoperand : i.operand with
    | signature site =>
      rw [hoperand] at hrun
      obtain ⟨hstack, -⟩ := pure_eq_ok_iff.mp
        (show (pure (s.indirectEffect site) : Action StackEffect) s = .ok stack s' from hrun)
      rw [← hstack, indirectEffect] at hu
      dsimp only at hu
      split at hu
      · exact .inr (.result (eq_calli hrule) hoperand (List.mem_singleton.mp hu).symm)
      · cases hu
    | _ =>
      rw [hoperand] at hrun
      cases hrun
      cases hu
  | result =>
    rw [hrule] at hrun
    cases hrun
    cases hu

/-- **What the instructions of a closed method push**, if their operands are closed: open types only as
they were declared. -/
theorem openAsDeclared_of_withStackEffects {code code' : List Instruction} (hcode : s.HasCode code)
    (hclosed : ∀ i ∈ code, r.ClosedOperand i.operand)
    (hrun : (liftM (withStackEffects m code) : Action (List Instruction)) s = .ok code' s') :
    r.OpenAsDeclared (s.localsOf m) code' := by
  intro i' hi' u hu hopen
  rw [withStackEffects_eq, modify_bind_apply, get_bind_apply] at hrun
  have hs₀ : Grown s (s.useNames (code.flatMap (s.effectUses m))) := .useNames hs _
  have hlocals₀ : (s.useNames (code.flatMap (s.effectUses m))).localsOf m = s.localsOf m := by
    have hbody : (s.useNames (code.flatMap (s.effectUses m))).body? m = s.body? m :=
      bodyWithin_useNames s _ _ m
    rw [localsOf, localsOf, hbody]
  rw [hlocals₀] at hrun
  have hlocals := has_localsOf hs.wellFormed hm
  obtain ⟨i, hi, s₁, s₂, hg₁, hstack, hg₂⟩ := Coheres.exists_of_mapM hs₀.coherent
    (fun i hi s₁ hg₁ hs₁ => coheres_withStackEffect hs₁ ((hs₀.grows.trans hg₁).has hm)
      (fun t ht => (hs₀.grows.trans hg₁).has (hlocals t ht))
      fun x hx => (hs₀.grows.trans hg₁).has (hcode i hi x hx)) hrun hi'
  rw [withStackEffect, lift_bind] at hstack
  obtain ⟨stack, s₃, happly, hpure⟩ := bind_eq_ok_iff.mp hstack
  cases hpure
  have hs₁ := hs₀.trans hg₁
  rcases closed_applyRule h hmethod hnames hs₁.coherent (hs₁.grows.has hm) (hg₂.trans hg)
    (fun t ht => hs₁.grows.has (hlocals t ht)) (fun x hx => hs₁.grows.has (hcode i hi x hx))
    (hclosed i hi) happly u hu with hu | hdeclared
  · rw [hu] at hopen
    cases hopen
  · cases hdeclared with
    | localVar hop hi hk => exact .localVar hop hi hk
    | localRef hop hi hk hform => exact .localRef hop hi hk hform
    | result hop hi hu => exact .result hop hi hu

end

end Registry

end ProgramScan

import ProgramScan.Proofs.Registry.Building

/-!
# Instantiations under way

A program counts the instances whose members are being made, and an instance that would be one too
many is refused.  The count goes up before the members of an instance are made and down afterwards,
also if that fails.  So every operation leaves the count as it was (`Registry.Balanced`), and in a
program that edits lead to it is 0 (`Registry.Built.nesting`): a failure takes no room from what
comes later.
-/

namespace ProgramScan

namespace Registry

variable {α β : Type} {r : Registry}

/-- However it ends, `act` leaves as many instantiations under way as there were. -/
structure Balanced (act : Action α) : Prop where
  ok : ∀ {r a r'}, act r = .ok a r' → r'.nesting = r.nesting
  error : ∀ {r e r'}, act r = .error e r' → r'.nesting = r.nesting

namespace Balanced

theorem pure (a : α) : Balanced (Pure.pure a : Action α) where
  ok hr := by
    cases hr
    rfl
  error hr := by cases hr

theorem throw (e : Error) : Balanced (MonadExcept.throw e : Action α) where
  ok hr := by cases hr
  error hr := by
    cases hr
    rfl

theorem bind {x : Action α} {k : α → Action β} (hx : Balanced x) (hk : ∀ a, Balanced (k a)) :
    Balanced (x >>= k) where
  ok hr := by
    obtain ⟨a, r₁, hx', hk'⟩ := bind_eq_ok_iff.mp hr
    exact ((hk a).ok hk').trans (hx.ok hx')
  error hr := by
    rcases bind_eq_error_iff.mp hr with hx' | ⟨a, r₁, hx', hk'⟩
    · exact hx.error hx'
    · exact ((hk a).error hk').trans (hx.ok hx')

/-- what follows `get` may depend on the state -/
theorem get {k : Registry → Action α} (hk : ∀ r, Balanced (k r)) :
    Balanced (MonadState.get >>= k) :=
  ⟨(hk _).ok, (hk _).error⟩

/-- an operation that always succeeds -/
theorem lift {x : StateM Registry α} (h : ∀ r, (x.run r).2.nesting = r.nesting) :
    Balanced (liftM x) where
  ok hr := by
    rw [lift_apply] at hr
    cases hr
    exact h _
  error hr := by
    rw [lift_apply] at hr
    cases hr

theorem lift_bind {x : StateM Registry α} {k : α → StateM Registry β} (hx : Balanced (liftM x))
    (hk : ∀ a, Balanced (liftM (k a))) : Balanced (liftM (x >>= k)) := by
  rw [Registry.lift_bind]
  exact hx.bind hk

theorem modify {f : Registry → Registry} (h : ∀ r, (f r).nesting = r.nesting) :
    Balanced (modify f : Action Unit) where
  ok hr := by
    cases hr
    exact h _
  error hr := by cases hr

theorem mapM {f : α → Action β} (hf : ∀ a, Balanced (f a)) (l : List α) :
    Balanced (l.mapM f) := by
  induction l with
  | nil => exact .pure []
  | cons a l ih =>
    rw [List.mapM_cons]
    exact (hf a).bind fun b => ih.bind fun bs => .pure (b :: bs)

theorem forM {f : α → Action Unit} (hf : ∀ a, Balanced (f a)) (l : List α) :
    Balanced (l.forM f) := by
  induction l with
  | nil => exact .pure ()
  | cons a l ih => exact (hf a).bind fun _ => ih

theorem optionForM {f : α → Action Unit} (hf : ∀ a, Balanced (f a)) (o : Option α) :
    Balanced (o.forM f) := by
  cases o with
  | none => exact .pure ()
  | some a => exact hf a

end Balanced

/-! ## single records -/

theorem balanced_note (uses : Registry → List TypeId) :
    Balanced (modify fun r => r.useNames (uses r)) := .modify fun _ => rfl

theorem balanced_useNames (ts : List TypeId) : Balanced (modify (·.useNames ts)) :=
  balanced_note fun _ => ts

theorem balanced_addType (d : TypeDecl) : Balanced (liftM (addType d)) := .lift fun _ => rfl

theorem balanced_defineType (d : TypeDecl) : Balanced (liftM (defineType d)) :=
  .lift_bind (balanced_addType d) fun _ => .lift fun _ => rfl

theorem balanced_reserveToken (module : ModuleId) (table : UInt8) :
    Balanced (liftM (reserveToken module table)) := .lift fun _ => rfl

theorem balanced_bindToken (module : ModuleId) (token : Token) (target : TokenTarget) :
    Balanced (liftM (bindToken module token target)) := .lift fun _ => rfl

theorem balanced_addField (d : Field) : Balanced (liftM (addField d)) := .lift fun _ => rfl

theorem balanced_addMethod (d : Method) : Balanced (liftM (addMethod d)) := .lift fun _ => rfl

theorem balanced_attachField (t : TypeId) (f : FieldId) : Balanced (liftM (attachField t f)) :=
  .lift fun _ => rfl

theorem balanced_attachMethod (t : TypeId) (m : MethodId) : Balanced (liftM (attachMethod t m)) :=
  .lift fun _ => rfl

theorem balanced_addInterface (t iface : TypeId) : Balanced (liftM (addInterface t iface)) :=
  .lift fun _ => rfl

theorem balanced_annotate (t : TypeId) (mark : Annotation) : Balanced (liftM (annotate t mark)) :=
  .lift fun _ => rfl

theorem balanced_setPacking (t : TypeId) (packing : UInt16) :
    Balanced (liftM (setPacking t packing)) := .lift fun _ => rfl

theorem balanced_setClassSize (t : TypeId) (size : UInt32) :
    Balanced (liftM (setClassSize t size)) := .lift fun _ => rfl

/-- something is set unless it was set before -/
theorem Balanced.once {act : StateM Registry Bool} (isSet : Registry → Bool)
    {f : Registry → Registry}
    (hact : ∀ r, act.run r = if isSet r then (false, r) else (true, f r))
    (hf : ∀ r, (f r).nesting = r.nesting) : Balanced (liftM act) := by
  refine .lift fun r => ?_
  rw [hact]
  split
  · rfl
  · exact hf r

theorem balanced_nestIn (t outer : TypeId) : Balanced (modify (·.nestIn t outer)) :=
  .modify fun _ => rfl

theorem balanced_setBase (t base : TypeId) : Balanced (liftM (setBase t base)) :=
  .once (fun r => (r.type t).base.isSome) (fun _ => rfl) fun _ => rfl

theorem balanced_setEnclosing (t outer : TypeId) : Balanced (liftM (setEnclosing t outer)) :=
  .once (fun r => (r.type t).enclosing.isSome) (fun _ => rfl) fun _ => rfl

theorem balanced_setBody (m : MethodId) (body : Body) : Balanced (liftM (setBody m body)) :=
  .once (fun r => (r.method m).body.isSome) (fun _ => rfl) fun _ => rfl

/-! ## instances -/

theorem balanced_construct (shape : Shape) (element : TypeId) :
    Balanced (liftM (construct shape element)) := by
  refine .lift fun r => ?_
  rw [run_construct]
  cases r.instances.get? (r.constructedKey shape element) <;> rfl

theorem balanced_existingInstance? (definition : TypeId) (args : List TypeId) :
    Balanced (existingInstance? definition args) := by
  refine .get fun r => ?_
  show Balanced (if _ then _ else _ : Action (Option TypeId))
  split
  · exact (balanced_useNames _).bind fun _ => .throw _
  · split
    · exact .pure _
    · exact (balanced_useNames _).bind fun _ => .pure _

theorem balanced_addInstance (definition : TypeId) (args : List TypeId) :
    Balanced (liftM (addInstance definition args)) := by
  refine .lift fun r => ?_
  rw [run_addInstance]

/-- the count goes up, and down again -/
theorem balanced_nested {act : Action α} (h : Balanced act) : Balanced (nested act) where
  ok {r a r'} hr := by
    unfold nested at hr
    cases hact : act { r with nesting := r.nesting + 1 } with
    | ok b s =>
      rw [hact] at hr
      cases hr
      have hs : s.nesting = r.nesting + 1 := h.ok hact
      show s.nesting - 1 = r.nesting
      omega
    | error e s =>
      rw [hact] at hr
      cases hr
  error {r e r'} hr := by
    unfold nested at hr
    cases hact : act { r with nesting := r.nesting + 1 } with
    | ok b s =>
      rw [hact] at hr
      cases hr
    | error e s =>
      rw [hact] at hr
      cases hr
      have hs : s.nesting = r.nesting + 1 := h.error hact
      show s.nesting - 1 = r.nesting
      omega

section
variable {sub : TypeId → Action TypeId} (hsub : ∀ t, Balanced (sub t))
include hsub

theorem balanced_substituteParams (params : List Param) :
    Balanced (substituteParams sub params) := by
  refine .mapM (fun p => ?_) params
  exact (hsub p.type).bind fun type => .pure { p with type }

theorem balanced_instantiateField (inst : TypeId) (f : FieldId) :
    Balanced (instantiateField sub inst f) :=
  .get fun _ => (hsub _).bind fun _ => (balanced_addField _).bind fun copy =>
    balanced_attachField inst copy

theorem balanced_instantiateMember (inst : TypeId) (m : MethodId) :
    Balanced (instantiateMember sub inst m) :=
  .get fun _ => (hsub _).bind fun _ => (balanced_substituteParams hsub _).bind fun _ =>
    (balanced_addMethod _).bind fun _ => balanced_attachMethod inst _

theorem balanced_populate (definition inst : TypeId) : Balanced (populate sub definition inst) := by
  refine .get fun r => ?_
  refine (Balanced.optionForM (balanced_nestIn inst) _).bind fun _ => ?_
  refine (Balanced.optionForM (fun base => ?_) _).bind fun _ => ?_
  · exact (hsub base).bind fun base => (balanced_setBase inst base).bind fun _ => .pure ()
  refine (Balanced.optionForM (balanced_setPacking inst) _).bind fun _ => ?_
  refine (Balanced.optionForM (balanced_setClassSize inst) _).bind fun _ => ?_
  refine (Balanced.forM (balanced_annotate inst) _).bind fun _ => ?_
  refine (Balanced.forM (fun iface => ?_) _).bind fun _ => ?_
  · exact (hsub iface).bind fun iface => balanced_addInterface inst iface
  refine (Balanced.forM (balanced_instantiateField hsub inst) _).bind fun _ => ?_
  exact .forM (balanced_instantiateMember hsub inst) _

end

theorem balanced_substituteWith {make : TypeId → List TypeId → Action TypeId}
    (hmake : ∀ t args, Balanced (make t args)) (ctx : GenericContext) (depth : Nat) (t : TypeId) :
    Balanced (substituteWith make ctx depth t) := by
  induction depth generalizing t with
  | zero => exact .pure t
  | succ depth ih =>
    refine .get fun r => ?_
    split
    · exact .pure t
    · split
      · exact .pure _
      · exact (ih _).bind fun element => balanced_construct _ element
      · exact (Balanced.mapM ih _).bind fun args => hmake t args
      · exact (Balanced.mapM ih _).bind fun args => hmake _ args

theorem balanced_instantiateAt (levels : Nat) (t : TypeId) (args : List TypeId) :
    Balanced (instantiateAt levels t args) := by
  induction levels generalizing t args with
  | zero =>
    refine .get fun r => (balanced_existingInstance? _ args).bind fun found => ?_
    cases found with
    | some inst => exact .pure inst
    | none => exact .throw _
  | succ levels ih =>
    refine .get fun r => (balanced_existingInstance? _ args).bind fun found => ?_
    cases found with
    | some inst => exact .pure inst
    | none =>
      refine balanced_nested ((balanced_addInstance _ args).bind fun inst => ?_)
      exact (balanced_populate (fun u => balanced_substituteWith ih _ _ u) _ inst).bind fun _ =>
        .pure inst

theorem balanced_instantiate (t : TypeId) (args : List TypeId) : Balanced (instantiate t args) :=
  .get fun _ => balanced_instantiateAt _ t args

theorem balanced_substitute (ctx : GenericContext) (t : TypeId) : Balanced (substitute ctx t) :=
  balanced_substituteWith balanced_instantiate ctx _ t

theorem balanced_instantiateMethod (m : MethodId) (args : List TypeId) :
    Balanced (instantiateMethod m args) := by
  refine .get fun r => (balanced_note _).bind fun _ => ?_
  split
  · exact .throw _
  · refine (balanced_useNames args).bind fun _ => ?_
    dsimp only
    split
    · exact .pure _
    · refine (balanced_substitute _ _).bind fun returnType => ?_
      refine (balanced_substituteParams (balanced_substitute _) _).bind fun params => ?_
      refine (balanced_addMethod _).bind fun inst => ?_
      exact .bind (.modify fun _ => by rfl) fun _ => .pure inst

/-! ## edits -/

theorem balanced_wellKnown (name : String) : Balanced (wellKnown name) := by
  refine .get fun r => ?_
  split
  · exact .pure _
  · exact .throw _

theorem balanced_chosenBase (d : TypeDesign) : Balanced (chosenBase d) := by
  unfold chosenBase
  split
  · exact .pure _
  · exact .pure _
  · exact (balanced_wellKnown _).bind fun _ => .pure _
  · exact (balanced_wellKnown _).bind fun _ => .pure _
  · exact (balanced_wellKnown _).bind fun _ => .pure _
  · exact .pure _

theorem balanced_addParameters (module : ModuleId) (owner : ParameterOwner) (index : Nat)
    (names : List String) : Balanced (liftM (addParameters module owner index names)) := by
  induction names generalizing index with
  | nil => exact .pure []
  | cons name names ih =>
    exact .lift_bind (balanced_addType _) fun p => .lift_bind (ih _) fun ps => .pure (p :: ps)

theorem balanced_declareType (d : TypeDesign) : Balanced (declareType d) :=
  (balanced_chosenBase d).bind fun _ => (balanced_addParameters _ _ _ _).bind fun _ =>
    (balanced_reserveToken _ _).bind fun _ => (balanced_defineType _).bind fun t =>
      (balanced_bindToken _ _ _).bind fun _ => .pure t

theorem balanced_declareReturning (d : MethodDesign) (returnType : TypeId) :
    Balanced (declareReturning d returnType) := by
  refine (balanced_reserveToken _ _).bind fun token => (balanced_addMethod _).bind fun m => ?_
  refine (balanced_bindToken _ _ _).bind fun _ => ?_
  cases d.declaring with
  | none => exact .pure m
  | some declaring => exact (balanced_attachMethod declaring m).bind fun _ => .pure m

theorem balanced_declareMethod (d : MethodDesign) : Balanced (declareMethod d) := by
  rw [declareMethod_eq]
  refine .bind ?_ (balanced_declareReturning d)
  cases d.returnType with
  | none => exact balanced_wellKnown _
  | some t => exact .pure t

theorem balanced_tokenFor (module : ModuleId) (target : TokenTarget) :
    Balanced (liftM (tokenFor module target)) := by
  cases target <;>
    exact .lift_bind (balanced_reserveToken _ _) fun _ =>
      .lift_bind (balanced_bindToken _ _ _) fun _ => .pure _

theorem balanced_addModule (name : String) : Balanced (liftM (addModule name)) := by
  refine .lift fun r => ?_
  simp only [addModule, StateT.run_bind, StateT.run_get, pure_bind]
  cases r.findModule? name <;> rfl

theorem balanced_declareField (module : ModuleId) (declaring : TypeId) (name : String)
    (type : TypeId) (flags : FieldFlags) (annotations : List Annotation) :
    Balanced (liftM (declareField module declaring name type flags annotations)) :=
  .lift_bind (balanced_reserveToken _ _) fun _ => .lift_bind (balanced_addField _) fun f =>
    .lift_bind (balanced_bindToken _ _ _) fun _ =>
      .lift_bind (balanced_attachField _ _) fun _ => .pure f

theorem balanced_edit (e : Edit) : Balanced e.action := by
  cases e
  case addModule name => exact (balanced_addModule name).bind fun _ => .pure ()
  case declareType design => exact (balanced_declareType design).bind fun _ => .pure ()
  case define => exact (balanced_defineType _).bind fun _ => .pure ()
  case addParameter => exact (balanced_addType _).bind fun _ => .pure ()
  case declareField => exact (balanced_declareField _ _ _ _ _ _).bind fun _ => .pure ()
  case declareDetached =>
    refine .bind ?_ fun _ => .pure ()
    exact .lift_bind (balanced_reserveToken _ _) fun _ => balanced_addField _
  case declareMethod design => exact (balanced_declareMethod design).bind fun _ => .pure ()
  case setBase => exact (balanced_setBase _ _).bind fun _ => .pure ()
  case setEnclosing => exact (balanced_setEnclosing _ _).bind fun _ => .pure ()
  case addInterface => exact balanced_addInterface _ _
  case annotate => exact balanced_annotate _ _
  case setPacking => exact balanced_setPacking _ _
  case setClassSize => exact balanced_setClassSize _ _
  case setBody => exact (balanced_setBody _ _).bind fun _ => .pure ()
  case reserveToken => exact (balanced_reserveToken _ _).bind fun _ => .pure ()
  case tokenFor => exact (balanced_tokenFor _ _).bind fun _ => .pure ()
  case bindToken => exact balanced_bindToken _ _ _
  case readNames => exact balanced_useNames _
  case construct => exact (balanced_construct _ _).bind fun _ => .pure ()
  case instantiate => exact (balanced_instantiate _ _).bind fun _ => .pure ()
  case substitute => exact (balanced_substitute _ _).bind fun _ => .pure ()
  case instantiateMethod => exact (balanced_instantiateMethod _ _).bind fun _ => .pure ()

/-- an edit leaves no instantiation under way, also if it fails -/
theorem nesting_apply (e : Edit) (r : Registry) : (e.apply r).nesting = r.nesting := by
  obtain hr | ⟨err, hr⟩ := e.action_apply r
  · exact (balanced_edit e).ok hr
  · exact (balanced_edit e).error hr

theorem Built.nesting (h : Built r) : r.nesting = 0 := by
  induction h with
  | core => decide +kernel
  | edit _ _ ih => rw [nesting_apply, ih]

end Registry

end ProgramScan

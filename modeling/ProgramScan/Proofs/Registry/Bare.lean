import ProgramScan.Proofs.Registry.Members

/-!
# Elements do not depend on code

Types, members and tokens are made and resolved without a look at the code of any method.

* `Registry.bare`    a program without code and without its notes on names in use;
* `Registry.Blind`   an action that gives the same answer, or the same error, and leaves the same
                     bare program, in all programs that are the same when bare.

`Blind` has a rule for each way to put actions together.  The rule for `get` asks that what follows
is the same for the bare program; for most questions this holds by computation, as only methods
become different when a program is made bare.
-/

namespace ProgramScan

/-- the body without its code; local variables stay -/
def Body.codeless (b : Body) : Body := { code := [], locals := b.locals }

def Method.codeless (d : Method) : Method := { d with body := d.body.map Body.codeless }

@[simp] theorem Method.codeless_codeless (d : Method) : d.codeless.codeless = d.codeless := by
  cases hb : d.body <;> simp [codeless, hb, Body.codeless]

namespace Registry

/-- the program without code and without its notes on names in use -/
def bare (r : Registry) : Registry :=
  { r with methods := r.methods.map Method.codeless, usedNames := [] }

@[simp] theorem bare_bare (r : Registry) : r.bare.bare = r.bare := by
  simp only [bare, Array.map_map]
  congr 2
  funext d
  exact d.codeless_codeless

theorem bare_of_forget {r r' : Registry} (h : r.forget = r'.forget) : r.bare = r'.bare := by
  have h' := congrArg bare h
  exact h'

@[simp] theorem bare_useNames (r : Registry) (ts : List TypeId) : (r.useNames ts).bare = r.bare := rfl

/-! ## questions about bare programs -/

section
variable (r : Registry)

@[simp] theorem method_bare (m : MethodId) : r.bare.method m = (r.method m).codeless := by
  simp only [method, bare, Array.getD_eq_getD_getElem?, Array.getElem?_map]
  cases r.methods[m.index]? <;> rfl

theorem isOpenWithin_bare (depth : Nat) (t : TypeId) :
    r.bare.isOpenWithin depth t = r.isOpenWithin depth t := by
  induction depth generalizing t with
  | zero => rfl
  | succ depth ih =>
    rw [isOpenWithin, isOpenWithin]
    simp only [ih, funext ih]
    rfl

@[simp] theorem isOpen_bare (t : TypeId) : r.bare.isOpen t = r.isOpen t := r.isOpenWithin_bare _ t

theorem qualifiedNameWithin_bare (depth : Nat) (d : TypeDecl) :
    r.bare.qualifiedNameWithin depth d = r.qualifiedNameWithin depth d := by
  induction depth generalizing d with
  | zero => rfl
  | succ depth ih =>
    rw [qualifiedNameWithin, qualifiedNameWithin]
    simp only [ih]
    rfl

@[simp] theorem render_bare (d : TypeDecl) : r.bare.render d = r.render d := by
  have hname : r.bare.qualifiedNameOf d = r.qualifiedNameOf d := r.qualifiedNameWithin_bare _ d
  rw [render, render, hname]
  rfl

@[simp] theorem methodName_bare (m : MethodId) : r.bare.methodName m = r.methodName m := by
  rw [methodName, methodName, method_bare]
  rfl

@[simp] theorem methodKey_bare (m : MethodId) : r.bare.methodKey m = r.methodKey m := by
  rw [methodKey, methodKey, methodModuleName, methodModuleName, methodName_bare, method_bare]
  rfl

@[simp] theorem declaringArgs_bare (m : MethodId) : r.bare.declaringArgs m = r.declaringArgs m := by
  rw [declaringArgs, declaringArgs, method_bare]
  rfl

@[simp] theorem contextOf_bare (m : MethodId) : r.bare.contextOf m = r.contextOf m := by
  rw [contextOf, contextOf, declaringArgs_bare, method_bare]
  rfl

@[simp] theorem stemsFrom_bare (root : MethodId) : r.bare.stemsFrom root = r.stemsFrom root := by
  funext m
  rw [stemsFrom, stemsFrom, method_bare]
  rfl

@[simp] theorem returnsValue_bare (m : MethodId) : r.bare.returnsValue m = r.returnsValue m := by
  rw [returnsValue, returnsValue, method_bare]
  rfl

theorem bodyWithin_bare (steps : Nat) (m : MethodId) :
    r.bare.bodyWithin steps m = (r.bodyWithin steps m).map Body.codeless := by
  induction steps generalizing m with
  | zero => rw [bodyWithin, bodyWithin, method_bare, Method.codeless]
  | succ steps ih =>
    rw [bodyWithin, bodyWithin, method_bare, Method.codeless]
    cases hb : (r.method m).body with
    | some body => rfl
    | none =>
      simp only [Option.map_none]
      cases (r.method m).origin with
      | declared => rfl
      | instanceOf definition => exact ih definition
      | memberOf definition => exact ih definition

theorem body?_bare (m : MethodId) : r.bare.body? m = (r.body? m).map Body.codeless := by
  have hsize : r.bare.methods.size = r.methods.size := Array.size_map
  rw [body?, body?, hsize, bodyWithin_bare]

end

/-! ## blind actions -/

variable {α β : Type}

/-- what comes of an action, up to code and names in use -/
def bareResult : EStateM.Result Error Registry α → EStateM.Result Error Registry α
  | .ok a r => .ok a r.bare
  | .error e r => .error e r.bare

/-- the action does not look at code, nor at which names are in use -/
def Blind (act : Action α) : Prop := ∀ r, bareResult (act r.bare) = bareResult (act r)

namespace Blind

theorem run {act : Action α} (h : Blind act) {r s r' : Registry} (hrs : r.bare = s.bare) {a : α}
    (hr : act r = .ok a r') : ∃ s', act s = .ok a s' ∧ r'.bare = s'.bare := by
  have hboth : bareResult (act r) = bareResult (act s) := by rw [← h r, ← h s, hrs]
  rw [hr] at hboth
  cases hs : act s with
  | ok b s' =>
    rw [hs] at hboth
    simp only [bareResult, EStateM.Result.ok.injEq] at hboth
    exact ⟨s', by rw [hboth.1], hboth.2⟩
  | error e s' =>
    rw [hs] at hboth
    cases hboth

theorem pure (a : α) : Blind (Pure.pure a) := fun r => by
  show EStateM.Result.ok a r.bare.bare = .ok a r.bare
  rw [bare_bare]

theorem throw (e : Error) : Blind (MonadExcept.throw e : Action α) := fun r => by
  show EStateM.Result.error e r.bare.bare = .error e r.bare
  rw [bare_bare]

theorem bind {x : Action α} {k : α → Action β} (hx : Blind x) (hk : ∀ a, Blind (k a)) :
    Blind (x >>= k) := by
  intro r
  have hboth := hx r
  rw [bind_apply, bind_apply]
  cases hr : x r with
  | ok a s =>
    rw [hr] at hboth
    cases hr' : x r.bare with
    | ok b s' =>
      rw [hr'] at hboth
      simp only [bareResult, EStateM.Result.ok.injEq] at hboth
      dsimp only
      rw [hboth.1, ← hk a s', ← hk a s, hboth.2]
    | error e s' =>
      rw [hr'] at hboth
      cases hboth
  | error e s =>
    rw [hr] at hboth
    cases hr' : x r.bare with
    | ok b s' =>
      rw [hr'] at hboth
      cases hboth
    | error e' s' =>
      rw [hr'] at hboth
      simp only [bareResult, EStateM.Result.error.injEq] at hboth
      dsimp only [bareResult]
      rw [hboth.1, hboth.2]

/-- What follows `get` must be the same for the bare program. -/
theorem get {k : Registry → Action α} (hread : ∀ r, k r.bare = k r) (hk : ∀ r, Blind (k r)) :
    Blind (MonadState.get >>= k) := by
  intro r
  rw [get_bind_apply, get_bind_apply, hread]
  exact hk r r

/-- an action that cannot fail -/
theorem lift {x : StateM Registry α} (h : ∀ r, (x.run r.bare).1 = (x.run r).1)
    (hs : ∀ r, (x.run r.bare).2.bare = (x.run r).2.bare) : Blind (liftM x) := by
  intro r
  rw [lift_apply, lift_apply, bareResult, bareResult, h, hs]

theorem update {f : Registry → Registry} (h : ∀ r, (f r.bare).bare = (f r).bare) :
    Blind (modify f : Action Unit) := lift (x := modify f) (fun _ => rfl) h

theorem note (uses : Registry → List TypeId) :
    Blind (modify fun r => r.useNames (uses r) : Action Unit) :=
  update fun r => by rw [bare_useNames, bare_useNames, bare_bare]

theorem mapM {f : α → Action β} (hf : ∀ a, Blind (f a)) (l : List α) : Blind (l.mapM f) := by
  induction l with
  | nil => exact pure _
  | cons a l ih =>
    rw [List.mapM_cons]
    exact (hf a).bind fun _ => ih.bind fun _ => pure _

theorem forM {f : α → Action Unit} (hf : ∀ a, Blind (f a)) (l : List α) : Blind (l.forM f) := by
  induction l with
  | nil => exact pure _
  | cons a l ih => exact (hf a).bind fun _ => ih

theorem optionForM {f : α → Action Unit} (hf : ∀ a, Blind (f a)) (o : Option α) :
    Blind (o.forM f) := by
  cases o with
  | none => exact pure _
  | some a => exact hf a

end Blind

/-! ## elements that are made -/

theorem blind_modifyType (t : TypeId) (f : TypeDecl → TypeDecl) :
    Blind (modify fun r => r.modifyType t f : Action Unit) :=
  Blind.update fun r => (r.modifyType t f).bare_bare

theorem blind_addType (d : TypeDecl) : Blind (liftM (addType d)) := by
  refine .lift (fun _ => rfl) fun r => ?_
  show ({ r.bare with
      types := r.types.push { d with id := r.nextId, fullName := r.bare.render d }
      nextId := r.nextId + 1 } : Registry).bare = _
  rw [render_bare]
  exact bare_bare
    { r with
      types := r.types.push { d with id := r.nextId, fullName := r.render d }
      nextId := r.nextId + 1 }

theorem blind_addField (d : Field) : Blind (liftM (addField d)) :=
  .lift (fun _ => rfl) fun r => bare_bare { r with fields := r.fields.push d }

/-- a method is added at the same place, whatever code the others have -/
theorem blind_addMethod (d : Method) : Blind (liftM (addMethod d)) := by
  refine .lift (fun r => ?_) fun r => ?_
  · show (⟨r.bare.methods.size⟩ : MethodId) = ⟨r.methods.size⟩
    rw [bare, Array.size_map]
  · show ({ r.bare with methods := r.bare.methods.push d } : Registry).bare =
      ({ r with methods := r.methods.push d } : Registry).bare
    simp [bare, Array.map_push, Function.comp_def]

theorem blind_setBase (t base : TypeId) : Blind (liftM (setBase t base)) := by
  have hrun : ∀ r : Registry, (setBase t base).run r =
      if (r.type t).base.isSome then (false, r)
      else (true, r.modifyType t fun d => { d with base := some base }) := fun _ => rfl
  have ht : ∀ r : Registry, r.bare.type t = r.type t := fun _ => rfl
  refine .lift (fun r => ?_) fun r => ?_ <;> rw [hrun, hrun, ht] <;> split
  · rfl
  · rfl
  · exact bare_bare r
  · exact bare_bare (r.modifyType t fun d => { d with base := some base })

/-- what was made is remembered alike -/
theorem blind_remember (key : String) (t : TypeId) :
    Blind (modify fun r => { r with instances := r.instances.insert key t } : Action Unit) :=
  .update fun r => bare_bare { r with instances := r.instances.insert key t }

theorem blind_construct (shape : Shape) (element : TypeId) :
    Blind (liftM (construct shape element)) := by
  rw [construct, lift_bind]
  refine (Blind.note fun _ => [element]).bind fun _ => ?_
  rw [lift_bind, lift_get]
  refine .get (fun _ => rfl) fun r => ?_
  dsimp only
  cases r.instances.get? (r.constructedKey shape element) with
  | some t => exact .pure t
  | none =>
    dsimp only
    rw [lift_bind]
    refine (blind_addType _).bind fun t => ?_
    exact (blind_remember _ t).bind fun _ => .pure t

theorem blind_existingInstance? (definition : TypeId) (args : List TypeId) :
    Blind (existingInstance? definition args) := by
  refine .get (fun _ => rfl) fun r => ?_
  dsimp only
  split
  · exact (Blind.note fun _ => [definition]).bind fun _ => .throw _
  split
  · exact .pure _
  · exact (Blind.note fun _ => definition :: args).bind fun _ => .pure _

theorem blind_addInstance (definition : TypeId) (args : List TypeId) :
    Blind (liftM (addInstance definition args)) := by
  rw [addInstance, lift_bind, lift_get]
  refine .get (fun _ => rfl) fun r => ?_
  dsimp only
  rw [lift_bind]
  refine (blind_addType _).bind fun inst => ?_
  exact (blind_remember _ inst).bind fun _ => .pure inst

/-- the instantiation that is under way ends alike -/
theorem bareResult_nested {act : Action α} {r s : Registry}
    (h : bareResult (act { r with nesting := r.nesting + 1 }) =
      bareResult (act { s with nesting := s.nesting + 1 })) :
    bareResult (nested act r) = bareResult (nested act s) := by
  have hend : ∀ {t u : Registry}, t.bare = u.bare →
      ({ t with nesting := t.nesting - 1 } : Registry).bare =
        ({ u with nesting := u.nesting - 1 } : Registry).bare :=
    fun h => congrArg (fun t : Registry => { t with nesting := t.nesting - 1 }) h
  rw [nested, nested]
  cases hr : act { r with nesting := r.nesting + 1 } <;>
    cases hs : act { s with nesting := s.nesting + 1 } <;> rw [hr, hs] at h
  case ok.ok a t b u =>
    simp only [bareResult, EStateM.Result.ok.injEq] at h ⊢
    exact ⟨h.1, hend h.2⟩
  case error.error e t f u =>
    simp only [bareResult, EStateM.Result.error.injEq] at h ⊢
    exact ⟨h.1, hend h.2⟩
  all_goals cases h

theorem Blind.nested {act : Action α} (h : Blind act) : Blind (nested act) :=
  fun r => bareResult_nested (h { r with nesting := r.nesting + 1 })

/-! ## substitution and instances -/

section
variable {make : TypeId → List TypeId → Action TypeId} (hmake : ∀ t args, Blind (make t args))
  (ctx : GenericContext)
include hmake

theorem blind_substituteWith (depth : Nat) (t : TypeId) :
    Blind (substituteWith make ctx depth t) := by
  induction depth generalizing t with
  | zero => exact .pure t
  | succ depth ih =>
    refine .get (fun r => ?_) fun r => ?_
    · rw [isOpen_bare]
      rfl
    · split
      · exact .pure t
      split
      · exact .pure _
      · exact (ih _).bind fun element => blind_construct _ element
      · exact (Blind.mapM ih _).bind fun args => hmake t args
      · exact (Blind.mapM ih _).bind fun args => hmake _ args

end

section
variable {sub : TypeId → Action TypeId} (hsub : ∀ t, Blind (sub t))
include hsub

theorem blind_substituteParams (params : List Param) : Blind (substituteParams sub params) := by
  refine Blind.mapM (fun p => ?_) params
  exact (hsub p.type).bind fun _ => .pure _

theorem blind_instantiateMember (inst : TypeId) (m : MethodId) :
    Blind (instantiateMember sub inst m) := by
  refine .get (fun r => ?_) fun r => ?_
  · rw [method_bare]
    rfl
  · refine (hsub _).bind fun returnType => (blind_substituteParams hsub _).bind fun params => ?_
    exact (blind_addMethod _).bind fun copy => blind_modifyType inst _

theorem blind_populate (definition inst : TypeId) : Blind (populate sub definition inst) := by
  refine .get (fun _ => rfl) fun r => ?_
  dsimp only
  refine (Blind.optionForM (fun outer => blind_modifyType inst _) _).bind fun _ => ?_
  refine (Blind.optionForM (fun base => ?_) _).bind fun _ => ?_
  · exact (hsub base).bind fun base => (blind_setBase inst base).bind fun _ => .pure ()
  refine (Blind.optionForM (fun packing => blind_modifyType inst _) _).bind fun _ => ?_
  refine (Blind.optionForM (fun size => blind_modifyType inst _) _).bind fun _ => ?_
  refine (Blind.forM (fun mark => blind_modifyType inst _) _).bind fun _ => ?_
  refine (Blind.forM (fun iface => ?_) _).bind fun _ => ?_
  · exact (hsub iface).bind fun iface => blind_modifyType inst _
  refine (Blind.forM (fun f => ?_) _).bind fun _ => ?_
  · refine .get (fun _ => rfl) fun s => (hsub _).bind fun type => ?_
    exact (blind_addField _).bind fun copy => blind_modifyType inst _
  exact .forM (fun m => blind_instantiateMember hsub inst m) _

end

theorem blind_instantiateAt (levels : Nat) (t : TypeId) (args : List TypeId) :
    Blind (instantiateAt levels t args) := by
  induction levels generalizing t args with
  | zero =>
    rw [instantiateAt]
    refine .get (fun _ => rfl) fun r => ?_
    refine (blind_existingInstance? _ args).bind fun found => ?_
    cases found with
    | some inst => exact .pure inst
    | none => exact .throw _
  | succ levels ih =>
    rw [instantiateAt]
    refine .get (fun _ => rfl) fun r => ?_
    refine (blind_existingInstance? _ args).bind fun found => ?_
    cases found with
    | some inst => exact .pure inst
    | none =>
      refine Blind.nested ((blind_addInstance _ args).bind fun inst => ?_)
      exact (blind_populate (fun u => blind_substituteWith ih _ _ u) _ inst).bind fun _ => .pure inst

theorem blind_instantiate (t : TypeId) (args : List TypeId) : Blind (instantiate t args) :=
  .get (fun _ => rfl) fun _ => blind_instantiateAt _ t args

theorem blind_substitute (ctx : GenericContext) (t : TypeId) : Blind (substitute ctx t) :=
  blind_substituteWith blind_instantiate ctx _ t

theorem blind_instantiateMethod (m : MethodId) (args : List TypeId) :
    Blind (instantiateMethod m args) := by
  refine .get (fun r => ?_) fun r => ?_
  · simp only [method_bare, methodName_bare, methodKey_bare, declaringArgs_bare]
    rfl
  · dsimp only
    refine (Blind.note fun r' => _).bind fun _ => ?_
    split
    · exact .throw _
    · refine (Blind.note fun _ => args).bind fun _ => ?_
      cases r.methodInstances.get? _ with
      | some inst => exact .pure inst
      | none =>
        refine (blind_substitute _ _).bind fun returnType => ?_
        refine (blind_substituteParams (fun t => blind_substitute _ t) _).bind fun params => ?_
        refine (blind_addMethod _).bind fun inst => Blind.bind (.update fun s => ?_) fun _ => .pure inst
        exact bare_bare { s with methodInstances := s.methodInstances.insert _ inst }

/-! ## members and tokens -/

theorem blind_correspondingMethod (owner : TypeId) (m : MethodId) :
    Blind (correspondingMethod owner m) := by
  refine .get (fun r => ?_) fun r => ?_
  · simp only [method_bare, methodName_bare, stemsFrom_bare]
    rfl
  · dsimp only
    split
    · exact .pure _
    · exact (Blind.note fun r => owner :: r.methodUses m).bind fun _ => .throw _

variable (ctx : GenericContext)

theorem blind_rehome (m : MethodId) : Blind (rehome ctx m) := by
  refine .get (fun r => ?_) fun r => ?_
  · simp only [method_bare, isOpen_bare]
    rfl
  · split
    · exact .pure m
    split
    · exact .pure m
    · refine (blind_substitute ctx _).bind fun owner => ?_
      split
      · exact .pure m
      · exact blind_correspondingMethod owner m

theorem blind_substituteMethod (m : MethodId) : Blind (substituteMethod ctx m) := by
  refine .get (fun r => ?_) fun r => ?_
  · rw [method_bare]
    rfl
  · split
    · exact blind_rehome ctx m
    · refine (blind_rehome ctx _).bind fun target => ?_
      exact (Blind.mapM (fun t => blind_substitute ctx t) _).bind fun args =>
        blind_instantiateMethod target args

theorem blind_substituteField (f : FieldId) : Blind (substituteField ctx f) := by
  refine .get (fun r => ?_) fun r => ?_
  · simp only [isOpen_bare]
    rfl
  · dsimp only
    split
    · exact .pure f
    · refine (blind_substitute ctx _).bind fun owner => .get (fun _ => rfl) fun s => ?_
      split
      · exact .pure _
      · exact (Blind.note fun r => r.fieldUses f).bind fun _ => .throw _

/-- **Resolving a token** does not look at code. -/
theorem blind_resolveToken (module : ModuleId) (token : Token) :
    Blind (resolveToken module token ctx) := by
  refine .get (fun _ => rfl) fun r => ?_
  split
  · exact .throw _
  · exact .throw _
  · exact .throw _
  · exact .throw _
  · exact (blind_substitute ctx _).bind fun _ => .pure _
  · exact (blind_substituteMethod ctx _).bind fun _ => .pure _
  · exact (blind_substituteField ctx _).bind fun _ => .pure _
  · exact .pure _
  · exact .pure _

end Registry

end ProgramScan

import ProgramScan.Proofs.Registry.Belonging

/-!
# Instances of methods are like their definitions

An instance of a generic method is a method of its own, which no type lists.  It has the name, the
modifiers and the declaring type of its definition, and as many arguments as that has parameters.  Its
parameter types are substituted, so they are those of the definition where these are closed.

* `Registry.MethodInstance`    a method is such an instance of another;
* `Registry.Patterned`         this holds of all instances in the program;
* `Built.owned`                types list their own methods only, and no instances;
* `Built.patterned`            instances are like their definitions;
* `Built.methodInstance_of_new`  what a call that makes a new method returns is such an instance.

Only `instantiateMethod` makes instances of methods (`made_instantiateMethod`).
-/

namespace ProgramScan

namespace Registry

variable {r r' : Registry} {n : Nat}

theorem substituteParams_closed (ctx : GenericContext) {params : List Param} {s : Registry}
    (h : ∀ p ∈ params, s.isOpen p.type = false) :
    substituteParams (substitute ctx) params s = .ok params s := by
  induction params with
  | nil => rfl
  | cons p rest ih =>
    have hp : substitute ctx p.type s = .ok p.type s := by
      rw [substitute, substituteWith_apply, h p List.mem_cons_self, Bool.not_false, Bool.or_true,
        if_pos rfl]
    have hrest := ih fun q hq => h q (List.mem_cons_of_mem _ hq)
    unfold substituteParams at hrest ⊢
    rw [List.mapM_cons]
    exact bind_eq_ok_iff.mpr ⟨p, s, bind_eq_ok_iff.mpr ⟨p.type, s, hp, rfl⟩,
      bind_eq_ok_iff.mpr ⟨rest, s, hrest, rfl⟩⟩

/-- `x` is an instance of `d` with the arguments `args`: a method like `d`, with parameters of its own
unless those of `d` are closed. -/
structure MethodInstance (r : Registry) (d : MethodId) (args : List TypeId) (x : MethodId) :
    Prop where
  definition : (r.method x).genericDefinition? = some d
  args_eq : (r.method x).genericArgs = args
  arity : args.length = (r.method d).genericArgs.length
  name : (r.method x).name = (r.method d).name
  modifiers : (r.method x).modifiers = (r.method d).modifiers
  declaring : (r.method x).declaring = (r.method d).declaring
  params : (∀ t ∈ (r.method d).paramTypes, r.isOpen t = false) →
    (r.method x).params = (r.method d).params

def Patterned (r : Registry) : Prop :=
  ∀ x d, (r.method x).genericDefinition? = some d →
    r.MethodInstance d (r.method x).genericArgs x

theorem MethodInstance.persists (ho : r.Orderly) (hp : r.Persists r') {d x : MethodId}
    {args : List TypeId} (h : r.MethodInstance d args x) : r'.MethodInstance d args x := by
  have hx := has_of_genericDefinition? h.definition
  have hd : r.Has (.method d) := ho.wellFormed.genericDefinition hx h.definition
  have hsx := hp.signature x hx
  have hsd := hp.signature d hd
  simp only [Method.signature, Method.mk.injEq] at hsx hsd
  obtain ⟨-, hname, -, hmods, -, hdecl, -, hparams, hargs, horigin, -, -⟩ := hsx
  obtain ⟨-, hname', -, hmods', -, hdecl', -, hparams', hargs', -, -, -⟩ := hsd
  refine ⟨?_, hargs.trans h.args_eq, ?_, ?_, ?_, ?_, fun hclosed => ?_⟩
  · rw [← h.definition, Method.genericDefinition?, Method.genericDefinition?, horigin]
  · rw [hargs', h.arity]
  · rw [hname, hname', h.name]
  · rw [hmods, hmods', h.modifiers]
  · rw [hdecl, hdecl', h.declaring]
  · rw [hparams, hparams']
    refine h.params fun t ht => ?_
    rw [← Persists.isOpen ho hp (ho.wellFormed.param hd ht)]
    refine hclosed t ?_
    rw [Method.paramTypes, hparams']
    exact ht

/-- what making an instance of a method leaves behind, also where it fails -/
structure Made (n : Nat) (d : MethodId) (args : List TypeId) (r : Registry) : Prop where
  owned : r.Owned
  made : ∀ x c, n ≤ x.index → (r.method x).genericDefinition? = some c →
    c = d ∧ r.MethodInstance d args x

theorem Belonging.toMade (h : Belonging n r) (d : MethodId) (args : List TypeId) : Made n d args r :=
  ⟨h.owned, fun x c hx hc => absurd hc (by rw [h.declared x hx]; simp)⟩

/-- whether a parameter occurs in a type is read off the types alone -/
theorem isOpen_of_types_eq (h : r'.types = r.types) (t : TypeId) : r'.isOpen t = r.isOpen t := by
  have htype : r'.type = r.type := funext fun u => by rw [type, type, h]
  have hwithin : ∀ depth u, r'.isOpenWithin depth u = r.isOpenWithin depth u := by
    intro depth
    induction depth with
    | zero => exact fun _ => rfl
    | succ depth ih =>
      intro u
      simp only [isOpenWithin, htype, funext ih]
  exact hwithin _ t

theorem isOpen_push_method (r : Registry) (d : Method) (t : TypeId) :
    Registry.isOpen { r with methods := r.methods.push d } t = r.isOpen t :=
  isOpen_of_types_eq (show Registry.types { r with methods := r.methods.push d } = r.types from rfl) t

def instanceRecord (r : Registry) (d : MethodId) (args : List TypeId) (returnType : TypeId)
    (params : List Param) : Method :=
  { r.method d with returnType, params, genericArgs := args, origin := .instanceOf d, body := none }

theorem Belonging.made_push (h : Belonging n r) {d : MethodId} (hd : r.Has (.method d))
    {args : List TypeId} (hargs : args.length = (r.method d).genericArgs.length)
    (returnType : TypeId) {params : List Param}
    (hparams : (∀ t ∈ (r.method d).paramTypes, r.isOpen t = false) → params = (r.method d).params) :
    Made n d args
      { r with methods := r.methods.push (r.instanceRecord d args returnType params) } := by
  refine ⟨h.owned.push_method _, fun x c hx hc => ?_⟩
  by_cases hnew : x.index = r.methods.size
  · have hrecord := method_push r (r.instanceRecord d args returnType params) x
    have hold := method_push_of_has r (r.instanceRecord d args returnType params) hd
    rw [if_pos hnew] at hrecord
    rw [hrecord] at hc
    cases hc
    refine ⟨rfl, ?_⟩
    constructor <;> simp only [hrecord, hold]
    · rfl
    · rfl
    · exact hargs
    · rfl
    · rfl
    · rfl
    · refine fun hclosed => hparams fun t ht => ?_
      rw [← isOpen_push_method r (r.instanceRecord d args returnType params) t]
      exact hclosed t ht
  · rw [method_push, if_neg hnew, h.declared x hx] at hc
    cases hc

section
variable {d : MethodId} {args : List TypeId}

theorem Made.same (h : Made n d args r) (ht : r'.types = r.types) (hm : r'.methods = r.methods) :
    Made n d args r' := by
  have hmethod : r'.method = r.method := funext fun m => by rw [method, method, hm]
  have htype : r'.type = r.type := funext fun t => by rw [type, type, ht]
  refine ⟨fun t m hmem => ?_, fun x c hx hc => ?_⟩
  · rw [htype] at hmem
    rw [hmethod]
    exact h.owned t m hmem
  · rw [hmethod] at hc
    obtain ⟨hcd, hi⟩ := h.made x c hx hc
    refine ⟨hcd, ?_⟩
    constructor <;> simp only [hmethod, isOpen_of_types_eq ht]
    · exact hi.definition
    · exact hi.args_eq
    · exact hi.arity
    · exact hi.name
    · exact hi.modifiers
    · exact hi.declaring
    · exact hi.params

theorem made_makeMethodInstance (hw : r.WellFormed) (hd : r.Has (.method d))
    (ha : ∀ a ∈ args, r.Has (.type a)) (hargs : args.length = (r.method d).genericArgs.length)
    {s : Registry} (hf : s.forget = r.forget) (h : Belonging n s) :
    (∀ x s', makeMethodInstance r d args s = .ok x s' →
      Made n d args s' ∧ (s'.method x).genericDefinition? = some d) ∧
    ∀ e s', makeMethodInstance r d args s = .error e s' → Made n d args s' := by
  let ctx : GenericContext := ⟨r.declaringArgs d, args⟩
  have hg : r.Grows s := .of_forget hf.symm
  have hws : s.WellFormed := hw.of_forget hf.symm
  have hctx : s.HasContext ctx := hg.hasContext (hw.instanceContext hd ha)
  have hparam : ∀ p ∈ (r.method d).params, s.Has (.type p.type) :=
    fun p hp => hg.has (hw.param hd (List.mem_map_of_mem hp))
  have hreturn := builds_substitute hws hctx (hg.has (hw.returnType hd))
  have hsignature := builds_signature hws hctx (hg.has (hw.returnType hd)) hparam
  refine ⟨fun x s' hrun => ?_, fun e s' hrun => ?_⟩
  · obtain ⟨returnType, s₁, h₁, hrun⟩ := bind_eq_ok_iff.mp hrun
    obtain ⟨params, s₂, h₂, hrun⟩ := bind_eq_ok_iff.mp hrun
    obtain ⟨hb₁, -⟩ := (keeps_substitute (kept_belonging n) ctx _).ok h h₁
    obtain ⟨hb₂, -⟩ := (keeps_substituteParams (keeps_substitute (kept_belonging n) ctx) _).ok hb₁ h₂
    have hg₁ := (hreturn.ok h₁).1
    have hg₂ := (hsignature.ok
      (bind_eq_ok_iff.mpr ⟨_, _, h₁, bind_eq_ok_iff.mpr ⟨_, _, h₂, rfl⟩⟩)).1
    have hrecord : s₂.method d = r.method d := (hg.trans hg₂).method hd
    -- what is closed at the end was closed when the parameters were substituted
    have hclosed : (∀ t ∈ (s₂.method d).paramTypes, s₂.isOpen t = false) →
        params = (s₂.method d).params := by
      intro hc
      have hc₁ : ∀ p ∈ (r.method d).params, s₁.isOpen p.type = false := fun p hp => by
        rw [hg₁.isOpen hws (hparam p hp), ← hg₂.isOpen hws (hparam p hp)]
        exact hc p.type (hrecord ▸ List.mem_map_of_mem hp)
      rw [substituteParams_closed ctx hc₁] at h₂
      cases h₂
      rw [hrecord]
    have hmade := hb₂.made_push ((hg.trans hg₂).has hd) (by rw [hargs, hrecord]) returnType hclosed
    have hnew := method_push s₂ (s₂.instanceRecord d args returnType params) ⟨s₂.methods.size⟩
    rw [if_pos rfl] at hnew
    rw [instanceRecord, hrecord] at hmade hnew
    cases hrun
    exact ⟨hmade.same rfl rfl, congrArg Method.genericDefinition? hnew⟩
  · rcases bind_eq_error_iff.mp hrun with h₁ | ⟨returnType, s₁, h₁, hrun⟩
    · exact ((keeps_substitute (kept_belonging n) ctx _).error h h₁).toMade d args
    obtain ⟨hb₁, -⟩ := (keeps_substitute (kept_belonging n) ctx _).ok h h₁
    rcases bind_eq_error_iff.mp hrun with h₂ | ⟨params, s₂, h₂, hrun⟩
    · exact ((keeps_substituteParams (keeps_substitute (kept_belonging n) ctx) _).error hb₁ h₂).toMade d args
    · cases hrun

theorem made_instantiateMethod {m : MethodId} (hw : r.WellFormed) (hm : r.Has (.method m))
    (ha : ∀ a ∈ args, r.Has (.type a)) (h : Belonging n r) :
    (∀ x s', instantiateMethod m args r = .ok x s' → Made n (r.methodDefinitionOf m) args s' ∧
      (r.Has (.method x) ∨ (s'.method x).genericDefinition? = some (r.methodDefinitionOf m))) ∧
    ∀ e s', instantiateMethod m args r = .error e s' →
      Made n (r.methodDefinitionOf m) args s' := by
  have hsame : ∀ s : Registry, Belonging n s → ∀ ts, Belonging n (s.useNames ts) :=
    fun s hs ts => hs.quiet (.useNames s ts)
  have hnoted := hsame _ h (r.methodUses (r.methodDefinitionOf m))
  obtain ⟨e, happly⟩ | ⟨hc, ⟨inst, hknown, happly⟩ | ⟨-, happly⟩⟩ := instantiateMethod_cases r m args
  · rw [happly]
    constructor
    · intro _ _ hrun
      cases hrun
    · intro _ _ hrun
      cases hrun
      exact hnoted.toMade _ _
  · rw [happly]
    constructor
    · intro _ _ hrun
      cases hrun
      exact ⟨(hsame _ hnoted args).toMade _ _, .inl (hw.methodInstance hknown)⟩
    · intro _ _ hrun
      cases hrun
  · have hlength : args.length = (r.method (r.methodDefinitionOf m)).genericArgs.length := by
      simp only [Bool.or_eq_true, bne_iff_ne, ne_eq, not_or, Decidable.not_not] at hc
      exact hc.1.symm
    have hforget : ((r.useNames (r.methodUses (r.methodDefinitionOf m))).useNames args).forget =
        r.forget := by
      rw [forget_useNames, forget_useNames]
    have hmake := made_makeMethodInstance hw (hw.methodDefinitionOf hm) ha hlength hforget
      (hsame _ hnoted args)
    rw [happly]
    exact ⟨fun x s' hrun => (hmake.1 x s' hrun).imp id .inr, hmake.2⟩

end

/-! ## programs -/

/-- beyond the methods that there are, there are no instances -/
theorem Owned.belonging (h : r.Owned) : Belonging r.methods.size r := by
  refine ⟨h, fun m hle => ?_⟩
  rw [method_of_not_has (Nat.not_lt.mpr hle)]
  rfl

theorem belonging_apply {e : Edit} (he : ∀ m args, e ≠ .instantiateMethod m args)
    (h : Belonging n r) : Belonging n (e.apply r) := by
  have hkeeps := keeps_edit (kept_belonging n) he
  obtain hrun | ⟨err, hrun⟩ := e.action_apply r
  · exact (hkeeps.ok h hrun).1
  · exact hkeeps.error h hrun

/-- what an edit leaves behind, also if it fails -/
theorem made_apply (hw : r.WellFormed) {e : Edit} (he : e.Fits r) (h : Belonging n r) :
    ∃ d args, Made n d args (e.apply r) := by
  by_cases hm : ∃ m args, e = .instantiateMethod m args
  · obtain ⟨m, args, rfl⟩ := hm
    have hitems := he.1
    simp only [Edit.items, List.forall_mem_cons, List.forall_mem_map] at hitems
    obtain ⟨hok, herror⟩ := made_instantiateMethod hw hitems.1 hitems.2 h
    refine ⟨r.methodDefinitionOf m, args, ?_⟩
    obtain ⟨x, hx⟩ | ⟨err, hx⟩ := Edit.instantiateMethod_apply m args r
    · exact (hok x _ hx).1
    · exact herror _ _ hx
  · exact ⟨⟨0⟩, [], (belonging_apply (fun m args heq => hm ⟨m, args, heq⟩) h).toMade _ _⟩

/-- edits keep methods with their types, and instances like their definitions -/
theorem Orderly.owned_and_patterned_apply (ho : r.Orderly) (hown : r.Owned) (hpat : r.Patterned)
    {e : Edit} (he : e.Fits r) : (e.apply r).Owned ∧ (e.apply r).Patterned := by
  have hp := (ho.apply he).persists
  -- instances that were there keep their records, and the edit says what the new ones are
  obtain ⟨d, args, hmade⟩ := made_apply ho.wellFormed he hown.belonging
  refine ⟨hmade.owned, fun x c hx => ?_⟩
  by_cases hnew : r.methods.size ≤ x.index
  · obtain ⟨rfl, hi⟩ := hmade.made x c hnew hx
    exact hi.args_eq ▸ hi
  · have hold : r.Has (.method x) := Nat.not_le.mp hnew
    have hsignature := hp.signature x hold
    simp only [Method.signature, Method.mk.injEq] at hsignature
    obtain ⟨-, -, -, -, -, -, -, -, hargs, horigin, -, -⟩ := hsignature
    rw [Method.genericDefinition?, horigin] at hx
    rw [hargs]
    exact (hpat x c hx).persists ho hp

/-- **Methods belong to the types that list them**, and instances are like their definitions, however
the program was built. -/
theorem Built.owned_and_patterned (h : Built r) : r.Owned ∧ r.Patterned := by
  induction h with
  | core =>
    refine ⟨fun t m hm => ?_, fun x d hx => ?_⟩
    · rw [methods_core] at hm
      cases hm
    · exact absurd (has_of_genericDefinition? hx) (not_has_method_core x)
  | edit hr he ih => exact hr.orderly.owned_and_patterned_apply ih.1 ih.2 he

theorem Built.owned (h : Built r) : r.Owned := h.owned_and_patterned.1

theorem Built.patterned (h : Built r) : r.Patterned := h.owned_and_patterned.2

theorem Built.methodInstance (h : Built r) {d x : MethodId} {args : List TypeId}
    (hx : (r.method x).genericDefinition? = some d) (ha : (r.method x).genericArgs = args) :
    r.MethodInstance d args x :=
  ha ▸ h.patterned x d hx

/-- a call that makes a new method makes an instance of the definition with the given arguments -/
theorem Built.methodInstance_of_new (h : Built r) {m x : MethodId} {args : List TypeId}
    {s : Registry} (hm : r.Has (.method m)) (ha : ∀ a ∈ args, r.Has (.type a))
    (hrun : instantiateMethod m args r = .ok x s) (hnew : ¬ r.Has (.method x)) :
    s.MethodInstance (r.methodDefinitionOf m) args x := by
  obtain ⟨hmade, hold | hdef⟩ :=
    (made_instantiateMethod h.wellFormed hm ha h.owned.belonging).1 x s hrun
  · exact absurd hold hnew
  · exact (hmade.made x _ (Nat.not_lt.mp hnew) hdef).2

end Registry

end ProgramScan

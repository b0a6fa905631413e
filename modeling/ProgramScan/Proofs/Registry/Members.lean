import ProgramScan.Proofs.Registry.Instances

/-!
# Members of instances

Instances of methods are found again once they were made (`builds_instantiateMethod`), and with them
the members of instances and what tokens denote under a generic context (`builds_resolveToken`).
-/

namespace ProgramScan

namespace Registry

/-! ## instances of methods -/

theorem WellFormed.genericDefinition {r : Registry} (hw : r.WellFormed) {m d : MethodId}
    (hm : r.Has (.method m)) (hd : (r.method m).genericDefinition? = some d) :
    r.Has (.method d) := by
  refine hw.source hm ?_
  cases ho : (r.method m).origin <;> simp_all [Method.genericDefinition?, MethodOrigin.source?]

theorem WellFormed.declaringArg {r : Registry} (hw : r.WellFormed) {m : MethodId}
    (hm : r.Has (.method m)) {t : TypeId} (ht : t ∈ r.declaringArgs m) : r.Has (.type t) := by
  simp only [declaringArgs] at ht
  cases hd : (r.method m).declaring with
  | none => simp [hd] at ht
  | some declaring =>
    rw [hd] at ht
    exact hw.genericArgOf (hw.declaring hm hd) ht

theorem WellFormed.instanceContext {r : Registry} (hw : r.WellFormed) {m : MethodId}
    (hm : r.Has (.method m)) {args : List TypeId} (ha : ∀ a ∈ args, r.Has (.type a)) :
    r.HasContext ⟨r.declaringArgs m, args⟩ := by
  intro t ht
  rcases List.mem_append.mp ht with ht | ht
  · exact hw.declaringArg hm ht
  · exact ha t ht

theorem WellFormed.contextOf {r : Registry} (hw : r.WellFormed) {m : MethodId}
    (hm : r.Has (.method m)) : r.HasContext (r.contextOf m) :=
  hw.instanceContext hm fun _ => hw.genericArg hm

def methodInstanceKey (r : Registry) (definition : MethodId) (args : List TypeId) : String :=
  r.instanceKey (r.methodKey definition) args

/-- the definition of an instance of a method, any other method itself -/
def methodDefinitionOf (r : Registry) (m : MethodId) : MethodId :=
  (r.method m).genericDefinition?.getD m

/-- makes an instance of a method that does not exist yet -/
def makeMethodInstance (r : Registry) (definition : MethodId) (args : List TypeId) :
    Action MethodId := do
  let d := r.method definition
  let ctx : GenericContext := ⟨r.declaringArgs definition, args⟩
  let returnType ← substitute ctx d.returnType
  let params ← substituteParams (substitute ctx) d.params
  let inst ← addMethod
    { d with returnType, params, genericArgs := args, origin := .instanceOf definition,
             body := none }
  modify fun s =>
    { s with methodInstances := s.methodInstances.insert (r.methodInstanceKey definition args) inst }
  return inst

theorem instantiateMethod_apply (r : Registry) (m : MethodId) (args : List TypeId) :
    instantiateMethod m args r =
      let definition := r.methodDefinitionOf m
      let d := r.method definition
      let noted := r.useNames (r.methodUses definition)
      if d.genericArgs.length != args.length || args.isEmpty then
        .error (.methodArity (r.methodName definition) d.genericArgs.length args.length) noted
      else
        match r.methodInstances.get? (r.methodInstanceKey definition args) with
        | some inst => .ok inst (noted.useNames args)
        | none => makeMethodInstance r definition args (noted.useNames args) := by
  show (if (r.method (r.methodDefinitionOf m)).genericArgs.length != args.length || args.isEmpty
    then _ else _ : Action MethodId) _ = _
  simp only
  by_cases hc : ((r.method (r.methodDefinitionOf m)).genericArgs.length != args.length ||
      args.isEmpty) = true
  · rw [if_pos hc, if_pos hc]
    rfl
  · rw [if_neg hc, if_neg hc]
    show (match r.methodInstances.get? (r.methodInstanceKey (r.methodDefinitionOf m) args) with
      | some inst => _
      | none => _ : Action MethodId) _ = _
    cases r.methodInstances.get? (r.methodInstanceKey (r.methodDefinitionOf m) args) <;> rfl

/-- The number of arguments is wrong, or the instance is remembered, or it is made. -/
theorem instantiateMethod_cases (r : Registry) (m : MethodId) (args : List TypeId) :
    (∃ e, instantiateMethod m args r =
      .error e (r.useNames (r.methodUses (r.methodDefinitionOf m)))) ∨
    ¬ ((r.method (r.methodDefinitionOf m)).genericArgs.length != args.length ||
        args.isEmpty) = true ∧
      ((∃ inst, r.methodInstances.get? (r.methodInstanceKey (r.methodDefinitionOf m) args) = some inst ∧
          instantiateMethod m args r =
            .ok inst ((r.useNames (r.methodUses (r.methodDefinitionOf m))).useNames args)) ∨
        r.methodInstances.get? (r.methodInstanceKey (r.methodDefinitionOf m) args) = none ∧
          instantiateMethod m args r = makeMethodInstance r (r.methodDefinitionOf m) args
            ((r.useNames (r.methodUses (r.methodDefinitionOf m))).useNames args)) := by
  have hrun := instantiateMethod_apply r m args
  dsimp only at hrun
  by_cases hc : ((r.method (r.methodDefinitionOf m)).genericArgs.length != args.length ||
      args.isEmpty) = true
  · rw [if_pos hc] at hrun
    exact .inl ⟨_, hrun⟩
  · rw [if_neg hc] at hrun
    refine .inr ⟨hc, ?_⟩
    cases hk : r.methodInstances.get? (r.methodInstanceKey (r.methodDefinitionOf m) args) with
    | some inst =>
      rw [hk] at hrun
      exact .inl ⟨inst, rfl, hrun⟩
    | none =>
      rw [hk] at hrun
      exact .inr ⟨rfl, hrun⟩

section
variable {r r' : Registry} {m : MethodId} {args : List TypeId}

theorem Grows.methodDefinitionOf (hg : r.Grows r') (hm : r.Has (.method m)) :
    r'.methodDefinitionOf m = r.methodDefinitionOf m := by
  simp only [Registry.methodDefinitionOf, hg.method hm]

theorem WellFormed.methodDefinitionOf (hw : r.WellFormed) (hm : r.Has (.method m)) :
    r.Has (.method (r.methodDefinitionOf m)) := by
  simp only [Registry.methodDefinitionOf]
  cases hd : (r.method m).genericDefinition? with
  | none => exact hm
  | some d => exact hw.genericDefinition hm hd

theorem Grows.methodInstanceKey (hg : r.Grows r') (hw : r.WellFormed) (hm : r.Has (.method m))
    (ha : ∀ a ∈ args, r.Has (.type a)) :
    r'.methodInstanceKey m args = r.methodInstanceKey m args := by
  rw [Registry.methodInstanceKey, Registry.methodInstanceKey, hg.methodKey hw hm,
    hg.instanceKey _ ha]

/-- an instance that is remembered is not made again -/
theorem settled_instantiateMethod (hw : r.WellFormed) (hm : r.Has (.method m))
    (ha : ∀ a ∈ args, r.Has (.type a))
    (hc : ¬ ((r.method (r.methodDefinitionOf m)).genericArgs.length != args.length ||
      args.isEmpty) = true) {inst : MethodId}
    (hk : r.methodInstances.get? (r.methodInstanceKey (r.methodDefinitionOf m) args) = some inst) :
    Settled (instantiateMethod m args) inst r := by
  intro s hg _
  have hd := hw.methodDefinitionOf hm
  rw [instantiateMethod_apply]
  simp only [hg.methodDefinitionOf hm, hg.method hd, hg.methodInstanceKey hw hd ha,
    hg.methodInstances _ _ hk, if_neg hc]
  refine ⟨_, rfl, ?_⟩
  rw [forget_useNames, forget_useNames]

theorem builds_signature (hw : r.WellFormed) {ctx : GenericContext} (hctx : r.HasContext ctx)
    {returnType : TypeId} (ht : r.Has (.type returnType)) {params : List Param}
    (hp : ∀ p ∈ params, r.Has (.type p.type)) :
    Builds (do
        let returnType ← substitute ctx returnType
        let params ← substituteParams (substitute ctx) params
        return (returnType, params)) r
      fun found s => (s.Has (.type found.1) ∧ ∀ p ∈ found.2, s.Has (.type p.type)) ∧
        s.methodInstances = r.methodInstances := by
  refine Builds.bind (builds_substitute hw hctx ht) fun t s hg hw' h => ?_
  have hsub : ∀ u s', r.Grows s' → s'.WellFormed → s'.Has (.type u) →
      s'.methodInstances = r.methodInstances →
      Builds (substitute ctx u) s' (FoundType r.methodInstances) := by
    intro u s' hg' hw'' hu hm
    have hb := builds_substitute hw'' (hg'.hasContext hctx) hu
    rwa [hm] at hb
  refine Builds.bind (builds_substituteParams hsub hg hw' h.2 fun p hmem => hg.has (hp p hmem)) ?_
  intro ps s' hg' hw'' hps
  exact .pure hw'' ⟨⟨hg'.has h.1, hps.1⟩, hps.2⟩

/-- what making an instance of a method leaves behind -/
theorem makeMethodInstance_spec (hw : r.WellFormed) (hm : r.Has (.method m))
    (ha : ∀ a ∈ args, r.Has (.type a)) {s : Registry} (hf : s.forget = r.forget)
    (hk : r.methodInstances.get? (r.methodInstanceKey m args) = none) :
    match makeMethodInstance r m args s with
    | .ok inst s' =>
      r.Grows s' ∧ s'.WellFormed ∧ s'.Has (.method inst) ∧
        s'.methodInstances.get? (r.methodInstanceKey m args) = some inst
    | .error _ s' => r.Grows s' ∧ s'.WellFormed := by
  have hg₀ : r.Grows s := .of_forget hf.symm
  have hb := builds_signature (hw.of_forget hf.symm) (hg₀.hasContext (hw.instanceContext hm ha))
    (hg₀.has (hw.returnType hm)) fun p hp => hg₀.has (hw.param hm (List.mem_map_of_mem hp))
  have hrun : makeMethodInstance r m args = (do
      let found ← (do
        let returnType ← substitute ⟨r.declaringArgs m, args⟩ (r.method m).returnType
        let params ← substituteParams (substitute ⟨r.declaringArgs m, args⟩) (r.method m).params
        return (returnType, params))
      let inst ← addMethod
        { r.method m with
          returnType := found.1, params := found.2, genericArgs := args,
          origin := .instanceOf m, body := none }
      modify fun s =>
        { s with methodInstances := s.methodInstances.insert (r.methodInstanceKey m args) inst }
      return inst) := by
    simp only [makeMethodInstance, bind_assoc, pure_bind]
  rw [hrun, bind_apply]
  cases hsig : (do
      let returnType ← substitute ⟨r.declaringArgs m, args⟩ (r.method m).returnType
      let params ← substituteParams (substitute ⟨r.declaringArgs m, args⟩) (r.method m).params
      return (returnType, params) : Action (TypeId × List Param)) s with
  | error e s' =>
    obtain ⟨hg, hw'⟩ := hb.error hsig
    exact ⟨hg₀.trans hg, hw'⟩
  | ok found s' =>
    obtain ⟨hg, hw', -, ⟨ht, hp⟩, hmemo⟩ := hb.ok hsig
    let inst : Method :=
      { r.method m with
        returnType := found.1, params := found.2, genericArgs := args, origin := .instanceOf m,
        body := none }
    have hgs := hg₀.trans hg
    have hitems : ∀ x ∈ inst.items, s'.Has x := by
      refine Method.forall_items rfl (fun t hdecl => hgs.has (hw.declaring hm hdecl)) ht hp
        (fun a hmem => hgs.has (ha a hmem)) fun x hx => ?_
      obtain rfl := Option.some.inj hx
      exact hgs.has hm
    have hnone : s'.methodInstances.get? (r.methodInstanceKey m args) = none := by
      rw [hmemo, methodInstances_of_forget hf, hk]
    have hnew : Registry.Has { s' with methods := s'.methods.push inst }
        (.method ⟨s'.methods.size⟩) := by
      show s'.methods.size < (s'.methods.push inst).size
      simp
    have hg₂ := (hgs.trans (.push_method s' inst)).trans
      (.insert_methodInstance ⟨s'.methods.size⟩ hnone)
    exact ⟨hg₂, (hw'.push_method hitems).insert_methodInstance hnew _, hnew,
      Table.get?_insert_self _ _ _⟩

theorem builds_instantiateMethod (hw : r.WellFormed) (hm : r.Has (.method m))
    (ha : ∀ a ∈ args, r.Has (.type a)) :
    Builds (instantiateMethod m args) r fun inst s => s.Has (.method inst) := by
  have hd := hw.methodDefinitionOf hm
  let noted := r.useNames (r.methodUses (r.methodDefinitionOf m))
  have hgn : r.Grows (noted.useNames args) := (Grows.useNames r _).trans (.useNames noted _)
  refine .of_run ?_
  obtain ⟨e, hrun⟩ | ⟨hc, ⟨inst, hk, hrun⟩ | ⟨hk, hrun⟩⟩ := instantiateMethod_cases r m args
  · rw [hrun]
    exact ⟨.useNames r _, hw.useNames _⟩
  · rw [hrun]
    exact ⟨hgn, (hw.useNames _).useNames _,
      (settled_instantiateMethod hw hm ha hc hk).mono hgn, hgn.has (hw.methodInstance hk)⟩
  · have hf : (noted.useNames args).forget = r.forget := by
      rw [forget_useNames, forget_useNames]
    have hspec := makeMethodInstance_spec hw hd ha hf hk
    rw [hrun]
    cases hmake : makeMethodInstance r (r.methodDefinitionOf m) args (noted.useNames args) with
    | error e s =>
      rw [hmake] at hspec
      exact hspec
    | ok inst s =>
      rw [hmake] at hspec
      obtain ⟨hg, hw', hhas, hknown⟩ := hspec
      refine ⟨hg, hw', ?_, hhas⟩
      -- the instance is there when it is asked for again
      refine settled_instantiateMethod hw' (hg.has hm) (fun a h => hg.has (ha a h)) ?_ ?_
      · rwa [hg.methodDefinitionOf hm, hg.method hd]
      · rwa [hg.methodDefinitionOf hm, hg.methodInstanceKey hw hd ha]

end

/-! ## members and tokens -/

theorem correspondingMethod_found {r r' : Registry} {owner : TypeId} {m found : MethodId}
    (h : correspondingMethod owner m r = .ok found r') :
    found ∈ (r.type owner).methods ∧
      r.stemsFrom ((r.method m).memberDefinition?.getD m) found = true ∧ r' = r := by
  rw [correspondingMethod, get_bind_apply] at h
  cases hfound : (r.type owner).methods.find?
      (r.stemsFrom ((r.method m).memberDefinition?.getD m)) with
  | none =>
    simp only [hfound] at h
    cases h
  | some found =>
    simp only [hfound] at h
    cases h
    exact ⟨List.mem_of_find?_eq_some hfound, List.find?_some hfound, rfl⟩

section
variable {r : Registry} (hw : r.WellFormed)
include hw

theorem builds_correspondingMethod {owner : TypeId} (ho : r.Has (.type owner)) {m : MethodId}
    (hm : r.Has (.method m)) :
    Builds (correspondingMethod owner m) r fun found s => s.Has (.method found) := by
  have hfind : ∀ {r'}, r.Grows r' → ∀ root,
      (r.type owner).methods.find? (r'.stemsFrom root) =
        (r.type owner).methods.find? (r.stemsFrom root) :=
    fun hg _ => find?_congr_mem fun c hc => hg.stemsFrom (hw.methodOf ho hc)
  refine Builds.get ?_ fun r' hg _ => ?_
  · simp only
    split
    · rename_i found hf
      exact .pure hw (hw.methodOf ho (List.mem_of_find?_eq_some hf))
    · refine Builds.noting hw ?_
      intro r' _ hw'
      exact .throw hw' _
  · simp only [hg.method hm, hg.type ho, hfind hg, hg.methodName hw hm, hg.fullName ho]

variable {ctx : GenericContext} (hctx : r.HasContext ctx)
include hctx

theorem builds_rehome {m : MethodId} (hm : r.Has (.method m)) :
    Builds (rehome ctx m) r fun found s => s.Has (.method found) := by
  refine Builds.get ?_ fun r' hg _ => ?_
  · cases hd : (r.method m).declaring with
    | none => exact .pure hw hm
    | some declaring =>
      have hdecl := hw.declaring hm hd
      simp only
      split
      · exact .pure hw hm
      · refine Builds.bind (builds_substitute hw hctx hdecl) fun owner s hg hw' ho => ?_
        split
        · exact .pure hw' (hg.has hm)
        · exact builds_correspondingMethod hw' ho.1 (hg.has hm)
  · rw [hg.method hm]
    cases hd : (r.method m).declaring with
    | none => rfl
    | some declaring => simp only [hg.isOpen hw (hw.declaring hm hd)]

theorem builds_substituteMethod {m : MethodId} (hm : r.Has (.method m)) :
    Builds (substituteMethod ctx m) r fun found s => s.Has (.method found) := by
  refine Builds.get ?_ fun r' hg _ => by rw [hg.method hm]
  cases hd : (r.method m).genericDefinition? with
  | none => exact builds_rehome hw hctx hm
  | some definition =>
    refine Builds.bind (builds_rehome hw hctx (hw.genericDefinition hm hd)) ?_
    intro target s hg hw' htarget
    refine Builds.bind (builds_substituteAll hw' (hg.hasContext hctx)
      fun t ht => hg.has (hw.genericArg hm ht)) ?_
    intro args s' hg' hw'' hargs
    exact builds_instantiateMethod hw'' (hg'.has htarget) hargs

theorem builds_substituteField {f : FieldId} (hf : r.Has (.field f)) :
    Builds (substituteField ctx f) r fun found s => s.Has (.field found) := by
  have hdecl := hw.declaringOf hf
  refine Builds.get ?_ fun r' hg _ => ?_
  · simp only
    split
    · exact .pure hw hf
    · refine Builds.bind (builds_substitute hw hctx hdecl) fun owner s hg hw' ho => ?_
      refine Builds.get ?_ fun s' hg' _ => by rw [hg'.fieldNamed? hw' ho.1]
      split
      · rename_i found hfound
        exact .pure hw' (hw'.fieldOf ho.1 (List.mem_of_find?_eq_some hfound))
      · refine Builds.noting hw' ?_
        intro s' _ hw''
        exact .throw hw'' _
  · simp only [hg.field hf, hg.isOpen hw hdecl, hg.fieldName hw hf]

/-- what a token denotes mentions elements of the program only -/
theorem builds_resolveToken (module : ModuleId) (token : Token) :
    Builds (resolveToken module token ctx) r fun found s => ∀ x ∈ found.items, s.Has x := by
  refine Builds.get ?_ fun r' hg _ => by rw [hg.module, hg.moduleName]
  cases ht : (r.module module).tokens.get? token with
  | none => exact .throw hw _
  | some target =>
    have hitems : ∀ x ∈ target.items, r.Has x := fun x hx => hw.tokenTarget ht hx
    cases target with
    | type t =>
      cases t with
      | none => exact .throw hw _
      | some t =>
        refine Builds.bind (builds_substitute hw hctx (hitems _ (List.mem_singleton.mpr rfl))) ?_
        intro found s _ hw' h
        exact .pure hw' fun x hx => by
          rw [List.mem_singleton.mp hx]
          exact h.1
    | method m =>
      cases m with
      | none => exact .throw hw _
      | some m =>
        refine Builds.bind
          (builds_substituteMethod hw hctx (hitems _ (List.mem_singleton.mpr rfl))) ?_
        intro found s _ hw' h
        exact .pure hw' fun x hx => by
          rw [List.mem_singleton.mp hx]
          exact h
    | field f =>
      cases f with
      | none => exact .throw hw _
      | some f =>
        refine Builds.bind
          (builds_substituteField hw hctx (hitems _ (List.mem_singleton.mpr rfl))) ?_
        intro found s _ hw' h
        exact .pure hw' fun x hx => by
          rw [List.mem_singleton.mp hx]
          exact h
    | string text => exact .pure hw fun x hx => by cases hx
    | signature site => exact .pure hw hitems

end

end Registry

end ProgramScan

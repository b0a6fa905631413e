import ProgramScan.Proofs.Registry.Making

/-!
# Instances are made with their members

An instance is remembered before it has members.  While they are made, types that are made on the way
may refer to it, and it is the only type whose members change.  `Filling` is what holds meanwhile: the
instance has some of the members of its definition.  At the end it has all of them
(`changes_populate`); by then it is an instance like any other, and what happened is a `Step` from the
program before it (`Step.close`).
-/

namespace ProgramScan

namespace Registry

variable {r r' s s' : Registry}

/-! ## members that are made -/

/-- In the orderly program `s`, the instance has the given base, interfaces, fields and methods with
the arguments for the type parameters, and no others so far. -/
structure Filling (s : Registry) (inst : TypeId) (args : List TypeId) (base : Option TypeId)
    (interfaces : List TypeId) (fields : List FieldId) (methods : List MethodId) : Prop where
  orderly : s.Orderly
  has : s.Has (.type inst)
  hasArgs : ∀ a ∈ args, s.Has (.type a)
  hasFields : ∀ f ∈ fields, s.Has (.field f)
  hasMethods : ∀ m ∈ methods, s.Has (.method m)
  carries : s.Carries inst args (s.type inst) base interfaces fields methods

section
variable {inst : TypeId} {args : List TypeId} {base : Option TypeId} {interfaces : List TypeId}
  {fields : List FieldId} {methods : List MethodId}
  (h : s.Filling inst args base interfaces fields methods)
include h

theorem Filling.carries_later (hp : s.Persists s') :
    s'.Carries inst args (s.type inst) base interfaces fields methods := by
  refine Carries.mono hp h.carries ?_ ?_
  · intro f hf
    rcases List.mem_append.mp hf with hf | hf
    · exact h.hasFields f hf
    · exact h.orderly.wellFormed.fieldOf h.has hf
  · intro m hm
    rcases List.mem_append.mp hm with hm | hm
    · exact h.hasMethods m hm
    · exact h.orderly.wellFormed.methodOf h.has hm

/-- the instance stays as it is while its members do -/
theorem Filling.later (hp : s.Persists s') (ho : s'.Orderly)
    (hm : (s'.type inst).members = (s.type inst).members) :
    s'.Filling inst args base interfaces fields methods where
  orderly := ho
  has := hp.has _ h.has
  hasArgs a ha := hp.has _ (h.hasArgs a ha)
  hasFields f hf := hp.has _ (h.hasFields f hf)
  hasMethods m hm := hp.has _ (h.hasMethods m hm)
  carries := (h.carries_later hp).congr hm

theorem Filling.step (hs : Step [] s s') :
    s'.Filling inst args base interfaces fields methods :=
  h.later hs.persists hs.orderly (hs.members inst h.has List.not_mem_nil)

/-- an operation that changes no members -/
theorem Filling.keep {α : Type} {act : Action α} {Q : α → Registry → Prop}
    (hact : Changes [] act s Q) :
    Changes [inst] act s fun _ s' => s'.Filling inst args base interfaces fields methods :=
  hact.frame.weaken fun _ _ _ hs => h.step hs.1

/-- the instance changes -/
theorem Filling.modify {f : TypeDecl → TypeDecl} (hs : Step [inst] s' (s.modifyType inst f))
    (hp : s.Persists (s.modifyType inst f))
    {base' : Option TypeId} {interfaces' : List TypeId} {fields' : List FieldId}
    {methods' : List MethodId} (hf : ∀ f ∈ fields', s.Has (.field f))
    (hm : ∀ m ∈ methods', s.Has (.method m))
    (hc : (s.modifyType inst f).Carries inst args (f (s.type inst)) base' interfaces' fields'
      methods') :
    (s.modifyType inst f).Filling inst args base' interfaces' fields' methods' where
  orderly := hs.orderly
  has := hp.has _ h.has
  hasArgs a ha := hp.has _ (h.hasArgs a ha)
  hasFields f hmem := hp.has _ (hf f hmem)
  hasMethods m hmem := hp.has _ (hm m hmem)
  carries := by
    rw [type_modifyType_self s h.has f]
    exact hc

theorem Filling.not_member {m : MethodId} (hl : s.Listed) (hfree : m ∉ methods) {y : MethodId}
    (hy : (s.method y).origin = .memberOf m) : (s.method y).declaring ≠ some inst := by
  intro hdecl
  have hgeneric : (s.method y).genericDefinition? = none := by
    rw [Method.genericDefinition?, hy]
  obtain ⟨c, hc, hcy⟩ := exists_of_forall₂ h.carries.methods y
    ((hl.methods inst y).mpr ⟨hdecl, hgeneric⟩)
  have horigin := hcy.origin
  rw [hy] at horigin
  cases horigin
  exact hfree hc

variable {sub : TypeId → Action TypeId}
  (hsub : ∀ {s : Registry} {u : TypeId}, s.Orderly → (∀ a ∈ args, s.Has (.type a)) →
    s.Has (.type u) → Changes [] (sub u) s fun v s' => s'.Has (.type v) ∧ s'.Becomes args u v)
include hsub

/-- a type of a member is made while the instance waits -/
theorem changes_sub {u : TypeId} (hu : s.Has (.type u)) :
    Changes [inst] (sub u) s fun v s' => (s'.Filling inst args base interfaces fields methods ∧
      s'.Has (.type v) ∧ s'.Becomes args u v) ∧ Step [] s s' :=
  (hsub h.orderly h.hasArgs hu).frame.weaken fun _ _ _ hv => ⟨⟨h.step hv.1, hv.2⟩, hv.1⟩

theorem changes_instantiateBase {b : TypeId} (hb : s.Has (.type b))
    (hnone : (s.type inst).base = none) :
    Changes [inst] (instantiateBase sub inst b) s fun _ s' =>
      s'.Filling inst args (some b) interfaces fields methods := by
  refine Changes.bind (changes_sub h hsub hb) ?_
  rintro v s₁ - ⟨⟨h₁, hv, hbv⟩, hs₁⟩
  have hnone₁ : (s₁.type inst).base = none :=
    (congrArg (·.1) (hs₁.members inst h.has List.not_mem_nil)).trans hnone
  let f : TypeDecl → TypeDecl := fun d => { d with base := some v }
  have hstep : Step [inst] s₁ (s₁.modifyType inst f) :=
    step_setBase h₁.orderly List.mem_cons_self hv
  have hrun : (liftM (setBase inst v) : Action Bool) s₁ = .ok true (s₁.modifyType inst f) := by
    have hif : (setBase inst v).run s₁ =
        if (s₁.type inst).base.isSome then (false, s₁) else (true, s₁.modifyType inst f) := rfl
    rw [lift_apply, hif, hnone₁]
    rfl
  refine Changes.bind (.of_ok (Q := fun _ s' => s' = s₁.modifyType inst f) hrun hstep rfl) ?_
  rintro _ s₂ hs₂ rfl
  refine .pure hs₂.orderly (h₁.modify hstep hstep.persists h₁.hasFields h₁.hasMethods ?_)
  exact { h₁.carries_later hstep.persists with base := .some (hbv.mono hstep.persists) }

theorem changes_instantiateInterface {i : TypeId} (hi : s.Has (.type i)) :
    Changes [inst] (instantiateInterface sub inst i) s fun _ s' =>
      s'.Filling inst args base (interfaces ++ [i]) fields methods := by
  refine Changes.bind (changes_sub h hsub hi) ?_
  rintro v s₁ - ⟨⟨h₁, hv, hiv⟩, -⟩
  refine (changes_addInterface h₁.orderly List.mem_cons_self hv).weaken ?_
  rintro _ s₂ hs₂ rfl
  refine h₁.modify hs₂ hs₂.persists h₁.hasFields h₁.hasMethods ?_
  have hc := h₁.carries_later hs₂.persists
  exact { hc with
    interfaces := List.rel_append hc.interfaces (.cons (hiv.mono hs₂.persists) .nil) }

theorem changes_instantiateField {f : FieldId} (hf : s.Has (.field f)) :
    Changes [inst] (instantiateField sub inst f) s fun _ s' =>
      s'.Filling inst args base interfaces (fields ++ [f]) methods := by
  refine Changes.get ?_
  refine Changes.bind (changes_sub h hsub (h.orderly.wellFormed.typeOf hf)) ?_
  rintro v s₁ - ⟨⟨h₁, hv, hfv⟩, hs₁⟩
  -- the copy is added, then given to the instance
  let copy : Field := { s.field f with declaring := inst, type := v }
  have hitems : ∀ x ∈ copy.items, s₁.Has x := by
    intro x hx
    simp only [Field.items, List.mem_cons, List.not_mem_nil, or_false, copy] at hx
    rcases hx with rfl | rfl
    · exact h₁.has
    · exact hv
  refine Changes.bind (Changes.frame (changes_addField h₁.orderly hitems)) ?_
  rintro g s₂ - ⟨hs₂, hg, hcopy⟩
  have h₂ := h₁.step hs₂
  refine (changes_attachField h₂.orderly List.mem_cons_self hg (congrArg Field.declaring hcopy)).weaken ?_
  rintro _ s₃ hs₃ rfl
  have hp : s.Persists s₂ := hs₁.persists.trans hs₂.persists
  have hfields : ∀ c ∈ fields ++ [f], s₂.Has (.field c) := by
    intro c hc
    rcases List.mem_append.mp hc with hc | hc
    · exact h₂.hasFields c hc
    · rw [List.mem_singleton.mp hc]
      exact hp.has _ hf
  have hfg : s₂.FieldBecomes inst args f g := by
    have hff : s₂.field f = s.field f := hp.field f hf
    refine ⟨v, ?_, ?_⟩
    · rw [hff]
      exact hfv.mono hs₂.persists
    · rw [hff]
      exact hcopy
  refine h₂.modify hs₃ hs₃.persists hfields h₂.hasMethods ?_
  have hc := h₂.carries_later hs₃.persists
  exact { hc with
    fields := List.rel_append hc.fields
      (.cons (hfg.mono hs₃.persists (hp.has _ hf) hg) .nil) }

theorem changes_substituteParams {params : List Param} (hp : ∀ p ∈ params, s.Has (.type p.type)) :
    Changes [inst] (substituteParams sub params) s fun ps s' =>
      (s'.Filling inst args base interfaces fields methods ∧ (∀ p ∈ ps, s'.Has (.type p.type)) ∧
        List.Forall₂ (s'.ParamBecomes args) params ps) ∧ Step [] s s' := by
  have hall : Changes [] (substituteParams sub params) s fun ps s' =>
      List.Forall₂ (fun p q => s'.Has (.type q.type) ∧ s'.ParamBecomes args p q) params ps := by
    refine changes_mapM (R := fun p q s' => s'.Has (.type q.type) ∧ s'.ParamBecomes args p q)
      ?_ h.orderly ?_
    · intro p q s₁ s₂ hs hq
      exact ⟨hs.persists.has _ hq.1, hq.2.mono hs.persists⟩
    · intro p hmem s₁ hs₁
      have h₁ := h.step hs₁
      refine Changes.bind (hsub h₁.orderly h₁.hasArgs (hs₁.persists.has _ (hp p hmem))) ?_
      intro v s₂ hs₂ hv
      exact .pure hs₂.orderly ⟨hv.1, v, hv.2, rfl⟩
  refine hall.frame.weaken ?_
  rintro ps s₁ - ⟨hs₁, hps⟩
  refine ⟨⟨h.step hs₁, ?_, ?_⟩, hs₁⟩
  · exact forall_of_forall₂ hps fun _ _ hpq => hpq.1
  · exact hps.imp fun _ _ hpq => hpq.2

theorem changes_instantiateMember {kind : TypeKind} {definition : TypeId}
    (hform : (s.type inst).form = .instantiated kind definition args)
    {m : MethodId} (hm : m ∈ (s.type definition).methods)
    (hfree : (s.type definition).methods.Nodup → m ∉ methods) :
    Changes [inst] (instantiateMember sub inst m) s fun _ s' =>
      s'.Filling inst args base interfaces fields (methods ++ [m]) := by
  have hw := h.orderly.wellFormed
  have hd : s.Has (.type definition) := hw.definition h.has (by rw [hform]; rfl)
  have hmhas : s.Has (.method m) := hw.methodOf hd hm
  refine Changes.get ?_
  refine Changes.bind (changes_sub h hsub (hw.returnType hmhas)) ?_
  rintro v s₁ - ⟨⟨h₁, hv, hmv⟩, hs₁⟩
  have hparams : ∀ p ∈ (s.method m).params, s₁.Has (.type p.type) := fun p hp =>
    hs₁.persists.has _ (hw.param hmhas (List.mem_map_of_mem hp))
  refine Changes.bind (changes_substituteParams h₁ hsub hparams) ?_
  rintro ps s₂ - ⟨⟨h₂, hps, hmps⟩, hs₂⟩
  have hs : Step [] s s₂ := hs₁.trans hs₂
  have hsig := hs.persists.signature m hmhas
  let copy : Method :=
    { s.method m with
      declaring := some inst, returnType := v, params := ps, origin := .memberOf m, body := none }
  have hitems : ∀ x ∈ copy.items, s₂.Has x := by
    refine Method.forall_items rfl (fun t ht => ?_) (hs₂.persists.has _ hv) hps
      (fun a ha => hs.persists.has _ (hw.genericArg hmhas ha)) fun x hx => ?_
    · obtain rfl := Option.some.inj ht
      exact h₂.has
    · obtain rfl := Option.some.inj hx
      exact hs.persists.has _ hmhas
  -- the copy is added, then given to the instance
  let s₃ : Registry := { s₂ with methods := s₂.methods.push copy }
  have hp₃ : s₂.Persists s₃ := .of_grows (.push_method s₂ copy) fun _ h => h
  have ho₃ : s₃.Orderly := h₂.orderly.of_persists hp₃ (h₂.orderly.wellFormed.push_method hitems) rfl rfl
  have h₃ : s₃.Filling inst args base interfaces fields methods := h₂.later hp₃ ho₃ rfl
  have hnew : s₃.Has (.method s₂.nextMethod) := by
    show s₂.methods.size < (s₂.methods.push copy).size
    simp
  have hp₄ : s₃.Persists (s₂.enlist inst copy) := .modifyType s₃ inst (fun _ => rfl) fun _ => rfl
  have hmn : s₃.MethodBecomes inst args m s₂.nextMethod := by
    have hold : s₃.method m = s₂.method m :=
      method_push_of_has s₂ copy (hs.persists.has _ hmhas)
    have hreturn : (s₂.method m).returnType = (s.method m).returnType := congrArg (·.returnType) hsig
    have hpars : (s₂.method m).params = (s.method m).params := congrArg (·.params) hsig
    refine ⟨v, ps, ?_, ?_, ?_⟩
    · rw [hold, hreturn]
      exact hmv.mono (hs₂.persists.trans hp₃)
    · rw [hold, hpars]
      exact hmps.imp fun _ _ hpq => hpq.mono hp₃
    · rw [hold, show s₃.method s₂.nextMethod = copy from method_push_next s₂ copy]
      exact congrArg (fun d : Method =>
        { d with declaring := some inst, returnType := v, params := ps, origin := .memberOf m })
        hsig.symm
  have hhas₃ : s₃.Has (.method m) := (hs.persists.trans hp₃).has _ hmhas
  have hmn₄ : (s₂.enlist inst copy).MethodBecomes inst args m s₂.nextMethod :=
    hmn.mono hp₄ hhas₃ hnew
  have hstep : Step [inst] s₂ (s₂.enlist inst copy) := by
    refine step_enlist h₂.orderly List.mem_cons_self h₂.has hitems rfl rfl fun hl c hc => ?_
    cases hc
    have hlists : (s₂.type definition).methods = (s.type definition).methods :=
      congrArg (·.2.2.2) (hs.members definition hd List.not_mem_nil)
    have hlisted := (hl.methods definition m).mp (by rw [hlists]; exact hm)
    have hp : s₂.Persists (s₂.enlist inst copy) := hp₃.trans hp₄
    have hsig₄ := hp.signature m (hs.persists.has _ hmhas)
    refine ⟨⟨?_, kind, definition, args, ?_, ?_, hmn₄⟩, fun y hy => ?_⟩
    · refine (congrArg Method.origin hsig₄).trans (hl.origin (t := definition) (by rwa [hlists]) ?_)
      rw [hs.persists.form hd]
      have hdefines := (h.orderly.placed inst h.has).definition definition (by rw [hform]; rfl)
      exact TypeForm.definition?_of_isDefinition hdefines.isDefinition
    · rw [form_enlist, hs.persists.form h.has, hform]
    · exact (congrArg Method.declaring hsig₄).trans hlisted.1
    · exact h₂.not_member hl (hfree (hlists ▸ hl.nodup definition)) hy
  refine .of_ok rfl hstep ?_
  refine h₃.modify hstep hp₄ h₃.hasFields ?_ ?_
  · intro c hc
    rcases List.mem_append.mp hc with hc | hc
    · exact h₃.hasMethods c hc
    · rw [List.mem_singleton.mp hc]
      exact hhas₃
  · have hc := h₃.carries_later hp₄
    exact { hc with methods := List.rel_append hc.methods (.cons hmn₄ .nil) }

end

/-! ## what an instance takes over as it is -/

section
variable (ho : s.Orderly) (inst : TypeId)
include ho

theorem changes_nestWithin (outer? : Option TypeId)
    (houter : ∀ outer, outer? = some outer → s.Has (.type outer)) :
    Changes [] (outer?.forM fun outer => (modify (·.nestIn inst outer) : Action Unit)) s
      fun _ _ => True :=
  .optionForM (P := fun _ _ => True) ho trivial fun outer h =>
    .of_ok rfl (step_nestIn ho inst (houter outer h)) trivial

theorem changes_packWithin (packing? : Option UInt16) :
    Changes [] (packing?.forM fun packing => (liftM (setPacking inst packing) : Action Unit)) s
      fun _ _ => True :=
  .optionForM (P := fun _ _ => True) ho trivial fun packing _ => changes_setPacking ho inst packing

theorem changes_sizeWithin (size? : Option UInt32) :
    Changes [] (size?.forM fun size => (liftM (setClassSize inst size) : Action Unit)) s
      fun _ _ => True :=
  .optionForM (P := fun _ _ => True) ho trivial fun size _ => changes_setClassSize ho inst size

theorem changes_annotateAll (marks : List Annotation)
    (hm : ∀ mark ∈ marks, ∀ x ∈ mark.items, s.Has x) :
    Changes [] (marks.forM fun mark => (liftM (annotate inst mark) : Action Unit)) s
      fun _ _ => True :=
  .forM (P := fun _ _ => True) ho trivial fun _ mark _ _ hmark _ hs' _ =>
    changes_annotate hs'.orderly inst fun x hx => hs'.persists.has x (hm mark hmark x hx)

end

/-- an instance without members gets those of its definition -/
theorem changes_populate {inst definition : TypeId} {args : List TypeId}
    {sub : TypeId → Action TypeId}
    (hsub : ∀ {s : Registry} {u : TypeId}, s.Orderly → (∀ a ∈ args, s.Has (.type a)) →
      s.Has (.type u) → Changes [] (sub u) s fun v s' => s'.Has (.type v) ∧ s'.Becomes args u v)
    (h : s.Filling inst args none [] [] []) (hnone : (s.type inst).base = none) {kind : TypeKind}
    (hform : (s.type inst).form = .instantiated kind definition args)
    (hd : s.Has (.type definition)) (hne : definition ≠ inst) :
    Changes [inst] (populate sub definition inst) s fun _ s' =>
      s'.Populated inst definition args := by
  have hw := h.orderly.wellFormed
  have hold : ∀ x ∈ (s.type definition).items, s.Has x := fun x hx => hw.of_type hd hx
  refine Changes.get ?_
  -- relations that an instance may take over as they are
  have henclosing := changes_nestWithin h.orderly inst (s.type definition).enclosing
    fun outer houter => hold _ (by simp [TypeDecl.items, houter])
  refine Changes.bind (Q := fun _ s' => s'.Filling inst args none [] [] [] ∧ (s'.type inst).base = none)
    ?_ fun _ s₁ hs₁ h₁ => ?_
  · refine henclosing.frame.weaken fun _ s' _ hs' => ⟨h.step hs'.1, ?_⟩
    exact (congrArg (·.1) (hs'.1.members inst h.has List.not_mem_nil)).trans hnone
  obtain ⟨h₁, hnone₁⟩ := h₁
  refine Changes.bind (Q := fun _ s' => s'.Filling inst args (s.type definition).base [] [] [])
    ?_ fun _ s₂ hs₂ h₂ => ?_
  · refine Changes.optionForM (P := fun b s' => s'.Filling inst args b [] [] []) h₁.orderly h₁ ?_
    intro b hb
    exact changes_instantiateBase h₁ hsub (hs₁.persists.has _ (hw.base hd hb)) hnone₁
  refine Changes.bind (h₂.keep (changes_packWithin h₂.orderly inst _)) fun _ s₃ hs₃ h₃ => ?_
  refine Changes.bind (h₃.keep (changes_sizeWithin h₃.orderly inst _)) fun _ s₄ hs₄ h₄ => ?_
  have hp₄ : s.Persists s₄ :=
    ((hs₁.persists.trans hs₂.persists).trans hs₃.persists).trans hs₄.persists
  refine Changes.bind (h₄.keep (changes_annotateAll h₄.orderly inst _ fun mark hmark x hx =>
    hp₄.has _ (hold x ?_))) fun _ s₅ hs₅ h₅ => ?_
  · simp only [TypeDecl.items, List.mem_append, List.mem_flatMap]
    exact .inr ⟨mark, hmark, hx⟩
  have hp₅ : s.Persists s₅ := hp₄.trans hs₅.persists
  -- the members
  refine Changes.bind (Q := fun _ s' => s'.Filling inst args (s.type definition).base
    (s.type definition).interfaces [] []) ?_ fun _ s₆ hs₆ h₆ => ?_
  · refine Changes.forM (P := fun done s' =>
      s'.Filling inst args (s.type definition).base done [] []) h₅.orderly h₅ ?_
    intro done i _ _ hi s' hs' h'
    exact changes_instantiateInterface h' hsub
      (hs'.persists.has _ (hp₅.has _ (hw.interface hd hi)))
  have hp₆ : s.Persists s₆ := hp₅.trans hs₆.persists
  refine Changes.bind (Q := fun _ s' => s'.Filling inst args (s.type definition).base
    (s.type definition).interfaces (s.type definition).fields []) ?_ fun _ s₇ hs₇ h₇ => ?_
  · refine Changes.forM (P := fun done s' => s'.Filling inst args (s.type definition).base
      (s.type definition).interfaces done []) h₆.orderly h₆ ?_
    intro done f _ _ hf s' hs' h'
    exact changes_instantiateField h' hsub (hs'.persists.has _ (hp₆.has _ (hw.fieldOf hd hf)))
  have hs₁₇ : Step [inst] s s₇ :=
    (((((hs₁.trans hs₂).trans hs₃).trans hs₄).trans hs₅).trans hs₆).trans hs₇
  have hmethods : Changes [inst] ((s.type definition).methods.forM (instantiateMember sub inst)) s₇
      fun _ s' => s'.Filling inst args (s.type definition).base (s.type definition).interfaces
        (s.type definition).fields (s.type definition).methods := by
    refine Changes.forM (P := fun done s' => s'.Filling inst args (s.type definition).base
      (s.type definition).interfaces (s.type definition).fields done) h₇.orderly h₇ ?_
    intro done m rest hsplit hm s' hs' h'
    have hlists : (s'.type definition).methods = (s.type definition).methods :=
      congrArg (·.2.2.2) ((hs₁₇.trans hs').members definition hd (by simpa using hne))
    refine changes_instantiateMember h' hsub
      (by rw [(hs₁₇.trans hs').persists.form h.has, hform]) (by rwa [hlists]) fun hnodup => ?_
    rw [hlists, hsplit] at hnodup
    exact fun hin => (List.nodup_append.mp hnodup).2.2 m hin m List.mem_cons_self rfl
  refine hmethods.weaken fun _ s₈ hs₈ h₈ => ?_
  -- the definition is as it was
  have hs : Step [inst] s s₈ := hs₁₇.trans hs₈
  have hm : (s₈.type definition).members = (s.type definition).members :=
    hs.members definition hd (by simpa using hne)
  have hbase : (s₈.type definition).base = (s.type definition).base := congrArg (·.1) hm
  have hifaces : (s₈.type definition).interfaces = (s.type definition).interfaces :=
    congrArg (·.2.1) hm
  have hfs : (s₈.type definition).fields = (s.type definition).fields := congrArg (·.2.2.1) hm
  have hms : (s₈.type definition).methods = (s.type definition).methods := congrArg (·.2.2.2) hm
  show s₈.Carries inst args _ _ _ _ _
  rw [hbase, hifaces, hfs, hms]
  exact h₈.carries

/-! ## instances -/

theorem After.close {inst : TypeId} (h : After [inst] r r') (hnew : ¬ r.Has (.type inst)) :
    After [] r r' where
  persists := h.persists
  orderly := h.orderly
  listed := h.listed
  remembers := h.remembers
  members t ht _ := by
    refine h.members t ht ?_
    rw [List.mem_singleton]
    rintro rfl
    exact hnew ht

/-- an instance that is new and populated is no exception any more -/
theorem Step.close {inst definition : TypeId} {kind : TypeKind} {args : List TypeId}
    (h : Step [inst] r r') (hnew : ¬ r.Has (.type inst))
    (hf : (r'.type inst).form = .instantiated kind definition args)
    (hp : r'.Populated inst definition args) : Step [] r r' where
  toAfter := h.toAfter.close hnew
  populated t hn ht kind' d args' hf' _ _ := by
    by_cases hti : t = inst
    · subst hti
      rw [hf] at hf'
      cases hf'
      exact hp
    · refine h.populated t hn ht kind' d args' hf' (by simpa using hti) ?_
      rw [List.mem_singleton]
      rintro rfl
      -- no instance is a definition
      have hdef := ((h.orderly.placed t ht).definition d (by rw [hf']; rfl)).isDefinition
      rw [hf] at hdef
      cases hdef

theorem Step.with_nesting {changed : List TypeId} (ho : r.Orderly) (n : Nat) :
    Step changed r { r with nesting := n } := by
  refine .of_same ho ?_ (ho.wellFormed.with_nesting n) rfl rfl rfl (fun _ => ⟨rfl, rfl⟩)
    fun _ _ _ => rfl
  exact ⟨fun x hx => by cases x <;> exact hx, fun _ _ => rfl, Nat.le_refl _, fun _ _ => rfl,
    fun _ h => h, fun _ _ _ => rfl, fun _ _ => rfl, fun _ _ => rfl, fun _ _ h => h⟩

/-- the end of an instantiation, which is no longer under way then -/
theorem changes_nested {α : Type} {act : Action α} {Q Q' : α → Registry → Prop} (ho : r.Orderly)
    (h : Changes [] act { r with nesting := r.nesting + 1 } Q)
    (hq : ∀ a s, s.Orderly → Q a s → Q' a { s with nesting := s.nesting - 1 }) :
    Changes [] (nested act) r Q' := by
  have hs : Step [] r { r with nesting := r.nesting + 1 } := .with_nesting ho _
  cases hact : act { r with nesting := r.nesting + 1 } with
  | ok a s =>
    have hrun : nested act r = .ok a { s with nesting := s.nesting - 1 } := by
      simp only [nested, hact]
    obtain ⟨hs', ha⟩ := h.ok hact
    exact .of_ok hrun (hs.trans (hs'.trans (.with_nesting hs'.orderly _))) (hq a s hs'.orderly ha)
  | error e s =>
    have hrun : nested act r = .error e { s with nesting := s.nesting - 1 } := by
      simp only [nested, hact]
    have hs' := h.error hact
    exact .of_error hrun
      (hs.toAfter.trans (hs'.trans (Step.with_nesting hs'.orderly _).toAfter))

def instanceDecl (r : Registry) (definition : TypeId) (args : List TypeId) : TypeDecl :=
  let d := r.type definition
  { module := d.module, token := d.token, namespaceName := d.namespaceName, name := d.name,
    flags := d.flags, form := .instantiated (d.form.kind?.getD .reference) definition args }

theorem run_addInstance (r : Registry) (definition : TypeId) (args : List TypeId) :
    (addInstance definition args).run r =
      let decl := r.instanceDecl definition args
      (⟨r.types.size⟩,
        { r with
          types := r.types.push { decl with id := r.nextId, fullName := r.render decl }
          instances := r.instances.insert (r.instanceKeyOf definition args) ⟨r.types.size⟩
          nextId := r.nextId + 1 }) := rfl

section
variable {definition : TypeId} {args : List TypeId} (ho : r.Orderly)
  (hd : r.Has (.type definition)) (hdef : (r.type definition).form.isDefinition = true)
  (ha : ∀ a ∈ args, r.Has (.type a)) (hud : definition ∈ r.usedNames)
  (hua : ∀ a ∈ args, a ∈ r.usedNames)
  (harity : (r.type definition).form.genericArgs.length = args.length)
  (hown : (r.type definition).form.genericArgs ≠ args)
  (hk : r.instances.get? (r.instanceKeyOf definition args) = none)
include ho hd hdef ha hud hua harity hown hk

/-- a new instance is remembered before it has members -/
theorem changes_addInstance :
    Changes [⟨r.types.size⟩] (liftM (addInstance definition args)) r fun inst s =>
      inst = ⟨r.types.size⟩ ∧ s.Filling inst args none [] [] [] ∧ (s.type inst).base = none ∧
        (∃ kind, (s.type inst).form = .instantiated kind definition args) ∧
        s.instances.get? (s.instanceKeyOf definition args) = some inst := by
  let d := r.instanceDecl definition args
  let s := r.withMade d (r.instanceKeyOf definition args)
  have hparts : ∀ u, Item.type u ∈ d.form.items → u = definition ∨ u ∈ args := by
    intro u hu
    simpa [d, instanceDecl, TypeForm.items] using hu
  have hitems : ∀ x ∈ d.items, r.Has x := by
    intro x hx
    simp only [TypeDecl.items, TypeForm.items, d, instanceDecl, Option.toList_none, List.append_nil,
      List.map_nil, List.flatMap_nil, List.mem_map, List.mem_cons] at hx
    obtain ⟨a, rfl | hmem, rfl⟩ := hx
    · exact hd
    · exact ha a hmem
  have hkey : ∀ s' : Registry, r.Persists s' →
      s'.instanceKeyOf definition args = r.instanceKeyOf definition args :=
    fun s' hp => ho.instanceKeyOf hp hd (.inl hud) ha fun a h => .inl (hua a h)
  have hafter : After [⟨r.types.size⟩] r s := by
    refine after_withMade ho hitems (ho.placed definition hd).home (fun u hu => ?_) (fun c hc => ?_)
      ⟨rfl, rfl⟩ (fun kind c args' hf => ?_) hk fun s' hp hnew => ?_
    · rcases hparts u hu with rfl | hmem
      · exact hud
      · exact hua u hmem
    · cases hc
      exact ⟨hdef, rfl, rfl⟩
    · cases hf
      exact ⟨harity, hown⟩
    · rw [Registry.memoKey?, hnew, ← hkey s' hp]
      rfl
  have hstep : Step [⟨r.types.size⟩] r s :=
    ⟨hafter, fun t hn ht kind c args' _ hc =>
      absurd (List.mem_singleton.mpr (eq_of_has_withMade hn ht)) hc⟩
  have htype := type_withMade r d (r.instanceKeyOf definition args)
  refine .of_ok (by rw [lift_apply, run_addInstance]; rfl) hstep ⟨rfl, ?_, ?_, ?_, ?_⟩
  · refine ⟨hafter.orderly, has_withMade r d _, fun a h => hafter.persists.has _ (ha a h), by simp,
      by simp, ?_⟩
    rw [htype]
    exact ⟨.none, .nil, .nil, .nil⟩
  · rw [htype]
    rfl
  · refine ⟨(r.type definition).form.kind?.getD .reference, ?_⟩
    rw [htype]
    rfl
  · rw [hkey _ hafter.persists]
    exact Table.get?_insert_self _ _ _

end

theorem finds_instantiateAt (levels : Nat) : Finds (instantiateAt levels) := by
  intro r t args inst ho ht ha hi s hs hos
  have hd := definition_has ho.wellFormed ht
  obtain ⟨ts, hts⟩ := lasting_existingInstance? ho hd ha hi s hs hos
  refine ⟨ts, ?_⟩
  rw [instantiateAt_eq, get_bind_apply, bind_apply, Persists.definitionOf hs ht, hts]
  rfl

theorem finds_instantiate : Finds instantiate := by
  intro r t args inst ho ht ha hi s hs hos
  exact finds_instantiateAt _ ho ht ha hi s hs hos

theorem Turns.lasting {ctx : GenericContext} {u v : TypeId} (h : r.Turns ctx u v) :
    Lasting (substitute ctx u) v r :=
  h instantiate finds_instantiate (u.index + 1) (Nat.lt_succ_self _)

theorem Replaces.lasting (ho : r.Orderly) {ctx : GenericContext} (hctx : r.HasContext ctx)
    {u v : TypeId} (hu : r.Has (.type u)) (h : r.Replaces ctx u v) : Lasting (substitute ctx u) v r :=
  (h.turns ho hctx hu).lasting

theorem Replaces.unique (ho : r.Orderly) {ctx : GenericContext} (hctx : r.HasContext ctx)
    {t u v : TypeId} (ht : r.Has (.type t)) (hu : r.Replaces ctx t u) (hv : r.Replaces ctx t v) :
    u = v :=
  (hu.lasting ho hctx ht).unique ho (hv.lasting ho hctx ht)

theorem hasContext_args {args : List TypeId} (ha : ∀ a ∈ args, r.Has (.type a)) :
    r.HasContext ⟨args, []⟩ := by
  intro t ht
  rw [List.append_nil] at ht
  exact ha t ht

/-- an instance that does not exist yet is made -/
theorem changes_makeInstance {levels : Nat} (hmake : ∀ n < levels, Supplies (instantiateAt n))
    {definition : TypeId} {args : List TypeId} (ho : r.Orderly) (hd : r.Has (.type definition))
    (hdef : (r.type definition).form.isDefinition = true) (ha : ∀ a ∈ args, r.Has (.type a))
    (hud : definition ∈ r.usedNames) (hua : ∀ a ∈ args, a ∈ r.usedNames)
    (harity : (r.type definition).form.genericArgs.length = args.length)
    (hown : (r.type definition).form.genericArgs ≠ args)
    (hk : r.instances.get? (r.instanceKeyOf definition args) = none) :
    Changes [] (makeInstance definition args levels) r fun inst s =>
      s.Has (.type inst) ∧ s.instances.get? (s.instanceKeyOf definition args) = some inst := by
  cases levels with
  | zero => exact .throw ho _
  | succ levels =>
    let r₁ : Registry := { r with nesting := r.nesting + 1 }
    have hs₁ : Step [] r r₁ := .with_nesting ho _
    let sub : TypeId → Action TypeId := fun u =>
      substituteWith (instantiateAt levels) ⟨args, []⟩ (u.index + 1) u
    have hsub : ∀ {s : Registry} {u : TypeId}, s.Orderly → (∀ a ∈ args, s.Has (.type a)) →
        s.Has (.type u) →
        Changes [] (sub u) s fun v s' => s'.Has (.type v) ∧ s'.Becomes args u v := by
      intro s u hos has hu
      refine (changes_substituteWith (hmake levels (Nat.lt_succ_self _)) (u.index + 1) hos
        (hasContext_args has) hu (Nat.lt_succ_self _)).weaken ?_
      intro v s' hs' hv
      exact ⟨hv.1, hv.2.lasting hs'.orderly (hs'.persists.hasContext (hasContext_args has))
        (hs'.persists.has _ hu)⟩
    have hadd := changes_addInstance (r := r₁) hs₁.orderly hd hdef ha hud hua harity hown hk
    have hall : Changes [⟨r.types.size⟩] (do
        let inst ← addInstance definition args
        populate sub definition inst
        return inst) r₁ fun inst s => inst = ⟨r.types.size⟩ ∧ s.Has (.type inst) ∧
          s.Populated inst definition args ∧
          (∃ kind, (s.type inst).form = .instantiated kind definition args) ∧
          s.instances.get? (s.instanceKeyOf definition args) = some inst := by
      refine Changes.bind hadd fun inst s hs hadded => ?_
      obtain ⟨rfl, hfill, hnone, ⟨kind, hform⟩, hknown⟩ := hadded
      have hds : s.Has (.type definition) := hs.persists.has _ hd
      have hne : definition ≠ ⟨r.types.size⟩ := by
        rintro rfl
        exact absurd hd (Nat.lt_irrefl _)
      refine Changes.bind (changes_populate hsub hfill hnone hform hds hne) fun _ s' hs' hpop => ?_
      refine .pure hs'.orderly ⟨rfl, hs'.persists.has _ hfill.has, hpop, ⟨kind, ?_⟩, ?_⟩
      · rw [hs'.persists.form hfill.has, hform]
      · rw [hfill.orderly.instanceKeyOf hs'.persists hds (.inl (hs.persists.used hud))
          hfill.hasArgs fun a h => .inl (hs.persists.used (hua a h))]
        exact hs'.persists.instances _ _ hknown
    -- once it has its members, the instance is no exception any more
    have hnew : ¬ r₁.Has (.type ⟨r.types.size⟩) := Nat.lt_irrefl _
    have hclosed : Changes [] (do
        let inst ← addInstance definition args
        populate sub definition inst
        return inst) r₁ fun inst s =>
          s.Has (.type inst) ∧ s.instances.get? (s.instanceKeyOf definition args) = some inst := by
      refine ⟨fun hr => ?_, fun hr => (hall.error hr).close hnew⟩
      obtain ⟨hs, rfl, hhas, hpop, ⟨kind, hform⟩, hknown⟩ := hall.ok hr
      exact ⟨hs.close hnew hform hpop, hhas, hknown⟩
    exact changes_nested ho hclosed fun _ _ _ h => h

/-- instantiation finds an instance or makes it, with its members -/
theorem supplies_instantiateAt (levels : Nat) : Supplies (instantiateAt levels) := by
  induction levels using Nat.strongRecOn with
  | _ levels ih =>
    intro r t args ho ht ha
    have hw := ho.wellFormed
    have hd := definition_has hw ht
    let d := r.definitionOf t
    have hfind := existingInstance?_apply r d args
    rw [instantiateAt_eq]
    refine Changes.get ?_
    by_cases harity : ((r.type d).form.genericArgs.length != args.length ||
        (r.type d).form.genericArgs.isEmpty) = true
    · simp only [harity, if_true] at hfind
      exact Changes.bind (Q := fun _ _ => False) (.of_error hfind (Step.useNames ho [d]).toAfter)
        fun _ _ _ h => h.elim
    have hfalse := Bool.not_eq_true _ ▸ harity
    simp only [hfalse, Bool.false_eq_true, if_false] at hfind
    by_cases hown : (r.type d).form.genericArgs = args
    · rw [if_pos hown] at hfind
      refine Changes.bind (Q := fun found s => found = some d ∧ s = r)
        (.of_ok hfind (.refl ho) ⟨rfl, rfl⟩) ?_
      rintro _ _ - ⟨rfl, rfl⟩
      exact .pure ho ⟨hd, hfalse, .inl ⟨hown, rfl⟩⟩
    rw [if_neg hown] at hfind
    let s := r.useNames (d :: args)
    have hs : Step [] r s := .useNames ho _
    have hud : d ∈ s.usedNames := mem_usedNames_useNames r _ List.mem_cons_self
    have hua : ∀ a ∈ args, a ∈ s.usedNames := fun a h =>
      mem_usedNames_useNames r _ (List.mem_cons_of_mem _ h)
    cases hk : r.instances.get? (r.instanceKeyOf d args) with
    | some inst =>
      rw [hk] at hfind
      refine Changes.bind (Q := fun found s' => found = some inst ∧ s' = s)
        (.of_ok hfind hs ⟨rfl, rfl⟩) ?_
      rintro _ _ - ⟨rfl, rfl⟩
      exact .pure hs.orderly ⟨hw.instance_ hk, hfalse, .inr ⟨hown, hud, hua, hk⟩⟩
    | none =>
      rw [hk] at hfind
      have hlength : (r.type d).form.genericArgs.length = args.length := by
        rw [Bool.or_eq_false_iff] at hfalse
        simpa using hfalse.1
      have hdef : (s.type d).form.isDefinition = true := by
        refine ho.isDefinition_definitionOf ht fun hnil => ?_
        rw [Bool.or_eq_false_iff, show (r.type d).form.genericArgs = [] from hnil] at hfalse
        cases hfalse.2
      refine Changes.bind (Q := fun found s' => found = none ∧ s' = s) (.of_ok hfind hs ⟨rfl, rfl⟩) ?_
      rintro _ _ - ⟨rfl, rfl⟩
      refine (changes_makeInstance ih hs.orderly hd hdef ha hud hua hlength hown hk).weaken ?_
      intro inst s' hs' hinst
      have hp := hs.persists.trans hs'.persists
      refine ⟨hinst.1, ?_⟩
      rw [Persists.definitionOf hp ht]
      refine ⟨?_, .inr ⟨?_, hs'.persists.used hud, fun a h => hs'.persists.used (hua a h), hinst.2⟩⟩
      · rw [hp.form hd]
        exact hfalse
      · rw [hp.form hd]
        exact hown

theorem supplies_instantiate : Supplies instantiate := by
  intro r t args ho ht ha
  exact .get (supplies_instantiateAt _ ho ht ha)

theorem changes_substitute {ctx : GenericContext} {t : TypeId} (ho : r.Orderly)
    (hctx : r.HasContext ctx) (ht : r.Has (.type t)) :
    Changes [] (substitute ctx t) r fun v s => s.Has (.type v) ∧ s.Replaces ctx t v :=
  changes_substituteWith supplies_instantiate _ ho hctx ht (Nat.lt_succ_self _)

/-! ## instances of methods -/

/-- Return type and parameters of `e` are those of `d` as seen from the context, for good. -/
def SignatureBecomes (r : Registry) (ctx : GenericContext) (d e : Method) : Prop :=
  Lasting (substitute ctx d.returnType) e.returnType r ∧
    List.Forall₂ (fun p q : Param =>
      Lasting (substitute ctx p.type) q.type r ∧ q = { p with type := q.type }) d.params e.params

theorem SignatureBecomes.mono {r' : Registry} {ctx : GenericContext} {m n : MethodId}
    (hp : r.Persists r') (hm : r.Has (.method m)) (hn : r.Has (.method n))
    (h : r.SignatureBecomes ctx (r.method m) (r.method n)) :
    r'.SignatureBecomes ctx (r'.method m) (r'.method n) := by
  show r'.SignatureBecomes ctx (r'.method m).signature (r'.method n).signature
  rw [hp.signature m hm, hp.signature n hn]
  exact ⟨h.1.mono hp, h.2.imp fun _ _ hpq => ⟨hpq.1.mono hp, hpq.2⟩⟩

theorem changes_makeMethodInstance {m : MethodId} {args : List TypeId} {noted : Registry}
    (ho : r.Orderly) (hm : r.Has (.method m)) (ha : ∀ a ∈ args, r.Has (.type a))
    (hgen : (r.method m).genericDefinition? = none ∨
      ∃ x, r.Has (.method x) ∧ (r.method x).genericDefinition? = some m)
    (hs : Step [] r noted) :
    Changes [] (makeMethodInstance r m args) noted fun inst s => s.Has (.method inst) ∧
      s.SignatureBecomes ⟨r.declaringArgs m, args⟩ (r.method m) (s.method inst) := by
  have hw := ho.wellFormed
  let ctx : GenericContext := ⟨r.declaringArgs m, args⟩
  have hctx : r.HasContext ctx := hw.instanceContext hm ha
  have hsub : ∀ {s : Registry} {t : TypeId}, s.Orderly → r.Persists s → r.Has (.type t) →
      Changes [] (substitute ctx t) s fun u s' =>
        s'.Has (.type u) ∧ Lasting (substitute ctx t) u s' := by
    intro s t hos hps ht
    refine (changes_substitute hos (hps.hasContext hctx) (hps.has _ ht)).weaken fun u s' hs' hu => ?_
    have hps' := hps.trans hs'.persists
    exact ⟨hu.1, hu.2.lasting hs'.orderly (hps'.hasContext hctx) (hps'.has _ ht)⟩
  refine Changes.bind (hsub hs.orderly hs.persists (hw.returnType hm)) fun v s₁ hs₁ hv => ?_
  have hp₁ : r.Persists s₁ := hs.persists.trans hs₁.persists
  have hparams : Changes [] (substituteParams (substitute ctx) (r.method m).params) s₁ fun ps s =>
      List.Forall₂ (fun (p q : Param) => s.Has (.type q.type) ∧
        Lasting (substitute ctx p.type) q.type s ∧ q = { p with type := q.type })
        (r.method m).params ps := by
    refine changes_mapM (R := fun (p q : Param) s => s.Has (.type q.type) ∧
      Lasting (substitute ctx p.type) q.type s ∧ q = { p with type := q.type }) ?_ hs₁.orderly ?_
    · intro p q s s' hs' hq
      exact ⟨hs'.persists.has _ hq.1, hq.2.1.mono hs'.persists, hq.2.2⟩
    · intro p hp s hs'
      refine Changes.bind (hsub hs'.orderly (hp₁.trans hs'.persists)
        (hw.param hm (List.mem_map_of_mem hp))) fun u s' hs'' hu => ?_
      exact .pure hs''.orderly ⟨hu.1, hu.2, rfl⟩
  refine Changes.bind hparams fun ps s₂ hs₂ hps => ?_
  have hp₂ : r.Persists s₂ := hp₁.trans hs₂.persists
  have hpshas : ∀ p ∈ ps, s₂.Has (.type p.type) := forall_of_forall₂ hps fun _ _ h => h.1
  let copy : Method :=
    { r.method m with
      returnType := v, params := ps, genericArgs := args, origin := .instanceOf m, body := none }
  have hitems : ∀ x ∈ copy.items, s₂.Has x := by
    refine Method.forall_items rfl (fun t hdecl => hp₂.has _ (hw.declaring hm hdecl))
      (hs₂.persists.has _ hv.1) hpshas (fun a hmem => hp₂.has _ (ha a hmem)) fun x hx => ?_
    obtain rfl := Option.some.inj hx
    exact hp₂.has _ hm
  have hsig := hp₂.signature m hm
  refine Changes.bind (changes_addMethod hs₂.orderly hitems fun hl => .inr ⟨m, rfl, hp₂.has _ hm, ?_⟩)
    fun inst s₃ hs₃ hinst => ?_
  · rcases hgen with hnone | ⟨x, hx, hxm⟩
    · exact (congrArg Method.genericDefinition? hsig).trans hnone
    · exact hl.generics x m ((congrArg Method.genericDefinition? (hp₂.signature x hx)).trans hxm)
  let s₄ : Registry :=
    { s₃ with methodInstances := s₃.methodInstances.insert (r.methodInstanceKey m args) inst }
  have hs₄ : Step [] s₃ s₄ := by
    refine .of_same hs₃.orderly ?_ (hs₃.orderly.wellFormed.insert_methodInstance hinst.1 _) rfl
      rfl rfl (fun _ => ⟨rfl, rfl⟩) fun _ _ _ => rfl
    exact ⟨fun x hx => by cases x <;> exact hx, fun _ _ => rfl, Nat.le_refl _, fun _ _ => rfl,
      fun _ h => h, fun _ _ _ => rfl, fun _ _ => rfl, fun _ _ => rfl, fun _ _ h => h⟩
  refine .of_ok rfl hs₄ ⟨hinst.1, ?_⟩
  have hlater : s₂.Persists s₄ := hs₃.persists.trans hs₄.persists
  rw [show s₄.method inst = copy from hinst.2]
  exact ⟨hv.2.mono (hs₂.persists.trans hlater),
    hps.imp fun _ _ hq => ⟨hq.2.1.mono hlater, hq.2.2⟩⟩

theorem genericDefinition_methodDefinitionOf {m : MethodId} (hm : r.Has (.method m)) :
    (r.method (r.methodDefinitionOf m)).genericDefinition? = none ∨ ∃ x, r.Has (.method x) ∧
      (r.method x).genericDefinition? = some (r.methodDefinitionOf m) := by
  cases hd : (r.method m).genericDefinition? with
  | none =>
    left
    rw [methodDefinitionOf, hd]
    exact hd
  | some d =>
    right
    refine ⟨m, hm, ?_⟩
    rw [methodDefinitionOf, hd]
    rfl

theorem changes_instantiateMethod {m : MethodId} {args : List TypeId} (ho : r.Orderly)
    (hm : r.Has (.method m)) (ha : ∀ a ∈ args, r.Has (.type a)) :
    Changes [] (instantiateMethod m args) r fun inst s => s.Has (.method inst) := by
  have hw := ho.wellFormed
  have hd := hw.methodDefinitionOf hm
  let d := r.methodDefinitionOf m
  let noted := r.useNames (r.methodUses d)
  have hs : Step [] r noted := .useNames ho _
  have hs' : Step [] r (noted.useNames args) := hs.trans (.useNames hs.orderly _)
  obtain ⟨e, hrun⟩ | ⟨-, ⟨inst, hk, hrun⟩ | ⟨-, hrun⟩⟩ := instantiateMethod_cases r m args
  · exact .of_error hrun hs.toAfter
  · exact .of_ok hrun hs' (hw.methodInstance hk)
  · have hmake := changes_makeMethodInstance ho hd ha (genericDefinition_methodDefinitionOf hm) hs'
    refine ⟨fun hr => ?_, fun hr => ?_⟩
    · rw [hrun] at hr
      obtain ⟨hstep, hinst⟩ := hmake.ok hr
      exact ⟨hs'.trans hstep, hinst.1⟩
    · rw [hrun] at hr
      exact hs'.toAfter.trans (hmake.error hr)

end Registry

end ProgramScan

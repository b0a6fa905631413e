import ProgramScan.Proofs.Registry.Copies

/-!
# Asking keeps programs in order

What is asked of a program can make types and instances.  They are made in order, and what is made is
there afterwards also if the question fails.

* `Registry.Grown`            a program in order that another one grew into;
* `Registry.Coheres`          an operation only adds to a program, and leaves it in order;
* `coheres_construct`, `coheres_substitute`, `coheres_instantiate`, `coheres_instantiateMethod`
                              types and instances are made in order;
* `coheres_resolveToken`      so is what a token denotes.
-/

namespace ProgramScan

namespace Registry

variable {α β : Type} {r r' r'' : Registry}

/-- `r'` is a program in order that `r` grew into. -/
structure Grown (r r' : Registry) : Prop where
  grows : r.Grows r'
  persists : r.Persists r'
  coherent : r'.Coherent

namespace Grown

theorem refl (h : r.Coherent) : Grown r r := ⟨.refl r, .refl r, h⟩

theorem trans (h : Grown r r') (h' : Grown r' r'') : Grown r r'' :=
  ⟨h.grows.trans h'.grows, h.persists.trans h'.persists, h'.coherent⟩

theorem useNames (h : r.Coherent) (ts : List TypeId) : Grown r (r.useNames ts) :=
  ⟨.useNames r ts, .useNames r ts, h.useNames ts⟩

end Grown

/-- Run in `r`, `act` only adds to the program and leaves it in order, also if it fails.  If it succeeds,
the new instances have their members. -/
structure Coheres (act : Action α) (r : Registry) : Prop where
  ok : ∀ {a r'}, act r = .ok a r' → Grown r r'
  error : ∀ {e r'}, act r = .error e r' → Grown r r'
  step : ∀ {a r'}, act r = .ok a r' → Step [] r r'

namespace Coheres

theorem pure (h : r.Coherent) (a : α) : Coheres (Pure.pure a) r where
  ok hrun := by
    cases hrun
    exact .refl h
  error hrun := by cases hrun
  step hrun := by
    cases hrun
    exact .refl h.orderly

theorem throw (h : r.Coherent) (e : Error) : Coheres (MonadExcept.throw e : Action α) r where
  ok hrun := by cases hrun
  error hrun := by
    cases hrun
    exact .refl h
  step hrun := by cases hrun

theorem ofExcept (h : r.Coherent) (x : Except Error α) : Coheres (MonadExcept.ofExcept x) r := by
  cases x with
  | ok a => exact pure h a
  | error e => exact throw h e

theorem bind {act : Action α} {k : α → Action β} (hact : Coheres act r)
    (hk : ∀ a s, act r = .ok a s → r.Grows s → s.Coherent → Coheres (k a) s) :
    Coheres (act >>= k) r where
  ok hrun := by
    obtain ⟨a, s, ha, hrest⟩ := bind_eq_ok_iff.mp hrun
    have hs := hact.ok ha
    exact hs.trans ((hk a s ha hs.grows hs.coherent).ok hrest)
  error hrun := by
    rcases bind_eq_error_iff.mp hrun with ha | ⟨a, s, ha, hrest⟩
    · exact hact.error ha
    · have hs := hact.ok ha
      exact hs.trans ((hk a s ha hs.grows hs.coherent).error hrest)
  step hrun := by
    obtain ⟨a, s, ha, hrest⟩ := bind_eq_ok_iff.mp hrun
    have hs := hact.ok ha
    exact (hact.step ha).trans ((hk a s ha hs.grows hs.coherent).step hrest)

theorem get {k : Registry → Action α} (hk : Coheres (k r) r) : Coheres (MonadState.get >>= k) r :=
  ⟨hk.ok, hk.error, hk.step⟩

/-- names are used first -/
theorem noting (h : r.Coherent) {uses : Registry → List TypeId} {k : Unit → Action α}
    (hk : ∀ s, r.Grows s → s.Coherent → Coheres (k ()) s) :
    Coheres ((modify fun s => s.useNames (uses s) : Action Unit) >>= k) r := by
  refine bind ⟨fun hrun => ?_, fun hrun => (by cases hrun), fun hrun => ?_⟩
    fun _ s _ hg hs => hk s hg hs
  · cases hrun
    exact .useNames h _
  · cases hrun
    exact .useNames h.orderly _

theorem mapM {f : α → Action β} {l : List α} (h : r.Coherent)
    (hf : ∀ a ∈ l, ∀ s, r.Grows s → s.Coherent → Coheres (f a) s) : Coheres (l.mapM f) r := by
  induction l generalizing r with
  | nil => exact pure h []
  | cons a l ih =>
    rw [List.mapM_cons]
    refine bind (hf a List.mem_cons_self r (.refl r) h) fun b s _ hg hs => ?_
    refine bind (ih hs fun c hc s' hg' hs' => hf c (List.mem_cons_of_mem _ hc) s' (hg.trans hg') hs')
      fun bs s' _ _ hs' => ?_
    exact pure hs' _

/-- each answer of a traversal was given in a program on the way -/
theorem exists_of_mapM {f : α → Action β} {l : List α} (h : r.Coherent)
    (hf : ∀ a ∈ l, ∀ s, r.Grows s → s.Coherent → Coheres (f a) s) {bs : List β}
    (hrun : l.mapM f r = .ok bs r') {b : β} (hb : b ∈ bs) :
    ∃ a ∈ l, ∃ s s', Grown r s ∧ f a s = .ok b s' ∧ Grown s' r' := by
  induction l generalizing r bs with
  | nil =>
    cases hrun
    cases hb
  | cons a l ih =>
    rw [List.mapM_cons] at hrun
    obtain ⟨c, s, hc, hrest⟩ := bind_eq_ok_iff.mp hrun
    obtain ⟨cs, s', hcs, hpure⟩ := bind_eq_ok_iff.mp hrest
    cases hpure
    have hs := (hf a List.mem_cons_self r (.refl r) h).ok hc
    have hlater : ∀ c ∈ l, ∀ s', s.Grows s' → s'.Coherent → Coheres (f c) s' :=
      fun c hmem s' hg hs' => hf c (List.mem_cons_of_mem _ hmem) s' (hs.grows.trans hg) hs'
    rcases List.mem_cons.mp hb with rfl | hb
    · exact ⟨a, List.mem_cons_self, r, s, .refl h, hc, (mapM hs.coherent hlater).ok hcs⟩
    · obtain ⟨a', ha', s₁, s₂, hg₁, hrun', hg₂⟩ := ih hs.coherent hlater hcs hb
      exact ⟨a', List.mem_cons_of_mem _ ha', s₁, s₂, hs.trans hg₁, hrun', hg₂⟩

/-- an edit with an answer, if it only adds to the program -/
theorem of_edit (h : r.Coherent) {e : Edit} (he : e.Fits r) {act : Action α}
    {Q Q' : α → Registry → Prop} (hact : e.action = do let _ ← act) (hb : Builds act r Q)
    (hc : Changes [] act r Q') : Coheres act r := by
  have hafter := h.orderly.apply he
  rw [Edit.apply] at hafter
  refine ⟨fun {a r'} hrun => ?_, fun {err r'} hrun => ?_, fun hrun => (hc.ok hrun).1⟩
  · have hedit : e.action r = .ok () r' := by
      rw [hact]
      exact bind_eq_ok_iff.mpr ⟨a, r', hrun, rfl⟩
    rw [hedit] at hafter
    exact ⟨(hb.ok hrun).1, hafter.persists, (h.of_edit he).1 hedit⟩
  · have hedit : e.action r = .error err r' := by
      rw [hact]
      exact bind_eq_error_iff.mpr (.inl hrun)
    rw [hedit] at hafter
    exact ⟨(hb.error hrun).1, hafter.persists, (h.of_edit he).2 hedit⟩

end Coheres

section
variable (h : r.Coherent)
include h

/-! ## types and instances -/

theorem coheres_construct (shape : Shape) {e : TypeId} (he : r.Has (.type e)) :
    Coheres (liftM (construct shape e)) r := by
  refine .of_edit h (e := .construct shape e) ⟨?_, by simp [Edit.modules]⟩ rfl
    (builds_construct h.wellFormed shape he) (changes_construct h.orderly shape he)
  simpa [Edit.items] using he

theorem coheres_substitute {ctx : GenericContext} (hctx : r.HasContext ctx) {t : TypeId}
    (ht : r.Has (.type t)) : Coheres (substitute ctx t) r := by
  refine .of_edit h (e := .substitute ctx t) ⟨?_, by simp [Edit.modules]⟩ rfl
    (builds_substitute h.wellFormed hctx ht) (changes_substitute h.orderly hctx ht)
  simp only [Edit.items, List.forall_mem_cons, List.forall_mem_map]
  exact ⟨ht, hctx⟩

theorem coheres_instantiate {t : TypeId} {args : List TypeId} (ht : r.Has (.type t))
    (ha : ∀ a ∈ args, r.Has (.type a)) : Coheres (instantiate t args) r := by
  refine .of_edit h (e := .instantiate t args) ⟨?_, by simp [Edit.modules]⟩ rfl
    (makes_instantiate h.wellFormed ht ha) (supplies_instantiate h.orderly ht ha)
  simpa [Edit.items] using ⟨ht, ha⟩

theorem coheres_instantiateMethod {m : MethodId} {args : List TypeId} (hm : r.Has (.method m))
    (ha : ∀ a ∈ args, r.Has (.type a)) : Coheres (instantiateMethod m args) r := by
  refine .of_edit h (e := .instantiateMethod m args) ⟨?_, by simp [Edit.modules]⟩ rfl
    (builds_instantiateMethod h.wellFormed hm ha) (changes_instantiateMethod h.orderly hm ha)
  simpa [Edit.items] using ⟨hm, ha⟩

/-! ## members from a context -/

theorem coheres_correspondingMethod (owner : TypeId) (m : MethodId) :
    Coheres (correspondingMethod owner m) r := by
  refine .get ?_
  dsimp only
  split
  · exact .pure h _
  · exact .noting h fun s _ hs => .throw hs _

variable {ctx : GenericContext} (hctx : r.HasContext ctx)
include hctx

theorem coheres_rehome {m : MethodId} (hm : r.Has (.method m)) : Coheres (rehome ctx m) r := by
  refine .get ?_
  split
  · exact .pure h m
  · rename_i declaring hd
    split
    · exact .pure h m
    · refine .bind (coheres_substitute h hctx (h.wellFormed.declaring hm hd)) fun owner s _ _ hs => ?_
      split
      · exact .pure hs m
      · exact coheres_correspondingMethod hs owner m

theorem coheres_substituteMethod {m : MethodId} (hm : r.Has (.method m)) :
    Coheres (substituteMethod ctx m) r := by
  refine .get ?_
  split
  · exact coheres_rehome h hctx hm
  · rename_i definition hd
    have hw := h.wellFormed
    have hdhas := hw.genericDefinition hm hd
    refine .bind (coheres_rehome h hctx hdhas) fun target s htarget hg hs => ?_
    have htarget := ((builds_rehome hw hctx hdhas).ok htarget).2.2.2
    have hargs : ∀ a ∈ (r.method m).genericArgs, s.Has (.type a) :=
      fun a ha => hg.has (hw.genericArg hm ha)
    refine .bind (.mapM hs fun a ha s' hg' hs' =>
      coheres_substitute hs' ((hg.trans hg').hasContext hctx) (hg'.has (hargs a ha)))
      fun args s' hrun hg' hs' => ?_
    have hargs' := ((builds_substituteAll hs.wellFormed (hg.hasContext hctx) hargs).ok hrun).2.2.2
    exact coheres_instantiateMethod hs' (hg'.has htarget) hargs'

theorem coheres_substituteField {f : FieldId} (hf : r.Has (.field f)) :
    Coheres (substituteField ctx f) r := by
  refine .get ?_
  dsimp only
  split
  · exact .pure h f
  · refine .bind (coheres_substitute h hctx (h.wellFormed.declaringOf hf)) fun owner s _ _ hs => ?_
    refine .get ?_
    split
    · exact .pure hs _
    · exact .noting hs fun s' _ hs' => .throw hs' _

/-- **What a token denotes is made in order.** -/
theorem coheres_resolveToken (module : ModuleId) (token : Token) :
    Coheres (resolveToken module token ctx) r := by
  refine .get ?_
  cases ht : (r.module module).tokens.get? token with
  | none => exact .throw h _
  | some target =>
    have hitems : ∀ x ∈ target.items, r.Has x := fun x hx => h.wellFormed.tokenTarget ht hx
    cases target with
    | type t =>
      cases t with
      | none => exact .throw h _
      | some t =>
        exact .bind (coheres_substitute h hctx (hitems _ (List.mem_singleton.mpr rfl)))
          fun _ _ _ _ hs => .pure hs _
    | method m =>
      cases m with
      | none => exact .throw h _
      | some m =>
        exact .bind (coheres_substituteMethod h hctx (hitems _ (List.mem_singleton.mpr rfl)))
          fun _ _ _ _ hs => .pure hs _
    | field f =>
      cases f with
      | none => exact .throw h _
      | some f =>
        exact .bind (coheres_substituteField h hctx (hitems _ (List.mem_singleton.mpr rfl)))
          fun _ _ _ _ hs => .pure hs _
    | string text => exact .pure h _
    | signature site => exact .pure h _

end

end Registry

end ProgramScan

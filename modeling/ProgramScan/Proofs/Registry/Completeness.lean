import ProgramScan.Proofs.Registry.Substituting

/-!
# Instances that are found are complete

An instance gets its members when it is made, and is found later by its key.  It is complete then as
long as nothing came in between: an instantiation that fails leaves the instances it had under way
without all their members, and they are found all the same.

* `Edit.spoils`     an edit changes members of an instance, or of a definition that has one;
* `Edit.abandons`   an edit fails, and leaves an instance it had made;
* `lostIn`          the types that edits of either kind leave behind;
* `instantiate_populated`, `instantiate_abandoned`   what instantiation answers is populated otherwise,
                                                     and need not be after a failure.
-/

namespace ProgramScan

namespace Edit

def fails (e : Edit) (r : Registry) : Bool :=
  match e.action r with
  | .ok _ _ => false
  | .error _ _ => true

/-- the edit changes the members of `t`, which is an instance or has one -/
def spoils (e : Edit) (r : Registry) (t : TypeId) : Bool :=
  e.changes.contains t &&
    ((r.type t).form.isGenericInstance || r.types.toList.any fun d => d.form.definition? == some t)

def abandons (e : Edit) (r : Registry) (t : TypeId) : Bool :=
  e.fails r && !decide (r.Has (.type t)) && ((e.apply r).type t).form.isGenericInstance

end Edit

namespace Registry

variable {r : Registry}

/-- some of the edits spoil the type or leave it behind -/
def lostIn : Registry → List Edit → TypeId → Bool
  | _, [], _ => false
  | r, e :: es, t => e.spoils r t || e.abandons r t || lostIn (e.apply r) es t

/-- every instance is populated, unless it or its definition is lost -/
def Complete (r : Registry) (lost : TypeId → Prop) : Prop :=
  ∀ t, r.Has (.type t) → ∀ kind definition args,
    (r.type t).form = .instantiated kind definition args → ¬ lost t → ¬ lost definition →
    r.Populated t definition args

/-! ## edits that change members -/

theorem state_of_lift {α : Type} {x : StateM Registry α} {a : α} {s : Registry}
    (h : (liftM x : Action α) r = .ok a s) : s = (x.run r).2 := by
  rw [lift_apply] at h
  exact (EStateM.Result.ok.inj h).2.symm

theorem size_modifyType (r : Registry) (t : TypeId) (f : TypeDecl → TypeDecl) :
    (r.modifyType t f).types.size = r.types.size :=
  Array.size_modify

theorem size_declareReturning {d : MethodDesign} {returnType : TypeId} {m : MethodId}
    {s : Registry} (h : declareReturning d returnType r = .ok m s) : s.types.size = r.types.size := by
  obtain ⟨token, r₁, h₁, h⟩ := bind_eq_ok_iff.mp h
  obtain ⟨m', r₂, h₂, h⟩ := bind_eq_ok_iff.mp h
  obtain ⟨u, r₃, h₃, h⟩ := bind_eq_ok_iff.mp h
  have hsize : r₃.types.size = r.types.size := by
    rw [state_of_lift h₃, state_of_lift h₂, state_of_lift h₁]
    rfl
  cases hd : d.declaring with
  | none =>
    rw [hd] at h
    cases h
    exact hsize
  | some declaring =>
    rw [hd] at h
    obtain ⟨u', r₄, h₄, h⟩ := bind_eq_ok_iff.mp h
    cases h
    rw [state_of_lift h₄, ← hsize]
    exact size_modifyType r₃ declaring _

theorem size_of_changes {e : Edit} (hc : e.changes ≠ []) {s : Registry}
    (h : e.action r = .ok () s) : s.types.size = r.types.size := by
  cases e <;> simp only [Edit.changes, ne_eq, not_true_eq_false, reduceCtorEq] at hc
  case declareField module declaring name type flags annotations =>
    obtain ⟨f, r₁, h₁, h⟩ := bind_eq_ok_iff.mp h
    cases h
    rw [state_of_lift h₁]
    exact Array.size_modify
  case declareMethod design =>
    obtain ⟨m, r₁, h₁, h⟩ := bind_eq_ok_iff.mp h
    cases h
    rw [declareMethod_eq] at h₁
    obtain ⟨t, r₂, h₂, h₁⟩ := bind_eq_ok_iff.mp h₁
    have hsame : r₂ = r := by
      cases hd : design.returnType with
      | some t' =>
        rw [hd] at h₂
        cases h₂
        rfl
      | none =>
        rw [hd] at h₂
        simp only [wellKnown, get_bind_apply] at h₂
        cases hf : r.find? "System.Void" with
        | some t' =>
          rw [hf] at h₂
          cases h₂
          rfl
        | none =>
          rw [hf] at h₂
          cases h₂
    rw [size_declareReturning h₁, hsame]
  case setBase t base =>
    obtain ⟨b, r₁, h₁, h⟩ := bind_eq_ok_iff.mp h
    cases h
    have hrun : (setBase t base).run r =
        if (r.type t).base.isSome then (false, r)
        else (true, r.modifyType t fun d => { d with base := some base }) := rfl
    rw [state_of_lift h₁, hrun]
    split
    · rfl
    · exact size_modifyType r t _
  case addInterface t iface =>
    rw [state_of_lift h]
    exact size_modifyType r t _

/-! ## what edits keep complete -/

theorem spoils_iff {e : Edit} {t : TypeId} (h : t ∈ e.changes)
    (hinst : (r.type t).form.isGenericInstance = true ∨
      ∃ u, r.Has (.type u) ∧ (r.type u).form.definition? = some t) : e.spoils r t = true := by
  simp only [Edit.spoils, Bool.and_eq_true, List.contains_iff_mem, Bool.or_eq_true, List.any_eq_true]
  refine ⟨h, hinst.imp id ?_⟩
  rintro ⟨u, hu, hd⟩
  exact ⟨r.type u, type_mem hu, by simp [hd]⟩

/-- An edit keeps a program complete, apart from what it spoils or leaves behind. -/
theorem Complete.apply {lost : TypeId → Prop} (h : r.Complete lost) (ho : r.Orderly) {e : Edit}
    (he : e.Fits r) :
    (e.apply r).Complete fun t => lost t ∨ e.spoils r t = true ∨ e.abandons r t = true := by
  have hedit := changes_edit ho he
  intro t ht kind definition args hf hlt hld
  -- an instance that was there, with members that were not changed
  have hold : ∀ s, After e.changes r s → e.apply r = s → r.Has (.type t) →
      (e.apply r).Populated t definition args := by
    rintro s ha rfl hthas
    have hf₀ : (r.type t).form = .instantiated kind definition args := by
      rw [← ha.persists.form hthas, hf]
    have hd : (r.type t).form.definition? = some definition := by rw [hf₀]; rfl
    have hpop := h t hthas kind definition args hf₀ (fun hl => hlt (.inl hl))
      fun hl => hld (.inl hl)
    refine hpop.later ha ho.wellFormed hthas (ho.wellFormed.definition hthas hd) ?_ ?_
    · intro hc
      exact hlt (.inr (.inl (spoils_iff hc (.inl (by rw [hf₀]; rfl)))))
    · intro hc
      exact hld (.inr (.inl (spoils_iff hc (.inr ⟨t, hthas, hd⟩))))
  cases hrun : e.action r with
  | ok u s =>
    have happly : e.apply r = s := by rw [Edit.apply, hrun]
    obtain ⟨hs, -⟩ := hedit.ok hrun
    by_cases hthas : r.Has (.type t)
    · exact hold s hs.toAfter happly hthas
    · subst happly
      -- what changes members makes no instances
      have hnone : e.changes = [] := by
        by_contra hc
        have hsize := size_of_changes hc hrun
        refine hthas ?_
        have ht' : t.index < (e.apply r).types.size := ht
        rw [hsize] at ht'
        exact ht'
      refine hs.populated t hthas ht kind definition args hf ?_ ?_
      · rw [hnone]
        exact List.not_mem_nil
      · rw [hnone]
        exact List.not_mem_nil
  | error err s =>
    have happly : e.apply r = s := by rw [Edit.apply, hrun]
    have ha := hedit.error hrun
    by_cases hthas : r.Has (.type t)
    · exact hold s ha happly hthas
    · refine absurd (.inr (.inr ?_)) hlt
      simp only [Edit.abandons, Edit.fails, hrun, Bool.true_and, Bool.and_eq_true,
        Bool.not_eq_true', decide_eq_false_iff_not]
      refine ⟨hthas, ?_⟩
      rw [hf]
      rfl

theorem Complete.applyAll {lost : TypeId → Prop} {es : List Edit} (h : r.Complete lost)
    (hr : r.Built) (hes : FitAll r es) :
    (r.applyAll es).Complete fun t => lost t ∨ lostIn r es t = true := by
  induction es generalizing r lost with
  | nil =>
    intro t ht kind definition args hf hlt hld
    exact h t ht kind definition args hf (fun hl => hlt (.inl hl)) fun hl => hld (.inl hl)
  | cons e es ih =>
    have hrest := ih (h.apply hr.orderly hes.1) (hr.edit hes.1) hes.2
    intro t ht kind definition args hf hlt hld
    have hsplit : ∀ u, ¬ (lost u ∨ lostIn r (e :: es) u = true) →
        ¬ ((lost u ∨ e.spoils r u = true ∨ e.abandons r u = true) ∨
          lostIn (e.apply r) es u = true) := by
      intro u hu
      simp only [lostIn, Bool.or_eq_true] at hu
      tauto
    exact hrest t ht kind definition args hf (hsplit t hlt) (hsplit definition hld)

theorem complete_core : core.Complete fun _ => False := by
  intro t ht kind definition args hf
  have hplain : ∀ d ∈ core.types.toList, d.form.isDefinition = true := by decide +kernel
  have hd := hplain (core.type t) (type_mem ht)
  rw [hf] at hd
  cases hd

/-! ## what instantiation answers -/

theorem Orderly.form_of_known (ho : r.Orderly) {definition inst : TypeId} {args : List TypeId}
    (hk : r.instances.get? (r.instanceKeyOf definition args) = some inst) :
    ∃ kind definition' args', (r.type inst).form = .instantiated kind definition' args' ∧
      r.instanceKeyOf definition' args' = r.instanceKeyOf definition args := by
  have hmemo := ho.memo _ inst hk
  unfold Registry.memoKey? at hmemo
  cases hf : (r.type inst).form with
  | defined kind params => simp [hf] at hmemo
  | parameter index owner => simp [hf] at hmemo
  | constructed shape e =>
    simp only [hf, Option.some.injEq] at hmemo
    exact absurd hmemo (constructedKey_ne_instanceKeyOf shape e definition args)
  | instantiated kind definition' args' =>
    simp only [hf, Option.some.injEq] at hmemo
    exact ⟨kind, definition', args', rfl, hmemo⟩

theorem InstanceOf.form (ho : r.Orderly) {definition inst : TypeId} {args : List TypeId}
    (h : r.InstanceOf definition args inst) (hne : inst ≠ definition) :
    ∃ kind definition' args', (r.type inst).form = .instantiated kind definition' args' ∧
      r.instanceKeyOf definition' args' = r.instanceKeyOf definition args := by
  rcases h.found with ⟨-, heq⟩ | ⟨-, -, -, hk⟩
  · exact absurd heq hne
  · exact ho.form_of_known hk

/-- **Instances that are found are complete**, unless they were left behind by an edit that failed or
changed afterwards.  After any edits, what a successful instantiation answers is an instance with the
key that was asked for.  It is populated if it is new; if it was there before, it is populated unless
the edits lost it or its definition. -/
theorem instantiate_populated {es : List Edit} (hes : FitAll core es) {t : TypeId}
    {args : List TypeId} (ht : (core.applyAll es).Has (.type t))
    (ha : ∀ a ∈ args, (core.applyAll es).Has (.type a)) {inst : TypeId} {r' : Registry}
    (hrun : instantiate t args (core.applyAll es) = .ok inst r')
    (hne : inst ≠ (core.applyAll es).definitionOf t) :
    ∃ kind definition args', (r'.type inst).form = .instantiated kind definition args' ∧
      r'.instanceKeyOf definition args' =
        r'.instanceKeyOf ((core.applyAll es).definitionOf t) args ∧
      (((core.applyAll es).Has (.type inst) →
        lostIn core es inst = false ∧ lostIn core es definition = false) →
        r'.Populated inst definition args') := by
  have hb : (core.applyAll es).Built := Built.core.applyAll hes
  have ho := hb.orderly
  obtain ⟨hs, hinst, hof⟩ := (supplies_instantiate ho ht ha).ok hrun
  rw [Persists.definitionOf hs.persists ht] at hof
  obtain ⟨kind, definition, args', hf, hkey⟩ := hof.form hs.orderly hne
  refine ⟨kind, definition, args', hf, hkey, fun hlost => ?_⟩
  by_cases hold : (core.applyAll es).Has (.type inst)
  · obtain ⟨hli, hld⟩ := hlost hold
    have hf₀ : ((core.applyAll es).type inst).form = .instantiated kind definition args' := by
      rw [← hs.persists.form hold, hf]
    have hd : (core.applyAll es).Has (.type definition) :=
      ho.wellFormed.definition hold (by rw [hf₀]; rfl)
    have hcomplete := Complete.applyAll complete_core Built.core hes
    have hpop := hcomplete inst hold kind definition args' hf₀ (by simp [hli]) (by simp [hld])
    exact hpop.later hs.toAfter ho.wellFormed hold hd List.not_mem_nil List.not_mem_nil
  · exact hs.populated inst hold hinst kind definition args' hf List.not_mem_nil List.not_mem_nil

/-! ## an instance found again -/

def boxEdits : List Edit :=
  [.addModule "App",
    .declareType { module := ⟨1⟩, namespaceName := "App", name := "Box", generic := ["T"] },
    .declareField ⟨1⟩ ⟨21⟩ "value" ⟨20⟩ FieldFlags.isPublic [],
    .declareMethod { module := ⟨1⟩, name := "Get", declaring := some ⟨21⟩, returnType := some ⟨20⟩ },
    .instantiate ⟨21⟩ [⟨12⟩]]

theorem instantiate_populated_box : ∃ inst r' args',
    instantiate ⟨21⟩ [⟨12⟩] (core.applyAll boxEdits) = .ok inst r' ∧
    (core.applyAll boxEdits).Has (.type inst) ∧ (r'.type inst).fields.length = 1 ∧
    (r'.type inst).methods.length = 1 ∧ r'.Populated inst ⟨21⟩ args' := by
  obtain ⟨hfits, ht, hargs, hhas, hne, hinst, hbox, heval⟩ :
      FitAll core boxEdits ∧ (core.applyAll boxEdits).Has (.type ⟨21⟩) ∧
      (∀ a ∈ [(⟨12⟩ : TypeId)], (core.applyAll boxEdits).Has (.type a)) ∧
      (core.applyAll boxEdits).Has (.type ⟨22⟩) ∧
      ⟨22⟩ ≠ (core.applyAll boxEdits).definitionOf ⟨21⟩ ∧
      lostIn core boxEdits ⟨22⟩ = false ∧ lostIn core boxEdits ⟨21⟩ = false ∧
      answersWith (instantiate ⟨21⟩ [⟨12⟩]) (core.applyAll boxEdits) (fun inst s =>
        inst = ⟨22⟩ && (s.type inst).form.definition? == some ⟨21⟩ &&
          (s.type inst).fields.length == 1 && (s.type inst).methods.length == 1) = true := by
    decide +kernel
  obtain ⟨inst, r', hrun, hP⟩ := exists_of_answersWith heval
  simp only [Bool.and_eq_true, decide_eq_true_eq, beq_iff_eq] at hP
  obtain ⟨⟨⟨rfl, hdef⟩, hfields⟩, hmethods⟩ := hP
  obtain ⟨kind, definition, args', hf, -, hpop⟩ := instantiate_populated hfits ht hargs hrun hne
  rw [hf] at hdef
  cases hdef
  exact ⟨⟨22⟩, r', args', hrun, hhas, hfields, hmethods, hpop fun _ => ⟨hinst, hbox⟩⟩

/-! ## an instance left behind -/

def chainEdits : Nat → List Edit
  | 0 =>
    [.addModule "A", .define ⟨1⟩ "" "X" .reference 0 [] none, .addParameter ⟨1⟩ "T" 0 .type,
      .define ⟨1⟩ "" "C" .reference 0 [⟨21⟩] none]
  | n + 1 =>
    chainEdits n ++
      [.define ⟨1⟩ "" ("C" ++ toString (n + 1)) .reference 0 [⟨21⟩] none,
        .setBase ⟨n + 23⟩ ⟨n + 22⟩]

/-- Instantiation of the last of 65 classes fails at the recursion limit.  The instance of the second
class was under way then.  It is what instantiation answers from then on, and has no base. -/
theorem instantiate_abandoned : ∃ inst r',
    FitAll core (chainEdits 64 ++ [.instantiate ⟨86⟩ [⟨20⟩]]) ∧
    instantiate ⟨23⟩ [⟨20⟩] (core.applyAll (chainEdits 64 ++ [.instantiate ⟨86⟩ [⟨20⟩]])) =
      .ok inst r' ∧
    (r'.type inst).form.definition? = some ⟨23⟩ ∧ ¬ r'.Populated inst ⟨23⟩ [⟨20⟩] := by
  obtain ⟨hfits, heval⟩ : FitAll core (chainEdits 64 ++ [.instantiate ⟨86⟩ [⟨20⟩]]) ∧
      answersWith (instantiate ⟨23⟩ [⟨20⟩])
        (core.applyAll (chainEdits 64 ++ [.instantiate ⟨86⟩ [⟨20⟩]])) (fun inst s =>
          (s.type inst).form.definition? == some ⟨23⟩ && (s.type inst).base.isNone &&
            (s.type ⟨23⟩).base.isSome) = true := by
    decide +kernel
  obtain ⟨inst, r', hrun, hP⟩ := exists_of_answersWith heval
  simp only [Bool.and_eq_true, beq_iff_eq, Option.isNone_iff_eq_none] at hP
  obtain ⟨⟨hdef, hnone⟩, hsome⟩ := hP
  refine ⟨inst, r', hfits, hrun, hdef, fun hpop => ?_⟩
  obtain ⟨b, hb⟩ := Option.isSome_iff_exists.mp hsome
  have hrel := hpop.base
  rw [hb, hnone] at hrel
  cases hrel

end Registry

end ProgramScan

import ProgramScan.Proofs.Registry.Scoped

/-!
# Signatures of generic methods on generic types

A generic method on an instance of a generic type gets its signature in two steps: the member of the
instance has the signature of the declared method with the arguments of the type, and an instance of the
member has that signature with both lists of arguments.  The second step runs over the outcome of the
first one, so parameters that stand in arguments of the type are replaced as well.

* `Replaces.of_constructed`, `Replaces.of_instanceOf`
                                what becomes of a type is made from what becomes of its parts;
* `Registry.AgreeIn`, `Replaces.comp_iff`
                                substitution twice is a third substitution if it is for each parameter;
* `Replaces.spares`             a type that stays mentions no parameter that is replaced;
* `Registry.CaptureFree`        no parameter in the arguments that are used is replaced;
* `Registry.SubstitutedUnlessCaptured`
                                a type is what substitution gives, if and only if nothing is captured;
* `instantiated_member`         the types in the signature of such a method are, and the rest is that of
                                the declared method.
-/

namespace ProgramScan

namespace Registry

variable {r : Registry} {ctx c₁ c₂ c : GenericContext}

/-! ## types made from parts -/

/-- what becomes of an array, a pointer or a reference is one to what becomes of the element -/
theorem Replaces.of_constructed (h : r.Readable) (ho : r.Orderly) {shape : Shape} {e t u : TypeId}
    (he : r.Has (.type e)) (ht : r.Constructed shape e t) (hu : r.Replaces ctx t u) :
    ∃ e', r.Replaces ctx e e' ∧ r.Constructed shape e' u := by
  have hf := h.constructed ho he ht
  by_cases hclosed : (ctx.isEmpty || !r.isOpen t) = true
  · rw [hu.closed_inv hclosed]
    rw [ho.isOpen_constructed (ho.wellFormed.instance_ ht.known) hf] at hclosed
    exact ⟨e, .closed hclosed, ht⟩
  · exact hu.constructed_inv hclosed hf

/-- what becomes of an instance is the instance for what becomes of the arguments -/
theorem Replaces.of_instanceOf (h : r.Readable) (ho : r.Orderly) {d t u : TypeId}
    {args : List TypeId} (hd : r.Has (.type d)) (hdef : (r.type d).form.isDefinition = true)
    (ha : ∀ a ∈ args, r.Has (.type a)) (ht : r.InstanceOf d args t) (hu : r.Replaces ctx t u) :
    ∃ args', List.Forall₂ (r.Replaces ctx) args args' ∧ r.InstanceOf d args' u := by
  obtain ⟨hdt, hat, hkind⟩ := h.parts ho hd hdef ha ht
  by_cases hclosed : (ctx.isEmpty || !r.isOpen t) = true
  · refine ⟨args, List.forall₂_same.mpr fun a hmem => .closed ?_, hu.closed_inv hclosed ▸ ht⟩
    rcases Bool.or_eq_true_iff.mp hclosed with hempty | hopen
    · rw [hempty, Bool.true_or]
    · have hargs := h.any_isOpen ho hd hdef ha ht (by simpa using hopen)
      rw [Bool.eq_false_iff.mpr (List.any_eq_false.mp hargs a hmem), Bool.not_false, Bool.or_true]
  · obtain ⟨args', hargs, hi⟩ := hu.named_inv hclosed hkind
    rw [hat] at hargs
    rw [hdt] at hi
    exact ⟨args', hargs, hi⟩

/-! ## two substitutions and a third one -/

theorem forall₂_trans {α β γ : Type} {R : α → β → Prop} {S : β → γ → Prop} {T : α → γ → Prop}
    {as : List α} {bs : List β} {cs : List γ} (h : List.Forall₂ R as bs) (h' : List.Forall₂ S bs cs)
    (hT : ∀ a ∈ as, ∀ b c, R a b → S b c → T a c) : List.Forall₂ T as cs := by
  induction h generalizing cs with
  | nil =>
    cases h'
    exact .nil
  | @cons a b as bs hab _ ih =>
    cases h' with
    | cons hbc hrest =>
      exact .cons (hT a List.mem_cons_self b _ hab hbc)
        (ih hrest fun a ha => hT a (List.mem_cons_of_mem _ ha))

/-- what the parameters in `t` are replaced by in `c₁` becomes in `c₂` what they are replaced by in
`c` -/
def AgreeIn (r : Registry) (c₁ c₂ c : GenericContext) (t : TypeId) : Prop :=
  ∀ p index owner, r.Occurs p t → (r.type p).form = .parameter index owner →
    r.Replaces c₂ ((c₁.argsOf owner)[index]?.getD p) ((c.argsOf owner)[index]?.getD p)

/-- **Substitution twice is a third substitution if and only if it is for each parameter.** -/
theorem Replaces.comp_iff (h : r.Readable) (ho : r.Orderly) (hctx₁ : r.HasContext c₁)
    (hctx₂ : r.HasContext c₂) (hctx : r.HasContext c) (hne₁ : c₁.isEmpty = false)
    (hne : c.isEmpty = false) {t u v : TypeId} (ht : r.Has (.type t)) (hu : r.Replaces c₁ t u)
    (hv : r.Replaces c₂ u v) : r.Replaces c t v ↔ r.AgreeIn c₁ c₂ c t := by
  induction hn : t.index using Nat.strongRecOn generalizing t u v with
  | _ n ih =>
    subst hn
    have hw := ho.wellFormed
    cases hopen : r.isOpen t with
    | false =>
      have hclosed : ∀ ctx : GenericContext, (ctx.isEmpty || !r.isOpen t) = true := fun ctx => by
        rw [hopen, Bool.not_false, Bool.or_true]
      obtain rfl := hu.closed_inv (hclosed c₁)
      obtain rfl := hv.closed_inv (hclosed c₂)
      refine ⟨fun _ p index owner hin hp => ?_, fun _ => .closed (hclosed c)⟩
      rw [hin.isOpen ho ht (by rw [hp]; rfl)] at hopen
      cases hopen
    | true =>
      have hno : ∀ {ctx : GenericContext}, ctx.isEmpty = false →
          ¬ (ctx.isEmpty || !r.isOpen t) = true := fun hctx => by simp [hctx, hopen]
      -- definitions and instances
      have hnamed : (r.type t).form.kind?.isSome →
          (r.Replaces c t v ↔ r.AgreeIn c₁ c₂ c t) := by
        intro hkind
        obtain ⟨as, has, hiu⟩ := hu.named_inv (hno hne₁) hkind
        have hd := definition_has hw ht
        have hdef := ho.isDefinition_definitionOf ht hiu.params_ne_nil
        have hhas := Replaces.has_args hw hctx₁ ht has
        obtain ⟨bs, hbs, hiv⟩ := hv.of_instanceOf h ho hd hdef hhas hiu
        have hiffs : List.Forall₂ (fun a b => r.Replaces c a b ↔ r.AgreeIn c₁ c₂ c a)
            (r.type t).form.genericArgs bs :=
          forall₂_trans has hbs fun a ha x y hx hy =>
            ih _ (ho.genericArg_lt ht ha) (hw.genericArgOf ht ha) hx hy rfl
        constructor
        · intro hcv p index owner hin hp
          obtain ⟨bs', hbs', hiv'⟩ := hcv.named_inv (hno hne) hkind
          obtain rfl : bs = bs' :=
            (h.parts ho hd hdef (Replaces.has_all hw hctx₂ hhas hbs) hiv).2.1.symm.trans
              (h.parts ho hd hdef (Replaces.has_args hw hctx ht hbs') hiv').2.1
          obtain ⟨a, ha, hin'⟩ := hin.exists_genericArg hkind (by rw [hp]; rfl)
          obtain ⟨i, hi, rfl⟩ := List.getElem_of_mem ha
          have hi' : i < bs.length := hbs'.length_eq ▸ hi
          exact (hiffs.get hi hi').mp (hbs'.get hi hi') p index owner hin' hp
        · intro hagree
          refine .named (hno hne) hkind ?_ hiv
          exact forall₂_imp_of_mem hiffs fun a ha b _ hiff =>
            hiff.mpr fun p index owner hin => hagree p index owner (.argument ha hin)
      cases hf : (r.type t).form with
      | defined kind params => exact hnamed (by rw [hf]; rfl)
      | instantiated kind d args => exact hnamed (by rw [hf]; rfl)
      | parameter index owner =>
        rw [hu.parameter_inv (hno hne₁) hf] at hv
        constructor
        · intro hcv p i o hin hp
          obtain rfl := hin.eq_of_isParameter (by rw [hf]; rfl)
          rw [hf] at hp
          cases hp
          rwa [hcv.parameter_inv (hno hne) hf] at hv
        · intro hagree
          have hhas : r.Has (.type ((c₁.argsOf owner)[index]?.getD t)) :=
            (Replaces.parameter (hno hne₁) hf).has hw hctx₁ ht
          rw [hv.unique ho hctx₂ hhas (hagree t index owner .self hf)]
          exact .parameter (hno hne) hf
      | constructed shape e =>
        have he : (r.type t).form.element? = some e := by rw [hf]; rfl
        have hehas := hw.element ht he
        obtain ⟨x, hx, hxu⟩ := hu.constructed_inv (hno hne₁) hf
        have hxhas := hx.has hw hctx₁ hehas
        obtain ⟨y, hy, hyv⟩ := hv.of_constructed h ho hxhas hxu
        have hiff := ih _ (ho.element_lt ht he) hehas hx hy rfl
        constructor
        · intro hcv p index owner hin hp
          obtain ⟨y', hy', hyv'⟩ := hcv.constructed_inv (hno hne) hf
          have hform := h.constructed ho (hy.has hw hctx₂ hxhas) hyv
          rw [h.constructed ho (hy'.has hw hctx hehas) hyv'] at hform
          cases hform
          exact hiff.mp hy' p index owner (hin.of_constructed hf (by rw [hp]; rfl)) hp
        · intro hagree
          refine .constructed (hno hne) hf (hiff.mpr fun p index owner hin => ?_) hyv
          exact hagree p index owner (.element he hin)

/-- a type that stays mentions no parameter that is replaced by another type -/
theorem Replaces.spares (h : r.Readable) (ho : r.Orderly) (hctx : r.HasContext ctx) {t : TypeId}
    (ht : r.Has (.type t)) (hself : r.Replaces ctx t t) : r.Spares ctx t := by
  induction hn : t.index using Nat.strongRecOn generalizing t with
  | _ n ih =>
    subst hn
    intro p index owner hin hp
    have hw := ho.wellFormed
    have hparameter : (r.type p).form.isParameter = true := by rw [hp]; rfl
    cases hempty : ctx.isEmpty with
    | true =>
      rw [ctx.argsOf_eq_nil hempty owner]
      rfl
    | false =>
      have hno : ¬ (ctx.isEmpty || !r.isOpen t) = true := by
        simp [hempty, hin.isOpen ho ht hparameter]
      have hnamed : (r.type t).form.kind?.isSome → (ctx.argsOf owner)[index]?.getD p = p := by
        intro hkind
        obtain ⟨args, hargs, hi⟩ := hself.named_inv hno hkind
        obtain ⟨-, hown, -⟩ := h.parts ho (definition_has hw ht)
          (ho.isDefinition_definitionOf ht hi.params_ne_nil) (Replaces.has_args hw hctx ht hargs) hi
        rw [← hown] at hargs
        obtain ⟨a, ha, hin'⟩ := hin.exists_genericArg hkind hparameter
        exact ih _ (ho.genericArg_lt ht ha) (hw.genericArgOf ht ha)
          (List.forall₂_same.mp hargs a ha) rfl p index owner hin' hp
      cases hf : (r.type t).form with
      | defined kind params => exact hnamed (by rw [hf]; rfl)
      | instantiated kind d args => exact hnamed (by rw [hf]; rfl)
      | parameter i o =>
        obtain rfl := hin.eq_of_isParameter (by rw [hf]; rfl)
        exact (hself.parameter_inv hno hp).symm
      | constructed shape e =>
        have he : (r.type t).form.element? = some e := by rw [hf]; rfl
        have hehas := hw.element ht he
        obtain ⟨e', he', hc⟩ := hself.constructed_inv hno hf
        have hform := h.constructed ho (he'.has hw hctx hehas) hc
        rw [hf] at hform
        cases hform
        exact ih _ (ho.element_lt ht he) hehas he' rfl p index owner
          (hin.of_constructed hf hparameter) hp

/-! ## parameters that are captured -/

/-- Where a parameter of a type stands in `u`, the argument for it mentions no parameter that is replaced
by another type. -/
def CaptureFree (r : Registry) (ctx : GenericContext) (u : TypeId) : Prop :=
  ∀ p index a, r.Occurs p u → (r.type p).form = .parameter index .type →
    ctx.typeArgs[index]? = some a → r.Spares ctx a

/-- `v` is what substitution in `u` gives, from now on, if no parameter is captured.  If one is, then
substitution gives another type. -/
structure SubstitutedUnlessCaptured (r : Registry) (ctx : GenericContext) (u v : TypeId) : Prop where
  settled : r.CaptureFree ctx u → Settled (substitute ctx u) v r
  differs : ¬ r.CaptureFree ctx u →
    ∀ w s, substitute ctx u r = .ok w s → s.Readable → w ≠ v

theorem Lasting.replaces (ho : r.Orderly) (hctx : r.HasContext ctx) {t u : TypeId}
    (ht : r.Has (.type t)) (h : Lasting (substitute ctx t) u r) :
    ∃ ts, (r.useNames ts).Replaces ctx t u := by
  obtain ⟨ts, hrun⟩ := h.run ho
  exact ⟨ts, ((changes_substitute ho hctx ht).ok hrun).2.2⟩

theorem Spares.back {s : Registry} (hw : r.WellFormed) (hp : r.Persists s) {t : TypeId}
    (ht : r.Has (.type t)) (h : s.Spares ctx t) : r.Spares ctx t :=
  fun p index owner hin hf =>
    h p index owner (hin.mono hw hp ht) (by rwa [hp.form (hin.has hw ht)])

section
variable {as bs : List TypeId}

/-- Arguments of a type first, and then these with arguments of a method: this agrees with both at once if
the arguments that are used stay. -/
theorem agreeIn_iff {t : TypeId} : r.AgreeIn ⟨as, []⟩ ⟨as, bs⟩ ⟨as, bs⟩ t ↔
    ∀ p index a, r.Occurs p t → (r.type p).form = .parameter index .type → as[index]? = some a →
      r.Replaces ⟨as, bs⟩ a a := by
  constructor
  · intro hagree p index a hin hf ha
    have harg := hagree p index .type hin hf
    simp only [GenericContext.argsOf, ha, Option.getD_some] at harg
    exact harg
  · intro hstay p index owner hin hf
    have hp : r.Replaces ⟨as, bs⟩ p _ := replaces_parameter hf
    cases owner with
    | method => exact hp
    | type =>
      cases ha : as[index]? with
      | none =>
        simp only [GenericContext.argsOf, ha, Option.getD_none] at hp ⊢
        exact hp
      | some a =>
        simp only [GenericContext.argsOf, ha, Option.getD_some]
        exact hstay p index a hin hf ha

variable (hctx : r.HasContext ⟨as, bs⟩) {t u v : TypeId} (ht : r.Has (.type t))
include hctx ht

/-- the two steps give what the one gives if the arguments that are used stay -/
theorem exists_replaces_iff (h : r.Readable) (ho : r.Orderly) (hne : as ≠ [])
    (hu : Lasting (substitute ⟨as, []⟩ t) u r) (hv : Lasting (substitute ⟨as, bs⟩ u) v r) :
    ∃ ts, (r.useNames ts).Replaces ⟨as, bs⟩ t v ↔
      (r.useNames ts).AgreeIn ⟨as, []⟩ ⟨as, bs⟩ ⟨as, bs⟩ t := by
  have hctx₁ : r.HasContext ⟨as, []⟩ := hasContext_args fun a ha =>
    hctx a (List.mem_append_left _ ha)
  have hfull : ∀ ms, (GenericContext.mk as ms).isEmpty = false := fun ms => by
    rw [GenericContext.isEmpty, List.isEmpty_eq_false_iff.mpr hne, Bool.false_and]
  obtain ⟨ts, hru⟩ := hu.replaces ho hctx₁ ht
  have hots := ho.useNames ts
  have huhas : (r.useNames ts).Has (.type u) := hru.has hots.wellFormed hctx₁ ht
  obtain ⟨ts', hrv⟩ := (hv.mono (.useNames r ts)).replaces hots hctx huhas
  have hru' := hru.mono hots (.useNames _ ts') hctx₁ ht
  rw [useNames_useNames] at hrv hru'
  exact ⟨ts ++ ts', hru'.comp_iff (h.useNames _) (ho.useNames _) hctx₁ hctx hctx (hfull _) (hfull _)
    ht hrv⟩

/-- what comes out of the two steps -/
theorem substituted_of_lasting (h : r.Readable) (hc : r.Coherent) (hrem : r.Remembers) (hne : as ≠ [])
    (hu : Lasting (substitute ⟨as, []⟩ t) u r) (hv : Lasting (substitute ⟨as, bs⟩ u) v r) :
    r.SubstitutedUnlessCaptured ⟨as, bs⟩ t v where
  settled hfree := by
    have ho := hc.orderly
    obtain ⟨ts, hiff⟩ := exists_replaces_iff hctx ht h ho hne hu hv
    have hagree : (r.useNames ts).AgreeIn ⟨as, []⟩ ⟨as, bs⟩ ⟨as, bs⟩ t := by
      refine agreeIn_iff.mpr fun p index a hin hf ha => ?_
      have hahas := hctx a (List.mem_append_left _ (List.mem_of_getElem? ha))
      have hspares := hfree p index a (hin.back ho.wellFormed (.useNames r ts) ht) hf ha
      exact (replaces_self ho hrem hc.listed hahas hspares).mono ho (.useNames r ts) hctx hahas
    exact ((hiff.mpr hagree).settled (ho.useNames ts) hctx ht).of_forget (forget_useNames r ts)
  differs hcaptured w s hrun hreadable := by
    rintro rfl
    have hg := (coheres_substitute hc hctx ht).ok hrun
    have hrep := ((changes_substitute hc.orderly hctx ht).ok hrun).2.2
    have hp := hg.persists
    have ho := hg.coherent.orderly
    obtain ⟨ts, hiff⟩ := exists_replaces_iff (hp.hasContext hctx) (hp.has _ ht) hreadable ho hne
      (hu.mono hp) (hv.mono hp)
    have hp' : r.Persists (s.useNames ts) := hp.trans (.useNames s ts)
    have hctx' := hp'.hasContext hctx
    have hagree := agreeIn_iff.mp
      (hiff.mp (hrep.mono ho (.useNames s ts) (hp.hasContext hctx) (hp.has _ ht)))
    refine hcaptured fun p index a hin hf ha => ?_
    have hw := hc.wellFormed
    have hahas := hctx a (List.mem_append_left _ (List.mem_of_getElem? ha))
    have hstays := hagree p index a (hin.mono hw hp' ht) (by rwa [hp'.form (hin.has hw ht)]) ha
    exact (hstays.spares (hreadable.useNames ts) (ho.useNames ts) hctx' (hp'.has _ hahas)).back hw hp'
      hahas

/-- nothing is captured if the arguments are the parameters themselves -/
theorem substituted_of_inPlace (hc : r.Coherent) (hplace : r.InPlace .type as)
    (hv : Lasting (substitute ⟨as, bs⟩ t) v r) : r.SubstitutedUnlessCaptured ⟨as, bs⟩ t v where
  settled _ := by
    obtain ⟨ts, hrep⟩ := hv.replaces hc.orderly hctx ht
    exact (hrep.settled (hc.orderly.useNames ts) hctx ht).of_forget (forget_useNames r ts)
  differs hcaptured := by
    refine absurd (fun p index a hin hf ha q i owner hin' hq => ?_) hcaptured
    have hform := hplace.getElem? ha
    obtain rfl := hin'.eq_of_isParameter (by rw [hform]; rfl)
    rw [hform] at hq
    cases hq
    rw [GenericContext.argsOf, ha]
    rfl

end

/-! ## methods -/

/-- The types in the signature of `e` are what substitution gives for those of `d`, unless a parameter is
captured. -/
def SignatureUnlessCaptured (r : Registry) (ctx : GenericContext) (d e : Method) : Prop :=
  r.SubstitutedUnlessCaptured ctx d.returnType e.returnType ∧
    List.Forall₂ (fun p q : Param =>
      r.SubstitutedUnlessCaptured ctx p.type q.type ∧ q = { p with type := q.type }) d.params e.params

section
variable {as bs : List TypeId} {D T : TypeId} {d x m : MethodId} {r₁ r₂ r₃ : Registry}

section
variable (hctx : r.HasContext ⟨as, bs⟩) (hc : r.Coherent) (hd : r.Has (.method d)) {e e' : Method}
include hctx hc hd

theorem SignatureBecomes.of_inPlace (hplace : r.InPlace .type as)
    (h : r.SignatureBecomes ⟨as, bs⟩ (r.method d) e) :
    r.SignatureUnlessCaptured ⟨as, bs⟩ (r.method d) e := by
  refine ⟨substituted_of_inPlace hctx (hc.wellFormed.returnType hd) hc hplace h.1, ?_⟩
  exact forall₂_imp_of_mem h.2 fun p hp q _ hpq =>
    ⟨substituted_of_inPlace hctx (hc.wellFormed.param hd (List.mem_map_of_mem hp)) hc hplace hpq.1,
      hpq.2⟩

theorem SignatureBecomes.twice (h : r.Readable) (hrem : r.Remembers) (hne : as ≠ [])
    (h₁ : r.SignatureBecomes ⟨as, []⟩ (r.method d) e) (h₂ : r.SignatureBecomes ⟨as, bs⟩ e e') :
    r.SignatureUnlessCaptured ⟨as, bs⟩ (r.method d) e' := by
  refine ⟨substituted_of_lasting hctx (hc.wellFormed.returnType hd) h hc hrem hne h₁.1 h₂.1, ?_⟩
  exact forall₂_trans h₁.2 h₂.2 fun p hp q q' hpq hqq' =>
    ⟨substituted_of_lasting hctx (hc.wellFormed.param hd (List.mem_map_of_mem hp)) h hc hrem hne
      hpq.1 hqq'.1, by rw [hqq'.2, hpq.2]⟩

end

/-- The method of an instance that belongs to the method `d` of the definition: the instance is the
definition, and the method `d`; or the method is a copy of `d`. -/
theorem member_of_instanceOf (hc : r.Coherent) (hf : r.Faithful)
    (hdef : (r.type D).form.isDefinition = true) (hd : d ∈ (r.type D).methods)
    (ha : ∀ a ∈ as, r.Has (.type a)) (hi : r.InstanceOf D as T) (hx : x ∈ (r.type T).methods)
    (hstems : r.stemsFrom d x = true) : r.declaringArgs x = as ∧
      (x = d ∧ r.InPlace .type as ∨ (r.method x).origin = .memberOf d ∧
        r.SignatureBecomes ⟨as, []⟩ (r.method d) (r.method x)) := by
  have hD : r.Has (.type D) := has_of_listed (.inr (List.ne_nil_of_mem hd))
  have hdecl := ((hc.listed.methods T x).mp hx).1
  rw [stemsFrom, Bool.or_eq_true, decide_eq_true_eq, decide_eq_true_eq] at hstems
  have hargs : r.declaringArgs x = (r.type T).form.genericArgs := by rw [declaringArgs, hdecl]
  rw [hargs]
  rcases hf.instanceOf hc.orderly hD hdef ha hi with ⟨rfl, hown⟩ | ⟨kind, hform⟩
  · refine ⟨hown, .inl ⟨?_, hown ▸ hf.typeParams _ (type_mem hD) hdef⟩⟩
    -- the definition lists no copies
    refine hstems.resolve_right fun hmember => ?_
    have horigin := hc.listed.origin hx (TypeForm.definition?_of_isDefinition hdef)
    rw [memberDefinition?_eq_some hmember] at horigin
    cases horigin
  · rw [hform]
    refine ⟨rfl, .inr ?_⟩
    have horigin : (r.method x).origin = .memberOf d := by
      refine memberDefinition?_eq_some (hstems.resolve_left ?_)
      rintro rfl
      have hsame := ((hc.listed.methods D x).mp hd).1.symm.trans hdecl
      rw [Option.some.inj hsame, hform] at hdef
      cases hdef
    obtain ⟨t, hmember⟩ := hc.listed.members x d horigin
    obtain rfl := Option.some.inj (hmember.declaring.symm.trans hdecl)
    obtain ⟨_, _, _, hform', -, returnType, params, hreturn, hparams, hsig⟩ := hmember.copied
    rw [hform] at hform'
    cases hform'
    refine ⟨horigin, ?_⟩
    show r.SignatureBecomes ⟨as, []⟩ (r.method d) (r.method x).signature
    rw [hsig]
    refine ⟨hreturn, hparams.imp fun p q hq => ?_⟩
    obtain ⟨type, htype, rfl⟩ := hq
    exact ⟨htype, rfl⟩

theorem instanceOf_correspondingMethod (hr : r.Built)
    (hdef : (r.type D).form.isDefinition = true) (hd : d ∈ (r.type D).methods)
    (ha : ∀ a ∈ as, r.Has (.type a)) (hT : instantiate D as r = .ok T r₁)
    (hx : correspondingMethod T d r₁ = .ok x r₂) :
    Grown r r₂ ∧ Step [] r r₂ ∧ r₂.Has (.type T) ∧ r₂.InstanceOf D as T ∧
      x ∈ (r₂.type T).methods ∧ r₂.stemsFrom d x = true := by
  have hD : r.Has (.type D) := has_of_listed (.inr (List.ne_nil_of_mem hd))
  have horigin := hr.listed.origin hd (TypeForm.definition?_of_isDefinition hdef)
  have hg := (coheres_instantiate hr.coherent hD ha).ok hT
  obtain ⟨hs, hThas, hi⟩ := (supplies_instantiate hr.orderly hD ha).ok hT
  rw [definitionOf, hg.grows.type hD, TypeForm.definition?_of_isDefinition hdef] at hi
  obtain ⟨hmem, hstems, rfl⟩ := correspondingMethod_found hx
  rw [hg.grows.method (hr.wellFormed.methodOf hD hd), Method.memberDefinition?, horigin] at hstems
  exact ⟨hg, hs, hThas, hi, hmem, hstems⟩

/-- **A generic method on an instance of a generic type.**  `x` is the method that belongs to `d` on the
instance of `D` for `as`, and `m` is the instance of `x` for `bs`.  It is like `d`, and has the code of
`d` unless it or `x` was given a body.  The types in its signature are those that substitution of both
lists gives if no parameter in an argument is captured, and others if one is. -/
theorem instantiated_member (hr : r.Built) (hdef : (r.type D).form.isDefinition = true)
    (hd : d ∈ (r.type D).methods) (ha : ∀ a ∈ as, r.Has (.type a))
    (hT : instantiate D as r = .ok T r₁) (hx : correspondingMethod T d r₁ = .ok x r₂)
    (hb : ∀ b ∈ bs, r₂.Has (.type b)) (hm : instantiateMethod x bs r₂ = .ok m r₃)
    (hf : r₃.Faithful) :
    (r₃.method m).traits = (r.method d).traits ∧
    r₃.body? m = (r₃.method m).body.or ((r₃.method x).body.or (r.method d).body) ∧
    r₃.SignatureUnlessCaptured ⟨as, bs⟩ (r.method d) (r₃.method m) := by
  have hD : r.Has (.type D) := has_of_listed (.inr (List.ne_nil_of_mem hd))
  have hdhas := hr.wellFormed.methodOf hD hd
  obtain ⟨hg₂, hs₂, hThas, hi, hmem, hstems⟩ := instanceOf_correspondingMethod hr hdef hd ha hT hx
  have hxhas := hg₂.coherent.wellFormed.methodOf hThas hmem
  have hplain := ((hg₂.coherent.listed.methods T x).mp hmem).2
  have hg₃ := (coheres_instantiateMethod hg₂.coherent hxhas hb).ok hm
  obtain ⟨hs₃, -⟩ := (changes_instantiateMethod hg₂.coherent.orderly hxhas hb).ok hm
  obtain ⟨hgeneric, hargs⟩ := hf.of_instantiateMethod hg₂.coherent hxhas hplain hb hm
  -- seen from the end
  have hg := hg₂.trans hg₃
  have hc := hg.coherent
  have hrem : r₃.Remembers := hs₃.remembers (hs₂.remembers hr.remembers)
  have has : ∀ a ∈ as, r₃.Has (.type a) := fun a hmem => hg.grows.has (ha a hmem)
  have hctx : r₃.HasContext ⟨as, bs⟩ := fun t ht =>
    (List.mem_append.mp ht).elim (has t) fun hmem => hg₃.grows.has (hb t hmem)
  have hi₃ := hi.mono hg₂.coherent.orderly hg₃.persists (hg₂.grows.has hD)
    fun a hmem => hg₂.grows.has (ha a hmem)
  obtain ⟨hxargs, hcases⟩ := member_of_instanceOf hc hf (by rwa [hg.grows.type hD])
    (by rwa [hg.grows.type hD]) has hi₃ (by rwa [hg₃.grows.type hThas])
    (by rwa [hg₃.grows.stemsFrom hxhas])
  have hsig := hc.signed m x hgeneric
  rw [hargs, hxargs] at hsig
  have hmsource := source?_of_genericDefinition? hgeneric
  obtain ⟨-, hmtraits⟩ := hc.copying.alike m x hmsource
  have hd₃ : r₃.method d = r.method d := hg.grows.method hdhas
  have horigin := hr.listed.origin hd (TypeForm.definition?_of_isDefinition hdef)
  have hdbody : r₃.body? d = (r₃.method d).body := body?_of_declared (by rw [hd₃, horigin])
  rw [← hd₃, body?_of_source hc.wellFormed hmsource]
  rcases hcases with ⟨rfl, hplace⟩ | ⟨hmember, hsig₁⟩
  · refine ⟨hmtraits, ?_, hsig.of_inPlace hctx hc (hg.grows.has hdhas) hplace⟩
    rw [hdbody, Option.or_self]
  · have hxsource : (r₃.method x).origin.source? = some d := by rw [hmember]; rfl
    obtain ⟨-, hxtraits⟩ := hc.copying.alike x d hxsource
    refine ⟨hmtraits.trans hxtraits, ?_,
      hsig₁.twice hctx hc (hg.grows.has hdhas) hf.toReadable hrem hi.args_ne_nil hsig⟩
    rw [body?_of_source hc.wellFormed hxsource, hdbody]

end

/-! ## a class to look at -/

def instantiateBoth (D : TypeId) (d : MethodId) (as bs : List TypeId) :
    Action (MethodId × MethodId) := do
  let T ← instantiate D as
  let x ← correspondingMethod T d
  let m ← instantiateMethod x bs
  return (x, m)

theorem instantiateBoth_ok {D : TypeId} {d x m : MethodId} {as bs : List TypeId} {s : Registry}
    (h : instantiateBoth D d as bs r = .ok (x, m) s) : ∃ T r₁ r₂, instantiate D as r = .ok T r₁ ∧
      correspondingMethod T d r₁ = .ok x r₂ ∧ instantiateMethod x bs r₂ = .ok m s := by
  obtain ⟨T, r₁, hT, h⟩ := bind_eq_ok_iff.mp h
  obtain ⟨x', r₂, hx, h⟩ := bind_eq_ok_iff.mp h
  obtain ⟨m', r₃, hm, h⟩ := bind_eq_ok_iff.mp h
  cases h
  exact ⟨T, r₁, r₂, hT, hx, hm⟩

/-- the class `Box<T>` with the method `Get<U>(item : U) : T`, and the array of `T` -/
def boxedGet : Registry :=
  core.applyAll [.addModule "App",
    .declareType { module := ⟨1⟩, namespaceName := "", name := "Box", generic := ["T"] },
    .addParameter ⟨1⟩ "U" 0 .method,
    .declareMethod
      { module := ⟨1⟩, name := "Get", declaring := some ⟨21⟩, returnType := some ⟨20⟩,
        params := [{ name := "item", type := ⟨22⟩ }], genericParams := [⟨22⟩] },
    .construct .szArray ⟨20⟩]

theorem built_boxedGet : boxedGet.Built := Built.core.applyAll (by decide +kernel)

theorem boxedGet_spec : (boxedGet.type ⟨21⟩).form.isDefinition = true ∧
    ⟨0⟩ ∈ (boxedGet.type ⟨21⟩).methods ∧ boxedGet.HasContext ⟨[⟨23⟩], [⟨12⟩]⟩ ∧
    boxedGet.Has (.type (boxedGet.method ⟨0⟩).returnType) := by
  decide +kernel

/-- `Box<T[]>.Get<System.Int32>` is made, and then `T[]` is substituted for `T` in the declared return
type. -/
theorem boxedGet_run : ∃ T x m r₁ r₂ r₃ w s, instantiate ⟨21⟩ [⟨23⟩] boxedGet = .ok T r₁ ∧
    correspondingMethod T ⟨0⟩ r₁ = .ok x r₂ ∧ instantiateMethod x [⟨12⟩] r₂ = .ok m r₃ ∧
    substitute ⟨[⟨23⟩], [⟨12⟩]⟩ (boxedGet.method ⟨0⟩).returnType r₃ = .ok w s ∧
    boxedGet.Faithful ∧ r₃.Faithful ∧ s.Faithful ∧
    r₃.fullName (r₃.method m).returnType = "T[][]" ∧
    (r₃.method m).params.map (fun p => r₃.fullName p.type) = ["System.Int32"] ∧
    s.fullName w = "T[]" := by
  have heval : answersWith (instantiateBoth ⟨21⟩ ⟨0⟩ [⟨23⟩] [⟨12⟩]) boxedGet (fun p r₃ =>
      answersWith (substitute ⟨[⟨23⟩], [⟨12⟩]⟩ (boxedGet.method ⟨0⟩).returnType) r₃ fun w s =>
        decide (s.Faithful ∧ r₃.fullName (r₃.method p.2).returnType = "T[][]" ∧
          (r₃.method p.2).params.map (fun p => r₃.fullName p.type) = ["System.Int32"] ∧
          s.fullName w = "T[]")) = true := by
    decide +kernel
  obtain ⟨⟨x, m⟩, r₃, hrun, hsub⟩ := exists_of_answersWith heval
  obtain ⟨w, s, hw, hP⟩ := exists_of_answersWith hsub
  obtain ⟨hf, hnames⟩ := of_decide_eq_true hP
  obtain ⟨T, r₁, r₂, hT, hx, hm⟩ := instantiateBoth_ok hrun
  obtain ⟨hdef, hd, hctx, hreturn⟩ := boxedGet_spec
  -- the programs before were faithful, since the last one is
  obtain ⟨hg₂, -, hThas, -, hmem, -⟩ := instanceOf_correspondingMethod built_boxedGet hdef hd
    (fun a ha => hctx a (List.mem_append_left _ ha)) hT hx
  have hxhas := hg₂.coherent.wellFormed.methodOf hThas hmem
  have hg₃ := hg₂.trans ((coheres_instantiateMethod hg₂.coherent hxhas
    fun b hb => hg₂.grows.has (hctx b (List.mem_append_right _ hb))).ok hm)
  have hg := (coheres_substitute hg₃.coherent (hg₃.grows.hasContext hctx)
    (hg₃.grows.has hreturn)).ok hw
  exact ⟨T, x, m, r₁, r₂, r₃, w, s, hT, hx, hm, hw,
    hf.of_grows (hg₃.trans hg).grows built_boxedGet.wellFormed,
    hf.of_grows hg.grows hg₃.coherent.wellFormed, hf, hnames⟩

/-- `Box<T[]>.Get<System.Int32>` has `System.Int32` for `U`, and the `T` in the argument is replaced once
more. -/
theorem instantiated_member_boxed : ∃ T x m r₁ r₂ r₃,
    instantiate ⟨21⟩ [⟨23⟩] boxedGet = .ok T r₁ ∧ correspondingMethod T ⟨0⟩ r₁ = .ok x r₂ ∧
    instantiateMethod x [⟨12⟩] r₂ = .ok m r₃ ∧ r₃.Faithful ∧
    r₃.fullName (r₃.method m).returnType = "T[][]" ∧
    (r₃.method m).params.map (fun p => r₃.fullName p.type) = ["System.Int32"] ∧
    (r₃.method m).traits = (boxedGet.method ⟨0⟩).traits ∧
    r₃.body? m = (r₃.method m).body.or ((r₃.method x).body.or (boxedGet.method ⟨0⟩).body) ∧
    r₃.SignatureUnlessCaptured ⟨[⟨23⟩], [⟨12⟩]⟩ (boxedGet.method ⟨0⟩) (r₃.method m) := by
  obtain ⟨hdef, hd, hctx, -⟩ := boxedGet_spec
  obtain ⟨T, x, m, r₁, r₂, r₃, -, -, hT, hx, hm, -, -, hf, -, hreturn, hparams, -⟩ := boxedGet_run
  have ha : ∀ a ∈ [(⟨23⟩ : TypeId)], boxedGet.Has (.type a) := fun a ha =>
    hctx a (List.mem_append_left _ ha)
  have hg := (instanceOf_correspondingMethod built_boxedGet hdef hd ha hT hx).1
  exact ⟨T, x, m, r₁, r₂, r₃, hT, hx, hm, hf, hreturn, hparams,
    instantiated_member built_boxedGet hdef hd ha hT hx
      (fun b hb => hg.grows.has (hctx b (List.mem_append_right _ hb))) hm hf⟩

/-- `Box<T[]>.Get<System.Int32>` returns `T[][]`, and substitution of `T[]` for `T` and `System.Int32` for
`U` in the declared return type gives `T[]`. -/
theorem instantiated_member_captured : boxedGet.Built ∧ boxedGet.Faithful ∧
    (boxedGet.type ⟨21⟩).form.isDefinition = true ∧ ⟨0⟩ ∈ (boxedGet.type ⟨21⟩).methods ∧
    ∃ T x m r₁ r₂ r₃ w s, instantiate ⟨21⟩ [⟨23⟩] boxedGet = .ok T r₁ ∧
      correspondingMethod T ⟨0⟩ r₁ = .ok x r₂ ∧ instantiateMethod x [⟨12⟩] r₂ = .ok m r₃ ∧
      substitute ⟨[⟨23⟩], [⟨12⟩]⟩ (boxedGet.method ⟨0⟩).returnType r₃ = .ok w s ∧
      r₃.Faithful ∧ s.Faithful ∧ r₃.fullName (r₃.method m).returnType = "T[][]" ∧
      s.fullName w = "T[]" := by
  obtain ⟨T, x, m, r₁, r₂, r₃, w, s, hT, hx, hm, hw, hfaithful, hf, hfs, hreturn, -, hname⟩ :=
    boxedGet_run
  exact ⟨built_boxedGet, hfaithful, boxedGet_spec.1, boxedGet_spec.2.1, T, x, m, r₁, r₂, r₃, w, s, hT,
    hx, hm, hw, hf, hfs, hreturn, hname⟩

end Registry

end ProgramScan

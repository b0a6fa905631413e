import ProgramScan.Proofs.Registry.Derived

/-!
# Contexts one after the other, and a context of own parameters

Two substitutions are one, and substituting the parameters of a definition for themselves changes
nothing.  For the first, what was made in between has to be what was asked for; the second one makes
nothing.

* `Registry.Covers`                    a context has an argument for each parameter that stands in a type;
* `contextAfter`                       the context that has what the arguments of one context become in
                                       another one;
* `Replaces.twice`                     what becomes of a type in both contexts;
* `Registry.OwnParameters`             a context whose arguments are the parameters of definitions;
* `replaces_self`, `replaces_own`      a type in which nothing is replaced stays, since it is remembered,
                                       and so does one that mentions only own parameters;
* `substitute_substitute`              both, for runs of `substitute`.
-/

namespace ProgramScan

namespace Registry

variable {r r' : Registry}

/-! ## parameters in a type -/

/-- the context has an argument for each parameter that stands in the type -/
def Covers (r : Registry) (ctx : GenericContext) (t : TypeId) : Prop :=
  ∀ p index owner, r.Occurs p t → (r.type p).form = .parameter index owner →
    index < (ctx.argsOf owner).length

theorem Faithful.exists_parameter (h : r.Faithful) (ho : r.Orderly) {t : TypeId}
    (ht : r.Has (.type t)) (hopen : r.isOpen t = true) :
    ∃ p index owner, r.Occurs p t ∧ (r.type p).form = .parameter index owner := by
  induction hn : t.index using Nat.strongRecOn generalizing t with
  | _ n ih =>
    subst hn
    have hw := ho.wellFormed
    cases hf : (r.type t).form with
    | parameter index owner => exact ⟨t, index, owner, .self, hf⟩
    | constructed shape e =>
      have he : (r.type t).form.element? = some e := by rw [hf]; rfl
      rw [ho.isOpen_constructed ht hf] at hopen
      obtain ⟨p, index, owner, hp, hform⟩ := ih _ (ho.element_lt ht he) (hw.element ht he) hopen rfl
      exact ⟨p, index, owner, .element he hp, hform⟩
    | instantiated kind d args =>
      rw [ho.isOpen_instantiated ht hf, List.any_eq_true] at hopen
      obtain ⟨a, hmem, ha⟩ := hopen
      have hin : a ∈ (r.type t).form.genericArgs := by rwa [hf]
      obtain ⟨p, index, owner, hp, hform⟩ :=
        ih _ (ho.genericArg_lt ht hin) (hw.genericArgOf ht hin) ha rfl
      exact ⟨p, index, owner, .argument hin hp, hform⟩
    | defined kind params =>
      have hdef : (r.type t).form.isDefinition = true := by rw [hf]; rfl
      rw [isOpen_definition hdef, hf] at hopen
      cases params with
      | nil => cases hopen
      | cons p params =>
        have hp : (r.type t).form.genericArgs[0]? = some p := by rw [hf]; rfl
        exact ⟨p, 0, .type, .argument (List.mem_of_getElem? hp) .self, h.typeParameter ht hdef hp⟩

/-! ## one context after the other -/

/-- the context that has what the arguments of `c₁` become in `c₂` -/
def contextAfter (c₁ c₂ : GenericContext) : Action GenericContext := do
  let typeArgs ← c₁.typeArgs.mapM (substitute c₂)
  let methodArgs ← c₁.methodArgs.mapM (substitute c₂)
  return ⟨typeArgs, methodArgs⟩

/-- what the arguments of one context become in another one -/
def ContextReplaces (r : Registry) (c₁ c₂ c : GenericContext) : Prop :=
  ∀ owner, List.Forall₂ (r.Replaces c₂) (c₁.argsOf owner) (c.argsOf owner)

namespace ContextReplaces

variable {c₁ c₂ c : GenericContext} (hc : r.ContextReplaces c₁ c₂ c)
include hc

theorem isEmpty_eq : c.isEmpty = c₁.isEmpty :=
  isEmpty_eq_of_length_argsOf fun owner => (hc owner).length_eq.symm

/-- nothing is replaced in an empty context -/
theorem eq_of_isEmpty (hempty : c₂.isEmpty = true) : c = c₁ := by
  have hsame : ∀ owner, c.argsOf owner = c₁.argsOf owner := fun owner => by
    have heq : List.Forall₂ Eq (c₁.argsOf owner) (c.argsOf owner) :=
      (hc owner).imp fun _ _ h => (h.closed_inv (by rw [hempty, Bool.true_or])).symm
    exact (List.forall₂_eq_eq_eq ▸ heq : c₁.argsOf owner = c.argsOf owner).symm
  have htype := hsame .type
  have hmethod := hsame .method
  cases c
  cases c₁
  simp only [GenericContext.argsOf] at htype hmethod
  rw [htype, hmethod]

theorem parameter {owner : ParameterOwner} {index : Nat} (hlt : index < (c₁.argsOf owner).length)
    (p : TypeId) :
    r.Replaces c₂ ((c₁.argsOf owner)[index]?.getD p) ((c.argsOf owner)[index]?.getD p) := by
  have hlt' : index < (c.argsOf owner).length := (hc owner).length_eq ▸ hlt
  rw [List.getElem?_eq_getElem hlt, List.getElem?_eq_getElem hlt']
  exact (hc owner).get hlt hlt'

end ContextReplaces

theorem ContextReplaces.mono {c₁ c₂ c : GenericContext} (ho : r.Orderly) (hp : r.Persists r')
    (h₁ : r.HasContext c₁) (h₂ : r.HasContext c₂) (hc : r.ContextReplaces c₁ c₂ c) :
    r'.ContextReplaces c₁ c₂ c := fun owner =>
  forall₂_imp_of_mem (hc owner) fun _ ha _ _ hab => hab.mono ho hp h₂ (h₁.argsOf ha)

theorem ContextReplaces.hasContext {c₁ c₂ c : GenericContext} (hw : r.WellFormed)
    (h₁ : r.HasContext c₁) (h₂ : r.HasContext c₂) (hc : r.ContextReplaces c₁ c₂ c) :
    r.HasContext c := by
  have hall : ∀ owner, ∀ b ∈ c.argsOf owner, r.Has (.type b) := fun owner =>
    Replaces.has_all hw h₂ (fun _ ha => h₁.argsOf ha) (hc owner)
  exact fun b hb => (List.mem_append.mp hb).elim (hall .type b) (hall .method b)

theorem contextReplaces_of_contextAfter (hc : r.Coherent) {c₁ c₂ c : GenericContext}
    (h₁ : r.HasContext c₁) (h₂ : r.HasContext c₂) (hrun : contextAfter c₁ c₂ r = .ok c r') :
    Grown r r' ∧ r'.ContextReplaces c₁ c₂ c := by
  obtain ⟨typeArgs, s, htypes, hrest⟩ := bind_eq_ok_iff.mp hrun
  obtain ⟨methodArgs, s', hmethods, hpure⟩ := bind_eq_ok_iff.mp hrest
  cases hpure
  obtain ⟨hg, htypes⟩ := replaces_of_mapM hc h₂ (fun a ha => h₁ a (List.mem_append_left _ ha)) htypes
  have h₂' := hg.grows.hasContext h₂
  have hargs : ∀ a ∈ c₁.methodArgs, s.Has (.type a) :=
    fun a ha => hg.grows.has (h₁ a (List.mem_append_right _ ha))
  obtain ⟨hg', hmethods⟩ := replaces_of_mapM hg.coherent h₂' hargs hmethods
  refine ⟨hg.trans hg', fun owner => ?_⟩
  cases owner with
  | method => exact hmethods
  | type =>
    refine forall₂_imp_of_mem htypes fun a ha _ _ hab => ?_
    exact hab.mono hg.coherent.orderly hg'.persists h₂'
      (hg.grows.has (h₁ a (List.mem_append_left _ ha)))

/-- **What becomes of a type in one context after the other**, where the first one covers it: what
becomes of it in the context of what the arguments become. -/
theorem Replaces.twice (h : r.Readable) (ho : r.Orderly) {c₁ c₂ c : GenericContext}
    (hctx₁ : r.HasContext c₁) (hctx : r.HasContext c) (hc : r.ContextReplaces c₁ c₂ c)
    {t u w : TypeId} (ht : r.Has (.type t)) (hcovers : r.Covers c₁ t)
    (hparameter : r.isOpen t = true →
      ∃ p index owner, r.Occurs p t ∧ (r.type p).form = .parameter index owner)
    (hu : r.Replaces c₁ t u) (hw : r.Replaces c t w) : r.Replaces c₂ u w := by
  cases hempty₂ : c₂.isEmpty with
  | true =>
    obtain rfl := hc.eq_of_isEmpty hempty₂
    rw [hw.unique ho hctx ht hu]
    exact .closed (by rw [hempty₂, Bool.true_or])
  | false =>
    cases hempty₁ : c₁.isEmpty with
    | true =>
      -- no parameter is covered, so the type is closed
      have hclosed : r.isOpen t = false := by
        by_contra hopen
        obtain ⟨p, index, owner, hp, hform⟩ := hparameter (Bool.not_eq_false _ ▸ hopen)
        have hlt := hcovers p index owner hp hform
        rw [c₁.argsOf_eq_nil hempty₁ owner] at hlt
        exact absurd hlt (Nat.not_lt_zero _)
      have hc' : ∀ ctx : GenericContext, (ctx.isEmpty || !r.isOpen t) = true := fun ctx => by
        rw [hclosed, Bool.not_false, Bool.or_true]
      rw [hu.closed_inv (hc' c₁), hw.closed_inv (hc' c)]
      exact .closed (hc' c₂)
    | false =>
      refine Replaces.comp h ho hctx₁ hempty₁ (hc.isEmpty_eq.trans hempty₁) hempty₂ ht ?_ hu hw
      exact fun p index owner hp hform => hc.parameter (hcovers p index owner hp hform) p

/-! ## own parameters -/

/-- the arguments are the parameters of a generic type, of a generic method, or of both -/
structure OwnParameters (r : Registry) (ctx : GenericContext) : Prop where
  type : ctx.typeArgs = [] ∨ ∃ d, r.Has (.type d) ∧ (r.type d).form.isDefinition = true ∧
    ctx.typeArgs = (r.type d).form.genericArgs
  method : ctx.methodArgs = [] ∨ ∃ m, r.Has (.method m) ∧ (r.method m).genericDefinition? = none ∧
    ctx.methodArgs = (r.method m).genericArgs

theorem OwnParameters.inPlace {ctx : GenericContext} (h : r.OwnParameters ctx) (hf : r.Faithful)
    (owner : ParameterOwner) : r.InPlace owner (ctx.argsOf owner) := by
  have hnil : ∀ owner, r.InPlace owner [] := fun _ e he => by cases he
  cases owner with
  | type =>
    obtain hempty | ⟨d, hd, hdef, hargs⟩ := h.type
    · rw [GenericContext.argsOf, hempty]
      exact hnil _
    · rw [GenericContext.argsOf, hargs]
      exact hf.typeParams _ (type_mem hd) hdef
  | method =>
    obtain hempty | ⟨m, hm, hdef, hargs⟩ := h.method
    · rw [GenericContext.argsOf, hempty]
      exact hnil _
    · rw [GenericContext.argsOf, hargs]
      exact hf.methodParams _ (method_mem hm) hdef

section
variable (ho : r.Orderly) (hrem : r.Remembers) {t : TypeId} (ht : r.Has (.type t))
include ho hrem ht

theorem constructed_of_form {shape : Shape} {e : TypeId}
    (hf : (r.type t).form = .constructed shape e) : r.Constructed shape e t := by
  obtain ⟨key, hk⟩ := (hrem t ht (by rw [hf]; rfl)).known
  have hmemo := ho.memo key t hk
  rw [memoKey?, hf, Option.some.injEq] at hmemo
  refine ⟨(ho.placed t ht).part_used (by rw [hf]; rfl) e ?_, hmemo ▸ hk⟩
  rw [hf]
  exact List.mem_singleton.mpr rfl

/-- an instance is the one that is remembered for its definition and arguments -/
theorem instanceOf_of_form (hl : r.Listed) {kind : TypeKind} {d : TypeId} {args : List TypeId}
    (hf : (r.type t).form = .instantiated kind d args) (hne : args ≠ []) : r.InstanceOf d args t := by
  obtain ⟨⟨key, hk⟩, hforeign⟩ := hrem t ht (by rw [hf]; rfl)
  have hmemo := ho.memo key t hk
  rw [memoKey?, hf, Option.some.injEq] at hmemo
  have hused : ∀ u, u = d ∨ u ∈ args → u ∈ r.usedNames := fun u hu => by
    refine (ho.placed t ht).part_used (by rw [hf]; rfl) u ?_
    rw [hf]
    exact List.mem_map_of_mem (List.mem_cons.mpr hu)
  have hlength := hl.arity t kind d args hf
  refine ⟨?_, .inr ⟨hforeign kind d args hf, hused d (.inl rfl), fun a ha => hused a (.inr ha),
    hmemo ▸ hk⟩⟩
  rw [hlength, bne_self_eq_false, Bool.false_or, List.isEmpty_eq_false_iff, ← List.length_pos_iff,
    hlength, List.length_pos_iff]
  exact hne

end

/-- no parameter that stands in the type is replaced by another type -/
def Spares (r : Registry) (ctx : GenericContext) (t : TypeId) : Prop :=
  ∀ p index owner, r.Occurs p t → (r.type p).form = .parameter index owner →
    (ctx.argsOf owner)[index]?.getD p = p

/-- **A type stays if no parameter in it is replaced**, since it is remembered. -/
theorem replaces_self (ho : r.Orderly) (hrem : r.Remembers) (hl : r.Listed) {ctx : GenericContext}
    {t : TypeId} (ht : r.Has (.type t)) (hspares : r.Spares ctx t) : r.Replaces ctx t t := by
  have hw := ho.wellFormed
  induction hn : t.index using Nat.strongRecOn generalizing t with
  | _ n ih =>
    subst hn
    by_cases hc : (ctx.isEmpty || !r.isOpen t) = true
    · exact .closed hc
    have hargs : List.Forall₂ (r.Replaces ctx) (r.type t).form.genericArgs
        (r.type t).form.genericArgs :=
      List.forall₂_same.mpr fun a ha => ih _ (ho.genericArg_lt ht ha) (hw.genericArgOf ht ha)
        (fun p index owner hp => hspares p index owner (.argument ha hp)) rfl
    have hopen : r.isOpen t = true := by
      rw [Bool.or_eq_true, not_or, Bool.not_eq_true', Bool.not_eq_false] at hc
      exact hc.2
    cases hf : (r.type t).form with
    | parameter index owner =>
      have hreplaces := Replaces.parameter hc hf
      rwa [hspares t index owner .self hf] at hreplaces
    | constructed shape e =>
      have he : (r.type t).form.element? = some e := by rw [hf]; rfl
      refine .constructed hc hf (ih _ (ho.element_lt ht he) (hw.element ht he) ?_ rfl)
        (constructed_of_form ho hrem ht hf)
      exact fun p index owner hp => hspares p index owner (.element he hp)
    | instantiated kind d args =>
      have hne : args ≠ [] := by
        rintro rfl
        rw [ho.isOpen_instantiated ht hf] at hopen
        cases hopen
      refine .named hc (by rw [hf]; rfl) hargs ?_
      rw [definitionOf, hf]
      exact instanceOf_of_form ho hrem ht hl hf hne
    | defined kind params =>
      have hdef : (r.type t).form.isDefinition = true := by rw [hf]; rfl
      refine .named hc (by rw [hf]; rfl) hargs ?_
      rw [definitionOf, TypeForm.definition?_of_isDefinition hdef]
      refine ⟨?_, .inl ⟨rfl, rfl⟩⟩
      rw [isOpen_definition hdef, Bool.not_eq_true'] at hopen
      simp [hopen]

/-- **A type that mentions only parameters of the context stays**, if the parameters are in their
places. -/
theorem replaces_own (hr : r.Built) {ctx : GenericContext}
    (hown : ∀ owner, r.InPlace owner (ctx.argsOf owner)) {t : TypeId} (ht : r.Has (.type t))
    (honly : ∀ p index owner, r.Occurs p t → (r.type p).form = .parameter index owner →
      p ∈ ctx.argsOf owner) : r.Replaces ctx t t := by
  refine replaces_self hr.orderly hr.remembers hr.listed ht fun p index owner hin hf => ?_
  obtain ⟨i, hi⟩ := List.mem_iff_getElem?.mp (honly p index owner hin hf)
  have hform := (hown owner).getElem? hi
  rw [hf] at hform
  cases hform
  rw [hi]
  rfl

/-! ## runs -/

theorem Occurs.has (hw : r.WellFormed) {p t : TypeId} (ht : r.Has (.type t)) (h : r.Occurs p t) :
    r.Has (.type p) := by
  induction h with
  | self => exact ht
  | element he _ ih => exact ih (hw.element ht he)
  | argument ha _ ih => exact ih (hw.genericArgOf ht ha)

/-- what stands in a type of the program stood in it before -/
theorem Occurs.back (hw : r.WellFormed) (hp : r.Persists r') {p t : TypeId} (ht : r.Has (.type t))
    (h : r'.Occurs p t) : r.Occurs p t := by
  induction h with
  | self => exact .self
  | element he _ ih =>
    rw [hp.form ht] at he
    exact .element he (ih (hw.element ht he))
  | argument ha _ ih =>
    rw [hp.form ht] at ha
    exact .argument ha (ih (hw.genericArgOf ht ha))

theorem Occurs.mono (hw : r.WellFormed) (hp : r.Persists r') {p t : TypeId} (ht : r.Has (.type t))
    (h : r.Occurs p t) : r'.Occurs p t := by
  induction h with
  | self => exact .self
  | element he _ ih => exact .element (by rwa [hp.form ht]) (ih (hw.element ht he))
  | argument ha _ ih => exact .argument (by rwa [hp.form ht]) (ih (hw.genericArgOf ht ha))

theorem Covers.mono (hw : r.WellFormed) (hp : r.Persists r') {ctx : GenericContext} {t : TypeId}
    (ht : r.Has (.type t)) (h : r.Covers ctx t) : r'.Covers ctx t := by
  intro p index owner hin hform
  have hin := hin.back hw hp ht
  exact h p index owner hin (by rwa [← hp.form (hin.has hw ht)])

theorem OwnParameters.hasContext {ctx : GenericContext} (h : r.OwnParameters ctx)
    (hw : r.WellFormed) : r.HasContext ctx := by
  intro t ht
  rcases List.mem_append.mp ht with ht | ht
  · obtain hempty | ⟨d, hd, -, hargs⟩ := h.type
    · rw [hempty] at ht
      cases ht
    · exact hw.genericArgOf hd (hargs ▸ ht)
  · obtain hempty | ⟨m, hm, -, hargs⟩ := h.method
    · rw [hempty] at ht
      cases ht
    · exact hw.genericArg hm (hargs ▸ ht)

/-- **Substitution twice is substitution once**, with what the arguments of the first context become
in the second one.  The first context covers the type, and when all is made keys still tell different
types apart.  Substituting the parameters of definitions for themselves in a type that mentions no
others answers this type, and makes nothing. -/
theorem substitute_substitute (hr : r.Built) (hf : r.Faithful) {t : TypeId} (ht : r.Has (.type t)) :
    (∀ c₁ c₂, r.HasContext c₁ → r.HasContext c₂ → r.Covers c₁ t → ∀ u v c w r₁ r₂ r₃ r₄,
      substitute c₁ t r = .ok u r₁ → substitute c₂ u r₁ = .ok v r₂ →
      contextAfter c₁ c₂ r₂ = .ok c r₃ → substitute c t r₃ = .ok w r₄ → r₄.Readable → v = w) ∧
    ∀ ctx, r.OwnParameters ctx → (∀ p index owner, r.Occurs p t →
      (r.type p).form = .parameter index owner → p ∈ ctx.argsOf owner) →
      ∃ names, substitute ctx t r = .ok t (r.useNames names) := by
  have ho := hr.orderly
  have hw := ho.wellFormed
  refine ⟨?_, fun ctx hown honly => ?_⟩
  · intro c₁ c₂ h₁ h₂ hcovers u v c w r₁ r₂ r₃ r₄ hu hv hc hw' hreadable
    have hg₁ := (coheres_substitute hr.coherent h₁ ht).ok hu
    obtain ⟨hs₁, hhas₁, hru⟩ := (changes_substitute ho h₁ ht).ok hu
    have h₂' := hg₁.grows.hasContext h₂
    have hg₂ := (coheres_substitute hg₁.coherent h₂' hhas₁).ok hv
    obtain ⟨hs₂, -, hrv⟩ := (changes_substitute hs₁.orderly h₂' hhas₁).ok hv
    have hg₁₂ := hg₁.trans hg₂
    obtain ⟨hg₃, hrc⟩ := contextReplaces_of_contextAfter hg₂.coherent (hg₁₂.grows.hasContext h₁)
      (hg₁₂.grows.hasContext h₂) hc
    have hg₁₃ := hg₁₂.trans hg₃
    have ho₃ := hg₃.coherent.orderly
    have hctx := hrc.hasContext ho₃.wellFormed (hg₁₃.grows.hasContext h₁) (hg₁₃.grows.hasContext h₂)
    obtain ⟨hs₄, -, hrw⟩ := (changes_substitute ho₃ hctx (hg₁₃.grows.has ht)).ok hw'
    -- all of it holds at the end
    have hp : r.Persists r₄ := hg₁₃.persists.trans hs₄.persists
    have hp₂ : r₂.Persists r₄ := hg₃.persists.trans hs₄.persists
    have hu₄ := hru.mono hs₁.orderly (hs₂.persists.trans hp₂) (hg₁.grows.hasContext h₁)
      (hg₁.grows.has ht)
    have hv₄ := hrv.mono hs₂.orderly hp₂ (hg₁₂.grows.hasContext h₂) (hg₂.grows.has hhas₁)
    have hc₄ := hrc.mono ho₃ hs₄.persists (hg₁₃.grows.hasContext h₁) (hg₁₃.grows.hasContext h₂)
    have hparameter : r₄.isOpen t = true →
        ∃ p index owner, r₄.Occurs p t ∧ (r₄.type p).form = .parameter index owner := by
      rw [Persists.isOpen ho hp ht]
      intro hopen
      obtain ⟨p, index, owner, hin, hform⟩ := hf.exists_parameter ho ht hopen
      exact ⟨p, index, owner, hin.mono hw hp ht, by rwa [hp.form (hin.has hw ht)]⟩
    have hw₄ := Replaces.twice hreadable hs₄.orderly (hp.hasContext h₁) (hs₄.persists.hasContext hctx)
      hc₄ (hp.has _ ht) (hcovers.mono hw hp ht) hparameter hu₄ hrw
    exact hv₄.unique hs₄.orderly (hp.hasContext h₂) ((hs₂.persists.trans hp₂).has _ hhas₁) hw₄
  · have hctx := hown.hasContext hw
    exact (replaces_own hr (hown.inPlace hf) ht honly).lasting ho hctx ht |>.run ho

/-! ## programs to look at -/

/-- the types that stand in a type, looked at `depth` levels deep -/
def partsWithin (r : Registry) : Nat → TypeId → List TypeId
  | 0, _ => []
  | depth + 1, t =>
    t :: ((r.type t).form.element?.toList ++ (r.type t).form.genericArgs).flatMap
      (r.partsWithin depth)

theorem Occurs.mem_partsWithin (ho : r.Orderly) {p t : TypeId} (h : r.Occurs p t)
    (ht : r.Has (.type t)) {n : Nat} (hn : t.index < n) : p ∈ r.partsWithin n t := by
  induction h generalizing n with
  | self =>
    obtain ⟨n, rfl⟩ := Nat.exists_eq_succ_of_ne_zero (Nat.ne_zero_of_lt hn)
    exact List.mem_cons_self
  | element he _ ih =>
    obtain ⟨n, rfl⟩ := Nat.exists_eq_succ_of_ne_zero (Nat.ne_zero_of_lt hn)
    refine List.mem_cons_of_mem _ (List.mem_flatMap.mpr ⟨_, ?_, ih (ho.wellFormed.element ht he) ?_⟩)
    · exact List.mem_append_left _ (by rw [he]; exact List.mem_singleton.mpr rfl)
    · exact Nat.lt_of_lt_of_le (ho.element_lt ht he) (Nat.lt_succ_iff.mp hn)
  | argument ha _ ih =>
    obtain ⟨n, rfl⟩ := Nat.exists_eq_succ_of_ne_zero (Nat.ne_zero_of_lt hn)
    refine List.mem_cons_of_mem _
      (List.mem_flatMap.mpr ⟨_, List.mem_append_right _ ha, ih (ho.wellFormed.genericArgOf ht ha) ?_⟩)
    exact Nat.lt_of_lt_of_le (ho.genericArg_lt ht ha) (Nat.lt_succ_iff.mp hn)

theorem occurs_of_mem_partsWithin {p t : TypeId} {n : Nat} (h : p ∈ r.partsWithin n t) :
    r.Occurs p t := by
  induction n generalizing t with
  | zero => cases h
  | succ n ih =>
    rcases List.mem_cons.mp h with rfl | h
    · exact .self
    · obtain ⟨u, hu, hp⟩ := List.mem_flatMap.mp h
      rcases List.mem_append.mp hu with hu | hu
      · exact .element (Option.mem_toList.mp hu) (ih hp)
      · exact .argument hu (ih hp)

def allParameters (r : Registry) (t : TypeId) (P : TypeId → Nat → ParameterOwner → Prop)
    [∀ p index owner, Decidable (P p index owner)] : Bool :=
  (r.partsWithin (t.index + 1) t).all fun p => match (r.type p).form with
    | .parameter index owner => decide (P p index owner)
    | _ => true

/-- the parameters that stand in a type are among those that are looked at -/
theorem forall_parameters (ho : r.Orderly) {t : TypeId} (ht : r.Has (.type t))
    {P : TypeId → Nat → ParameterOwner → Prop} [∀ p index owner, Decidable (P p index owner)]
    (h : r.allParameters t P = true) :
    ∀ p index owner, r.Occurs p t → (r.type p).form = .parameter index owner → P p index owner := by
  intro p index owner hin hform
  have hp := List.all_eq_true.mp h p (hin.mem_partsWithin ho ht (Nat.lt_succ_self _))
  rw [hform] at hp
  exact of_decide_eq_true hp

def bothContexts (c₁ c₂ : GenericContext) (t : TypeId) : Action (TypeId × TypeId) := do
  let u ← substitute c₁ t
  let v ← substitute c₂ u
  let c ← contextAfter c₁ c₂
  let w ← substitute c t
  return (v, w)

theorem bothContexts_ok {c₁ c₂ : GenericContext} {t v w : TypeId} {s : Registry}
    (h : bothContexts c₁ c₂ t r = .ok (v, w) s) : ∃ u c r₁ r₂ r₃, substitute c₁ t r = .ok u r₁ ∧
      substitute c₂ u r₁ = .ok v r₂ ∧ contextAfter c₁ c₂ r₂ = .ok c r₃ ∧
      substitute c t r₃ = .ok w s := by
  obtain ⟨u, r₁, hu, h⟩ := bind_eq_ok_iff.mp h
  obtain ⟨v', r₂, hv, h⟩ := bind_eq_ok_iff.mp h
  obtain ⟨c, r₃, hc, h⟩ := bind_eq_ok_iff.mp h
  obtain ⟨w', r₄, hw, h⟩ := bind_eq_ok_iff.mp h
  cases h
  exact ⟨u, c, r₁, r₂, r₃, hu, hv, hc, hw⟩

def wraps : Registry :=
  core.applyAll [.addModule "App",
    .declareType { module := ⟨1⟩, namespaceName := "", name := "Wrap", generic := ["V"] },
    .construct .szArray ⟨21⟩]

/-- `Wrap<V>[]` with `Wrap<V>` for `V` and then `System.Int32` for `V`; with `V` for `V` it stays -/
theorem substitute_substitute_wraps :
    (∃ u v c w r₁ r₂ r₃ r₄, substitute ⟨[⟨21⟩], []⟩ ⟨22⟩ wraps = .ok u r₁ ∧
      substitute ⟨[⟨12⟩], []⟩ u r₁ = .ok v r₂ ∧
      contextAfter ⟨[⟨21⟩], []⟩ ⟨[⟨12⟩], []⟩ r₂ = .ok c r₃ ∧ substitute c ⟨22⟩ r₃ = .ok w r₄ ∧
      r₄.fullName v = "Wrap`1<Wrap`1<System.Int32>>[]" ∧ v = w) ∧
    ∃ names, substitute ⟨[⟨20⟩], []⟩ ⟨22⟩ wraps = .ok ⟨22⟩ (wraps.useNames names) := by
  have hb : wraps.Built := Built.core.applyAll (by decide +kernel)
  have ho := hb.orderly
  obtain ⟨hf, ht, h₁, h₂, hcovers, hdefinition, hown, heval⟩ :
      wraps.Faithful ∧ wraps.Has (.type ⟨22⟩) ∧
      wraps.HasContext ⟨[⟨21⟩], []⟩ ∧ wraps.HasContext ⟨[⟨12⟩], []⟩ ∧
      wraps.allParameters ⟨22⟩ (fun _ index owner =>
        index < ((GenericContext.mk [⟨21⟩] []).argsOf owner).length) = true ∧
      (wraps.Has (.type ⟨21⟩) ∧ (wraps.type ⟨21⟩).form.isDefinition = true ∧
        [⟨20⟩] = (wraps.type ⟨21⟩).form.genericArgs) ∧
      wraps.allParameters ⟨22⟩ (fun p _ owner =>
        p ∈ (GenericContext.mk [⟨20⟩] []).argsOf owner) = true ∧
      answersWith (bothContexts ⟨[⟨21⟩], []⟩ ⟨[⟨12⟩], []⟩ ⟨22⟩) wraps (fun p s =>
        decide (s.Readable ∧ s.fullName p.1 = "Wrap`1<Wrap`1<System.Int32>>[]")) = true := by
    decide +kernel
  have hboth := substitute_substitute hb hf ht
  refine ⟨?_, hboth.2 ⟨[⟨20⟩], []⟩ ⟨.inr ⟨⟨21⟩, hdefinition⟩, .inl rfl⟩ (forall_parameters ho ht hown)⟩
  obtain ⟨⟨v, w⟩, r₄, hrun, hP⟩ := exists_of_answersWith heval
  obtain ⟨hreadable, hname⟩ := of_decide_eq_true hP
  obtain ⟨u, c, r₁, r₂, r₃, hu, hv, hc, hw⟩ := bothContexts_ok hrun
  exact ⟨u, v, c, w, r₁, r₂, r₃, r₄, hu, hv, hc, hw, hname,
    hboth.1 _ _ h₁ h₂ (forall_parameters ho ht hcovers) _ _ _ _ _ _ _ _ hu hv hc hw hreadable⟩

/-- Three classes in three modules: `First<Q>`, `Second<R, Q>` and `List<V>`, with the arrays of `List<V>`
and of `List<Q>`, where `Q` is the parameter of `First`. -/
def twoParametersQ : Registry :=
  core.applyAll [.addModule "A", .addModule "B", .addModule "App",
    .declareType { module := ⟨1⟩, namespaceName := "", name := "First", generic := ["Q"] },
    .declareType { module := ⟨2⟩, namespaceName := "", name := "Second", generic := ["R", "Q"] },
    .declareType { module := ⟨3⟩, namespaceName := "", name := "List", generic := ["V"] },
    .construct .szArray ⟨26⟩, .instantiate ⟨26⟩ [⟨20⟩], .construct .szArray ⟨28⟩]

/-- The parameter `Q` of `Second` for `V` in `List<V>[]` gives the array of the other `List<Q>`, since
an array is remembered under the key of its element, in which the argument has no module.  With
`System.Int32` and `System.String` for `R` and `Q`, this is another type than `List<V>[]` with
`System.String` for `V`. -/
theorem substitute_substitute_misled :
    twoParametersQ.Built ∧ twoParametersQ.Faithful ∧ twoParametersQ.Covers ⟨[⟨23⟩], []⟩ ⟨27⟩ ∧
    ∃ u v c w r₁ r₂ r₃ r₄, substitute ⟨[⟨23⟩], []⟩ ⟨27⟩ twoParametersQ = .ok u r₁ ∧
      substitute ⟨[⟨12⟩, ⟨4⟩], []⟩ u r₁ = .ok v r₂ ∧
      contextAfter ⟨[⟨23⟩], []⟩ ⟨[⟨12⟩, ⟨4⟩], []⟩ r₂ = .ok c r₃ ∧
      substitute c ⟨27⟩ r₃ = .ok w r₄ ∧ r₄.fullName v = "List`1<System.Int32>[]" ∧
      r₄.fullName w = "List`1<System.String>[]" := by
  have hb : twoParametersQ.Built := Built.core.applyAll (by decide +kernel)
  obtain ⟨hf, ht, hcovers, heval⟩ :
      twoParametersQ.Faithful ∧ twoParametersQ.Has (.type ⟨27⟩) ∧
      twoParametersQ.allParameters ⟨27⟩ (fun _ index owner =>
        index < ((GenericContext.mk [⟨23⟩] []).argsOf owner).length) = true ∧
      answersWith (bothContexts ⟨[⟨23⟩], []⟩ ⟨[⟨12⟩, ⟨4⟩], []⟩ ⟨27⟩) twoParametersQ (fun p s =>
        decide (s.fullName p.1 = "List`1<System.Int32>[]" ∧
          s.fullName p.2 = "List`1<System.String>[]")) = true := by
    decide +kernel
  refine ⟨hb, hf, forall_parameters hb.orderly ht hcovers, ?_⟩
  obtain ⟨⟨v, w⟩, r₄, hrun, hP⟩ := exists_of_answersWith heval
  obtain ⟨u, c, r₁, r₂, r₃, hu, hv, hc, hw⟩ := bothContexts_ok hrun
  exact ⟨u, v, c, w, r₁, r₂, r₃, r₄, hu, hv, hc, hw, of_decide_eq_true hP⟩

end Registry

end ProgramScan

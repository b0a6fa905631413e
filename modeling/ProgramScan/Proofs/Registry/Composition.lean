import ProgramScan.Proofs.Registry.Faithful
import ProgramScan.Proofs.Registry.Rehomed

/-!
# Substitution twice

Substituting once and again is substituting once with what the arguments become, if what was made in
between is what was asked for.

* `Registry.Occurs`      a type stands in another one;
* `Replaces.parameter_inv`, `Replaces.constructed_inv`, `Replaces.named_inv`
                         what is known of a substituted type, by the form of the type;
* `Replaces.comp`        substitution twice;
* `Registry.Composes`    a context that does what two contexts do one after the other;
* `Composes.type`, `Composes.method`, `Composes.field`, `Composes.target`
                         types, members and targets of tokens seen from it.
-/

namespace ProgramScan

namespace Registry

variable {r : Registry}

/-- `p` stands in a type, at any depth -/
inductive Occurs (r : Registry) (p : TypeId) : TypeId → Prop
  | self : Occurs r p p
  | element {t e : TypeId} (he : (r.type t).form.element? = some e) (h : Occurs r p e) : Occurs r p t
  | argument {t a : TypeId} (ha : a ∈ (r.type t).form.genericArgs) (h : Occurs r p a) : Occurs r p t

/-! ## open types -/

theorem Orderly.isOpen_instantiated (ho : r.Orderly) {t : TypeId} (ht : r.Has (.type t))
    {kind : TypeKind} {d : TypeId} {args : List TypeId}
    (hf : (r.type t).form = .instantiated kind d args) : r.isOpen t = args.any r.isOpen := by
  rw [Registry.isOpen, Registry.isOpenWithin, hf]
  refine any_congr_mem fun a ha => ?_
  have hin : a ∈ (r.type t).form.genericArgs := by
    rw [hf]
    exact ha
  exact ho.isOpenWithin_eq (ho.wellFormed.genericArgOf ht hin) (ho.genericArg_lt ht hin)

theorem isOpen_definition {t : TypeId} (hdef : (r.type t).form.isDefinition = true) :
    r.isOpen t = !(r.type t).form.genericArgs.isEmpty := by
  rw [Registry.isOpen, Registry.isOpenWithin]
  cases hf : (r.type t).form with
  | defined kind params => rfl
  | instantiated kind d args => simp [hf, TypeForm.isDefinition] at hdef
  | parameter index owner => simp [hf, TypeForm.isDefinition] at hdef
  | constructed shape e => simp [hf, TypeForm.isDefinition] at hdef

/-! ## what a substituted type is -/

namespace Replaces

variable {ctx : GenericContext} {t u : TypeId}

variable (hopen : ¬ (ctx.isEmpty || !r.isOpen t) = true)
include hopen

theorem parameter_inv {index : Nat} {owner : ParameterOwner}
    (hf : (r.type t).form = .parameter index owner) (h : r.Replaces ctx t u) :
    u = (ctx.argsOf owner)[index]?.getD t := by
  cases h with
  | closed hc => exact absurd hc hopen
  | parameter _ hf' =>
    rw [hf] at hf'
    cases hf'
    rfl
  | constructed _ hf' =>
    rw [hf] at hf'
    cases hf'
  | named _ hkind =>
    rw [hf] at hkind
    cases hkind

theorem constructed_inv {shape : Shape} {e : TypeId} (hf : (r.type t).form = .constructed shape e)
    (h : r.Replaces ctx t u) : ∃ e', r.Replaces ctx e e' ∧ r.Constructed shape e' u := by
  cases h with
  | closed hc => exact absurd hc hopen
  | parameter _ hf' =>
    rw [hf] at hf'
    cases hf'
  | constructed _ hf' he hu =>
    rw [hf] at hf'
    cases hf'
    exact ⟨_, he, hu⟩
  | named _ hkind =>
    rw [hf] at hkind
    cases hkind

theorem named_inv (hkind : (r.type t).form.kind?.isSome) (h : r.Replaces ctx t u) :
    ∃ args, List.Forall₂ (r.Replaces ctx) (r.type t).form.genericArgs args ∧
      r.InstanceOf (r.definitionOf t) args u := by
  cases h with
  | closed hc => exact absurd hc hopen
  | parameter _ hf =>
    rw [hf] at hkind
    cases hkind
  | constructed _ hf =>
    rw [hf] at hkind
    cases hkind
  | named _ _ has hi => exact ⟨_, has, hi⟩

end Replaces

/-! ## substitution twice -/

/-- what is found for a definition and arguments has that definition and those arguments -/
theorem Readable.parts (h : r.Readable) (ho : r.Orderly) {d t : TypeId} {args : List TypeId}
    (hd : r.Has (.type d)) (hdef : (r.type d).form.isDefinition = true)
    (ha : ∀ a ∈ args, r.Has (.type a)) (hi : r.InstanceOf d args t) :
    r.definitionOf t = d ∧ (r.type t).form.genericArgs = args ∧
      (r.type t).form.kind?.isSome = true := by
  rcases h.instanceOf ho hd hdef ha hi with ⟨rfl, hargs⟩ | ⟨kind, hf⟩
  · refine ⟨?_, hargs, ?_⟩
    · rw [definitionOf, TypeForm.definition?_of_isDefinition hdef]
      rfl
    · cases hf : (r.type t).form <;> simp_all [TypeForm.isDefinition, TypeForm.kind?]
  · refine ⟨?_, ?_, ?_⟩
    · rw [definitionOf, hf]
      rfl
    · rw [hf]
      rfl
    · rw [hf]
      rfl

/-- types without parameters are replaced by themselves -/
theorem eq_of_replaces_closed {ctx : GenericContext} {as bs : List TypeId}
    (h : List.Forall₂ (r.Replaces ctx) as bs) (hc : as.any r.isOpen = false) : bs = as := by
  induction h with
  | nil => rfl
  | cons hab _ ih =>
    rw [List.any_cons, Bool.or_eq_false_iff] at hc
    rw [hab.closed_inv (by simp [hc.1]), ih hc.2]

/-- there is one instance for a definition and arguments -/
theorem InstanceOf.unique {d t u : TypeId} {args : List TypeId} (ht : r.InstanceOf d args t)
    (hu : r.InstanceOf d args u) : t = u := by
  rcases ht.found with ⟨hown, rfl⟩ | ⟨hne, -, -, hk⟩
  · rcases hu.found with ⟨-, rfl⟩ | ⟨hne, -⟩
    · rfl
    · exact absurd hown hne
  · rcases hu.found with ⟨hown, -⟩ | ⟨-, -, -, hk'⟩
    · exact absurd hown hne
    · exact Option.some.inj (hk.symm.trans hk')

/-- a closed instance has closed arguments -/
theorem Readable.any_isOpen (h : r.Readable) (ho : r.Orderly) {d t : TypeId} {args : List TypeId}
    (hd : r.Has (.type d)) (hdef : (r.type d).form.isDefinition = true)
    (ha : ∀ a ∈ args, r.Has (.type a)) (hi : r.InstanceOf d args t) (hclosed : r.isOpen t = false) :
    args.any r.isOpen = false := by
  rcases h.instanceOf ho hd hdef ha hi with ⟨rfl, -⟩ | ⟨kind, hf⟩
  · have hopen := isOpen_definition hdef
    rw [hclosed] at hopen
    exact absurd (List.isEmpty_iff.mp (by simpa using hopen.symm)) hi.params_ne_nil
  · rw [← ho.isOpen_instantiated (hi.has ho.wellFormed hd) hf, hclosed]

/-- Two instances of one definition: if the arguments of the one become those of the other, so do the
instances. -/
theorem Readable.comp_named (h : r.Readable) (ho : r.Orderly) {c c' : GenericContext}
    (hctx : r.HasContext c) (hne : c'.isEmpty = false) {t u v : TypeId} {as bs : List TypeId}
    (ht : r.Has (.type t)) (has : List.Forall₂ (r.Replaces c) (r.type t).form.genericArgs as)
    (hab : List.Forall₂ (r.Replaces c') as bs) (hu : r.InstanceOf (r.definitionOf t) as u)
    (hv : r.InstanceOf (r.definitionOf t) bs v) : r.Replaces c' u v := by
  have hw := ho.wellFormed
  have hd := definition_has hw ht
  have hdef := ho.isDefinition_definitionOf ht hu.params_ne_nil
  have hhas := Replaces.has_args hw hctx ht has
  obtain ⟨hdu, hau, hku⟩ := h.parts ho hd hdef hhas hu
  by_cases hcu : (c'.isEmpty || !r.isOpen u) = true
  · have hclosed : r.isOpen u = false := by simpa [hne] using hcu
    -- closed arguments stay
    have hargs := h.any_isOpen ho hd hdef hhas hu hclosed
    obtain rfl := eq_of_replaces_closed hab hargs
    obtain rfl := hu.unique hv
    exact .closed hcu
  · exact .named hcu hku (by rwa [hau]) (by rwa [hdu])

section
variable {c₁ c₁₂ c₂ : GenericContext} (h : r.Readable) (ho : r.Orderly) (hctx₁ : r.HasContext c₁)
  (hne₁ : c₁.isEmpty = false) (hne₁₂ : c₁₂.isEmpty = false)
  (hne₂ : c₂.isEmpty = false)
include h ho hctx₁ hne₁ hne₁₂ hne₂

/-- **Substitution twice is one substitution.**  `t` becomes `u` with the first context, and `v` with the
context that has what the arguments of the first one become in the second one.  Then `u` becomes `v`
in the second one. -/
theorem Replaces.comp {t u v : TypeId} (ht : r.Has (.type t))
    (hparam : ∀ p index owner, r.Occurs p t → (r.type p).form = .parameter index owner →
      r.Replaces c₂ ((c₁.argsOf owner)[index]?.getD p) ((c₁₂.argsOf owner)[index]?.getD p))
    (hu : r.Replaces c₁ t u) (hv : r.Replaces c₁₂ t v) : r.Replaces c₂ u v := by
  obtain ⟨n, hn⟩ : ∃ n, t.index < n := ⟨_, Nat.lt_succ_self _⟩
  induction n generalizing t u v with
  | zero => exact absurd hn (Nat.not_lt_zero _)
  | succ n ih =>
    have hw := ho.wellFormed
    have hn := Nat.lt_succ_iff.mp hn
    by_cases hopen : r.isOpen t = true
    · have ho₁ : ¬ (c₁.isEmpty || !r.isOpen t) = true := by simp [hne₁, hopen]
      have ho₁₂ : ¬ (c₁₂.isEmpty || !r.isOpen t) = true := by simp [hne₁₂, hopen]
      have hin : ∀ {a}, a ∈ (r.type t).form.genericArgs → ∀ {x y}, r.Replaces c₁ a x →
          r.Replaces c₁₂ a y → r.Replaces c₂ x y := fun ha x y hx hy =>
        ih (hw.genericArgOf ht ha) (fun p index owner hp => hparam p index owner (.argument ha hp))
          hx hy (Nat.lt_of_lt_of_le (ho.genericArg_lt ht ha) hn)
      -- definitions and instances
      have hnamed : (r.type t).form.kind?.isSome → r.Replaces c₂ u v := by
        intro hkind
        obtain ⟨as, has, hiu⟩ := hu.named_inv ho₁ hkind
        obtain ⟨bs, hbs, hiv⟩ := hv.named_inv ho₁₂ hkind
        have hab : List.Forall₂ (r.Replaces c₂) as bs :=
          forall₂_of_common has hbs fun a ha x y => hin ha
        exact h.comp_named ho hctx₁ hne₂ ht has hab hiu hiv
      cases hf : (r.type t).form with
      | defined kind params => exact hnamed (by rw [hf]; rfl)
      | instantiated kind d args => exact hnamed (by rw [hf]; rfl)
      | parameter index owner =>
        rw [hu.parameter_inv ho₁ hf, hv.parameter_inv ho₁₂ hf]
        exact hparam t index owner .self hf
      | constructed shape e =>
        have he : (r.type t).form.element? = some e := by rw [hf]; rfl
        obtain ⟨x, hx, hxu⟩ := hu.constructed_inv ho₁ hf
        obtain ⟨y, hy, hyv⟩ := hv.constructed_inv ho₁₂ hf
        have hehas := hw.element ht he
        have hxy := ih hehas (fun p index owner hp => hparam p index owner (.element he hp)) hx hy
          (Nat.lt_of_lt_of_le (ho.element_lt ht he) hn)
        have hform := h.constructed ho (hx.has hw hctx₁ hehas) hxu
        by_cases hcu : (c₂.isEmpty || !r.isOpen u) = true
        · have hcx := hcu
          rw [ho.isOpen_constructed (hw.instance_ hxu.known) hform] at hcx
          obtain rfl := hxy.closed_inv hcx
          obtain rfl := Option.some.inj (hxu.known.symm.trans hyv.known)
          exact .closed hcu
        · exact .constructed hcu hform hxy hyv
    · have hc₁ : (c₁.isEmpty || !r.isOpen t) = true := by simp [hopen]
      have hc₁₂ : (c₁₂.isEmpty || !r.isOpen t) = true := by simp [hopen]
      rw [hu.closed_inv hc₁, hv.closed_inv hc₁₂]
      exact .closed (by simp [hopen])

end

/-! ## members of substituted types -/

/-- Substitution with `c₁₂` is substitution with `c₁` and then with `c₂`, for each parameter.  Either all
three contexts have arguments or none has. -/
structure Composes (r : Registry) (c₁ c₂ c₁₂ : GenericContext) : Prop where
  has₁ : r.HasContext c₁
  has₁₂ : r.HasContext c₁₂
  empty₁ : c₁.isEmpty = c₂.isEmpty
  empty₁₂ : c₁₂.isEmpty = c₂.isEmpty
  parameter : ∀ p index owner, (r.type p).form = .parameter index owner →
    r.Replaces c₂ ((c₁.argsOf owner)[index]?.getD p) ((c₁₂.argsOf owner)[index]?.getD p)

namespace Composes

variable {c₁ c₂ c₁₂ : GenericContext} (hcomp : r.Composes c₁ c₂ c₁₂) (h : r.Faithful)
  (hc : r.Coherent)
include hcomp h hc

theorem type {t u v : TypeId} (ht : r.Has (.type t)) (hu : r.Replaces c₁ t u)
    (hv : r.Replaces c₁₂ t v) : r.Replaces c₂ u v := by
  cases hempty : c₂.isEmpty with
  | true =>
    rw [hu.closed_inv (by simp [hcomp.empty₁, hempty]),
      hv.closed_inv (by simp [hcomp.empty₁₂, hempty])]
    exact .closed (by simp [hempty])
  | false =>
    exact Replaces.comp h.toReadable hc.orderly hcomp.has₁ (hcomp.empty₁.trans hempty)
      (hcomp.empty₁₂.trans hempty) hempty ht (fun p index owner _ => hcomp.parameter p index owner) hu hv

theorem types {ts us vs : List TypeId} (ht : ∀ t ∈ ts, r.Has (.type t))
    (hu : List.Forall₂ (r.Replaces c₁) ts us) (hv : List.Forall₂ (r.Replaces c₁₂) ts vs) :
    List.Forall₂ (r.Replaces c₂) us vs :=
  forall₂_of_common hu hv fun t hmem _ _ => hcomp.type h hc (ht t hmem)

theorem rehomes {x y z : MethodId} (hx : r.Has (.method x)) (hy : r.Rehomes c₁ x y)
    (hz : r.Rehomes c₁₂ x z) : r.Rehomes c₂ y z := by
  cases hy with
  | free hd =>
    cases hz with
    | free => exact .free hd
    | owned hd' => cases hd.symm.trans hd'
  | owned hd ho hmem hroot =>
    cases hz with
    | free hd' => cases hd'.symm.trans hd
    | owned hd' ho' hmem' hroot' =>
      cases hd.symm.trans hd'
      have hdhas := hc.wellFormed.declaring hx hd
      exact .owned ((hc.listed.methods _ y).mp hmem).1 (hcomp.type h hc hdhas ho ho') hmem'
        (hroot'.trans hroot.symm)

/-- a method seen from the one context and then from the other -/
theorem method {x y z : MethodId} (hx : r.Has (.method x)) (hy : r.MethodReplaces c₁ x y)
    (hz : r.MethodReplaces c₁₂ x z) : r.MethodReplaces c₂ y z := by
  have hw := hc.wellFormed
  cases hy with
  | plain hplain hy =>
    cases hz with
    | plain _ hz => exact .plain (hy.plain hc.listed hplain) (hcomp.rehomes h hc hx hy hz)
    | generic hd => cases hplain.symm.trans hd
  | @generic d target _ args hd ht has harity hy =>
    cases hz with
    | plain hplain => cases hplain.symm.trans hd
    | generic hd' ht' has' harity' hz =>
      cases hd.symm.trans hd'
      have hdhas := hw.genericDefinition hx hd
      have hgargs : ∀ a ∈ (r.method x).genericArgs, r.Has (.type a) := fun a => hw.genericArg hx
      have hne : args ≠ [] := by
        rintro rfl
        simp at harity
      obtain ⟨hydef, hyargs⟩ := h.methodInstance hc (ht.has hdhas hc.listed)
        (Replaces.has_all hw hcomp.has₁ hgargs has) hne hy
      refine .generic hydef (hcomp.rehomes h hc hdhas ht ht') ?_ harity' hz
      rw [hyargs]
      exact hcomp.types h hc hgargs has has'

/-- a field seen from the one context and then from the other -/
theorem field {f g k : FieldId} (hf : r.Has (.field f)) (hg : r.FieldReplaces c₁ f g)
    (hk : r.FieldReplaces c₁₂ f k) : r.FieldReplaces c₂ g k := by
  cases hg with
  | closed hclosed =>
    cases hk with
    | closed => exact .closed (by rwa [← hcomp.empty₁])
    | moved hopen => exact absurd (by rwa [hcomp.empty₁₂, ← hcomp.empty₁]) hopen
  | @moved owner _ hopen ho hfound =>
    cases hk with
    | closed hclosed => exact absurd (by rwa [hcomp.empty₁, ← hcomp.empty₁₂]) hopen
    | @moved owner' _ _ ho' hfound' =>
      have howner : (r.field g).declaring = owner :=
        hc.listed.fields owner g (List.mem_of_find?_eq_some hfound)
      have hname : (r.field g).name = (r.field f).name := by
        simpa using List.find?_some hfound
      have hmoved := hcomp.type h hc (hc.wellFormed.declaringOf hf) ho ho'
      by_cases hclosed : (c₂.isEmpty || !r.isOpen owner) = true
      · obtain rfl := hmoved.closed_inv hclosed
        obtain rfl := Option.some.inj (hfound.symm.trans hfound')
        exact .closed (by rwa [howner])
      · refine .moved (by rwa [howner]) (by rwa [howner]) ?_
        rwa [hname]

theorem target {target : TokenTarget} {a b : Resolved} (hitems : ∀ x ∈ target.items, r.Has x)
    (ha : r.Denotes c₁ target a) (hb : r.Denotes c₁₂ target b) : r.Denotes c₂ a.target b := by
  cases ha with
  | type ha =>
    cases hb with
    | type hb => exact .type (hcomp.type h hc (hitems _ (List.mem_singleton.mpr rfl)) ha hb)
  | method ha =>
    cases hb with
    | method hb => exact .method (hcomp.method h hc (hitems _ (List.mem_singleton.mpr rfl)) ha hb)
  | field ha =>
    cases hb with
    | field hb => exact .field (hcomp.field h hc (hitems _ (List.mem_singleton.mpr rfl)) ha hb)
  | string text =>
    cases hb
    exact .string text
  | signature site =>
    cases hb
    exact .signature site

end Composes

end Registry

end ProgramScan

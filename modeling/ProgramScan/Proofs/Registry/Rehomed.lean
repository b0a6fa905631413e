import ProgramScan.Proofs.Registry.Coherence

/-!
# Members from a context

A member is seen from a context on its declaring type as seen from there.  As with types, the relations
say what a member becomes, part by part, with everything made that this needs.

* `Registry.rootOf`            the method that a member of an instance belongs to;
* `Registry.Rehomes`           a method on the substituted declaring type;
* `Registry.MethodReplaces`, `Registry.FieldReplaces`, `Registry.Denotes`
                               methods, fields and targets of tokens from a context;
* `MethodReplaces.settled`, `FieldReplaces.settled`
                               what is related is what substitution gives, from then on.
-/

namespace ProgramScan

namespace Registry

variable {r s : Registry} {ctx : GenericContext}

theorem Settled.mapM {α β : Type} {f : α → Action β} {as : List α} {bs : List β}
    (h : List.Forall₂ (fun a b => Settled (f a) b r) as bs) : Settled (as.mapM f) bs r := by
  induction h with
  | nil => exact settled_pure [] r
  | cons hab _ ih =>
    rw [List.mapM_cons]
    exact hab.bind (ih.bind (settled_pure _ r))

theorem Replaces.closed_inv {t u : TypeId} (hc : (ctx.isEmpty || !r.isOpen t) = true)
    (h : r.Replaces ctx t u) : u = t := by
  cases h with
  | closed => rfl
  | parameter hopen => exact absurd hc hopen
  | constructed hopen => exact absurd hc hopen
  | named hopen => exact absurd hc hopen

/-- what is replaced part by part is what substitution gives, from then on -/
theorem Replaces.settled (ho : r.Orderly) (hctx : r.HasContext ctx) {t u : TypeId}
    (ht : r.Has (.type t)) (h : r.Replaces ctx t u) : Settled (substitute ctx t) u r := by
  obtain ⟨ts, hrun⟩ := (h.lasting ho hctx ht).run ho
  exact ((builds_substitute ho.wellFormed hctx ht).ok hrun).2.2.1.of_forget rfl

/-! ## roots -/

/-- the member of the definition that a member of an instance belongs to, any other method itself -/
def rootOf (r : Registry) (m : MethodId) : MethodId := (r.method m).memberDefinition?.getD m

theorem memberDefinition?_eq_some {d : Method} {c : MethodId} (h : d.memberDefinition? = some c) :
    d.origin = .memberOf c := by
  unfold Method.memberDefinition? at h
  split at h
  · rename_i horigin
    rw [horigin, Option.some.inj h]
  · cases h

theorem Listed.stemsFrom_iff (h : r.Listed) {x y : MethodId} :
    r.stemsFrom (r.rootOf x) y = true ↔ r.rootOf y = r.rootOf x := by
  have hself : r.rootOf (r.rootOf x) = r.rootOf x := by
    cases hx : (r.method x).memberDefinition? with
    | none =>
      have hroot : r.rootOf x = x := by rw [rootOf, hx]; rfl
      rw [hroot, hroot]
    | some c =>
      have hroot : r.rootOf x = c := by rw [rootOf, hx]; rfl
      obtain ⟨t, hmember⟩ := h.members x c (memberDefinition?_eq_some hx)
      rw [hroot, rootOf, Method.memberDefinition?, hmember.declared]
      rfl
  rw [stemsFrom, Bool.or_eq_true, decide_eq_true_eq, decide_eq_true_eq]
  constructor
  · rintro (rfl | hy)
    · exact hself
    · rw [rootOf, hy]
      rfl
  · intro hroot
    cases hy : (r.method y).memberDefinition? with
    | none =>
      rw [rootOf, hy] at hroot
      exact .inl hroot
    | some c =>
      rw [rootOf, hy] at hroot
      exact .inr (congrArg some hroot)

theorem Listed.declaring_ne (h : r.Listed) (ho : r.Orderly) {x c : MethodId}
    (hx : (r.method x).origin = .memberOf c) : (r.method x).declaring ≠ (r.method c).declaring := by
  obtain ⟨t, hmember⟩ := h.members x c hx
  obtain ⟨kind, definition, args, hf, hc, -⟩ := hmember.copied
  intro heq
  rw [hmember.declaring, hc] at heq
  obtain rfl := Option.some.inj heq
  have ht := ho.wellFormed.declaring (has_of_declaring hc) hc
  have hdef := ((ho.placed t ht).definition t (by rw [hf]; rfl)).isDefinition
  rw [hf] at hdef
  cases hdef

theorem Listed.eq_of_rootOf (h : r.Listed) (ho : r.Orderly) {t : TypeId} {x y : MethodId}
    (hx : x ∈ (r.type t).methods) (hy : y ∈ (r.type t).methods) (hroot : r.rootOf x = r.rootOf y) :
    x = y := by
  have hsame : (r.method x).declaring = (r.method y).declaring := by
    rw [((h.methods t x).mp hx).1, ((h.methods t y).mp hy).1]
  rw [rootOf, rootOf] at hroot
  cases hmx : (r.method x).memberDefinition? with
  | none =>
    rw [hmx] at hroot
    cases hmy : (r.method y).memberDefinition? with
    | none =>
      rw [hmy] at hroot
      exact hroot
    | some c =>
      rw [hmy] at hroot
      obtain rfl : x = c := hroot
      exact absurd hsame.symm (h.declaring_ne ho (memberDefinition?_eq_some hmy))
  | some c =>
    rw [hmx] at hroot
    cases hmy : (r.method y).memberDefinition? with
    | none =>
      rw [hmy] at hroot
      obtain rfl : c = y := hroot
      exact absurd hsame (h.declaring_ne ho (memberDefinition?_eq_some hmx))
    | some c' =>
      rw [hmy] at hroot
      obtain rfl : c = c' := hroot
      exact h.single x y c (memberDefinition?_eq_some hmx) (memberDefinition?_eq_some hmy) hsame

/-- the member of a type that belongs to the same method is the one that is found -/
theorem settled_correspondingMethod (hc : r.Coherent) {owner : TypeId} (ho : r.Has (.type owner))
    {x y : MethodId} (hx : r.Has (.method x)) (hy : y ∈ (r.type owner).methods)
    (hroot : r.rootOf y = r.rootOf x) : Settled (correspondingMethod owner x) y r := by
  have hrun : correspondingMethod owner x r = .ok y r := by
    rw [correspondingMethod, get_bind_apply, ← rootOf]
    cases hfind : (r.type owner).methods.find? (r.stemsFrom (r.rootOf x)) with
    | none => exact absurd (hc.listed.stemsFrom_iff.mpr hroot) (List.find?_eq_none.mp hfind y hy)
    | some z =>
      have hz := hc.listed.stemsFrom_iff.mp (List.find?_some hfind)
      rw [hc.listed.eq_of_rootOf hc.orderly (List.mem_of_find?_eq_some hfind) hy
        (hz.trans hroot.symm)]
      rfl
  exact ((builds_correspondingMethod hc.wellFormed ho hx).ok hrun).2.2.1

/-! ## methods on their declaring types -/

/-- `y` is the method `x` on its declaring type as seen from `ctx` -/
inductive Rehomes (r : Registry) (ctx : GenericContext) (x : MethodId) : MethodId → Prop
  | free (hd : (r.method x).declaring = none) : Rehomes r ctx x x
  | owned {declaring owner : TypeId} {y : MethodId} (hd : (r.method x).declaring = some declaring)
    (ho : r.Replaces ctx declaring owner) (hy : y ∈ (r.type owner).methods)
    (hroot : r.rootOf y = r.rootOf x) : Rehomes r ctx x y

namespace Rehomes

variable {x y : MethodId}

theorem plain (h : r.Listed) (hx : (r.method x).genericDefinition? = none)
    (hy : r.Rehomes ctx x y) : (r.method y).genericDefinition? = none := by
  cases hy with
  | free => exact hx
  | owned hd ho hmem => exact ((h.methods _ y).mp hmem).2

theorem has (hx : r.Has (.method x)) (h : r.Listed) (hy : r.Rehomes ctx x y) :
    r.Has (.method y) := by
  cases hy with
  | free => exact hx
  | owned hd ho hmem => exact has_of_declaring ((h.methods _ y).mp hmem).1

theorem mono (hc : r.Coherent) (hs : Grown r s) (hctx : r.HasContext ctx)
    (hx : r.Has (.method x)) (h : r.Rehomes ctx x y) : s.Rehomes ctx x y := by
  have hw := hc.wellFormed
  have hgy := h.has hx hc.listed
  cases h with
  | free hd => exact .free (by rwa [hs.grows.method hx])
  | owned hd ho hmem hroot =>
    have hdhas := hw.declaring hx hd
    refine .owned (by rwa [hs.grows.method hx]) (ho.mono hc.orderly hs.persists hctx hdhas) ?_ ?_
    · rwa [hs.grows.type (ho.has hw hctx hdhas)]
    · rwa [rootOf, rootOf, hs.grows.method hgy, hs.grows.method hx]

/-- moving a method gives the method that it becomes -/
theorem of_run (hc : r.Coherent) (hctx : r.HasContext ctx) (hx : r.Has (.method x))
    (hplain : (r.method x).genericDefinition? = none) (hrun : rehome ctx x r = .ok y s) :
    s.Rehomes ctx x y := by
  rw [rehome, get_bind_apply] at hrun
  cases hd : (r.method x).declaring with
  | none =>
    rw [hd] at hrun
    cases hrun
    exact .free hd
  | some declaring =>
    rw [hd] at hrun
    have hdhas := hc.wellFormed.declaring hx hd
    dsimp only at hrun
    split at hrun
    · rename_i hclosed
      cases hrun
      exact .owned hd (.closed hclosed) ((hc.listed.methods declaring x).mpr ⟨hd, hplain⟩) rfl
    · obtain ⟨owner, s₁, howner, hrest⟩ := bind_eq_ok_iff.mp hrun
      have hgrown := (coheres_substitute hc hctx hdhas).ok howner
      have hrep := ((changes_substitute hc.orderly hctx hdhas).ok howner).2.2
      have hd₁ : (s₁.method x).declaring = some declaring := by rwa [hgrown.grows.method hx]
      split at hrest
      · rename_i hsame
        cases hrest
        refine .owned hd₁ hrep ?_ rfl
        rw [hsame]
        exact (hgrown.coherent.listed.methods declaring x).mpr
          ⟨hd₁, by rwa [hgrown.grows.method hx]⟩
      · obtain ⟨hmem, hstems, rfl⟩ := correspondingMethod_found hrest
        exact .owned hd₁ hrep hmem (hgrown.coherent.listed.stemsFrom_iff.mp hstems)

/-- what a method becomes is what moving it gives, from then on -/
theorem settled (hc : r.Coherent) (hctx : r.HasContext ctx) (hx : r.Has (.method x))
    (hplain : (r.method x).genericDefinition? = none) (h : r.Rehomes ctx x y) :
    Settled (rehome ctx x) y r := by
  intro r' hg hw'
  have hw := hc.wellFormed
  rw [rehome, get_bind_apply, hg.method hx]
  cases h with
  | free hd =>
    rw [hd]
    exact ⟨r', rfl, rfl⟩
  | @owned declaring owner _ hd ho hmem hroot =>
    have hdhas := hw.declaring hx hd
    have hmx : x ∈ (r.type declaring).methods := (hc.listed.methods declaring x).mpr ⟨hd, hplain⟩
    rw [hd]
    dsimp only
    rw [hg.isOpen hw hdhas]
    split
    · rename_i hclosed
      obtain rfl := ho.closed_inv hclosed
      rw [hc.listed.eq_of_rootOf hc.orderly hmem hmx hroot]
      exact ⟨r', rfl, rfl⟩
    · refine Settled.bind (ho.settled hc.orderly hctx hdhas) ?_ r' hg hw'
      split
      · rename_i hsame
        subst hsame
        rw [hc.listed.eq_of_rootOf hc.orderly hmem hmx hroot]
        exact settled_pure x r
      · exact settled_correspondingMethod hc (ho.has hw hctx hdhas) hx hmem hroot

end Rehomes

/-! ## methods and fields -/

theorem Replaces.has_all (hw : r.WellFormed) (hctx : r.HasContext ctx) {as bs : List TypeId}
    (has : ∀ a ∈ as, r.Has (.type a)) (h : List.Forall₂ (r.Replaces ctx) as bs) :
    ∀ b ∈ bs, r.Has (.type b) := by
  intro b hb
  obtain ⟨a, ha, hab⟩ := exists_of_forall₂ h b hb
  exact hab.has hw hctx (has a ha)

/-- substituting one type after the other gives what each of them becomes -/
theorem replaces_of_mapM (hc : r.Coherent) (hctx : r.HasContext ctx) {as bs : List TypeId}
    (has : ∀ a ∈ as, r.Has (.type a)) (hrun : as.mapM (substitute ctx) r = .ok bs s) :
    Grown r s ∧ List.Forall₂ (s.Replaces ctx) as bs := by
  induction as generalizing r bs with
  | nil =>
    cases hrun
    exact ⟨.refl hc, .nil⟩
  | cons a as ih =>
    rw [List.mapM_cons] at hrun
    obtain ⟨b, s₁, hb, hrest⟩ := bind_eq_ok_iff.mp hrun
    obtain ⟨cs, s₂, hcs, hpure⟩ := bind_eq_ok_iff.mp hrest
    cases hpure
    have ha := has a List.mem_cons_self
    have hg := (coheres_substitute hc hctx ha).ok hb
    have hrep := ((changes_substitute hc.orderly hctx ha).ok hb).2.2
    have hctx' := hg.grows.hasContext hctx
    obtain ⟨hg', hrest⟩ := ih hg.coherent hctx'
      (fun c hmem => hg.grows.has (has c (List.mem_cons_of_mem _ hmem))) hcs
    exact ⟨hg.trans hg',
      .cons (hrep.mono hg.coherent.orderly hg'.persists hctx' (hg.grows.has ha)) hrest⟩

inductive MethodReplaces (r : Registry) (ctx : GenericContext) (x : MethodId) : MethodId → Prop
  | plain {y : MethodId} (hx : (r.method x).genericDefinition? = none) (hy : r.Rehomes ctx x y) :
    MethodReplaces r ctx x y
  | generic {d target y : MethodId} {args : List TypeId}
    (hx : (r.method x).genericDefinition? = some d) (ht : r.Rehomes ctx d target)
    (has : List.Forall₂ (r.Replaces ctx) (r.method x).genericArgs args)
    (harity : ((r.method target).genericArgs.length != args.length || args.isEmpty) = false)
    (hy : r.methodInstances.get? (r.methodInstanceKey target args) = some y) :
    MethodReplaces r ctx x y

theorem methodDefinitionOf_of_plain {m : MethodId} (h : (r.method m).genericDefinition? = none) :
    r.methodDefinitionOf m = m := by
  rw [methodDefinitionOf, h]
  rfl

/-- an instance is made with as many arguments as there are parameters -/
theorem arity_of_instantiateMethod {m x : MethodId} {args : List TypeId}
    (hplain : (r.method m).genericDefinition? = none) (hrun : instantiateMethod m args r = .ok x s) :
    ((r.method m).genericArgs.length != args.length || args.isEmpty) = false := by
  obtain ⟨e, herror⟩ | ⟨harity, -⟩ := instantiateMethod_cases r m args
  · cases herror.symm.trans hrun
  · rw [methodDefinitionOf_of_plain hplain] at harity
    exact Bool.not_eq_true _ ▸ harity

namespace MethodReplaces

variable {x y : MethodId}

theorem mono (hc : r.Coherent) (hs : Grown r s) (hctx : r.HasContext ctx)
    (hx : r.Has (.method x)) (h : r.MethodReplaces ctx x y) : s.MethodReplaces ctx x y := by
  have hw := hc.wellFormed
  cases h with
  | plain hplain hy => exact .plain (by rwa [hs.grows.method hx]) (hy.mono hc hs hctx hx)
  | @generic d target _ args hd ht has harity hy =>
    have hdhas := hw.genericDefinition hx hd
    have htarget := ht.has hdhas hc.listed
    have hgargs : ∀ a ∈ (r.method x).genericArgs, r.Has (.type a) := fun a => hw.genericArg hx
    refine .generic (by rwa [hs.grows.method hx]) (ht.mono hc hs hctx hdhas) ?_
      (by rwa [hs.grows.method htarget]) ?_
    · rw [hs.grows.method hx]
      exact forall₂_imp_of_mem has fun a ha b _ hab =>
        hab.mono hc.orderly hs.persists hctx (hgargs a ha)
    · rw [hs.grows.methodInstanceKey hw htarget (Replaces.has_all hw hctx hgargs has)]
      exact hs.grows.methodInstances _ _ hy

theorem of_run (hc : r.Coherent) (hctx : r.HasContext ctx) (hx : r.Has (.method x))
    (hrun : substituteMethod ctx x r = .ok y s) : s.MethodReplaces ctx x y := by
  have hw := hc.wellFormed
  have hgrown := (coheres_substituteMethod hc hctx hx).ok hrun
  rw [substituteMethod, get_bind_apply] at hrun
  cases hd : (r.method x).genericDefinition? with
  | none =>
    rw [hd] at hrun
    exact .plain (by rwa [hgrown.grows.method hx]) (.of_run hc hctx hx hd hrun)
  | some d =>
    rw [hd] at hrun
    obtain ⟨target, s₁, htarget, hrest⟩ := bind_eq_ok_iff.mp hrun
    obtain ⟨args, s₂, hargs, hmake⟩ := bind_eq_ok_iff.mp hrest
    have hdhas := hw.genericDefinition hx hd
    have hdplain := hc.listed.generics x d hd
    -- the definition on its declaring type
    have hg₁ := (coheres_rehome hc hctx hdhas).ok htarget
    have ht := Rehomes.of_run hc hctx hdhas hdplain htarget
    have hctx₁ := hg₁.grows.hasContext hctx
    have hdhas₁ := hg₁.grows.has hdhas
    have hplain := ht.plain hg₁.coherent.listed (by rwa [hg₁.grows.method hdhas])
    have hthas := ht.has hdhas₁ hg₁.coherent.listed
    -- the arguments
    have hgargs : ∀ a ∈ (r.method x).genericArgs, s₁.Has (.type a) :=
      fun a ha => hg₁.grows.has (hw.genericArg hx ha)
    obtain ⟨hg₂, has⟩ := replaces_of_mapM hg₁.coherent hctx₁ hgargs hargs
    have hctx₂ := hg₂.grows.hasContext hctx₁
    have hargs₂ := Replaces.has_all hg₂.coherent.wellFormed hctx₂
      (fun a ha => hg₂.grows.has (hgargs a ha)) has
    -- the instance
    have hthas₂ := hg₂.grows.has hthas
    have hplain₂ : (s₂.method target).genericDefinition? = none := by rwa [hg₂.grows.method hthas]
    have hg₃ := (coheres_instantiateMethod hg₂.coherent hthas₂ hargs₂).ok hmake
    have hargs₃ : List.Forall₂ (s.Replaces ctx) (s.method x).genericArgs args := by
      rw [hgrown.grows.method hx]
      exact forall₂_imp_of_mem has fun a ha b _ hab =>
        hab.mono hg₂.coherent.orderly hg₃.persists hctx₂ (hg₂.grows.has (hgargs a ha))
    have hkey := ((hg₂.coherent.ends_instantiateMethod hthas₂ hargs₂).1 y s hmake).2
    rw [methodDefinitionOf_of_plain hplain₂,
      ← hg₃.grows.methodInstanceKey hg₂.coherent.wellFormed hthas₂ hargs₂] at hkey
    have ht₃ := (ht.mono hg₁.coherent hg₂ hctx₁ hdhas₁).mono hg₂.coherent hg₃ hctx₂
      (hg₂.grows.has hdhas₁)
    refine .generic (by rwa [hgrown.grows.method hx]) ht₃ hargs₃ ?_ hkey
    rw [hg₃.grows.method hthas₂]
    exact arity_of_instantiateMethod hplain₂ hmake

theorem settled (hc : r.Coherent) (hctx : r.HasContext ctx) (hx : r.Has (.method x))
    (h : r.MethodReplaces ctx x y) : Settled (substituteMethod ctx x) y r := by
  intro r' hg hw'
  have hw := hc.wellFormed
  rw [substituteMethod, get_bind_apply, hg.method hx]
  cases h with
  | plain hplain hy =>
    rw [hplain]
    exact hy.settled hc hctx hx hplain r' hg hw'
  | @generic d target _ args hd ht has harity hy =>
    rw [hd]
    have hdhas := hw.genericDefinition hx hd
    have hdplain := hc.listed.generics x d hd
    have hgargs : ∀ a ∈ (r.method x).genericArgs, r.Has (.type a) := fun a => hw.genericArg hx
    have hsubs : Settled ((r.method x).genericArgs.mapM (substitute ctx)) args r :=
      .mapM (forall₂_imp_of_mem has fun a ha b _ hab => hab.settled hc.orderly hctx (hgargs a ha))
    have hdef := methodDefinitionOf_of_plain (ht.plain hc.listed hdplain)
    have hmake : Settled (instantiateMethod target args) y r := by
      refine settled_instantiateMethod hw (ht.has hdhas hc.listed)
        (Replaces.has_all hw hctx hgargs has) ?_ ?_
      · rw [hdef, harity]
        exact Bool.false_ne_true
      · rwa [hdef]
    exact (ht.settled hc hctx hdhas hdplain).bind (hsubs.bind hmake) r' hg hw'

end MethodReplaces

inductive FieldReplaces (r : Registry) (ctx : GenericContext) (f : FieldId) : FieldId → Prop
  | closed (hc : (ctx.isEmpty || !r.isOpen (r.field f).declaring) = true) : FieldReplaces r ctx f f
  | moved {owner : TypeId} {g : FieldId}
    (hopen : ¬ (ctx.isEmpty || !r.isOpen (r.field f).declaring) = true)
    (ho : r.Replaces ctx (r.field f).declaring owner)
    (hg : r.fieldNamed? owner (r.field f).name = some g) : FieldReplaces r ctx f g

namespace FieldReplaces

variable {f g : FieldId}

theorem mono (hc : r.Coherent) (hs : Grown r s) (hctx : r.HasContext ctx)
    (hf : r.Has (.field f)) (h : r.FieldReplaces ctx f g) : s.FieldReplaces ctx f g := by
  have hw := hc.wellFormed
  have hdhas := hw.declaringOf hf
  have hopen : s.isOpen (s.field f).declaring = r.isOpen (r.field f).declaring := by
    rw [hs.grows.field hf, hs.grows.isOpen hw hdhas]
  cases h with
  | closed hclosed => exact .closed (by rwa [hopen])
  | @moved owner _ hno ho hfound =>
    have ho' := ho.mono hc.orderly hs.persists hctx hdhas
    rw [← hs.grows.field hf] at ho'
    refine .moved (by rwa [hopen]) ho' ?_
    rwa [hs.grows.field hf, hs.grows.fieldNamed? hw (ho.has hw hctx hdhas)]

theorem of_run (hc : r.Coherent) (hctx : r.HasContext ctx) (hf : r.Has (.field f))
    (hrun : substituteField ctx f r = .ok g s) : s.FieldReplaces ctx f g := by
  have hdhas := hc.wellFormed.declaringOf hf
  rw [substituteField, get_bind_apply] at hrun
  split at hrun
  · rename_i hclosed
    cases hrun
    exact .closed hclosed
  · rename_i hopen
    obtain ⟨owner, s₁, howner, hrest⟩ := bind_eq_ok_iff.mp hrun
    have hgrown := (coheres_substitute hc hctx hdhas).ok howner
    have hrep := ((changes_substitute hc.orderly hctx hdhas).ok howner).2.2
    rw [get_bind_apply] at hrest
    cases hfound : s₁.fieldNamed? owner (r.field f).name with
    | none =>
      rw [hfound] at hrest
      obtain ⟨_, _, -, hthrow⟩ := bind_eq_ok_iff.mp hrest
      cases hthrow
    | some found =>
      rw [hfound] at hrest
      cases hrest
      rw [← hgrown.grows.field hf] at hrep
      refine .moved ?_ hrep ?_
      · rwa [hgrown.grows.field hf, hgrown.grows.isOpen hc.wellFormed hdhas]
      · rwa [hgrown.grows.field hf]

theorem settled (hc : r.Coherent) (hctx : r.HasContext ctx) (hf : r.Has (.field f))
    (h : r.FieldReplaces ctx f g) : Settled (substituteField ctx f) g r := by
  intro r' hg hw'
  have hw := hc.wellFormed
  have hdhas := hw.declaringOf hf
  rw [substituteField, get_bind_apply, hg.field hf, hg.isOpen hw hdhas]
  cases h with
  | closed hclosed =>
    rw [if_pos hclosed]
    exact ⟨r', rfl, rfl⟩
  | @moved owner _ hno ho hfound =>
    rw [if_neg hno]
    refine Settled.bind (ho.settled hc.orderly hctx hdhas) ?_ r' hg hw'
    intro s hgs hws
    rw [get_bind_apply, hgs.fieldNamed? hw (ho.has hw hctx hdhas), hfound]
    exact ⟨s, rfl, rfl⟩

end FieldReplaces

/-! ## targets of tokens -/

inductive Denotes (r : Registry) (ctx : GenericContext) : TokenTarget → Resolved → Prop
  | type {t u : TypeId} (h : r.Replaces ctx t u) : Denotes r ctx (.type (some t)) (.type u)
  | method {x y : MethodId} (h : r.MethodReplaces ctx x y) :
    Denotes r ctx (.method (some x)) (.method y)
  | field {f g : FieldId} (h : r.FieldReplaces ctx f g) : Denotes r ctx (.field (some f)) (.field g)
  | string (text : String) : Denotes r ctx (.string text) (.string text)
  | signature (site : CallSite) : Denotes r ctx (.signature site) (.signature site)

namespace Denotes

variable {target : TokenTarget} {found : Resolved}

theorem mono (hc : r.Coherent) (hs : Grown r s) (hctx : r.HasContext ctx)
    (hitems : ∀ x ∈ target.items, r.Has x) (h : r.Denotes ctx target found) :
    s.Denotes ctx target found := by
  cases h with
  | type h => exact .type (h.mono hc.orderly hs.persists hctx (hitems _ (List.mem_singleton.mpr rfl)))
  | method h => exact .method (h.mono hc hs hctx (hitems _ (List.mem_singleton.mpr rfl)))
  | field h => exact .field (h.mono hc hs hctx (hitems _ (List.mem_singleton.mpr rfl)))
  | string text => exact .string text
  | signature site => exact .signature site

theorem of_run (hc : r.Coherent) (hctx : r.HasContext ctx) {module : ModuleId} {token : Token}
    (hrun : resolveToken module token ctx r = .ok found s) :
    ∃ target, (r.module module).tokens.get? token = some target ∧ s.Denotes ctx target found := by
  rw [resolveToken, get_bind_apply] at hrun
  cases htarget : (r.module module).tokens.get? token with
  | none =>
    rw [htarget] at hrun
    cases hrun
  | some target =>
    rw [htarget] at hrun
    have hitems : ∀ x ∈ target.items, r.Has x := fun x hx => hc.wellFormed.tokenTarget htarget hx
    refine ⟨target, rfl, ?_⟩
    cases target with
    | type t =>
      cases t with
      | none => cases hrun
      | some t =>
        have ht := hitems _ (List.mem_singleton.mpr rfl)
        obtain ⟨u, s₁, hu, hpure⟩ := bind_eq_ok_iff.mp hrun
        cases hpure
        exact .type ((changes_substitute hc.orderly hctx ht).ok hu).2.2
    | method x =>
      cases x with
      | none => cases hrun
      | some x =>
        have hx := hitems _ (List.mem_singleton.mpr rfl)
        obtain ⟨y, s₁, hy, hpure⟩ := bind_eq_ok_iff.mp hrun
        cases hpure
        exact .method (.of_run hc hctx hx hy)
    | field f =>
      cases f with
      | none => cases hrun
      | some f =>
        have hf := hitems _ (List.mem_singleton.mpr rfl)
        obtain ⟨g, s₁, hg, hpure⟩ := bind_eq_ok_iff.mp hrun
        cases hpure
        exact .field (.of_run hc hctx hf hg)
    | string text =>
      cases hrun
      exact .string text
    | signature site =>
      cases hrun
      exact .signature site

end Denotes

end Registry

end ProgramScan

import ProgramScan.Proofs.Registry.Contexts

/-!
# Parameters in signatures

A signature is scoped if it mentions only generic parameters that stand in the declaring type, or among
the generic arguments of the method.  What is made from members with scoped signatures has scoped
signatures again, so a member that is closed otherwise returns, or has, a closed type.

* `Registry.MentionsOnly`           the parameters in a type stand in others;
* `Replaces.exists_source`          a parameter in a substituted type comes from one in the type;
* `Replaces.isOpen_eq_false`        a type is closed in a context of closed types that covers it;
* `Registry.Scoped`                 declared members have scoped signatures;
* `scopedMethod_of_rootOf`, `scopedMethod_of_definition`
                                    so have members of instances, and instances of methods;
* `Registry.CoversTarget`           the target of a token mentions only what the context covers;
* `MethodReplaces.closedItem`, `FieldReplaces.closedItem`
                                    methods and fields from a context of closed types.
-/

namespace ProgramScan

namespace Registry

variable {r r' : Registry}

/-! ## parameters and open types -/

/-- the parameters that stand in `t` stand in one of the others -/
def MentionsOnly (r : Registry) (us : List TypeId) (t : TypeId) : Prop :=
  ∀ p, r.Occurs p t → (r.type p).form.isParameter = true → ∃ u ∈ us, r.Occurs p u

theorem exists_form_of_isParameter {p : TypeId} (h : (r.type p).form.isParameter = true) :
    ∃ index owner, (r.type p).form = .parameter index owner := by
  cases hf : (r.type p).form with
  | parameter index owner => exact ⟨index, owner, rfl⟩
  | defined kind params => rw [hf] at h; cases h
  | constructed shape e => rw [hf] at h; cases h
  | instantiated kind d args => rw [hf] at h; cases h

/-- only a parameter stands in itself -/
theorem Occurs.eq_of_isParameter {p q : TypeId} (hq : (r.type q).form.isParameter = true)
    (h : r.Occurs p q) : p = q := by
  obtain ⟨index, owner, hf⟩ := exists_form_of_isParameter hq
  cases h with
  | self => rfl
  | element he =>
    rw [hf] at he
    cases he
  | argument ha =>
    rw [hf] at ha
    cases ha

theorem Occurs.of_constructed {p t e : TypeId} {shape : Shape}
    (hf : (r.type t).form = .constructed shape e) (hp : (r.type p).form.isParameter = true)
    (h : r.Occurs p t) : r.Occurs p e := by
  cases h with
  | self =>
    rw [hf] at hp
    cases hp
  | element he hin =>
    rw [hf] at he
    cases he
    exact hin
  | argument ha =>
    rw [hf] at ha
    cases ha

/-- a parameter that stands in a definition or in an instance stands in one of its arguments -/
theorem Occurs.exists_genericArg {p t : TypeId} (hkind : (r.type t).form.kind?.isSome = true)
    (hp : (r.type p).form.isParameter = true) (h : r.Occurs p t) :
    ∃ a ∈ (r.type t).form.genericArgs, r.Occurs p a := by
  cases h with
  | self =>
    obtain ⟨index, owner, hf⟩ := exists_form_of_isParameter hp
    rw [hf] at hkind
    cases hkind
  | element he =>
    cases hf : (r.type t).form with
    | constructed shape e => rw [hf] at hkind; cases hkind
    | defined kind params => rw [hf] at he; cases he
    | parameter index owner => rw [hf] at he; cases he
    | instantiated kind d args => rw [hf] at he; cases he
  | @argument _ a ha hin => exact ⟨a, ha, hin⟩

theorem Occurs.isOpen (ho : r.Orderly) {p t : TypeId} (ht : r.Has (.type t)) (h : r.Occurs p t)
    (hp : (r.type p).form.isParameter = true) : r.isOpen t = true := by
  induction h with
  | self =>
    obtain ⟨index, owner, hf⟩ := exists_form_of_isParameter hp
    rw [Registry.isOpen, isOpenWithin, hf]
  | @element t e he _ ih =>
    have hopen := ih (ho.wellFormed.element ht he)
    cases hf : (r.type t).form with
    | constructed shape e' =>
      rw [hf] at he
      cases he
      rwa [ho.isOpen_constructed ht hf]
    | defined kind params => rw [hf] at he; cases he
    | parameter index owner => rw [hf] at he; cases he
    | instantiated kind d args => rw [hf] at he; cases he
  | @argument t a ha _ ih =>
    have hopen := ih (ho.wellFormed.genericArgOf ht ha)
    cases hf : (r.type t).form with
    | constructed shape e => rw [hf] at ha; cases ha
    | parameter index owner => rw [hf] at ha; cases ha
    | instantiated kind d args =>
      rw [hf] at ha
      rw [ho.isOpen_instantiated ht hf, List.any_eq_true]
      exact ⟨a, ha, hopen⟩
    | defined kind params =>
      rw [isOpen_definition (by rw [hf]; rfl), Bool.not_eq_true', List.isEmpty_eq_false_iff]
      exact List.ne_nil_of_mem ha

/-- a type that mentions only what stands in closed types is closed -/
theorem MentionsOnly.isOpen_eq_false (h : r.Faithful) (ho : r.Orderly) {us : List TypeId} {t : TypeId}
    (ht : r.Has (.type t)) (hus : ∀ u ∈ us, r.Has (.type u)) (hclosed : ∀ u ∈ us, r.isOpen u = false)
    (honly : r.MentionsOnly us t) : r.isOpen t = false := by
  by_contra hopen
  obtain ⟨p, index, owner, hp, hf⟩ := h.exists_parameter ho ht (Bool.not_eq_false _ ▸ hopen)
  have hparameter : (r.type p).form.isParameter = true := by rw [hf]; rfl
  obtain ⟨u, hu, hin⟩ := honly p hp hparameter
  have hopen' := hin.isOpen ho (hus u hu) hparameter
  rw [hclosed u hu] at hopen'
  cases hopen'

theorem MentionsOnly.mono (hw : r.WellFormed) (hp : r.Persists r') {us : List TypeId} {t : TypeId}
    (ht : r.Has (.type t)) (hus : ∀ u ∈ us, r.Has (.type u)) (honly : r.MentionsOnly us t) :
    r'.MentionsOnly us t := by
  intro p hin hparameter
  have hin := hin.back hw hp ht
  rw [hp.form (hin.has hw ht)] at hparameter
  obtain ⟨u, hu, hin'⟩ := honly p hin hparameter
  exact ⟨u, hu, hin'.mono hw hp (hus u hu)⟩

/-! ## parameters in substituted types -/

/-- **Where the parameters of a substituted type come from**: each stands in what a parameter of the type
was replaced by. -/
theorem Replaces.exists_source (h : r.Readable) (ho : r.Orderly) {ctx : GenericContext}
    (hctx : r.HasContext ctx) {t u p : TypeId} (ht : r.Has (.type t)) (hu : r.Replaces ctx t u)
    (hin : r.Occurs p u) (hp : (r.type p).form.isParameter = true) :
    ∃ q index owner, r.Occurs q t ∧ (r.type q).form = .parameter index owner ∧
      r.Occurs p ((ctx.argsOf owner)[index]?.getD q) := by
  induction hn : t.index using Nat.strongRecOn generalizing t u with
  | _ n ih =>
    subst hn
    have hw := ho.wellFormed
    cases hu with
    | closed hc =>
      obtain ⟨index, owner, hf⟩ := exists_form_of_isParameter hp
      rw [hin.isOpen ho ht hp, Bool.not_true, Bool.or_false] at hc
      refine ⟨p, index, owner, hin, hf, ?_⟩
      have hnil : ctx.argsOf owner = [] := ctx.argsOf_eq_nil hc owner
      rw [hnil]
      exact .self
    | parameter _ hf => exact ⟨t, _, _, .self, hf, hin⟩
    | @constructed _ shape e e' _ _ hf he hu =>
      have helement : (r.type t).form.element? = some e := by rw [hf]; rfl
      have hehas := hw.element ht helement
      have hform := h.constructed ho (he.has hw hctx hehas) hu
      have hin' : r.Occurs p e' := hin.of_constructed hform hp
      obtain ⟨q, index, owner, hq, hf', hfrom⟩ :=
        ih _ (ho.element_lt ht helement) hehas he hin' rfl
      exact ⟨q, index, owner, .element helement hq, hf', hfrom⟩
    | @named _ args _ _ hkind has hi =>
      obtain ⟨-, hargs, hkind'⟩ := h.parts ho (definition_has hw ht)
        (ho.isDefinition_definitionOf ht hi.params_ne_nil) (Replaces.has_args hw hctx ht has) hi
      obtain ⟨a, ha, hin'⟩ := hin.exists_genericArg hkind' hp
      rw [hargs] at ha
      obtain ⟨b, hb, hba⟩ := exists_of_forall₂ has a ha
      obtain ⟨q, index, owner, hq, hf', hfrom⟩ :=
        ih _ (ho.genericArg_lt ht hb) (hw.genericArgOf ht hb) hba hin' rfl
      exact ⟨q, index, owner, .argument hb hq, hf', hfrom⟩

def ClosedContext (r : Registry) (ctx : GenericContext) : Prop :=
  ∀ a ∈ ctx.typeArgs ++ ctx.methodArgs, r.isOpen a = false

theorem ClosedContext.argsOf {ctx : GenericContext} (h : r.ClosedContext ctx)
    {owner : ParameterOwner} {a : TypeId} (ha : a ∈ ctx.argsOf owner) : r.isOpen a = false := by
  cases owner with
  | type => exact h a (List.mem_append_left _ ha)
  | method => exact h a (List.mem_append_right _ ha)

/-- **A type becomes closed in a context of closed types that covers it.** -/
theorem Replaces.isOpen_eq_false (h : r.Faithful) (ho : r.Orderly) {ctx : GenericContext}
    (hctx : r.HasContext ctx) (hclosed : r.ClosedContext ctx) {t u : TypeId} (ht : r.Has (.type t))
    (hcovers : r.Covers ctx t) (hu : r.Replaces ctx t u) : r.isOpen u = false := by
  by_contra hopen
  obtain ⟨p, index, owner, hp, hf⟩ :=
    h.exists_parameter ho (hu.has ho.wellFormed hctx ht) (Bool.not_eq_false _ ▸ hopen)
  have hparameter : (r.type p).form.isParameter = true := by rw [hf]; rfl
  obtain ⟨q, i, owner', hq, hform, hfrom⟩ := hu.exists_source h.toReadable ho hctx ht hp hparameter
  have hlt := hcovers q i owner' hq hform
  rw [List.getElem?_eq_getElem hlt, Option.getD_some] at hfrom
  have hmem := List.getElem_mem hlt
  have hopen' := hfrom.isOpen ho (hctx.argsOf hmem) hparameter
  rw [hclosed.argsOf hmem] at hopen'
  cases hopen'

theorem Readable.useNames (h : r.Readable) (ts : List TypeId) : (r.useNames ts).Readable :=
  ⟨h.types, h.modules, h.names⟩

theorem Lasting.exists_source (h : r.Readable) (ho : r.Orderly) {ctx : GenericContext}
    (hctx : r.HasContext ctx) {t u p : TypeId} (ht : r.Has (.type t))
    (hu : Lasting (substitute ctx t) u r) (hin : r.Occurs p u)
    (hp : (r.type p).form.isParameter = true) :
    ∃ q index owner, r.Occurs q t ∧ (r.type q).form = .parameter index owner ∧
      r.Occurs p ((ctx.argsOf owner)[index]?.getD q) := by
  obtain ⟨ts, hrun⟩ := hu.run ho
  have hnames : r.Persists (r.useNames ts) := .useNames r ts
  have hstep := (changes_substitute ho hctx ht).ok hrun
  have hw := ho.wellFormed
  have huhas : r.Has (.type u) := hstep.2.1
  obtain ⟨q, index, owner, hq, hf, hfrom⟩ := hstep.2.2.exists_source (h.useNames ts)
    (ho.useNames ts) (hnames.hasContext hctx) (hnames.has _ ht) (hin.mono hw hnames huhas) hp
  have hq := hq.back hw hnames ht
  refine ⟨q, index, owner, hq, hf, hfrom.back hw hnames ?_⟩
  cases ha : (ctx.argsOf owner)[index]? with
  | none => exact hq.has hw ht
  | some a => exact hctx.argsOf (List.mem_of_getElem? ha)

/-! ## scoped signatures -/

def methodScope (r : Registry) (m : MethodId) : List TypeId :=
  (r.method m).declaring.toList ++ (r.method m).genericArgs

/-- the parameters in the return type stand in the declaring type or in the generic arguments -/
def ScopedMethod (r : Registry) (m : MethodId) : Prop :=
  r.MentionsOnly (r.methodScope m) (r.method m).returnType

def ScopedField (r : Registry) (f : FieldId) : Prop :=
  r.MentionsOnly [(r.field f).declaring] (r.field f).type

/-- declared methods, and all fields, mention only parameters of their own -/
structure Scoped (r : Registry) : Prop where
  methods : ∀ m, r.Has (.method m) → (r.method m).origin = .declared → r.ScopedMethod m
  fields : ∀ f, r.Has (.field f) → r.ScopedField f

theorem has_methodScope (hw : r.WellFormed) {m : MethodId} (hm : r.Has (.method m)) :
    ∀ u ∈ r.methodScope m, r.Has (.type u) := by
  intro u hu
  rcases List.mem_append.mp hu with hu | hu
  · exact hw.declaring hm (Option.mem_toList.mp hu)
  · exact hw.genericArg hm hu

theorem ScopedMethod.mono (hw : r.WellFormed) (hg : r.Grows r') (hp : r.Persists r') {m : MethodId}
    (hm : r.Has (.method m)) (h : r.ScopedMethod m) : r'.ScopedMethod m := by
  rw [ScopedMethod, methodScope, hg.method hm]
  exact MentionsOnly.mono hw hp (hw.returnType hm) (has_methodScope hw hm) h

theorem ScopedField.mono (hw : r.WellFormed) (hg : r.Grows r') (hp : r.Persists r') {f : FieldId}
    (hf : r.Has (.field f)) (h : r.ScopedField f) : r'.ScopedField f := by
  rw [ScopedField, hg.field hf]
  exact MentionsOnly.mono hw hp (hw.typeOf hf)
    (by simpa using hw.declaringOf hf) h

theorem occurs_of_definition (h : r.Faithful) (hl : r.Listed) {kind : TypeKind} {d t p q : TypeId}
    {args : List TypeId} (hd : r.Has (.type d)) (hdef : (r.type d).form.isDefinition = true)
    (hf : (r.type t).form = .instantiated kind d args) {index : Nat} {owner : ParameterOwner}
    (hq : r.Occurs q d) (hform : (r.type q).form = .parameter index owner)
    (hin : r.Occurs p (((⟨args, []⟩ : GenericContext).argsOf owner)[index]?.getD q)) :
    r.Occurs p t := by
  have hkind : (r.type d).form.kind?.isSome = true := by
    cases hfd : (r.type d).form <;> rw [hfd] at hdef <;> first | rfl | cases hdef
  obtain ⟨a, ha, hin'⟩ := hq.exists_genericArg hkind (by rw [hform]; rfl)
  obtain ⟨i, hi⟩ := List.mem_iff_getElem?.mp ha
  have hparameter := h.typeParameter hd hdef hi
  obtain rfl := hin'.eq_of_isParameter (by rw [hparameter]; rfl)
  rw [hparameter] at hform
  cases hform
  -- there is an argument at the place of the parameter
  have hlt : index < args.length := by
    rw [← hl.arity t kind d args hf]
    exact (List.getElem?_eq_some_iff.mp hi).1
  rw [GenericContext.argsOf, List.getElem?_eq_getElem hlt, Option.getD_some] at hin
  refine .argument ?_ hin
  rw [hf]
  exact List.getElem_mem hlt

section
variable (h : r.Faithful) (hc : r.Coherent)
include h hc

omit hc in
/-- the parameters of a method that is no instance of another stand for themselves -/
theorem eq_of_occurs_genericArg {m : MethodId} (hm : r.Has (.method m))
    (hplain : (r.method m).genericDefinition? = none) {a q : TypeId}
    (ha : a ∈ (r.method m).genericArgs) (hq : r.Occurs q a) :
    q = a ∧ ∃ i, i < (r.method m).genericArgs.length ∧ (r.type q).form = .parameter i .method := by
  obtain ⟨i, hi⟩ := List.mem_iff_getElem?.mp ha
  have hform := h.methodParameter hm hplain hi
  obtain rfl := hq.eq_of_isParameter (by rw [hform]; rfl)
  exact ⟨rfl, i, (List.getElem?_eq_some_iff.mp hi).1, hform⟩

theorem scopedMethod_of_memberOf {t : TypeId} {c x : MethodId} (hx : r.MemberOf t c x)
    (hs : r.ScopedMethod c) : r.ScopedMethod x := by
  obtain ⟨kind, d, args, hf, hcd, returnType, params, hreturn, -, hsignature⟩ := hx.copied
  have hw := hc.wellFormed
  have hxd := hx.declaring
  have hchas := has_of_declaring hcd
  have hthas := hw.declaring (has_of_declaring hxd) hxd
  have hdef := ((hc.orderly.placed t hthas).definition d (by rw [hf]; rfl)).isDefinition
  have hret : (r.method x).returnType = returnType := by
    have hsame := congrArg Method.returnType hsignature
    exact hsame
  have hargs : (r.method x).genericArgs = (r.method c).genericArgs := by
    have hsame := congrArg Method.genericArgs hsignature
    exact hsame
  intro p hin hp
  rw [hret] at hin
  have hctx : r.HasContext ⟨args, []⟩ := fun a ha => hw.genericArgOf hthas (by
    rw [hf]
    exact (List.mem_append.mp ha).resolve_right List.not_mem_nil)
  obtain ⟨q, index, owner, hq, hform, hfrom⟩ := Lasting.exists_source h.toReadable hc.orderly hctx
    (hw.returnType hchas) hreturn hin hp
  obtain ⟨u, hu, hqu⟩ := hs q hq (by rw [hform]; rfl)
  rw [methodScope, hcd] at hu
  rw [methodScope, hxd, hargs]
  rcases List.mem_cons.mp hu with rfl | hu
  · exact ⟨t, List.mem_cons_self, occurs_of_definition h hc.listed
      (hw.declaring hchas hcd) hdef hf hqu hform hfrom⟩
  · -- the method's own parameters stay
    obtain ⟨rfl, i, -, hform'⟩ := eq_of_occurs_genericArg h hchas
      (genericDefinition?_of_declared hx.declared) hu hqu
    rw [hform] at hform'
    cases hform'
    exact ⟨q, List.mem_cons_of_mem _ hu, hfrom⟩

theorem scopedMethod_of_rootOf {x : MethodId} (hs : r.ScopedMethod (r.rootOf x)) :
    r.ScopedMethod x := by
  cases hx : (r.method x).memberDefinition? with
  | none =>
    rw [rootOf, hx] at hs
    exact hs
  | some c =>
    rw [rootOf, hx] at hs
    obtain ⟨t, ht⟩ := hc.listed.members x c (memberDefinition?_eq_some hx)
    exact scopedMethod_of_memberOf h hc ht hs

theorem scopedMethod_of_definition {x d : MethodId}
    (hx : (r.method x).genericDefinition? = some d) (hs : r.ScopedMethod d) : r.ScopedMethod x := by
  have hw := hc.wellFormed
  have hxhas := has_of_genericDefinition? hx
  have hd := hw.genericDefinition hxhas hx
  have hpattern := hc.patterned x d hx
  have hctx : r.HasContext ⟨r.declaringArgs d, (r.method x).genericArgs⟩ :=
    hw.instanceContext hd fun _ => hw.genericArg hxhas
  intro p hin hp
  obtain ⟨q, index, owner, hq, hform, hfrom⟩ := Lasting.exists_source h.toReadable hc.orderly hctx
    (hw.returnType hd) (hc.signed x d hx).1 hin hp
  obtain ⟨u, hu, hqu⟩ := hs q hq (by rw [hform]; rfl)
  rw [methodScope, hpattern.declaring]
  -- what replaced the parameter stands in the declaring type, or among the arguments
  cases ha : (GenericContext.argsOf ⟨r.declaringArgs d, (r.method x).genericArgs⟩ owner)[index]? with
  | some a =>
    rw [ha] at hfrom
    have hmem := List.mem_of_getElem? ha
    cases owner with
    | method => exact ⟨a, List.mem_append_right _ hmem, hfrom⟩
    | type =>
      cases hdecl : (r.method d).declaring with
      | none =>
        rw [GenericContext.argsOf, declaringArgs, hdecl] at hmem
        cases hmem
      | some t =>
        rw [GenericContext.argsOf, declaringArgs, hdecl] at hmem
        exact ⟨t, List.mem_append_left _ (Option.mem_toList.mpr rfl), .argument hmem hfrom⟩
  | none =>
    rw [ha, Option.getD_none] at hfrom
    have hlength := List.getElem?_eq_none_iff.mp ha
    rcases List.mem_append.mp hu with hu | hu
    · obtain rfl := hfrom.eq_of_isParameter (by rw [hform]; rfl)
      exact ⟨u, List.mem_append_left _ hu, hqu⟩
    · -- each parameter of the method is replaced
      obtain ⟨-, i, hlt, hform'⟩ :=
        eq_of_occurs_genericArg h hd (hc.listed.generics x d hx) hu hqu
      rw [hform] at hform'
      cases hform'
      rw [← hpattern.arity] at hlt
      exact absurd hlt (Nat.not_lt.mpr hlength)

theorem scopedField_of_populated {kind : TypeKind} {d t : TypeId} {args : List TypeId}
    (hf : (r.type t).form = .instantiated kind d args) (hpopulated : r.Populated t d args)
    (hs : ∀ f ∈ (r.type d).fields, r.ScopedField f) {g : FieldId} (hg : g ∈ (r.type t).fields) :
    r.ScopedField g := by
  have hw := hc.wellFormed
  have hthas : r.Has (.type t) := has_of_listed (.inl (List.ne_nil_of_mem hg))
  have hdef := ((hc.orderly.placed t hthas).definition d (by rw [hf]; rfl)).isDefinition
  have hd : r.Has (.type d) := hw.definition hthas (by rw [hf]; rfl)
  obtain ⟨f, hmem, type, htype, hrecord⟩ := exists_of_forall₂ hpopulated.fields g hg
  have hctx : r.HasContext ⟨args, []⟩ := fun a ha => hw.genericArgOf hthas (by
    rw [hf]
    exact (List.mem_append.mp ha).resolve_right List.not_mem_nil)
  intro p hin hp
  rw [hrecord] at hin ⊢
  obtain ⟨q, index, owner, hq, hform, hfrom⟩ := Lasting.exists_source h.toReadable hc.orderly hctx
    (hw.typeOf (hw.fieldOf hd hmem)) htype hin hp
  obtain ⟨u, hu, hqu⟩ := hs f hmem q hq (by rw [hform]; rfl)
  rw [List.mem_singleton, hc.listed.fields d f hmem] at hu
  subst hu
  exact ⟨t, List.mem_singleton.mpr rfl,
    occurs_of_definition h hc.listed hd hdef hf hqu hform hfrom⟩

end

/-! ## members from a context of closed types -/

/-- no parameter stands in the type, or in the type of the field; in the return type of the method and in
the type that declares it -/
def ClosedItem (r : Registry) : Item → Prop
  | .type t => r.isOpen t = false
  | .method m =>
    (∀ t, (r.method m).declaring = some t → r.isOpen t = false) ∧
      r.isOpen (r.method m).returnType = false
  | .field f => r.isOpen (r.field f).type = false

/-- The target of a token mentions only parameters that the context has arguments for.  It is no generic
method without arguments, and a field of a definition or of an instance. -/
def CoversTarget (r : Registry) (ctx : GenericContext) : TokenTarget → Prop
  | .type (some t) => r.Covers ctx t
  | .method (some m) =>
    (∀ u ∈ r.methodScope m, r.Covers ctx u) ∧ (r.method m).isGenericDefinition = false
  | .field (some f) =>
    r.Covers ctx (r.field f).declaring ∧ (r.type (r.field f).declaring).form.kind?.isSome = true
  | _ => True

theorem Listed.genericArgs_rootOf (hl : r.Listed) (x : MethodId) :
    (r.method (r.rootOf x)).genericArgs = (r.method x).genericArgs := by
  cases hx : (r.method x).memberDefinition? with
  | none => rw [rootOf, hx]; rfl
  | some c =>
    rw [rootOf, hx]
    obtain ⟨t, ht⟩ := hl.members x c (memberDefinition?_eq_some hx)
    obtain ⟨_, _, _, -, -, _, _, -, -, hsignature⟩ := ht.copied
    have hsame := congrArg Method.genericArgs hsignature
    exact hsame.symm

theorem Rehomes.rootOf_eq {ctx : GenericContext} {x y : MethodId} (hy : r.Rehomes ctx x y) :
    r.rootOf y = r.rootOf x := by
  cases hy with
  | free => rfl
  | owned _ _ _ hroot => exact hroot

theorem Scoped.root (hs : r.Scoped) (hc : r.Coherent) {x : MethodId} (hx : r.Has (.method x)) :
    r.Has (.method (r.rootOf (r.methodDefinitionOf x))) ∧
      r.ScopedMethod (r.rootOf (r.methodDefinitionOf x)) := by
  have hw := hc.wellFormed
  have hd := hw.methodDefinitionOf hx
  have hplain : (r.method (r.methodDefinitionOf x)).genericDefinition? = none := by
    cases hxd : (r.method x).genericDefinition? with
    | none => rwa [methodDefinitionOf_of_plain hxd]
    | some d =>
      have hdef : r.methodDefinitionOf x = d := by rw [methodDefinitionOf, hxd]; rfl
      rw [hdef]
      exact hc.listed.generics x d hxd
  cases hm : (r.method (r.methodDefinitionOf x)).memberDefinition? with
  | none =>
    rw [rootOf, hm, Option.getD_none]
    refine ⟨hd, hs.methods _ hd ?_⟩
    cases horigin : (r.method (r.methodDefinitionOf x)).origin with
    | declared => rfl
    | instanceOf d => rw [Method.genericDefinition?, horigin] at hplain; cases hplain
    | memberOf c => rw [Method.memberDefinition?, horigin] at hm; cases hm
  | some c =>
    rw [rootOf, hm, Option.getD_some]
    obtain ⟨t, ht⟩ := hc.listed.members _ c (memberDefinition?_eq_some hm)
    obtain ⟨_, _, _, -, hcd, -⟩ := ht.copied
    exact ⟨has_of_declaring hcd, hs.methods c (has_of_declaring hcd) ht.declared⟩

theorem Scoped.later (hs : r.Scoped) (hc : r.Coherent) (hg : r.Grows r') (hp : r.Persists r')
    {x : MethodId} (hx : r.Has (.method x)) :
    r'.ScopedMethod (r'.rootOf (r'.methodDefinitionOf x)) := by
  have hw := hc.wellFormed
  have hdef : r'.methodDefinitionOf x = r.methodDefinitionOf x := by
    rw [methodDefinitionOf, hg.method hx]
    rfl
  have hroot : r'.rootOf (r.methodDefinitionOf x) = r.rootOf (r.methodDefinitionOf x) := by
    rw [rootOf, hg.method (hw.methodDefinitionOf hx)]
    rfl
  obtain ⟨hhas, hscoped⟩ := hs.root hc hx
  rw [hdef, hroot]
  exact hscoped.mono hw hg hp hhas

theorem CoversTarget.mono (hw : r.WellFormed) (hg : r.Grows r') (hp : r.Persists r')
    {ctx : GenericContext} {target : TokenTarget} (hitems : ∀ x ∈ target.items, r.Has x)
    (h : r.CoversTarget ctx target) : r'.CoversTarget ctx target := by
  cases target with
  | type t =>
    cases t with
    | none => trivial
    | some t => exact Covers.mono hw hp (hitems _ (List.mem_singleton.mpr rfl)) h
  | method m =>
    cases m with
    | none => trivial
    | some m =>
      have hm := hitems _ (List.mem_singleton.mpr rfl)
      rw [CoversTarget, methodScope, hg.method hm]
      exact ⟨fun u hu => (h.1 u hu).mono hw hp (has_methodScope hw hm u hu), h.2⟩
  | field f =>
    cases f with
    | none => trivial
    | some f =>
      have hf := hitems _ (List.mem_singleton.mpr rfl)
      have hd := hw.declaringOf hf
      rw [CoversTarget, hg.field hf, hp.form hd]
      exact ⟨h.1.mono hw hp hd, h.2⟩
  | string text => trivial
  | signature site => trivial

section
variable {ctx : GenericContext} (h : r.Faithful) (hc : r.Coherent) (hctx : r.HasContext ctx)
  (hclosed : r.ClosedContext ctx)
include h hc hctx hclosed

theorem Rehomes.declaring_closed {x y : MethodId} (hx : r.Has (.method x))
    (hcovers : ∀ t, (r.method x).declaring = some t → r.Covers ctx t) (hy : r.Rehomes ctx x y) :
    ∀ t, (r.method y).declaring = some t → r.isOpen t = false := by
  intro t ht
  cases hy with
  | free hd =>
    rw [hd] at ht
    cases ht
  | @owned declaring owner _ hd ho hmem _ =>
    rw [((hc.listed.methods owner y).mp hmem).1] at ht
    cases ht
    exact ho.isOpen_eq_false h hc.orderly hctx hclosed (hc.wellFormed.declaring hx hd)
      (hcovers declaring hd)

/-- **A method from a context of closed types** is declared by a closed type, and returns one, if the
method was declared with a scoped signature. -/
theorem MethodReplaces.closedItem {x y : MethodId} (hx : r.Has (.method x))
    (hcovers : ∀ u ∈ r.methodScope x, r.Covers ctx u)
    (hdef : (r.method x).isGenericDefinition = false)
    (hs : r.ScopedMethod (r.rootOf (r.methodDefinitionOf x))) (hy : r.MethodReplaces ctx x y) :
    r.ClosedItem (.method y) := by
  have hw := hc.wellFormed
  have hdeclaring : ∀ t, (r.method x).declaring = some t → r.Covers ctx t := fun t ht =>
    hcovers t (List.mem_append_left _ (Option.mem_toList.mpr ht))
  have hreturns : r.Has (.method y) → r.ScopedMethod y →
      (∀ t, (r.method y).declaring = some t → r.isOpen t = false) →
      (∀ a ∈ (r.method y).genericArgs, r.isOpen a = false) → r.ClosedItem (.method y) := by
    intro hyhas hscoped hd ha
    refine ⟨hd, hscoped.isOpen_eq_false h hc.orderly (hw.returnType hyhas)
      (has_methodScope hw hyhas) fun u hu => ?_⟩
    rcases List.mem_append.mp hu with hu | hu
    · exact hd u (Option.mem_toList.mp hu)
    · exact ha u hu
  cases hy with
  | plain hplain hy =>
    rw [methodDefinitionOf_of_plain hplain, ← hy.rootOf_eq] at hs
    have hnil : (r.method y).genericArgs = [] := by
      rw [← hc.listed.genericArgs_rootOf, hy.rootOf_eq, hc.listed.genericArgs_rootOf]
      simpa [Method.isGenericDefinition, Method.isGenericInstance, hplain] using hdef
    refine hreturns (hy.has hx hc.listed) (scopedMethod_of_rootOf h hc hs)
      (hy.declaring_closed h hc hctx hclosed hx hdeclaring) ?_
    rw [hnil]
    exact fun _ ha => absurd ha List.not_mem_nil
  | @generic d target _ args hd ht has harity hy =>
    have hdhas := hw.genericDefinition hx hd
    have hgargs : ∀ a ∈ (r.method x).genericArgs, r.Has (.type a) := fun a => hw.genericArg hx
    have hne : args ≠ [] := by
      rintro rfl
      simp at harity
    obtain ⟨hydef, hyargs⟩ := h.methodInstance hc (ht.has hdhas hc.listed)
      (Replaces.has_all hw hctx hgargs has) hne hy
    have hroot : r.methodDefinitionOf x = d := by
      rw [methodDefinitionOf, hd]
      rfl
    rw [hroot, ← ht.rootOf_eq] at hs
    have hscoped := scopedMethod_of_definition h hc hydef (scopedMethod_of_rootOf h hc hs)
    -- instances have the declaring types of their definitions
    rw [(hc.patterned x d hd).declaring] at hdeclaring
    refine hreturns (has_of_genericDefinition? hydef) hscoped (fun t hdecl => ?_) fun a ha => ?_
    · rw [(hc.patterned y target hydef).declaring] at hdecl
      exact ht.declaring_closed h hc hctx hclosed hdhas hdeclaring t hdecl
    · rw [hyargs] at ha
      obtain ⟨b, hb, hba⟩ := exists_of_forall₂ has a ha
      exact hba.isOpen_eq_false h hc.orderly hctx hclosed (hgargs b hb)
        (hcovers b (List.mem_append_right _ hb))

end

section
variable {ctx : GenericContext} (hr : r.Coherent) (hctx : r.HasContext ctx) (hg : r.Grows r')
  (hstep : Step [] r r') (hs : r.Scoped) (h : r'.Faithful) (hc : r'.Coherent)
  (hclosed : r'.ClosedContext ctx)
include hr hctx hg hstep hs h hc hclosed

/-- **A field from a context of closed types** has a closed type, if fields had scoped types before the
context was used: new fields are those of new instances. -/
theorem FieldReplaces.closedItem {f g : FieldId} (hf : r.Has (.field f))
    (hcovers : r'.Covers ctx (r'.field f).declaring)
    (hkind : (r'.type (r'.field f).declaring).form.kind?.isSome = true)
    (hfg : r'.FieldReplaces ctx f g) : r'.ClosedItem (.field g) := by
  have hp := hstep.persists
  have hctx' := hg.hasContext hctx
  have hw := hr.wellFormed
  have hw' := hc.wellFormed
  have hfhas := hg.has hf
  have hdhas : r'.Has (.type (r'.field f).declaring) := hw'.declaringOf hfhas
  have hold : ∀ {f}, r.Has (.field f) → r'.ScopedField f := fun hf => (hs.fields _ hf).mono hw hg hp hf
  suffices hscoped : r'.Has (.field g) ∧ r'.ScopedField g ∧
      r'.isOpen (r'.field g).declaring = false by
    obtain ⟨hghas, hscoped, hdeclaring⟩ := hscoped
    refine hscoped.isOpen_eq_false h hc.orderly (hw'.typeOf hghas) (fun u hu => ?_) fun u hu => ?_
    · rw [List.mem_singleton.mp hu]
      exact hw'.declaringOf hghas
    · rw [List.mem_singleton.mp hu]
      exact hdeclaring
  cases hfg with
  | closed hstays =>
    exact ⟨hfhas, hold hf, (Replaces.closed hstays).isOpen_eq_false h hc.orderly hctx' hclosed hdhas
      hcovers⟩
  | @moved owner _ hopen ho hfound =>
    have hmem : g ∈ (r'.type owner).fields := List.mem_of_find?_eq_some hfound
    have hohas := ho.has hw' hctx' hdhas
    refine ⟨hw'.fieldOf hohas hmem, ?_, ?_⟩
    · by_cases hotold : r.Has (.type owner)
      · rw [hg.type hotold] at hmem
        exact hold (hw.fieldOf hotold hmem)
      -- a new owner is an instance of a definition that was there
      obtain ⟨args, has, hi⟩ := ho.named_inv hopen hkind
      have hd : r.Has (.type (r'.definitionOf (r'.field f).declaring)) := by
        rw [hg.field hf, hg.definitionOf (hw.declaringOf hf)]
        exact definition_has hw (hw.declaringOf hf)
      have hdef := hc.orderly.isDefinition_definitionOf hdhas hi.params_ne_nil
      rcases h.instanceOf hc.orderly (hg.has hd) hdef (Replaces.has_args hw' hctx' hdhas has) hi with
        ⟨rfl, -⟩ | ⟨kind, hform⟩
      · exact absurd hd hotold
      · refine scopedField_of_populated h hc hform (hstep.populated owner hotold hohas _ _ _ hform
          List.not_mem_nil List.not_mem_nil) (fun f₀ hf₀ => ?_) hmem
        rw [hg.type hd] at hf₀
        exact hold (hw.fieldOf hd hf₀)
    · rw [hc.listed.fields owner g hmem]
      exact ho.isOpen_eq_false h hc.orderly hctx' hclosed hdhas hcovers

end

/-! ## telling what is scoped and covered -/

/-- `MentionsOnly`, looked up -/
def mentionsOnlyCheck (r : Registry) (us : List TypeId) (t : TypeId) : Bool :=
  (r.partsWithin (t.index + 1) t).all fun p =>
    !(r.type p).form.isParameter || us.any fun u => (r.partsWithin (u.index + 1) u).contains p

def scopedCheck (r : Registry) : Bool :=
  ((List.range r.methods.size).all fun i =>
    (r.method ⟨i⟩).origin != .declared ||
      r.mentionsOnlyCheck (r.methodScope ⟨i⟩) (r.method ⟨i⟩).returnType) &&
  (List.range r.fields.size).all fun i =>
    r.mentionsOnlyCheck [(r.field ⟨i⟩).declaring] (r.field ⟨i⟩).type

theorem mentionsOnly_of_check (ho : r.Orderly) {us : List TypeId} {t : TypeId} (ht : r.Has (.type t))
    (h : r.mentionsOnlyCheck us t = true) : r.MentionsOnly us t := by
  intro p hin hp
  have hpart := List.all_eq_true.mp h p (hin.mem_partsWithin ho ht (Nat.lt_succ_self _))
  rw [hp, Bool.not_true, Bool.false_or] at hpart
  obtain ⟨u, hu, hpu⟩ := List.any_eq_true.mp hpart
  exact ⟨u, hu, occurs_of_mem_partsWithin (List.contains_iff_mem.mp hpu)⟩

theorem scoped_of_check (ho : r.Orderly) (h : r.scopedCheck = true) : r.Scoped := by
  obtain ⟨hmethods, hfields⟩ := Bool.and_eq_true_iff.mp h
  constructor
  · intro m hm horigin
    have hcheck := List.all_eq_true.mp hmethods m.index (List.mem_range.mpr hm)
    rw [Bool.or_eq_true, bne_iff_ne] at hcheck
    exact mentionsOnly_of_check ho (ho.wellFormed.returnType hm)
      (hcheck.resolve_left (absurd horigin))
  · intro f hf
    exact mentionsOnly_of_check ho (ho.wellFormed.typeOf hf)
      (List.all_eq_true.mp hfields f.index (List.mem_range.mpr hf))

def coversCheck (r : Registry) (ctx : GenericContext) (t : TypeId) : Bool :=
  (r.partsWithin (t.index + 1) t).all fun p => match (r.type p).form with
    | .parameter index owner => decide (index < (ctx.argsOf owner).length)
    | _ => true

def coversTargetCheck (r : Registry) (ctx : GenericContext) : TokenTarget → Bool
  | .type (some t) => r.coversCheck ctx t
  | .method (some m) =>
    (r.methodScope m).all (r.coversCheck ctx) && !(r.method m).isGenericDefinition
  | .field (some f) =>
    r.coversCheck ctx (r.field f).declaring && (r.type (r.field f).declaring).form.kind?.isSome
  | _ => true

theorem coversTarget_of_check (ho : r.Orderly) {ctx : GenericContext} {target : TokenTarget}
    (hitems : ∀ x ∈ target.items, r.Has x) (h : r.coversTargetCheck ctx target = true) :
    r.CoversTarget ctx target := by
  have hw := ho.wellFormed
  cases target with
  | type t =>
    cases t with
    | none => trivial
    | some t => exact forall_parameters ho (hitems _ (List.mem_singleton.mpr rfl)) h
  | method m =>
    cases m with
    | none => trivial
    | some m =>
      obtain ⟨hscope, hdef⟩ := Bool.and_eq_true_iff.mp h
      have hhas := has_methodScope hw (hitems (.method m) (List.mem_singleton.mpr rfl))
      exact ⟨fun u hu => forall_parameters ho (hhas u hu) (List.all_eq_true.mp hscope u hu),
        by simpa using hdef⟩
  | field f =>
    cases f with
    | none => trivial
    | some f =>
      obtain ⟨hcovers, hkind⟩ := Bool.and_eq_true_iff.mp h
      have hf := hitems (.field f) (List.mem_singleton.mpr rfl)
      exact ⟨forall_parameters ho (hw.declaringOf hf) hcovers, hkind⟩
  | string text => trivial
  | signature site => trivial

end Registry

end ProgramScan

import ProgramScan.Proofs.Registry.Changes

/-!
# Types that are made on demand

Constructed types and instances are found under their keys once they were made, in every later state
of the program:

* `Registry.Constructed`, `Registry.InstanceOf`   a type is what making it again gives;
* `Registry.Turns`                                a substitution that everything is there for, with any
                                                  way to make instances that finds those that exist;
* `Registry.Replaces`                             the same, part by part;
* `Registry.Finds`, `Registry.Supplies`           what is asked of that way, to find and to make.

An instance is made with the members of its definition (`changes_populate`), so a successful
instantiation is a `Step`: also the instances it needed on the way are populated
(`supplies_instantiateAt`).
-/

namespace ProgramScan

namespace Registry

variable {r r' : Registry}

/-! ## what is found under its key -/

/-- `t` is remembered as the type of a shape over `e` -/
structure Constructed (r : Registry) (shape : Shape) (e t : TypeId) : Prop where
  used : e ∈ r.usedNames
  known : r.instances.get? (r.constructedKey shape e) = some t

/-- `inst` is remembered as the instance of `definition` with the arguments, or they are its own
parameters -/
structure InstanceOf (r : Registry) (definition : TypeId) (args : List TypeId) (inst : TypeId) :
    Prop where
  arity : ((r.type definition).form.genericArgs.length != args.length ||
    (r.type definition).form.genericArgs.isEmpty) = false
  found : (r.type definition).form.genericArgs = args ∧ inst = definition ∨
    (r.type definition).form.genericArgs ≠ args ∧ definition ∈ r.usedNames ∧
      (∀ a ∈ args, a ∈ r.usedNames) ∧
      r.instances.get? (r.instanceKeyOf definition args) = some inst

section
variable (ho : r.Orderly) (hp : r.Persists r')
include ho hp

theorem Constructed.mono {shape : Shape} {e t : TypeId} (he : r.Has (.type e))
    (h : r.Constructed shape e t) : r'.Constructed shape e t where
  used := hp.used h.used
  known := by
    rw [ho.constructedKey hp shape he (.inl h.used)]
    exact hp.instances _ _ h.known

theorem InstanceOf.mono {definition inst : TypeId} {args : List TypeId}
    (hd : r.Has (.type definition)) (ha : ∀ a ∈ args, r.Has (.type a))
    (h : r.InstanceOf definition args inst) : r'.InstanceOf definition args inst where
  arity := by
    rw [hp.form hd]
    exact h.arity
  found := by
    rw [hp.form hd]
    rcases h.found with hown | ⟨hne, hud, hua, hk⟩
    · exact .inl hown
    · refine .inr ⟨hne, hp.used hud, fun a hmem => hp.used (hua a hmem), ?_⟩
      rw [ho.instanceKeyOf hp hd (.inl hud) ha fun a hmem => .inl (hua a hmem)]
      exact hp.instances _ _ hk

omit ho in
theorem Persists.definitionOf {t : TypeId} (ht : r.Has (.type t)) :
    r'.definitionOf t = r.definitionOf t := by
  simp only [Registry.definitionOf, hp.form ht]

theorem Persists.isOpenWithin (depth : Nat) {t : TypeId} (ht : r.Has (.type t)) :
    r'.isOpenWithin depth t = r.isOpenWithin depth t := by
  induction depth generalizing t with
  | zero => rfl
  | succ depth ih =>
    simp only [Registry.isOpenWithin, hp.form ht]
    cases hf : (r.type t).form with
    | defined kind params => rfl
    | parameter index owner => rfl
    | constructed shape element => exact ih (ho.wellFormed.element ht (by rw [hf]; rfl))
    | instantiated kind definition args =>
      exact any_congr_mem fun a ha => ih (ho.wellFormed.genericArgOf ht (by rw [hf]; exact ha))

theorem Persists.isOpen {t : TypeId} (ht : r.Has (.type t)) : r'.isOpen t = r.isOpen t :=
  Persists.isOpenWithin ho hp _ ht

omit ho in
theorem Persists.hasContext {ctx : GenericContext} (h : r.HasContext ctx) : r'.HasContext ctx :=
  fun t ht => hp.has _ (h t ht)

end

theorem Orderly.definitionOf_definition (ho : r.Orderly) {t d : TypeId} (ht : r.Has (.type t))
    (hd : (r.type t).form.definition? = some d) : r.definitionOf d = d := by
  have hdef := ((ho.placed t ht).definition d hd).isDefinition
  simp only [Registry.definitionOf]
  cases hf : (r.type d).form with
  | defined kind params => rfl
  | instantiated kind definition args => simp [hf, TypeForm.isDefinition] at hdef
  | parameter index owner => rfl
  | constructed shape element => rfl

theorem Orderly.isDefinition_definitionOf (ho : r.Orderly) {t : TypeId} (ht : r.Has (.type t))
    (hargs : (r.type (r.definitionOf t)).form.genericArgs ≠ []) :
    (r.type (r.definitionOf t)).form.isDefinition = true := by
  cases hd : (r.type t).form.definition? with
  | some d =>
    have hdt : r.definitionOf t = d := by simp only [Registry.definitionOf, hd, Option.getD_some]
    rw [hdt]
    exact ((ho.placed t ht).definition d hd).isDefinition
  | none =>
    have hdt : r.definitionOf t = t := by simp only [Registry.definitionOf, hd, Option.getD_none]
    rw [hdt] at hargs ⊢
    cases hf : (r.type t).form with
    | defined kind params => rfl
    | instantiated kind d args =>
      rw [hf] at hd
      cases hd
    | parameter index owner =>
      rw [hf] at hargs
      exact absurd rfl hargs
    | constructed shape element =>
      rw [hf] at hargs
      exact absurd rfl hargs

theorem lasting_construct (ho : r.Orderly) {shape : Shape} {e t : TypeId} (he : r.Has (.type e))
    (h : r.Constructed shape e t) : Lasting (liftM (construct shape e)) t r := by
  intro s hs _
  refine ⟨[e], ?_⟩
  rw [lift_apply, run_construct, (h.mono ho hs he).known]

theorem lasting_existingInstance? (ho : r.Orderly) {definition inst : TypeId} {args : List TypeId}
    (hd : r.Has (.type definition)) (ha : ∀ a ∈ args, r.Has (.type a))
    (h : r.InstanceOf definition args inst) :
    Lasting (existingInstance? definition args) (some inst) r := by
  intro s hs _
  have h' := h.mono ho hs hd ha
  rw [existingInstance?_apply]
  simp only [h'.arity, Bool.false_eq_true, if_false]
  rcases h'.found with ⟨hown, rfl⟩ | ⟨hne, -, -, hk⟩
  · refine ⟨[], ?_⟩
    rw [if_pos hown]
    rfl
  · refine ⟨definition :: args, ?_⟩
    rw [if_neg hne, hk]

/-! ## substitution -/

def Finds (make : TypeId → List TypeId → Action TypeId) : Prop :=
  ∀ {r : Registry} {t : TypeId} {args : List TypeId} {inst : TypeId}, r.Orderly →
    r.Has (.type t) → (∀ a ∈ args, r.Has (.type a)) → r.InstanceOf (r.definitionOf t) args inst →
    Lasting (make t args) inst r

/-- `u` with the arguments of `ctx` is `v`, with all the types that this needs made already -/
def Turns (r : Registry) (ctx : GenericContext) (u v : TypeId) : Prop :=
  ∀ make, Finds make → ∀ n, u.index < n → Lasting (substituteWith make ctx n u) v r

theorem Turns.mono {ctx : GenericContext} {u v : TypeId} (h : r.Turns ctx u v)
    (hp : r.Persists r') : r'.Turns ctx u v :=
  fun make hmake n hn => (h make hmake n hn).mono hp

theorem substituteWith_apply (make : TypeId → List TypeId → Action TypeId) (ctx : GenericContext)
    (n : Nat) (t : TypeId) (r : Registry) :
    substituteWith make ctx (n + 1) t r =
      if ctx.isEmpty || !r.isOpen t then .ok t r
      else
        (match (r.type t).form with
          | .parameter index owner => pure ((ctx.argsOf owner)[index]?.getD t)
          | .constructed shape element =>
            substituteWith make ctx n element >>= fun e => liftM (construct shape e)
          | .defined _ params => params.mapM (substituteWith make ctx n) >>= make t
          | .instantiated _ definition args =>
            args.mapM (substituteWith make ctx n) >>= make definition : Action TypeId) r := by
  show (if ctx.isEmpty || !r.isOpen t then _ else _ : Action TypeId) r = _
  split <;> rfl

section
variable {ctx : GenericContext} {t : TypeId} (ho : r.Orderly) (ht : r.Has (.type t))
include ho ht

theorem turns_closed (hc : (ctx.isEmpty || !r.isOpen t) = true) : r.Turns ctx t t := by
  intro make _ n hn s hs _
  obtain ⟨k, rfl⟩ := Nat.exists_eq_succ_of_ne_zero (Nat.ne_of_gt (Nat.zero_lt_of_lt hn))
  refine ⟨[], ?_⟩
  rw [substituteWith_apply, Persists.isOpen ho hs ht, if_pos hc]
  rfl

variable (hopen : ¬ (ctx.isEmpty || !r.isOpen t) = true)
include hopen

theorem turns_parameter {index : Nat} {owner : ParameterOwner}
    (hf : (r.type t).form = .parameter index owner) :
    r.Turns ctx t ((ctx.argsOf owner)[index]?.getD t) := by
  intro make _ n hn s hs _
  obtain ⟨k, rfl⟩ := Nat.exists_eq_succ_of_ne_zero (Nat.ne_of_gt (Nat.zero_lt_of_lt hn))
  refine ⟨[], ?_⟩
  rw [substituteWith_apply, Persists.isOpen ho hs ht, if_neg hopen, hs.form ht, hf]
  rfl

theorem turns_constructed {shape : Shape} {e e' u : TypeId}
    (hf : (r.type t).form = .constructed shape e) (he : r.Turns ctx e e')
    (hu : Lasting (liftM (construct shape e')) u r) : r.Turns ctx t u := by
  intro make hmake n hn s hs hos
  obtain ⟨k, rfl⟩ := Nat.exists_eq_succ_of_ne_zero (Nat.ne_of_gt (Nat.zero_lt_of_lt hn))
  have hlt : e.index < t.index :=
    (ho.placed t ht).part_lt e (by rw [hf]; exact List.mem_singleton.mpr rfl)
  have hek : e.index < k := Nat.lt_of_lt_of_le hlt (Nat.lt_succ_iff.mp hn)
  rw [substituteWith_apply, Persists.isOpen ho hs ht, if_neg hopen, hs.form ht, hf]
  exact (he make hmake k hek).bind hu s hs hos

theorem turns_args {args : List TypeId} {inst : TypeId} (hkind : (r.type t).form.kind?.isSome)
    (has : List.Forall₂ (r.Turns ctx) (r.type t).form.genericArgs args)
    (hargs : ∀ a ∈ args, r.Has (.type a)) (hi : r.InstanceOf (r.definitionOf t) args inst) :
    r.Turns ctx t inst := by
  intro make hmake n hn s hs hos
  obtain ⟨k, rfl⟩ := Nat.exists_eq_succ_of_ne_zero (Nat.ne_of_gt (Nat.zero_lt_of_lt hn))
  -- the arguments were there before the type
  have hpart : ∀ a ∈ (r.type t).form.genericArgs, a.index < k := by
    intro a ha
    refine Nat.lt_of_lt_of_le ((ho.placed t ht).part_lt a ?_) (Nat.lt_succ_iff.mp hn)
    cases hf : (r.type t).form <;> simp_all [TypeForm.genericArgs, TypeForm.items]
  have hmap : Lasting ((r.type t).form.genericArgs.mapM (substituteWith make ctx k)) args r :=
    Lasting.mapM (forall₂_imp_of_mem has fun a ha b _ hab => hab make hmake k (hpart a ha))
  rw [substituteWith_apply, Persists.isOpen ho hs ht, if_neg hopen, hs.form ht]
  cases hf : (r.type t).form with
  | defined kind params =>
    rw [hf] at hmap
    have hd : r.definitionOf t = t := by simp only [Registry.definitionOf, hf]; rfl
    have hmk : Lasting (make t args) inst r := hmake ho ht hargs hi
    exact hmap.bind hmk s hs hos
  | instantiated kind definition params =>
    rw [hf] at hmap
    have hd : r.definitionOf t = definition := by simp only [Registry.definitionOf, hf]; rfl
    have hdd := ho.definitionOf_definition ht (d := definition) (by rw [hf]; rfl)
    have hhas : r.Has (.type definition) := ho.wellFormed.definition ht (by rw [hf]; rfl)
    have hmk : Lasting (make definition args) inst r := hmake ho hhas hargs (by rwa [hdd, ← hd])
    exact hmap.bind hmk s hs hos
  | parameter index owner => simp [hf, TypeForm.kind?] at hkind
  | constructed shape element => simp [hf, TypeForm.kind?] at hkind

end

/-! ## substitution part by part -/

/-- `u` with the arguments of `ctx` is `v`, part by part: all the types that this needs are made
already. -/
inductive Replaces (r : Registry) (ctx : GenericContext) : TypeId → TypeId → Prop
  | closed {t : TypeId} (hc : (ctx.isEmpty || !r.isOpen t) = true) : Replaces r ctx t t
  | parameter {t : TypeId} {index : Nat} {owner : ParameterOwner}
    (hopen : ¬ (ctx.isEmpty || !r.isOpen t) = true)
    (hf : (r.type t).form = .parameter index owner) :
    Replaces r ctx t ((ctx.argsOf owner)[index]?.getD t)
  | constructed {t : TypeId} {shape : Shape} {e e' u : TypeId}
    (hopen : ¬ (ctx.isEmpty || !r.isOpen t) = true)
    (hf : (r.type t).form = .constructed shape e) (he : Replaces r ctx e e')
    (hu : r.Constructed shape e' u) : Replaces r ctx t u
  | named {t : TypeId} {args : List TypeId} {u : TypeId}
    (hopen : ¬ (ctx.isEmpty || !r.isOpen t) = true) (hkind : (r.type t).form.kind?.isSome)
    (has : List.Forall₂ (Replaces r ctx) (r.type t).form.genericArgs args)
    (hi : r.InstanceOf (r.definitionOf t) args u) : Replaces r ctx t u

theorem InstanceOf.has (hw : r.WellFormed) {definition inst : TypeId} {args : List TypeId}
    (hd : r.Has (.type definition)) (h : r.InstanceOf definition args inst) :
    r.Has (.type inst) := by
  rcases h.found with ⟨-, rfl⟩ | ⟨-, -, -, hk⟩
  · exact hd
  · exact hw.instance_ hk

/-- the element of a constructed type comes before it -/
theorem Orderly.element_lt (ho : r.Orderly) {t e : TypeId} (ht : r.Has (.type t))
    (he : (r.type t).form.element? = some e) : e.index < t.index := by
  refine (ho.placed t ht).part_lt e ?_
  cases hf : (r.type t).form <;> simp_all [TypeForm.element?, TypeForm.items]

/-- parameters and arguments of a type come before it -/
theorem Orderly.genericArg_lt (ho : r.Orderly) {t a : TypeId} (ht : r.Has (.type t))
    (ha : a ∈ (r.type t).form.genericArgs) : a.index < t.index := by
  refine (ho.placed t ht).part_lt a ?_
  cases hf : (r.type t).form <;> simp_all [TypeForm.genericArgs, TypeForm.items]

namespace Replaces

variable {ctx : GenericContext} {t u : TypeId}

theorem has (hw : r.WellFormed) (hctx : r.HasContext ctx) (ht : r.Has (.type t))
    (h : r.Replaces ctx t u) : r.Has (.type u) := by
  cases h with
  | closed => exact ht
  | @parameter _ index owner =>
    cases ha : (ctx.argsOf owner)[index]? with
    | none => exact ht
    | some a => exact hctx.argsOf (List.mem_of_getElem? ha)
  | constructed _ _ _ hu => exact hw.instance_ hu.known
  | named _ _ _ hi => exact hi.has hw (definition_has hw ht)

theorem has_args (hw : r.WellFormed) (hctx : r.HasContext ctx) (ht : r.Has (.type t))
    {args : List TypeId} (has : List.Forall₂ (r.Replaces ctx) (r.type t).form.genericArgs args) :
    ∀ a ∈ args, r.Has (.type a) := by
  have hall : List.Forall₂ (fun a b => r.Has (.type a) ∧ r.Replaces ctx a b)
      (r.type t).form.genericArgs args :=
    forall₂_imp_of_mem has fun a ha b _ hab => ⟨hw.genericArgOf ht ha, hab⟩
  exact forall_of_forall₂ hall fun a b hab => hab.2.has hw hctx hab.1

/-- what is replaced part by part in a program is so in every later state -/
theorem mono (ho : r.Orderly) (hp : r.Persists r') (hctx : r.HasContext ctx) (ht : r.Has (.type t))
    (h : r.Replaces ctx t u) : r'.Replaces ctx t u := by
  obtain ⟨n, hn⟩ : ∃ n, t.index < n := ⟨_, Nat.lt_succ_self _⟩
  induction n generalizing t u with
  | zero => exact absurd hn (Nat.not_lt_zero _)
  | succ n ih =>
    have hopen := Persists.isOpen ho hp ht
    cases h with
    | closed hc => exact .closed (by rwa [hopen])
    | parameter ho' hf => exact .parameter (by rwa [hopen]) (by rw [hp.form ht, hf])
    | constructed ho' hf he hu =>
      have hin := ho.wellFormed.element ht (by rw [hf]; rfl)
      have hlt := ho.element_lt ht (by rw [hf]; rfl)
      exact .constructed (by rwa [hopen]) (by rw [hp.form ht, hf])
        (ih hin he (Nat.lt_of_lt_of_le hlt (Nat.lt_succ_iff.mp hn)))
        (hu.mono ho hp (he.has ho.wellFormed hctx hin))
    | @named _ args _ ho' hkind has hi =>
      have hhas := has_args ho.wellFormed hctx ht has
      have hall : List.Forall₂ (r'.Replaces ctx) (r'.type t).form.genericArgs args := by
        rw [hp.form ht]
        refine forall₂_imp_of_mem has fun a ha b _ hab => ?_
        exact ih (ho.wellFormed.genericArgOf ht ha) hab
          (Nat.lt_of_lt_of_le (ho.genericArg_lt ht ha) (Nat.lt_succ_iff.mp hn))
      refine .named (by rwa [hopen]) (by rwa [hp.form ht]) hall ?_
      rw [Persists.definitionOf hp ht]
      exact hi.mono ho hp (definition_has ho.wellFormed ht) hhas

/-- what is replaced part by part is what substitution gives -/
theorem turns (ho : r.Orderly) (hctx : r.HasContext ctx) (ht : r.Has (.type t))
    (h : r.Replaces ctx t u) : r.Turns ctx t u := by
  obtain ⟨n, hn⟩ : ∃ n, t.index < n := ⟨_, Nat.lt_succ_self _⟩
  induction n generalizing t u with
  | zero => exact absurd hn (Nat.not_lt_zero _)
  | succ n ih =>
    cases h with
    | closed hc => exact turns_closed ho ht hc
    | parameter hopen hf => exact turns_parameter ho ht hopen hf
    | constructed hopen hf he hu =>
      have hin := ho.wellFormed.element ht (by rw [hf]; rfl)
      have hlt := ho.element_lt ht (by rw [hf]; rfl)
      exact turns_constructed ho ht hopen hf
        (ih hin he (Nat.lt_of_lt_of_le hlt (Nat.lt_succ_iff.mp hn)))
        (lasting_construct ho (he.has ho.wellFormed hctx hin) hu)
    | named hopen hkind has hi =>
      refine turns_args ho ht hopen hkind ?_ (has_args ho.wellFormed hctx ht has) hi
      refine forall₂_imp_of_mem has fun a ha b _ hab => ?_
      exact ih (ho.wellFormed.genericArgOf ht ha) hab
        (Nat.lt_of_lt_of_le (ho.genericArg_lt ht ha) (Nat.lt_succ_iff.mp hn))

end Replaces

/-! ## constructed types -/

theorem changes_construct {changed : List TypeId} (ho : r.Orderly) (shape : Shape) {e : TypeId}
    (he : r.Has (.type e)) :
    Changes changed (liftM (construct shape e)) r fun t s =>
      s.Has (.type t) ∧ s.Constructed shape e t := by
  have hu : e ∈ (r.useNames [e]).usedNames := mem_usedNames_useNames r [e] List.mem_cons_self
  have hrun := run_construct r shape e
  cases hk : r.instances.get? (r.constructedKey shape e) with
  | some t =>
    rw [hk] at hrun
    exact .of_ok (by rw [lift_apply, hrun]) (.useNames ho [e])
      ⟨ho.wellFormed.instance_ hk, hu, hk⟩
  | none =>
    rw [hk] at hrun
    let s := r.useNames [e]
    let d := r.constructedDecl shape e
    have hos : s.Orderly := ho.useNames [e]
    have hparts : ∀ u, Item.type u ∈ d.form.items → u = e := by
      intro u hu
      simpa [d, constructedDecl, TypeForm.items] using hu
    have hitems : ∀ x ∈ d.items, s.Has x := by
      intro x hx
      simp only [TypeDecl.items, d, constructedDecl, TypeForm.items, List.map_nil,
        List.append_nil, Option.toList_none, List.flatMap_nil, List.mem_append,
        List.mem_singleton, List.mem_map, Option.mem_toList] at hx
      rcases hx with rfl | ⟨b, hb, rfl⟩
      · exact he
      · split at hb
        · exact ho.wellFormed.found hb
        · cases hb
    have hkey : ∀ s' : Registry, s.Persists s' →
        s'.constructedKey shape e = r.constructedKey shape e :=
      fun s' hp => hos.constructedKey hp shape he (.inl hu)
    have hafter : After changed s (s.withMade d (r.constructedKey shape e)) := by
      refine after_withMade hos hitems (ho.placed e he).home
        (fun u hu' => by rw [hparts u hu']; exact hu) (fun c hc => ?_) ⟨rfl, rfl⟩
        (fun kind c args hf => ?_) hk fun s' hp hnew => ?_
      · cases hc
      · cases hf
      · rw [Registry.memoKey?, hnew, ← hkey s' hp]
        rfl
    have hmade : Step changed s (s.withMade d (r.constructedKey shape e)) := by
      refine ⟨hafter, fun t hn ht kind definition args hf => ?_⟩
      rw [eq_of_has_withMade hn ht, type_withMade] at hf
      cases hf
    refine .of_ok (by rw [lift_apply, hrun]; rfl) ((Step.useNames ho [e]).trans hmade)
      ⟨has_withMade s d _, hu, ?_⟩
    rw [hkey _ hafter.persists]
    exact Table.get?_insert_self _ _ _

/-! ## substitution makes what it needs -/

/-- `make` makes instances, or finds those that exist -/
def Supplies (make : TypeId → List TypeId → Action TypeId) : Prop :=
  ∀ {r : Registry} {t : TypeId} {args : List TypeId}, r.Orderly → r.Has (.type t) →
    (∀ a ∈ args, r.Has (.type a)) →
    Changes [] (make t args) r fun inst s =>
      s.Has (.type inst) ∧ s.InstanceOf (s.definitionOf t) args inst

theorem changes_mapM {α β : Type} {changed : List TypeId} {f : α → Action β}
    {R : α → β → Registry → Prop} (hR : ∀ a b s s', Step changed s s' → R a b s → R a b s')
    {l : List α} (ho : r.Orderly)
    (hf : ∀ a ∈ l, ∀ s, Step changed r s → Changes changed (f a) s (R a)) :
    Changes changed (l.mapM f) r fun bs s => List.Forall₂ (fun a b => R a b s) l bs := by
  induction l generalizing r with
  | nil => exact .pure ho .nil
  | cons a l ih =>
    rw [List.mapM_cons]
    refine Changes.bind (hf a List.mem_cons_self r (.refl ho)) fun b s₁ hs₁ hb => ?_
    have hl := ih hs₁.orderly fun c hc s hs =>
      hf c (List.mem_cons_of_mem _ hc) s (hs₁.trans hs)
    refine Changes.bind hl fun bs s₂ hs₂ hbs => ?_
    exact .pure hs₂.orderly (.cons (hR a b s₁ s₂ hs₂ hb) hbs)

theorem changes_substituteWith {make : TypeId → List TypeId → Action TypeId} (hmake : Supplies make)
    (depth : Nat) {ctx : GenericContext} {t : TypeId} (ho : r.Orderly) (hctx : r.HasContext ctx)
    (ht : r.Has (.type t)) (hdepth : t.index < depth) :
    Changes [] (substituteWith make ctx depth t) r fun v s =>
      s.Has (.type v) ∧ s.Replaces ctx t v := by
  induction depth generalizing r t with
  | zero => exact absurd hdepth (Nat.not_lt_zero _)
  | succ depth ih =>
    have hw := ho.wellFormed
    have hlt : ∀ u, Item.type u ∈ (r.type t).form.items → u.index < depth := fun u hu =>
      Nat.lt_of_lt_of_le ((ho.placed t ht).part_lt u hu) (Nat.lt_succ_iff.mp hdepth)
    refine Changes.get ?_
    split
    · rename_i hc
      exact .pure ho ⟨ht, .closed hc⟩
    · rename_i hopen
      -- what holds of the arguments holds for definitions and for instances
      have hargs : ∀ {d : TypeId} {args : List TypeId}, (r.type t).form.kind?.isSome →
          (r.type t).form.genericArgs = args → r.Has (.type d) → r.definitionOf t = d →
          r.definitionOf d = d → (∀ a ∈ args, Item.type a ∈ (r.type t).form.items) →
          Changes [] (args.mapM (substituteWith make ctx depth) >>= make d) r fun v s =>
            s.Has (.type v) ∧ s.Replaces ctx t v := by
        intro d args hkind hga hd hdt hdd hin
        refine Changes.bind (changes_mapM
          (R := fun u v s => r.Persists s ∧ s.Orderly ∧ r.Has (.type u) ∧ s.Has (.type v) ∧
            s.Replaces ctx u v) ?_ ho ?_) ?_
        · rintro u v s s' hs ⟨hp, hos, hu, hv, huv⟩
          exact ⟨hp.trans hs.persists, hs.orderly, hu, hs.persists.has _ hv,
            huv.mono hos hs.persists (hp.hasContext hctx) (hp.has _ hu)⟩
        · intro a ha s hs
          have hhas := hw.formOf ht (hin a ha)
          refine (ih hs.orderly (hs.persists.hasContext hctx) (hs.persists.has _ hhas)
            (hlt a (hin a ha))).weaken fun v s' hs' hv => ?_
          exact ⟨hs.persists.trans hs'.persists, hs'.orderly, hhas, hv⟩
        intro bs s₁ hs₁ hbs
        have hhas : ∀ b ∈ bs, s₁.Has (.type b) := forall_of_forall₂ hbs fun _ _ h => h.2.2.2.1
        refine (hmake hs₁.orderly (hs₁.persists.has _ hd) hhas).weaken fun v s₂ hs₂ hv => ?_
        refine ⟨hv.1, ?_⟩
        have hp : r.Persists s₂ := hs₁.persists.trans hs₂.persists
        have hform := hp.form ht
        have hall : List.Forall₂ (s₂.Replaces ctx) (s₂.type t).form.genericArgs bs := by
          rw [hform, hga]
          refine hbs.imp ?_
          rintro u w ⟨hp₁, hos₁, hu, -, huw⟩
          exact huw.mono hos₁ hs₂.persists (hp₁.hasContext hctx) (hp₁.has _ hu)
        refine .named (by rwa [Persists.isOpen ho hp ht]) (by rwa [hform]) hall ?_
        rw [Persists.definitionOf hp ht, hdt, ← hdd, ← Persists.definitionOf hp hd]
        exact hv.2
      cases hf : (r.type t).form with
      | parameter index owner =>
        have hreplaces : r.Replaces ctx t ((ctx.argsOf owner)[index]?.getD t) := .parameter hopen hf
        exact .pure ho ⟨hreplaces.has hw hctx ht, hreplaces⟩
      | constructed shape element =>
        have hin : Item.type element ∈ (r.type t).form.items := by
          rw [hf]
          exact List.mem_singleton.mpr rfl
        have hhas := hw.formOf ht hin
        refine Changes.bind (ih ho hctx hhas (hlt element hin)) fun e s₁ hs₁ he => ?_
        refine (changes_construct hs₁.orderly shape he.1).weaken fun v s₂ hs₂ hv => ?_
        have hp : r.Persists s₂ := hs₁.persists.trans hs₂.persists
        refine ⟨hv.1, .constructed (by rwa [Persists.isOpen ho hp ht]) (by rw [hp.form ht, hf]) ?_ hv.2⟩
        exact he.2.mono hs₁.orderly hs₂.persists (hs₁.persists.hasContext hctx)
          (hs₁.persists.has _ hhas)
      | defined kind params =>
        have hd : r.definitionOf t = t := by simp only [Registry.definitionOf, hf]; rfl
        refine hargs (by rw [hf]; rfl) (by rw [hf]; rfl) ht hd hd ?_
        intro a ha
        rw [hf]
        exact List.mem_map_of_mem ha
      | instantiated kind definition args =>
        have hdt : (r.type t).form.definition? = some definition := by rw [hf]; rfl
        have hd : r.definitionOf t = definition := by simp only [Registry.definitionOf, hf]; rfl
        refine hargs (by rw [hf]; rfl) (by rw [hf]; rfl) (hw.definition ht hdt) hd
          (ho.definitionOf_definition ht hdt) ?_
        intro a ha
        rw [hf]
        exact List.mem_map_of_mem (List.mem_cons_of_mem _ ha)

end Registry

end ProgramScan

import Mathlib.Logic.Function.Iterate
import ProgramScan.Proofs.Registry.Nesting

/-!
# Instantiation comes to an end

Making an instance, substituting arguments and asking whether a type is open call each other, and
none of them hands a smaller task on: they walk types that are made on the way.  Here the functions
are taken as they call each other, with no bound but the program's own count of instantiations under
way, and it is shown that their calls end.

* `Registry.Calls`           answers for calls of the functions;
* `Registry.Calls.unfold`    what the functions do themselves, with the calls that they make left to
                             given answers;
* `Registry.Terminates`      after finitely many unfoldings nothing depends on the given answers any
                             more, and the outcome is that of `instantiate`, `substitute` or
                             `instantiateMethod`;
* `Registry.Yields`          the same, with what is known of the outcome.

Two things decrease.  A walk goes to types that were there before, in the order in which types were
made (`terminates_substituteWith`), and each instance whose members are being made leaves room for
one less (`meets_instantiateAt`).
-/

namespace ProgramScan

namespace Registry

/-! ## calls without bounds -/

/-- Answers for the functions that instantiation consists of.  `under` is the number of instances
whose members are being made during the call. -/
structure Calls where
  isOpen : Registry → TypeId → Bool
  substitute : (under : Nat) → GenericContext → TypeId → Action TypeId
  instantiate : (under : Nat) → TypeId → List TypeId → Action TypeId
  /-- makes the members of an instance inside those of `maxNesting` others -/
  tooDeep : (definition inst : TypeId) → Action Unit

namespace Calls

def members (w : Calls) (under : Nat) (definition : TypeId) (args : List TypeId) (inst : TypeId) :
    Action Unit :=
  if under < maxNesting then populate (w.substitute (under + 1) ⟨args, []⟩) definition inst
  else w.tooDeep definition inst

/-- One call of each function, which leaves the calls that it makes to `w`. -/
def unfold (w : Calls) : Calls where
  isOpen r t :=
    match (r.type t).form with
    | .parameter _ _ => true
    | .defined _ params => !params.isEmpty
    | .constructed _ element => w.isOpen r element
    | .instantiated _ _ args => args.any (w.isOpen r)
  substitute under ctx t := do
    let r ← get
    if ctx.isEmpty || !w.isOpen r t then
      return t
    else
      match (r.type t).form with
      | .parameter index owner => return (ctx.argsOf owner)[index]?.getD t
      | .constructed shape element =>
        let element ← w.substitute under ctx element
        construct shape element
      | .defined _ params =>
        let args ← params.mapM (w.substitute under ctx)
        w.instantiate under t args
      | .instantiated _ definition args =>
        let args ← args.mapM (w.substitute under ctx)
        w.instantiate under definition args
  instantiate under t args := do
    let definition := (← get).definitionOf t
    match ← existingInstance? definition args with
    | some inst => return inst
    | none =>
      -- the count of the program is all that is asked here
      if maxNesting ≤ (← get).nesting then
        throw (.recursionLimit maxNesting)
      else nested do
        let inst ← addInstance definition args
        w.members under definition args inst
        return inst
  tooDeep := w.tooDeep

/-- instantiation of methods, which the other functions do not call -/
def instantiateMethod (w : Calls) (m : MethodId) (args : List TypeId) : Action MethodId := do
  let r ← get
  let definition := (r.method m).genericDefinition?.getD m
  let d := r.method definition
  modify fun r => r.useNames (r.methodUses definition)
  if d.genericArgs.length != args.length || args.isEmpty then
    throw (.methodArity (r.methodName definition) d.genericArgs.length args.length)
  else
    modify (·.useNames args)
    let key := r.instanceKey (r.methodKey definition) args
    match r.methodInstances.get? key with
    | some inst => return inst
    | none =>
      let ctx : GenericContext := ⟨r.declaringArgs definition, args⟩
      let returnType ← w.substitute 0 ctx d.returnType
      let params ← substituteParams (w.substitute 0 ctx) d.params
      let inst ← addMethod
        { d with returnType, params, genericArgs := args, origin := .instanceOf definition,
                 body := none }
      modify fun r => { r with methodInstances := r.methodInstances.insert key inst }
      return inst

end Calls

variable {α β : Type} {r s : Registry}

/-- Run in `r`, `act` ends as `result` does: after enough unfoldings it makes no difference what is
left over. -/
def Terminates (act : Calls → Action α) (result : Action α) (r : Registry) : Prop :=
  ∃ n, ∀ steps, n ≤ steps → ∀ w : Calls, act (Calls.unfold^[steps] w) r = result r

/-- `act` ends as `result` does, and `Q` holds if this succeeds. -/
structure Yields (act : Calls → Action α) (result : Action α) (r : Registry)
    (Q : α → Registry → Prop) : Prop where
  ends : Terminates act result r
  ok : ∀ {a s}, result r = .ok a s → Q a s

namespace Terminates

/-- an operation that makes no calls -/
theorem same (act : Action α) : Terminates (fun _ => act) act r := ⟨0, fun _ _ _ => rfl⟩

theorem unfold {act : Calls → Action α} {result : Action α}
    (h : Terminates (fun w => act w.unfold) result r) : Terminates act result r := by
  obtain ⟨n, hn⟩ := h
  refine ⟨n + 1, fun steps hsteps w => ?_⟩
  obtain ⟨k, rfl⟩ : ∃ k, steps = k + 1 := ⟨steps - 1, by omega⟩
  rw [Function.iterate_succ_apply']
  exact hn k (by omega) w

theorem bind {x : Calls → Action α} {x' : Action α} {k : Calls → α → Action β}
    {k' : α → Action β} {Q : α → Registry → Prop} (hx : Yields x x' r Q)
    (hk : ∀ a s, Q a s → Terminates (fun w => k w a) (k' a) s) :
    Terminates (fun w => x w >>= k w) (x' >>= k') r := by
  obtain ⟨n, hn⟩ := hx.ends
  cases hrun : x' r with
  | error e s =>
    refine ⟨n, fun steps hsteps w => ?_⟩
    show (x _ >>= k _) r = _
    rw [bind_apply, bind_apply, hn steps hsteps w, hrun]
  | ok a s =>
    obtain ⟨m, hm⟩ := hk a s (hx.ok hrun)
    refine ⟨max n m, fun steps hsteps w => ?_⟩
    show (x _ >>= k _) r = _
    rw [bind_apply, bind_apply, hn steps (by omega) w, hrun]
    exact hm steps (by omega) w

/-- what follows `get` may depend on the state -/
theorem get {k : Calls → Registry → Action α} {j : Registry → Action α}
    (hk : Terminates (fun w => k w r) (j r) r) :
    Terminates (fun w => MonadState.get >>= k w) (MonadState.get >>= j) r := hk

theorem ite {c : Calls → Bool} {c' : Bool} {x y : Calls → Action α} {x' y' : Action α}
    (hc : ∃ n, ∀ steps, n ≤ steps → ∀ w : Calls, c (Calls.unfold^[steps] w) = c')
    (hx : c' = true → Terminates x x' r) (hy : ¬ c' = true → Terminates y y' r) :
    Terminates (fun w => if c w then x w else y w) (if c' then x' else y') r := by
  obtain ⟨n, hn⟩ := hc
  by_cases h : c' = true
  · obtain ⟨m, hm⟩ := hx h
    refine ⟨max n m, fun steps hsteps w => ?_⟩
    show (if _ then _ else _ : Action α) r = (if _ then _ else _ : Action α) r
    rw [hn steps (by omega) w, if_pos h, if_pos h]
    exact hm steps (by omega) w
  · obtain ⟨m, hm⟩ := hy h
    refine ⟨max n m, fun steps hsteps w => ?_⟩
    show (if _ then _ else _ : Action α) r = (if _ then _ else _ : Action α) r
    rw [hn steps (by omega) w, if_neg h, if_neg h]
    exact hm steps (by omega) w

theorem nested {act : Calls → Action α} {result : Action α}
    (h : Terminates act result { r with nesting := r.nesting + 1 }) :
    Terminates (fun w => nested (act w)) (Registry.nested result) r := by
  obtain ⟨n, hn⟩ := h
  refine ⟨n, fun steps hsteps w => ?_⟩
  simp only [Registry.nested, hn steps hsteps w]

end Terminates

namespace Yields

variable {act : Calls → Action α} {result : Action α} {Q : α → Registry → Prop}

/-- an operation that makes no calls -/
theorem same {changed : List TypeId} (h : Changes changed result r Q) (hb : Balanced result) :
    Yields (fun _ => result) result r fun a s =>
      (Step changed r s ∧ s.nesting = r.nesting) ∧ Q a s where
  ends := .same result
  ok hr := ⟨⟨(h.ok hr).1, hb.ok hr⟩, (h.ok hr).2⟩

theorem of_ends {changed : List TypeId} (he : Terminates act result r)
    (h : Changes changed result r Q) (hb : Balanced result) :
    Yields act result r fun a s => (Step changed r s ∧ s.nesting = r.nesting) ∧ Q a s where
  ends := he
  ok hr := ⟨⟨(h.ok hr).1, hb.ok hr⟩, (h.ok hr).2⟩

theorem weaken {Q' : α → Registry → Prop} (h : Yields act result r Q)
    (hq : ∀ a s, Q a s → Q' a s) : Yields act result r Q' :=
  ⟨h.ends, fun hr => hq _ _ (h.ok hr)⟩

/-- Operations one after the other; `P` holds of the states between them. -/
theorem mapM {f : Calls → α → Action β} {f' : α → Action β} {P : Registry → Prop} {l : List α}
    (hP : P r) (hf : ∀ a ∈ l, ∀ s, P s → Yields (fun w => f w a) (f' a) s fun _ => P) :
    Yields (fun w => l.mapM (f w)) (l.mapM f') r fun _ => P := by
  induction l generalizing r with
  | nil =>
    refine ⟨.same _, fun hr => ?_⟩
    cases hr
    exact hP
  | cons a l ih =>
    have ha := hf a List.mem_cons_self r hP
    have hl : ∀ s, P s → Yields (fun w => l.mapM (f w)) (l.mapM f') s fun _ => P :=
      fun s hs => ih hs fun b hb => hf b (List.mem_cons_of_mem _ hb)
    simp only [List.mapM_cons]
    refine ⟨.bind ha fun b s hs => .bind (hl s hs) fun bs _ _ => .same _, fun hr => ?_⟩
    obtain ⟨b, s₁, hb, hrest⟩ := bind_eq_ok_iff.mp hr
    obtain ⟨bs, s₂, hbs, hpure⟩ := bind_eq_ok_iff.mp hrest
    cases hpure
    exact (hl s₁ (ha.ok hb)).ok hbs

/-- Operations one after the other; `P` holds of those that are done. -/
theorem forM {f : Calls → α → Action Unit} {f' : α → Action Unit} {P : List α → Registry → Prop}
    {l : List α} (hP : P [] r)
    (hf : ∀ done a rest, l = done ++ a :: rest → ∀ s, P done s →
      Yields (fun w => f w a) (f' a) s fun _ => P (done ++ [a])) :
    Yields (fun w => l.forM (f w)) (l.forM f') r fun _ => P l := by
  -- by induction on what is left to do
  have hrest : ∀ rest done, l = done ++ rest → ∀ s, P done s →
      Yields (fun w => rest.forM (f w)) (rest.forM f') s fun _ => P l := by
    intro rest
    induction rest with
    | nil =>
      intro done hl s hs
      rw [List.append_nil] at hl
      refine ⟨.same _, fun hr => ?_⟩
      cases hr
      exact hl ▸ hs
    | cons a rest ih =>
      intro done hl s hs
      have ha := hf done a rest hl s hs
      have hnext := ih (done ++ [a]) (by rw [hl, List.append_assoc]; rfl)
      refine ⟨.bind ha fun _ s' hs' => (hnext s' hs').ends, fun hr => ?_⟩
      obtain ⟨u, s₁, hrun, hrun'⟩ := bind_eq_ok_iff.mp hr
      exact (hnext s₁ (ha.ok hrun)).ok hrun'
  exact hrest l [] rfl r hP

/-- an operation on what there is -/
theorem optionForM {f : Calls → α → Action Unit} {f' : α → Action Unit}
    {P : Option α → Registry → Prop} {o : Option α} (hP : P none r)
    (hf : ∀ a, o = some a → Yields (fun w => f w a) (f' a) r fun _ => P (some a)) :
    Yields (fun w => o.forM (f w)) (o.forM f') r fun _ => P o := by
  cases o with
  | none =>
    refine ⟨.same _, fun hr => ?_⟩
    cases hr
    exact hP
  | some a => exact hf a rfl

end Yields

/-! ## walks -/

/-- whether a type is open is known after as many unfoldings as types were made before it -/
theorem isOpen_unfold (ho : r.Orderly) (depth : Nat) {t : TypeId} (ht : r.Has (.type t))
    (hdepth : t.index < depth) (steps : Nat) (hsteps : depth ≤ steps) (w : Calls) :
    (Calls.unfold^[steps] w).isOpen r t = r.isOpenWithin depth t := by
  induction depth generalizing t steps with
  | zero => exact absurd hdepth (Nat.not_lt_zero _)
  | succ depth ih =>
    obtain ⟨k, rfl⟩ : ∃ k, steps = k + 1 := ⟨steps - 1, by omega⟩
    rw [Function.iterate_succ_apply']
    simp only [Calls.unfold, Registry.isOpenWithin]
    cases hf : (r.type t).form with
    | parameter index owner => rfl
    | defined kind params => rfl
    | constructed shape element =>
      have he : (r.type t).form.element? = some element := by rw [hf]; rfl
      have hlt := ho.element_lt ht he
      exact ih (ho.wellFormed.element ht he) (by omega) k (by omega)
    | instantiated kind definition args =>
      refine any_congr_mem fun a ha => ?_
      have ha' : a ∈ (r.type t).form.genericArgs := by rw [hf]; exact ha
      have hlt := ho.genericArg_lt ht ha'
      exact ih (ho.wellFormed.genericArgOf ht ha') (by omega) k (by omega)

/-- `make` is what becomes of instantiation while `under` instances get their members. -/
structure Meets (under : Nat) (make : TypeId → List TypeId → Action TypeId) : Prop where
  supplies : Supplies make
  balanced : ∀ t args, Balanced (make t args)
  ends : ∀ {r : Registry} {t : TypeId} {args : List TypeId}, r.Orderly → r.nesting = under →
    r.Has (.type t) → (∀ a ∈ args, r.Has (.type a)) →
    Terminates (fun w => w.instantiate under t args) (make t args) r

section
variable {under : Nat} {make : TypeId → List TypeId → Action TypeId} (hmake : Meets under make)
include hmake

/-- the walk goes to types that were made before -/
theorem terminates_substituteWith (depth : Nat) {ctx : GenericContext} {t : TypeId}
    (ho : r.Orderly) (hn : r.nesting = under) (hctx : r.HasContext ctx) (ht : r.Has (.type t))
    (hdepth : t.index < depth) :
    Terminates (fun w => w.substitute under ctx t) (substituteWith make ctx depth t) r := by
  induction depth generalizing r t with
  | zero => exact absurd hdepth (Nat.not_lt_zero _)
  | succ depth ih =>
    have hw := ho.wellFormed
    refine .unfold (.get (.ite ?_ (fun _ => .same _) fun _ => ?_))
    · refine ⟨t.index + 1, fun steps hsteps w => ?_⟩
      rw [isOpen_unfold ho (t.index + 1) ht (Nat.lt_succ_self _) steps hsteps w]
      rfl
    -- the arguments of definitions and of instances
    have hargs : ∀ {d : TypeId} {args : List TypeId}, (r.type t).form.genericArgs = args →
        r.Has (.type d) → Terminates
          (fun w => args.mapM (w.substitute under ctx) >>= w.instantiate under d)
          (args.mapM (substituteWith make ctx depth) >>= make d) r := by
      intro d args hga hd
      have hone : ∀ a ∈ args, ∀ s, Step [] r s →
          Changes [] (substituteWith make ctx depth a) s fun v s' => s'.Has (.type v) := by
        intro a ha s hs
        have hlt := ho.genericArg_lt ht (hga ▸ ha)
        exact (changes_substituteWith hmake.supplies depth hs.orderly (hs.persists.hasContext hctx)
          (hs.persists.has _ (hw.genericArgOf ht (hga ▸ ha))) (by omega)).weaken
            fun _ _ _ hv => hv.1
      have hends : Terminates (fun w => args.mapM (w.substitute under ctx))
          (args.mapM (substituteWith make ctx depth)) r := by
        refine (Yields.mapM (P := fun s => Step [] r s ∧ s.nesting = r.nesting) ⟨.refl ho, rfl⟩
          fun a ha s hs => ?_).ends
        have hlt := ho.genericArg_lt ht (hga ▸ ha)
        refine (Yields.of_ends (ih hs.1.orderly (hs.2.trans hn) (hs.1.persists.hasContext hctx)
          (hs.1.persists.has _ (hw.genericArgOf ht (hga ▸ ha))) (by omega)) (hone a ha s hs.1)
          (balanced_substituteWith hmake.balanced _ _ _)).weaken fun _ _ hv => ?_
        exact ⟨hs.1.trans hv.1.1, hv.1.2.trans hs.2⟩
      have hall : Changes [] (args.mapM (substituteWith make ctx depth)) r fun bs s =>
          List.Forall₂ (fun _ v => s.Has (.type v)) args bs :=
        changes_mapM (R := fun _ v s => s.Has (.type v)) (fun _ _ _ _ hs hv => hs.persists.has _ hv)
          ho hone
      refine .bind (.of_ends hends hall (.mapM
        (fun a => balanced_substituteWith hmake.balanced _ _ a) _)) fun bs s hs => ?_
      exact hmake.ends hs.1.1.orderly (hs.1.2.trans hn) (hs.1.1.persists.has _ hd)
        (forall_of_forall₂ hs.2 fun _ _ hv => hv)
    cases hf : (r.type t).form with
    | parameter index owner => exact .same _
    | constructed shape element =>
      have he : (r.type t).form.element? = some element := by rw [hf]; rfl
      have hlt := ho.element_lt ht he
      have hhas := hw.element ht he
      exact .bind (.of_ends (ih ho hn hctx hhas (by omega))
        (changes_substituteWith hmake.supplies depth ho hctx hhas (by omega))
        (balanced_substituteWith hmake.balanced _ _ _)) fun _ _ _ => .same _
    | defined kind params => exact hargs (by rw [hf]; rfl) ht
    | instantiated kind definition args =>
      exact hargs (by rw [hf]; rfl) (hw.definition ht (by rw [hf]; rfl))

end

/-! ## members -/

theorem yields_substituteParams {subs : Calls → TypeId → Action TypeId}
    {sub : TypeId → Action TypeId} {P : Registry → Prop} {params : List Param} (hP : P r)
    (hsub : ∀ p ∈ params, ∀ s, P s → Yields (fun w => subs w p.type) (sub p.type) s fun _ => P) :
    Yields (fun w => substituteParams (subs w) params) (substituteParams sub params) r
      fun _ => P := by
  refine Yields.mapM
    (f := fun w (p : Param) => do let type ← subs w p.type; return { p with type }) hP
    fun p hp s hs => ?_
  have hone := hsub p hp s hs
  refine ⟨.bind hone fun _ _ _ => .same _, fun hr => ?_⟩
  obtain ⟨v, s', hv, hpure⟩ := bind_eq_ok_iff.mp hr
  cases hpure
  exact hone.ok hv

/-- `sub` is what becomes of the substitution that gives an instance its members, while `under`
instances get theirs. -/
structure Feeds (under : Nat) (args : List TypeId) (subs : Calls → TypeId → Action TypeId)
    (sub : TypeId → Action TypeId) : Prop where
  changes : ∀ {s : Registry} {u : TypeId}, s.Orderly → (∀ a ∈ args, s.Has (.type a)) →
    s.Has (.type u) → Changes [] (sub u) s fun v s' => s'.Has (.type v) ∧ s'.Becomes args u v
  balanced : ∀ u, Balanced (sub u)
  ends : ∀ {s : Registry} {u : TypeId}, s.Orderly → s.nesting = under →
    (∀ a ∈ args, s.Has (.type a)) → s.Has (.type u) → Terminates (fun w => subs w u) (sub u) s

theorem Meets.feeds {under : Nat} {make : TypeId → List TypeId → Action TypeId}
    (hmake : Meets under make) (args : List TypeId) :
    Feeds under args (fun w => w.substitute under ⟨args, []⟩)
      fun u => substituteWith make ⟨args, []⟩ (u.index + 1) u where
  changes {s u} ho has hu := by
    refine (changes_substituteWith hmake.supplies (u.index + 1) ho (hasContext_args has) hu
      (Nat.lt_succ_self _)).weaken fun v s' hs' hv => ⟨hv.1, ?_⟩
    exact hv.2.lasting hs'.orderly (hs'.persists.hasContext (hasContext_args has))
      (hs'.persists.has _ hu)
  balanced u := balanced_substituteWith hmake.balanced _ _ u
  ends ho hn has hu :=
    terminates_substituteWith hmake _ ho hn (hasContext_args has) hu (Nat.lt_succ_self _)

/-- While the members of `inst` are being made, `s` has become `s'`, in which it has those given. -/
structure Awaits (s : Registry) (inst : TypeId) (args : List TypeId) (base : Option TypeId)
    (interfaces : List TypeId) (fields : List FieldId) (methods : List MethodId) (s' : Registry) :
    Prop where
  step : Step [inst] s s'
  nesting : s'.nesting = s.nesting
  filling : s'.Filling inst args base interfaces fields methods

section
variable {under : Nat} {args : List TypeId} {subs : Calls → TypeId → Action TypeId}
  {sub : TypeId → Action TypeId} (hsub : Feeds under args subs sub)
  {s₀ : Registry} {inst : TypeId} {base : Option TypeId} {interfaces : List TypeId}
  {fields : List FieldId} {methods : List MethodId} (hn : s₀.nesting = under)
  (h : s₀.Awaits inst args base interfaces fields methods s)

section
include h

/-- one more of its members is made -/
theorem Awaits.yields {base' : Option TypeId} {interfaces' : List TypeId} {fields' : List FieldId}
    {methods' : List MethodId} {act : Calls → Action Unit} {result : Action Unit}
    (hends : Terminates act result s) (hc : Changes [inst] result s fun _ s' =>
      s'.Filling inst args base' interfaces' fields' methods') (hb : Balanced result) :
    Yields act result s fun _ => s₀.Awaits inst args base' interfaces' fields' methods' :=
  (Yields.of_ends hends hc hb).weaken fun _ _ hs =>
    ⟨h.step.trans hs.1.1, hs.1.2.trans h.nesting, hs.2⟩

/-- an operation that makes no calls and changes no members -/
theorem Awaits.keep {result : Action Unit} {Q : Unit → Registry → Prop}
    (hc : Changes [] result s Q) (hb : Balanced result) :
    Yields (fun _ => result) result s fun _ s' => Step [] s s' ∧
      s₀.Awaits inst args base interfaces fields methods s' :=
  (Yields.same hc hb).weaken fun _ _ hs => ⟨hs.1.1, h.step.trans (hs.1.1.mono (List.nil_subset _)),
    hs.1.2.trans h.nesting, h.filling.step hs.1.1⟩

end

include hsub hn h

/-- a type of a member is walked while the instance waits -/
theorem terminates_sub {u : TypeId} (hu : s.Has (.type u)) :
    Terminates (fun w => subs w u) (sub u) s :=
  hsub.ends h.filling.orderly (h.nesting.trans hn) h.filling.hasArgs hu

theorem yields_sub {u : TypeId} (hu : s.Has (.type u)) :
    Yields (fun w => subs w u) (sub u) s fun _ s' => Step [] s s' ∧
      s₀.Awaits inst args base interfaces fields methods s' := by
  refine (Yields.of_ends (terminates_sub hsub hn h hu) (changes_sub h.filling hsub.changes hu)
    (hsub.balanced u)).weaken ?_
  rintro v s' ⟨⟨hs, hnesting⟩, ⟨hfill, -⟩, hs'⟩
  exact ⟨hs', h.step.trans hs, hnesting.trans h.nesting, hfill⟩

theorem yields_instantiateBase {b : TypeId} (hb : s.Has (.type b))
    (hnone : (s.type inst).base = none) :
    Yields (fun w => instantiateBase (subs w) inst b) (instantiateBase sub inst b) s
      fun _ => s₀.Awaits inst args (some b) interfaces fields methods :=
  h.yields (.bind (yields_sub hsub hn h hb) fun _ _ _ => .same _)
    (changes_instantiateBase h.filling hsub.changes hb hnone)
    ((hsub.balanced b).bind fun v => (balanced_setBase inst v).bind fun _ => .pure ())

theorem yields_instantiateInterface {i : TypeId} (hi : s.Has (.type i)) :
    Yields (fun w => instantiateInterface (subs w) inst i) (instantiateInterface sub inst i) s
      fun _ => s₀.Awaits inst args base (interfaces ++ [i]) fields methods :=
  h.yields (.bind (yields_sub hsub hn h hi) fun _ _ _ => .same _)
    (changes_instantiateInterface h.filling hsub.changes hi)
    ((hsub.balanced i).bind fun v => balanced_addInterface inst v)

theorem yields_instantiateField {f : FieldId} (hf : s.Has (.field f)) :
    Yields (fun w => instantiateField (subs w) inst f) (instantiateField sub inst f) s
      fun _ => s₀.Awaits inst args base interfaces (fields ++ [f]) methods :=
  h.yields (.get (.bind (yields_sub hsub hn h (h.filling.orderly.wellFormed.typeOf hf))
      fun _ _ _ => .same _))
    (changes_instantiateField h.filling hsub.changes hf)
    (balanced_instantiateField hsub.balanced inst f)

theorem yields_instantiateMember {kind : TypeKind} {definition : TypeId}
    (hform : (s.type inst).form = .instantiated kind definition args)
    {m : MethodId} (hm : m ∈ (s.type definition).methods)
    (hfree : (s.type definition).methods.Nodup → m ∉ methods) :
    Yields (fun w => instantiateMember (subs w) inst m) (instantiateMember sub inst m) s
      fun _ => s₀.Awaits inst args base interfaces fields (methods ++ [m]) := by
  have hw := h.filling.orderly.wellFormed
  have hmhas : s.Has (.method m) :=
    hw.methodOf (hw.definition h.filling.has (by rw [hform]; rfl)) hm
  refine h.yields (.get (.bind (yields_sub hsub hn h (hw.returnType hmhas)) fun v s₁ hs₁ => ?_))
    (changes_instantiateMember h.filling hsub.changes hform hm hfree)
    (balanced_instantiateMember hsub.balanced inst m)
  refine .bind (yields_substituteParams (P := fun s' => s.Persists s' ∧
      s₀.Awaits inst args base interfaces fields methods s') ⟨hs₁.1.persists, hs₁.2⟩
    fun p hp s₂ hs₂ => ?_) fun _ _ _ => .same _
  have hphas : s₂.Has (.type p.type) :=
    hs₂.1.has _ (hw.param hmhas (List.mem_map_of_mem hp))
  exact (yields_sub hsub hn hs₂.2 hphas).weaken fun _ _ hv => ⟨hs₂.1.trans hv.1.persists, hv.2⟩

omit h in
/-- the members of an instance are made -/
theorem terminates_populate {kind : TypeKind} {definition : TypeId}
    (h : s₀.Filling inst args none [] [] []) (hnone : (s₀.type inst).base = none)
    (hform : (s₀.type inst).form = .instantiated kind definition args)
    (hd : s₀.Has (.type definition)) (hne : definition ≠ inst) :
    Terminates (fun w => populate (subs w) definition inst) (populate sub definition inst) s₀ := by
  have hw := h.orderly.wellFormed
  have hold : ∀ x ∈ (s₀.type definition).items, s₀.Has x := fun x hx => hw.of_type hd hx
  have h₀ : s₀.Awaits inst args none [] [] [] s₀ := ⟨.refl h.orderly, rfl, h⟩
  refine .get ?_
  -- relations that an instance may take over as they are
  have henclosing := h₀.keep (changes_nestWithin h.orderly inst (s₀.type definition).enclosing
    fun outer houter => hold _ (by simp [TypeDecl.items, houter]))
    (.optionForM (balanced_nestIn inst) _)
  refine .bind henclosing fun _ s₁ hs₁ => ?_
  obtain ⟨hs₁, h₁⟩ := hs₁
  have hnone₁ : (s₁.type inst).base = none :=
    (congrArg (·.1) (hs₁.members inst h.has List.not_mem_nil)).trans hnone
  have hbase := Yields.optionForM (P := fun b => s₀.Awaits inst args b [] [] [])
    (o := (s₀.type definition).base) h₁ fun b hb => yields_instantiateBase hsub hn h₁
      (h₁.step.persists.has _ (hw.base hd hb)) hnone₁
  refine .bind hbase fun _ s₂ h₂ => ?_
  refine .bind (h₂.keep (changes_packWithin h₂.filling.orderly inst _)
    (.optionForM (balanced_setPacking inst) _)) fun _ s₃ hs₃ => ?_
  obtain ⟨-, h₃⟩ := hs₃
  refine .bind (h₃.keep (changes_sizeWithin h₃.filling.orderly inst _)
    (.optionForM (balanced_setClassSize inst) _)) fun _ s₄ hs₄ => ?_
  obtain ⟨-, h₄⟩ := hs₄
  refine .bind (h₄.keep (changes_annotateAll h₄.filling.orderly inst _ fun mark hmark x hx =>
    h₄.step.persists.has _ (hold x ?_)) (.forM (balanced_annotate inst) _)) fun _ s₅ hs₅ => ?_
  · simp only [TypeDecl.items, List.mem_append, List.mem_flatMap]
    exact .inr ⟨mark, hmark, hx⟩
  obtain ⟨-, h₅⟩ := hs₅
  -- the members
  refine .bind (Yields.forM (P := fun done => s₀.Awaits inst args (s₀.type definition).base
    done [] []) h₅ fun done i rest hl s h => ?_) fun _ s₆ h₆ => ?_
  · refine yields_instantiateInterface hsub hn h (h.step.persists.has _ (hw.interface hd ?_))
    simp [hl]
  refine .bind (Yields.forM (P := fun done => s₀.Awaits inst args (s₀.type definition).base
    (s₀.type definition).interfaces done []) h₆ fun done f rest hl s h => ?_) fun _ s₇ h₇ => ?_
  · refine yields_instantiateField hsub hn h (h.step.persists.has _ (hw.fieldOf hd ?_))
    simp [hl]
  refine (Yields.forM (P := fun done => s₀.Awaits inst args (s₀.type definition).base
    (s₀.type definition).interfaces (s₀.type definition).fields done) h₇
    fun done m rest hl s h' => ?_).ends
  have hlists : (s.type definition).methods = (s₀.type definition).methods :=
    congrArg (·.2.2.2) (h'.step.members definition hd (by simpa using hne))
  refine yields_instantiateMember hsub hn h' (by rw [h'.step.persists.form h.has, hform])
    (by rw [hlists, hl]; simp) fun hnodup => ?_
  rw [hlists, hl] at hnodup
  exact fun hin => (List.nodup_append.mp hnodup).2.2 m hin m List.mem_cons_self rfl

end

/-! ## instances inside each other -/

theorem existingInstance?_none {definition : TypeId} {args : List TypeId}
    (h : existingInstance? definition args r = .ok none s) :
    s = r.useNames (definition :: args) ∧
      (r.type definition).form.genericArgs.length = args.length ∧
      (r.type definition).form.genericArgs ≠ [] ∧ (r.type definition).form.genericArgs ≠ args ∧
      r.instances.get? (r.instanceKeyOf definition args) = none := by
  rw [existingInstance?_apply] at h
  simp only at h
  split at h
  · cases h
  · rename_i harity
    simp only [Bool.or_eq_true, bne_iff_ne, ne_eq, List.isEmpty_iff, not_or, not_not] at harity
    split at h
    · cases h
    · rename_i hown
      simp only [EStateM.Result.ok.injEq] at h
      exact ⟨h.2.symm, harity.1, harity.2, hown, h.1⟩

/-- a new instance gets its members -/
theorem terminates_makeInstance {levels under : Nat}
    (hmake : Meets (under + 1) (instantiateAt levels)) {definition : TypeId} {args : List TypeId}
    (ho : r.Orderly) (hn : r.nesting = under)
    (hunder : under < maxNesting) (hd : r.Has (.type definition))
    (hdef : (r.type definition).form.isDefinition = true) (ha : ∀ a ∈ args, r.Has (.type a))
    (hud : definition ∈ r.usedNames) (hua : ∀ a ∈ args, a ∈ r.usedNames)
    (harity : (r.type definition).form.genericArgs.length = args.length)
    (hown : (r.type definition).form.genericArgs ≠ args)
    (hk : r.instances.get? (r.instanceKeyOf definition args) = none) :
    Terminates (fun w => nested do
        let inst ← addInstance definition args
        w.members under definition args inst
        return inst)
      (makeInstance definition args (levels + 1)) r := by
  let r₁ : Registry := { r with nesting := r.nesting + 1 }
  have hs₁ : Step [] r r₁ := .with_nesting ho _
  have hadd := changes_addInstance (r := r₁) hs₁.orderly hd hdef ha hud hua harity hown hk
  refine .nested (.bind (.same hadd (balanced_addInstance definition args)) ?_)
  rintro inst s ⟨⟨hs, hnesting⟩, rfl, hfill, hnone, ⟨kind, hform⟩, -⟩
  have hne : definition ≠ ⟨r.types.size⟩ := by
    rintro rfl
    exact absurd hd (Nat.lt_irrefl _)
  have hn' : s.nesting = under + 1 := by
    rw [hnesting, ← hn]
  simp only [Calls.members, if_pos hunder]
  exact .bind ⟨terminates_populate (hmake.feeds args) hn' hfill hnone hform
    (hs.persists.has _ hd) hne, fun _ => trivial⟩ fun _ _ _ => .same _

/-- each instance whose members are being made leaves room for one less -/
theorem meets_instantiateAt (levels : Nat) {under : Nat} (h : under + levels = maxNesting) :
    Meets under (instantiateAt levels) := by
  induction levels generalizing under with
  | zero =>
    refine ⟨supplies_instantiateAt 0, balanced_instantiateAt 0, fun {r t args} ho hn ht ha => ?_⟩
    refine .unfold (.get (.bind (Q := fun _ s => s.nesting = r.nesting) ⟨.same _, fun hr =>
      (balanced_existingInstance? _ args).ok hr⟩ fun found s hs => ?_))
    cases found with
    | some inst => exact .same _
    | none =>
      have hfull : maxNesting ≤ s.nesting := by omega
      refine .get (j := fun _ => throw (.recursionLimit maxNesting)) ?_
      simp only [if_pos hfull]
      exact .same _
  | succ levels ih =>
    refine ⟨supplies_instantiateAt _, balanced_instantiateAt _, fun {r t args} ho hn ht ha => ?_⟩
    have hw := ho.wellFormed
    have hd := definition_has hw ht
    refine .unfold (.get (.bind (Q := fun found s =>
      existingInstance? (r.definitionOf t) args r = .ok found s) ⟨.same _, id⟩
      fun found s hs => ?_))
    cases found with
    | some inst => exact .same _
    | none =>
      obtain ⟨rfl, hlength, hparams, hown, hk⟩ := existingInstance?_none hs
      have hroom : ¬ maxNesting ≤ (r.useNames (r.definitionOf t :: args)).nesting := by
        show ¬ maxNesting ≤ r.nesting
        omega
      refine Terminates.get (j := fun _ => makeInstance (r.definitionOf t) args (levels + 1)) ?_
      simp only [if_neg hroom]
      have hs' : Step [] r (r.useNames (r.definitionOf t :: args)) := .useNames ho _
      exact terminates_makeInstance (ih (by omega)) hs'.orderly hn (by omega) hd
        (ho.isDefinition_definitionOf ht hparams) ha
        (mem_usedNames_useNames r _ List.mem_cons_self)
        (fun a h => mem_usedNames_useNames r _ (List.mem_cons_of_mem _ h)) hlength hown hk

/-! ## calls from outside -/

theorem Terminates.congr {act : Calls → Action α} {result result' : Action α}
    (h : Terminates act result r) (heq : result' r = result r) : Terminates act result' r := by
  obtain ⟨n, hn⟩ := h
  exact ⟨n, fun steps hsteps w => (hn steps hsteps w).trans heq.symm⟩

/-- with no instantiation under way there is room for all of them -/
theorem meets_instantiate : Meets 0 instantiate where
  supplies := supplies_instantiate
  balanced := balanced_instantiate
  ends {r t args} ho hn ht ha := by
    refine ((meets_instantiateAt maxNesting (Nat.zero_add _)).ends ho hn ht ha).congr ?_
    show instantiateAt (maxNesting - r.nesting) t args r = _
    rw [hn, Nat.sub_zero]

theorem terminates_substitute {ctx : GenericContext} {t : TypeId} (ho : r.Orderly)
    (hn : r.nesting = 0) (hctx : r.HasContext ctx) (ht : r.Has (.type t)) :
    Terminates (fun w => w.substitute 0 ctx t) (substitute ctx t) r :=
  terminates_substituteWith meets_instantiate _ ho hn hctx ht (Nat.lt_succ_self _)

theorem terminates_instantiateMethod {m : MethodId} {args : List TypeId} (ho : r.Orderly)
    (hn : r.nesting = 0) (hm : r.Has (.method m)) (ha : ∀ a ∈ args, r.Has (.type a)) :
    Terminates (fun w => w.instantiateMethod m args) (instantiateMethod m args) r := by
  have hw := ho.wellFormed
  have hd := hw.methodDefinitionOf hm
  have hnoted : ∀ {s : Registry}, Step [] r s ∧ s.nesting = 0 → ∀ (uses : Registry → List TypeId),
      Yields (fun _ => (modify fun s => s.useNames (uses s) : Action Unit))
        (modify fun s => s.useNames (uses s)) s fun _ s' => Step [] r s' ∧ s'.nesting = 0 := by
    refine fun hs uses => ⟨.same _, fun hr => ?_⟩
    cases hr
    exact ⟨hs.1.trans (.useNames hs.1.orderly _), hs.2⟩
  refine .get (.bind (hnoted ⟨.refl ho, hn⟩ _) fun _ s₁ hs₁ => ?_)
  refine .ite ⟨0, fun _ _ _ => rfl⟩ (fun _ => .same _) fun _ => ?_
  refine .bind (hnoted hs₁ _) fun _ s₂ hs₂ => ?_
  dsimp only
  cases r.methodInstances.get?
    (r.instanceKey (r.methodKey ((r.method m).genericDefinition?.getD m)) args) with
  | some inst => exact .same _
  | none =>
  -- the signature is substituted, with room for all instances
  let ctx : GenericContext := ⟨r.declaringArgs (r.methodDefinitionOf m), args⟩
  have hctx : r.HasContext ctx := hw.instanceContext hd ha
  have hsub : ∀ {u : TypeId} {s : Registry}, r.Has (.type u) → Step [] r s ∧ s.nesting = 0 →
      Yields (fun w => w.substitute 0 ctx u) (substitute ctx u) s
        fun _ s' => Step [] r s' ∧ s'.nesting = 0 := by
    intro u s hu hs
    have hctxs := hs.1.persists.hasContext hctx
    have hus := hs.1.persists.has _ hu
    exact (Yields.of_ends (terminates_substitute hs.1.orderly hs.2 hctxs hus)
      (changes_substitute hs.1.orderly hctxs hus) (balanced_substitute ctx u)).weaken
        fun _ _ hv => ⟨hs.1.trans hv.1.1, hv.1.2.trans hs.2⟩
  refine .bind (hsub (hw.returnType hd) hs₂) fun returnType s₃ hs₃ => ?_
  refine .bind (yields_substituteParams (P := fun s => Step [] r s ∧ s.nesting = 0) hs₃
    fun p hp s hs => ?_) fun _ _ _ => .same _
  exact hsub (hw.param hd (List.mem_map_of_mem hp)) hs

/-- Run in `r`, `act` ends as `result` does, with no instantiation left under way. -/
structure Finishes (act : Calls → Action α) (result : Action α) (r : Registry) : Prop where
  ends : Terminates act result r
  ok : ∀ {a s}, result r = .ok a s → s.nesting = 0
  error : ∀ {e s}, result r = .error e s → s.nesting = 0

theorem Terminates.finishes {act : Calls → Action α} {result : Action α}
    (h : Terminates act result r) (hb : Balanced result) (hn : r.nesting = 0) :
    Finishes act result r :=
  ⟨h, fun hr => (hb.ok hr).trans hn, fun hr => (hb.error hr).trans hn⟩

/-- **Instantiation comes to an end**, in every program that edits lead to and whatever its types
refer to.  No more than `maxNesting` instances get their members inside each other, since nothing
depends on `Calls.tooDeep`, and no call leaves one under way. -/
theorem instantiation_terminates (hr : Built r) :
    r.nesting = 0 ∧
    (∀ t args, r.Has (.type t) → (∀ a ∈ args, r.Has (.type a)) →
      Finishes (fun w => w.instantiate 0 t args) (instantiate t args) r) ∧
    (∀ ctx t, r.HasContext ctx → r.Has (.type t) →
      Finishes (fun w => w.substitute 0 ctx t) (substitute ctx t) r) ∧
    ∀ m args, r.Has (.method m) → (∀ a ∈ args, r.Has (.type a)) →
      Finishes (fun w => w.instantiateMethod m args) (instantiateMethod m args) r := by
  have ho := hr.orderly
  have hn := hr.nesting
  refine ⟨hn, fun t args ht ha => ?_, fun ctx t hctx ht => ?_, fun m args hm ha => ?_⟩
  · exact (meets_instantiate.ends ho hn ht ha).finishes (balanced_instantiate t args) hn
  · exact (terminates_substitute ho hn hctx ht).finishes (balanced_substitute ctx t) hn
  · exact (terminates_instantiateMethod ho hn hm ha).finishes (balanced_instantiateMethod m args) hn

/-- A generic class `C` of a parameter `T` with a field of type `C<C<T>>`, so that each instance
needs a larger one, and with a generic method. -/
def expansiveEdits : List Edit :=
  [.addModule "App",
    .declareType { module := ⟨1⟩, namespaceName := "App", name := "C", generic := ["T"] },
    .instantiate ⟨21⟩ [⟨21⟩],
    .declareField ⟨1⟩ ⟨21⟩ "next" ⟨22⟩ FieldFlags.isPublic [],
    .addParameter ⟨1⟩ "U" 0 .method,
    .declareMethod
      { module := ⟨1⟩, name := "Get", declaring := some ⟨21⟩, returnType := some ⟨22⟩,
        genericParams := [⟨23⟩] }]

theorem instantiation_terminates_expansive : Registry.FitAll core expansiveEdits ∧
    Finishes (fun w => w.instantiate 0 ⟨21⟩ [⟨12⟩]) (instantiate ⟨21⟩ [⟨12⟩])
      (core.applyAll expansiveEdits) ∧
    Finishes (fun w => w.substitute 0 ⟨[⟨12⟩], []⟩ ⟨22⟩) (substitute ⟨[⟨12⟩], []⟩ ⟨22⟩)
      (core.applyAll expansiveEdits) ∧
    Finishes (fun w => w.instantiateMethod ⟨0⟩ [⟨12⟩]) (instantiateMethod ⟨0⟩ [⟨12⟩])
      (core.applyAll expansiveEdits) := by
  obtain ⟨hfits, htypes, hm⟩ : FitAll core expansiveEdits ∧
      (∀ t ∈ [(⟨12⟩ : TypeId), ⟨21⟩, ⟨22⟩], (core.applyAll expansiveEdits).Has (.type t)) ∧
      (core.applyAll expansiveEdits).Has (.method ⟨0⟩) := by
    decide +kernel
  have hint : ∀ a ∈ [(⟨12⟩ : TypeId)], (core.applyAll expansiveEdits).Has (.type a) :=
    fun a ha => htypes a (by simp [List.mem_singleton.mp ha])
  obtain ⟨-, hinstantiate, hsubstitute, hmethod⟩ :=
    instantiation_terminates (Built.core.applyAll hfits)
  exact ⟨hfits, hinstantiate _ _ (htypes _ (by simp)) hint,
    hsubstitute _ _ (hasContext_args hint) (htypes _ (by simp)), hmethod _ _ hm hint⟩

end Registry

end ProgramScan

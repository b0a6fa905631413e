import ProgramScan.Proofs.Registry.Growth

/-!
# Actions that only add

Most actions on a program make what they need and find it again when they run once more:

* `Registry.Settled act a r`   from `r` on, `act` answers `a` and adds nothing;
* `Registry.Builds act r Q`    run in `r`, `act` only adds to the program, keeps it well-formed, and
                               is settled on its answer afterwards, which satisfies `Q`.

`Builds` has a rule for each way to put actions together.  The rule for `get` asks that what follows
does not depend on the state beyond what growth preserves: this is where the questions that have
the same answer later come in.
-/

namespace ProgramScan

namespace Registry

variable {α β : Type}

/-- from `r` on, `act` answers `a` and adds nothing -/
def Settled (act : Action α) (a : α) (r : Registry) : Prop :=
  ∀ r', r.Grows r' → r'.WellFormed → ∃ r'', act r' = .ok a r'' ∧ r''.forget = r'.forget

/-- `act` only adds to the well-formed program `r`, and is settled on what it answers. -/
structure Builds (act : Action α) (r : Registry) (Q : α → Registry → Prop) : Prop where
  ok : ∀ {a r'}, act r = .ok a r' → r.Grows r' ∧ r'.WellFormed ∧ Settled act a r' ∧ Q a r'
  error : ∀ {e r'}, act r = .error e r' → r.Grows r' ∧ r'.WellFormed

theorem bind_apply {σ : Type} (x : EStateM Error σ α) (k : α → EStateM Error σ β) (s : σ) :
    (x >>= k) s =
      match x s with
      | .ok a s' => k a s'
      | .error e s' => .error e s' := by
  show EStateM.bind x k s = _
  rw [EStateM.bind]
  cases x s <;> rfl

theorem get_bind_apply {σ : Type} (k : σ → EStateM Error σ α) (s : σ) :
    (get >>= k) s = k s s := rfl

theorem modify_bind_apply {σ : Type} (f : σ → σ) (k : Unit → EStateM Error σ α) (s : σ) :
    ((modify f : EStateM Error σ Unit) >>= k) s = k () (f s) := rfl

theorem modifyGet_apply {σ : Type} (f : σ → α × σ) (s : σ) :
    (modifyGet f : EStateM Error σ α) s = .ok (f s).1 (f s).2 := rfl

theorem bind_eq_ok_iff {σ : Type} {x : EStateM Error σ α} {k : α → EStateM Error σ β} {s s' : σ}
    {b : β} : (x >>= k) s = .ok b s' ↔ ∃ a s₁, x s = .ok a s₁ ∧ k a s₁ = .ok b s' := by
  rw [bind_apply]
  cases x s with
  | ok a s₁ =>
    constructor
    · intro h
      exact ⟨a, s₁, rfl, h⟩
    · rintro ⟨_, _, h, hk⟩
      cases h
      exact hk
  | error e s₁ =>
    constructor
    · intro h
      cases h
    · rintro ⟨_, _, h, -⟩
      cases h

theorem bind_eq_error_iff {σ : Type} {x : EStateM Error σ α} {k : α → EStateM Error σ β} {s s' : σ}
    {e : Error} : (x >>= k) s = .error e s' ↔
      x s = .error e s' ∨ ∃ a s₁, x s = .ok a s₁ ∧ k a s₁ = .error e s' := by
  rw [bind_apply]
  cases x s with
  | ok a s₁ =>
    constructor
    · intro h
      exact .inr ⟨a, s₁, rfl, h⟩
    · rintro (h | ⟨_, _, h, hk⟩)
      · cases h
      · cases h
        exact hk
  | error e₁ s₁ =>
    constructor
    · intro h
      cases h
      exact .inl rfl
    · rintro (h | ⟨_, _, h, -⟩)
      · cases h
        rfl
      · cases h

theorem lift_apply (x : StateM Registry α) (r : Registry) :
    (liftM x : Action α) r = .ok (x.run r).1 (x.run r).2 := rfl

theorem lift_bind (x : StateM Registry α) (k : α → StateM Registry β) :
    (liftM (x >>= k) : Action β) = (liftM x : Action α) >>= fun a => liftM (k a) := rfl

theorem lift_pure (a : α) : (liftM (pure a : StateM Registry α) : Action α) = pure a := rfl

theorem lift_get : (liftM (get : StateM Registry Registry) : Action Registry) = get := rfl

theorem lift_modify (f : Registry → Registry) :
    (liftM (modify f : StateM Registry Unit) : Action Unit) = modify f := rfl

theorem lift_mapM (f : α → StateM Registry β) (l : List α) :
    (liftM (l.mapM f) : Action (List β)) = l.mapM fun a => (liftM (f a) : Action β) := by
  induction l with
  | nil => rfl
  | cons a l ih =>
    rw [List.mapM_cons, List.mapM_cons, lift_bind]
    congr 1
    funext b
    rw [lift_bind, ih]
    rfl

/-! ## settled answers -/

theorem Settled.mono {act : Action α} {a : α} {r r' : Registry} (h : Settled act a r)
    (hg : r.Grows r') : Settled act a r' :=
  fun r'' hg' hw => h r'' (hg.trans hg') hw

theorem Settled.run {act : Action α} {a : α} {r : Registry} (h : Settled act a r)
    (hw : r.WellFormed) : ∃ r', act r = .ok a r' ∧ r'.forget = r.forget :=
  h r (Grows.refl r) hw

theorem Settled.eq {act : Action α} {a b : α} {r r' : Registry} (h : Settled act a r)
    (hw : r.WellFormed) (hb : act r = .ok b r') : b = a ∧ r'.forget = r.forget := by
  obtain ⟨r'', hr, hf⟩ := h.run hw
  rw [hr] at hb
  cases hb
  exact ⟨rfl, hf⟩

theorem Settled.bind {x : Action α} {k : α → Action β} {a : α} {b : β} {r : Registry}
    (hx : Settled x a r) (hk : Settled (k a) b r) : Settled (x >>= k) b r := by
  intro r' hg hw
  obtain ⟨r₁, hr₁, hf₁⟩ := hx r' hg hw
  obtain ⟨r₂, hr₂, hf₂⟩ := hk r₁ (hg.trans (.of_forget hf₁.symm)) (hw.of_forget hf₁.symm)
  refine ⟨r₂, ?_, hf₂.trans hf₁⟩
  rw [bind_apply, hr₁]
  exact hr₂

theorem settled_pure (a : α) (r : Registry) : Settled (pure a) a r :=
  fun r' _ _ => ⟨r', rfl, rfl⟩

/-- notes on names in use do not count -/
theorem Settled.of_forget {act : Action α} {a : α} {r r' : Registry} (h : Settled act a r')
    (hf : r'.forget = r.forget) : Settled act a r :=
  h.mono (.of_forget hf)

/-! ## rules -/

namespace Builds

variable {r : Registry} {Q : α → Registry → Prop} {R : β → Registry → Prop}

theorem weaken {act : Action α} {Q' : α → Registry → Prop} (h : Builds act r Q)
    (hq : ∀ a r', r.Grows r' → r'.WellFormed → Q a r' → Q' a r') : Builds act r Q' where
  ok hr := by
    obtain ⟨hg, hw, hs, h'⟩ := h.ok hr
    exact ⟨hg, hw, hs, hq _ _ hg hw h'⟩
  error := h.error

theorem of_run {act : Action α}
    (h : match act r with
      | .ok a r' => r.Grows r' ∧ r'.WellFormed ∧ Settled act a r' ∧ Q a r'
      | .error _ r' => r.Grows r' ∧ r'.WellFormed) : Builds act r Q where
  ok hr := by
    rw [hr] at h
    exact h
  error hr := by
    rw [hr] at h
    exact h

/-- the answer is settled afterwards -/
theorem settled {act : Action α} (h : Builds act r Q) :
    Builds act r fun a r' => Settled act a r' ∧ Q a r' where
  ok hr := by
    obtain ⟨hg, hw, hs, hq⟩ := h.ok hr
    exact ⟨hg, hw, hs, hs, hq⟩
  error := h.error

/-- forgets what is known of the answer -/
theorem plain {act : Action α} (h : Builds act r Q) : Builds act r fun _ _ => True :=
  h.weaken fun _ _ _ _ _ => trivial

theorem pure (hw : r.WellFormed) {a : α} (ha : Q a r) : Builds (Pure.pure a) r Q where
  ok hr := by
    cases hr
    exact ⟨.refl r, hw, settled_pure a r, ha⟩
  error hr := by cases hr

theorem throw (hw : r.WellFormed) (e : Error) : Builds (MonadExcept.throw e : Action α) r Q where
  ok hr := by cases hr
  error hr := by
    cases hr
    exact ⟨.refl r, hw⟩

theorem bind {x : Action α} {k : α → Action β} (hx : Builds x r Q)
    (hk : ∀ a r', r.Grows r' → r'.WellFormed → Q a r' → Builds (k a) r' R) :
    Builds (x >>= k) r R where
  ok {b r'} hr := by
    rw [bind_apply] at hr
    cases hx' : x r with
    | error e r₁ =>
      rw [hx'] at hr
      cases hr
    | ok a r₁ =>
      rw [hx'] at hr
      obtain ⟨hg, hw, hs, hq⟩ := hx.ok hx'
      obtain ⟨hg', hw', hs', hq'⟩ := (hk a r₁ hg hw hq).ok hr
      exact ⟨hg.trans hg', hw', (hs.mono hg').bind hs', hq'⟩
  error {e r'} hr := by
    rw [bind_apply] at hr
    cases hx' : x r with
    | error e₁ r₁ =>
      rw [hx'] at hr
      cases hr
      exact hx.error hx'
    | ok a r₁ =>
      rw [hx'] at hr
      obtain ⟨hg, hw, -, hq⟩ := hx.ok hx'
      obtain ⟨hg', hw'⟩ := (hk a r₁ hg hw hq).error hr
      exact ⟨hg.trans hg', hw'⟩

/-- What follows `get` must read nothing that growth can change. -/
theorem get {k : Registry → Action α} (hk : Builds (k r) r Q)
    (hs : ∀ r', r.Grows r' → r'.WellFormed → k r' = k r) : Builds (MonadState.get >>= k) r Q where
  ok {a r'} hr := by
    obtain ⟨hg, hw, hset, hq⟩ := hk.ok hr
    refine ⟨hg, hw, ?_, hq⟩
    intro r'' hg' hw'
    show ∃ r₁, k r'' r'' = .ok a r₁ ∧ r₁.forget = r''.forget
    rw [hs r'' (hg.trans hg') hw']
    exact hset r'' hg' hw'
  error hr := hk.error hr

theorem note (hw : r.WellFormed) (uses : Registry → List TypeId) {Q : Unit → Registry → Prop}
    (hq : Q () (r.useNames (uses r))) :
    Builds (modify fun s => s.useNames (uses s) : Action Unit) r Q where
  ok hr := by
    cases hr
    exact ⟨.useNames r _, hw.useNames _, fun r' _ _ => ⟨_, rfl, forget_useNames r' _⟩, hq⟩
  error hr := by cases hr

theorem noting (hw : r.WellFormed) {uses : Registry → List TypeId} {k : Unit → Action α}
    (hk : ∀ r', r'.forget = r.forget → r'.WellFormed → Builds (k ()) r' Q) :
    Builds ((modify fun s => s.useNames (uses s) : Action Unit) >>= k) r Q :=
  bind (Q := fun _ r' => r'.forget = r.forget) (note hw uses (forget_useNames r _))
    fun _ r' _ hw' hf => hk r' hf hw'

theorem ofExcept (hw : r.WellFormed) {x : Except Error α} (hq : ∀ a, x = .ok a → Q a r) :
    Builds (MonadExcept.ofExcept x : Action α) r Q := by
  cases x with
  | ok a => exact pure hw (hq a rfl)
  | error e => exact throw hw e

/-- Actions one after the other, with a condition `P` on the state that each of them keeps. -/
theorem mapM {f : α → Action β} {P : Registry → Prop}
    (hR : ∀ b r r', r.Grows r' → R b r → R b r') {l : List α} (hw : r.WellFormed) (hP : P r)
    (hf : ∀ a ∈ l, ∀ r', r.Grows r' → r'.WellFormed → P r' →
      Builds (f a) r' fun b r'' => R b r'' ∧ P r'') :
    Builds (l.mapM f) r fun bs r' => (∀ b ∈ bs, R b r') ∧ P r' := by
  induction l generalizing r with
  | nil => exact pure hw ⟨by simp, hP⟩
  | cons a l ih =>
    rw [List.mapM_cons]
    refine bind (hf a List.mem_cons_self r (.refl r) hw hP) fun b r₁ hg₁ hw₁ hb => ?_
    have hl : ∀ a ∈ l, ∀ r', r₁.Grows r' → r'.WellFormed → P r' →
        Builds (f a) r' fun b r'' => R b r'' ∧ P r'' :=
      fun c hc r' hg hw' hp => hf c (List.mem_cons_of_mem _ hc) r' (hg₁.trans hg) hw' hp
    refine bind (ih hw₁ hb.2 hl) fun bs r₂ hg₂ hw₂ hbs => ?_
    refine pure hw₂ ⟨?_, hbs.2⟩
    intro c hc
    rcases List.mem_cons.mp hc with rfl | hc
    · exact hR c r₁ r₂ hg₂ hb.1
    · exact hbs.1 c hc

end Builds

end Registry

end ProgramScan

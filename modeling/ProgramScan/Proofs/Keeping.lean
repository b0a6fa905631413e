import ProgramScan.Proofs.Registry.Settled

/-!
# What operations keep

`Keeps I act Q` says that an operation keeps an invariant `I` of its state, whether it succeeds or
fails, and that its answer satisfies `Q` if it succeeds.

There is a rule for each way to put operations together.  What follows `get` may rest on the invariant
of the state that was read.
-/

namespace ProgramScan

variable {σ α β : Type}

/-- The operation keeps `I`, also if it fails, and its answer satisfies `Q`. -/
structure Keeps (I : σ → Prop) (act : EStateM Error σ α) (Q : α → Prop) : Prop where
  ok : ∀ {s a s'}, I s → act s = .ok a s' → I s' ∧ Q a
  error : ∀ {s e s'}, I s → act s = .error e s' → I s'

namespace Keeps

variable {I : σ → Prop} {Q : α → Prop} {R : β → Prop}

theorem weaken {act : EStateM Error σ α} {Q' : α → Prop} (h : Keeps I act Q)
    (hq : ∀ a, Q a → Q' a) : Keeps I act Q' where
  ok hs hr := (h.ok hs hr).imp id (hq _)
  error := h.error

/-- forgets what is known of the answer -/
theorem plain {act : EStateM Error σ α} (h : Keeps I act Q) : Keeps I act fun _ => True :=
  h.weaken fun _ _ => trivial

theorem pure {a : α} (ha : Q a) : Keeps I (Pure.pure a : EStateM Error σ α) Q where
  ok hs hr := by
    cases hr
    exact ⟨hs, ha⟩
  error _ hr := by cases hr

theorem throw (e : Error) : Keeps I (MonadExcept.throw e : EStateM Error σ α) Q where
  ok _ hr := by cases hr
  error hs hr := by
    cases hr
    exact hs

theorem bind {x : EStateM Error σ α} {k : α → EStateM Error σ β} (hx : Keeps I x Q)
    (hk : ∀ a, Q a → Keeps I (k a) R) : Keeps I (x >>= k) R where
  ok {s b s'} hs hr := by
    obtain ⟨a, s₁, hx', hk'⟩ := Registry.bind_eq_ok_iff.mp hr
    obtain ⟨hs₁, hq⟩ := hx.ok hs hx'
    exact (hk a hq).ok hs₁ hk'
  error {s e s'} hs hr := by
    rw [Registry.bind_apply] at hr
    cases hx' : x s with
    | error e₁ s₁ =>
      rw [hx'] at hr
      cases hr
      exact hx.error hs hx'
    | ok a s₁ =>
      rw [hx'] at hr
      obtain ⟨hs₁, hq⟩ := hx.ok hs hx'
      exact (hk a hq).error hs₁ hr

theorem get {k : σ → EStateM Error σ α} (hk : ∀ s, I s → Keeps I (k s) Q) :
    Keeps I (MonadState.get >>= k) Q where
  ok {s _ _} hs hr := (hk s hs).ok hs hr
  error {s _ _} hs hr := (hk s hs).error hs hr

theorem modifyGet {f : σ → α × σ} (hf : ∀ s, I s → I (f s).2 ∧ Q (f s).1) :
    Keeps I (modifyGet f : EStateM Error σ α) Q where
  ok hs hr := by
    cases hr
    exact hf _ hs
  error _ hr := by cases hr

theorem modify {f : σ → σ} (hf : ∀ s, I s → I (f s)) :
    Keeps I (modify f : EStateM Error σ Unit) fun _ => True where
  ok hs hr := by
    cases hr
    exact ⟨hf _ hs, trivial⟩
  error _ hr := by cases hr

theorem lift {x : StateM σ α} (hx : ∀ s, I s → I (x.run s).2 ∧ Q (x.run s).1) :
    Keeps I (liftM x : EStateM Error σ α) Q where
  ok hs hr := by
    cases hr
    exact hx _ hs
  error _ hr := by cases hr

theorem ofExcept {x : Except Error α} (hq : ∀ a, x = .ok a → Q a) :
    Keeps I (MonadExcept.ofExcept x : EStateM Error σ α) Q := by
  cases x with
  | ok a => exact pure (hq a rfl)
  | error e => exact throw e

theorem mapM {f : α → EStateM Error σ β} {l : List α} (hf : ∀ a ∈ l, Keeps I (f a) R) :
    Keeps I (l.mapM f) fun bs => ∀ b ∈ bs, R b := by
  induction l with
  | nil => exact pure (by simp)
  | cons a l ih =>
    rw [List.mapM_cons]
    refine (hf a List.mem_cons_self).bind fun b hb => ?_
    refine (ih fun c hc => hf c (List.mem_cons_of_mem _ hc)).bind fun bs hbs => pure ?_
    simpa using ⟨hb, hbs⟩

theorem forM {f : α → EStateM Error σ Unit} {l : List α}
    (hf : ∀ a ∈ l, Keeps I (f a) fun _ => True) : Keeps I (l.forM f) fun _ => True := by
  induction l with
  | nil => exact pure trivial
  | cons a l ih =>
    exact (hf a List.mem_cons_self).bind fun _ _ => ih fun c hc => hf c (List.mem_cons_of_mem _ hc)

theorem optionForM {f : α → EStateM Error σ Unit} {o : Option α}
    (hf : ∀ a, o = some a → Keeps I (f a) fun _ => True) : Keeps I (o.forM f) fun _ => True := by
  cases o with
  | none => exact pure trivial
  | some a => exact hf a rfl

end Keeps

end ProgramScan

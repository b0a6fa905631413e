import ProgramScan.Proofs.Registry.Building

/-!
# Substitution in constructed types

A constructed type is remembered under the key of its element and its shape, so `construct` can answer
with a type that was made for another element of the same key.  Substitution goes into the element that
the type was made for.

* `Shape.label_injective`, `constructedKey_inj`   a key gives the shape, and the key of the element;
* `Constructed.form`                              what is remembered is of the shape, over an element of
                                                  the same key;
* `Homomorphic`                                   substitution in a constructed type is construction over
                                                  the substituted element, whichever is done first;
* `substitute_construct`                          hence it commutes with `construct` exactly where the
                                                  elements keep equal keys.
-/

namespace ProgramScan

/-! ## keys of constructed types -/

theorem append_cons_inj_left {c : Char} {a b l m : List Char} (h : l ++ c :: a = m ++ c :: b)
    (hl : c ∉ l) (hm : c ∉ m) : l = m ∧ a = b := by
  induction l generalizing m with
  | nil =>
    cases m with
    | nil => exact ⟨rfl, (List.cons.inj h).2⟩
    | cons d m =>
      have hd : c = d := (List.cons.inj h).1
      exact absurd (hd ▸ List.mem_cons_self) hm
  | cons d l ih =>
    cases m with
    | nil =>
      have hd : d = c := (List.cons.inj h).1
      exact absurd (hd ▸ List.mem_cons_self) hl
    | cons d' m =>
      obtain ⟨hd, ht⟩ := List.cons.inj h
      obtain ⟨hlm, hab⟩ := ih ht (fun hc => hl (List.mem_cons_of_mem _ hc))
        fun hc => hm (List.mem_cons_of_mem _ hc)
      exact ⟨by rw [hd, hlm], hab⟩

/-- the last occurrence of a character splits a text in one way -/
theorem append_cons_inj_right {c : Char} {a b l m : List Char} (h : a ++ c :: l = b ++ c :: m)
    (hl : c ∉ l) (hm : c ∉ m) : a = b ∧ l = m := by
  have hrev : l.reverse ++ c :: a.reverse = m.reverse ++ c :: b.reverse := by
    have h' := congrArg List.reverse h
    simpa using h'
  obtain ⟨hlm, hab⟩ := append_cons_inj_left hrev (by simpa using hl) (by simpa using hm)
  exact ⟨List.reverse_inj.mp hab, List.reverse_inj.mp hlm⟩

theorem toString_nat_inj {m n : Nat} (h : toString m = toString n) : m = n := by
  have h' : (toString m).toList = (toString n).toList := congrArg String.toList h
  have hd : Nat.toDigits 10 m = Nat.toDigits 10 n := by simpa using h'
  rw [← Nat.ofDigitChars_toDigits (b := 10) (n := m) (by omega) (by omega), hd,
    Nat.ofDigitChars_toDigits (by omega) (by omega)]

namespace Shape

/-- the last character of a label -/
def mark : Shape → Char
  | .szArray => 'y'
  | .array _ => '\x7d'
  | .pointer => 'r'
  | .byRef => 'f'

theorem label_array (rank : Nat) :
    (array rank).label = "Array \x7b rank: " ++ toString rank ++ " \x7d" := rfl

theorem getLast?_label (shape : Shape) : shape.label.toList.getLast? = some shape.mark := by
  cases shape with
  | szArray => decide
  | pointer => decide
  | byRef => decide
  | array rank =>
    have hlabel : (array rank).label.toList =
        ("Array \x7b rank: ".toList ++ Nat.toDigits 10 rank ++ [' ']) ++ ['\x7d'] := by
      simp [label_array]
    rw [hlabel, List.getLast?_concat]
    rfl

theorem label_injective {shape shape' : Shape} (h : shape.label = shape'.label) :
    shape = shape' := by
  have hmark : shape.mark = shape'.mark := by
    have h' := getLast?_label shape
    rw [h, getLast?_label shape'] at h'
    exact (Option.some.inj h').symm
  cases shape <;> cases shape' <;> simp [mark] at hmark ⊢
  case array.array m n =>
    simp only [label_array, String.append_left_inj, String.append_right_inj] at h
    exact toString_nat_inj h

theorem bar_not_mem_label (shape : Shape) : '|' ∉ shape.label.toList := by
  cases shape with
  | szArray => decide
  | pointer => decide
  | byRef => decide
  | array rank =>
    have hdigit : '|' ∉ (toString rank).toList := by
      intro hmem
      have hmem' : '|' ∈ Nat.toDigits 10 rank := by simpa using hmem
      have hd := Nat.isDigit_of_mem_toDigits (by omega) (by omega) hmem'
      simp at hd
    simp [label_array] at hdigit ⊢
    exact hdigit

end Shape

namespace Registry

variable {r : Registry}

theorem constructedKey_inj {shape shape' : Shape} {e e' : TypeId}
    (h : r.constructedKey shape e = r.constructedKey shape' e') :
    shape = shape' ∧ r.typeKey e = r.typeKey e' := by
  have hlist : (r.typeKey e).toList ++ '|' :: shape.label.toList =
      (r.typeKey e').toList ++ '|' :: shape'.label.toList := by
    have h' : (r.typeKey e ++ "|" ++ shape.label).toList =
        (r.typeKey e' ++ "|" ++ shape'.label).toList := congrArg String.toList h
    simpa using h'
  obtain ⟨hkey, hlabel⟩ :=
    append_cons_inj_right hlist shape.bar_not_mem_label shape'.bar_not_mem_label
  exact ⟨Shape.label_injective (String.toList_inj.mp hlabel), String.toList_inj.mp hkey⟩

/-- instances and constructed types do not share keys -/
theorem constructedKey_ne_instanceKeyOf (shape : Shape) (e d : TypeId) (args : List TypeId) :
    r.constructedKey shape e ≠ r.instanceKeyOf d args := by
  intro h
  have hlist := congrArg (fun s : String => s.toList.getLast?) h
  have hleft : (r.constructedKey shape e).toList.getLast? = some shape.mark := by
    have hkey : (r.constructedKey shape e).toList =
        ((r.typeKey e).toList ++ ['|']) ++ shape.label.toList := by
      simp [constructedKey]
    rw [hkey, List.getLast?_append, shape.getLast?_label]
    rfl
  have hright : (r.instanceKeyOf d args).toList.getLast? = some '>' := by
    rw [instanceKeyOf, instanceKey, String.toList_append]
    exact List.getLast?_concat
  simp only [hleft, hright, Option.some.injEq] at hlist
  cases shape <;> cases hlist

/-! ## what is remembered -/

theorem constructed_of_run (ho : r.Orderly) {shape : Shape} {e t : TypeId} (he : r.Has (.type e))
    {s : Registry} (h : (construct shape e).run r = (t, s)) :
    Step [] r s ∧ s.Has (.type t) ∧ s.Constructed shape e t := by
  have hrun : (liftM (construct shape e) : Action TypeId) r = .ok t s := by rw [lift_apply, h]
  exact (changes_construct ho shape he).ok hrun

theorem Constructed.form (ho : r.Orderly) {shape : Shape} {e t : TypeId}
    (h : r.Constructed shape e t) :
    ∃ e₀, (r.type t).form = .constructed shape e₀ ∧ r.typeKey e₀ = r.typeKey e := by
  have hmemo := ho.memo _ t h.known
  unfold Registry.memoKey? at hmemo
  cases hf : (r.type t).form with
  | defined kind params => simp [hf] at hmemo
  | parameter index owner => simp [hf] at hmemo
  | instantiated kind d args =>
    simp only [hf, Option.some.injEq] at hmemo
    exact absurd hmemo.symm (constructedKey_ne_instanceKeyOf shape e d args)
  | constructed shape' e₀ =>
    simp only [hf, Option.some.injEq] at hmemo
    obtain ⟨rfl, hkey⟩ := constructedKey_inj hmemo
    exact ⟨e₀, rfl, hkey⟩

/-- the type over an element is remembered for each element of its key -/
theorem Constructed.of_form (ho : r.Orderly) {shape : Shape} {e e₀ t : TypeId}
    (h : r.Constructed shape e t) (ht : r.Has (.type t))
    (hf : (r.type t).form = .constructed shape e₀) (hkey : r.typeKey e₀ = r.typeKey e) :
    r.Constructed shape e₀ t := by
  refine ⟨(ho.placed t ht).part_used (by rw [hf]; rfl) e₀ ?_, ?_⟩
  · rw [hf]
    exact List.mem_singleton.mpr rfl
  · rw [Registry.constructedKey, hkey]
    exact h.known

/-! ## open types -/

/-- looking deeper than a type was built does not change the answer -/
theorem Orderly.isOpenWithin_eq (ho : r.Orderly) {n : Nat} {t : TypeId} (ht : r.Has (.type t))
    (hn : t.index < n) : r.isOpenWithin n t = r.isOpen t := by
  have hall : ∀ k, ∀ t, r.Has (.type t) → ∀ n m, t.index < n → t.index < m → t.index < k →
      r.isOpenWithin n t = r.isOpenWithin m t := by
    intro k
    induction k with
    | zero => intro t _ n m _ _ hk; exact absurd hk (Nat.not_lt_zero _)
    | succ k ih =>
      intro t ht n m hn hm hk
      obtain ⟨n, rfl⟩ := Nat.exists_eq_succ_of_ne_zero (Nat.ne_of_gt (Nat.zero_lt_of_lt hn))
      obtain ⟨m, rfl⟩ := Nat.exists_eq_succ_of_ne_zero (Nat.ne_of_gt (Nat.zero_lt_of_lt hm))
      have hpart : ∀ u, Item.type u ∈ (r.type t).form.items →
          r.isOpenWithin n u = r.isOpenWithin m u := by
        intro u hu
        have hlt := (ho.placed t ht).part_lt u hu
        exact ih u (ho.wellFormed.formOf ht hu) n m (by omega) (by omega) (by omega)
      simp only [Registry.isOpenWithin]
      cases hf : (r.type t).form with
      | defined kind params => rfl
      | parameter index owner => rfl
      | constructed shape element =>
        exact hpart element (by rw [hf]; exact List.mem_singleton.mpr rfl)
      | instantiated kind d args =>
        refine any_congr_mem fun a ha => hpart a ?_
        rw [hf]
        exact List.mem_map_of_mem (List.mem_cons_of_mem _ ha)
  exact hall (t.index + 1) t ht n (t.index + 1) hn (Nat.lt_succ_self _) (Nat.lt_succ_self _)

theorem Orderly.isOpen_constructed (ho : r.Orderly) {shape : Shape} {t e : TypeId}
    (ht : r.Has (.type t)) (hf : (r.type t).form = .constructed shape e) :
    r.isOpen t = r.isOpen e := by
  have he : Item.type e ∈ (r.type t).form.items := by
    rw [hf]
    exact List.mem_singleton.mpr rfl
  rw [← ho.isOpenWithin_eq (ho.wellFormed.formOf ht he) ((ho.placed t ht).part_lt e he)]
  simp only [Registry.isOpen, Registry.isOpenWithin, hf]

/-! ## substitution and construction -/

/-- Substitution in the type `t` of a shape over `e` is construction over the substituted element: what
the one gives, the other gives as well, from then on. -/
structure Homomorphic (r : Registry) (ctx : GenericContext) (shape : Shape) (t e : TypeId) : Prop where
  element : ∀ {u s}, substitute ctx t r = .ok u s →
    ∃ e', Lasting (substitute ctx e) e' s ∧ Lasting (liftM (construct shape e')) u s
  type : ∀ {e' s u s'}, substitute ctx e r = .ok e' s →
    (construct shape e').run s = (u, s') → Lasting (substitute ctx t) u s'

section
variable {ctx : GenericContext} {shape : Shape} {t e : TypeId} (ho : r.Orderly)
  (hctx : r.HasContext ctx) (ht : r.Has (.type t))
  (hf : (r.type t).form = .constructed shape e) (hknown : r.Constructed shape e t)
include ho hctx ht hf hknown

theorem substitute_element {u : TypeId} {s : Registry} (hu : substitute ctx t r = .ok u s) :
    ∃ e', Step [] r s ∧ s.Has (.type e') ∧ s.Replaces ctx e e' ∧ s.Has (.type u) ∧
      s.Constructed shape e' u := by
  have he : r.Has (.type e) := ho.wellFormed.element ht (by rw [hf]; rfl)
  have hlt : e.index < t.index := ho.element_lt ht (by rw [hf]; rfl)
  rw [substitute, substituteWith_apply] at hu
  by_cases hc : (ctx.isEmpty || !r.isOpen t) = true
  · rw [if_pos hc] at hu
    cases hu
    rw [ho.isOpen_constructed ht hf] at hc
    exact ⟨e, .refl ho, he, .closed hc, ht, hknown⟩
  · rw [if_neg hc, hf] at hu
    obtain ⟨e', s₁, he', hu'⟩ := bind_eq_ok_iff.mp hu
    obtain ⟨hs₁, hhas, hreplaces⟩ :=
      (changes_substituteWith supplies_instantiate t.index ho hctx he hlt).ok he'
    obtain ⟨hs₂, huhas, hconstructed⟩ := (changes_construct hs₁.orderly shape hhas).ok hu'
    exact ⟨e', hs₁.trans hs₂, hs₂.persists.has _ hhas,
      hreplaces.mono hs₁.orderly hs₂.persists (hs₁.persists.hasContext hctx) (hs₁.persists.has _ he),
      huhas, hconstructed⟩

theorem substitute_type {e' u : TypeId} {s s' : Registry} (he' : substitute ctx e r = .ok e' s)
    (hu : (construct shape e').run s = (u, s')) : Step [] r s' ∧ s'.Replaces ctx t u := by
  have he : r.Has (.type e) := ho.wellFormed.element ht (by rw [hf]; rfl)
  obtain ⟨hs, hhas, hreplaces⟩ := (changes_substitute ho hctx he).ok he'
  obtain ⟨hs', huhas, hconstructed⟩ := constructed_of_run hs.orderly hhas hu
  have hp : r.Persists s' := hs.persists.trans hs'.persists
  have he₁ : s'.Replaces ctx e e' := hreplaces.mono hs.orderly hs'.persists
    (hs.persists.hasContext hctx) (hs.persists.has _ he)
  refine ⟨hs.trans hs', ?_⟩
  by_cases hc : (ctx.isEmpty || !r.isOpen t) = true
  · -- the element stays, and so does the type
    have hclosed : s'.Replaces ctx e e := by
      rw [ho.isOpen_constructed ht hf] at hc
      exact .closed (by rwa [Persists.isOpen ho hp he])
    have heq : e' = e := he₁.unique hs'.orderly (hp.hasContext hctx) (hp.has _ he) hclosed
    have hkt := (hknown.mono ho hp he).known
    rw [heq] at hconstructed
    rw [hconstructed.known] at hkt
    cases hkt
    exact .closed (by rwa [Persists.isOpen ho hp ht])
  · exact .constructed (by rwa [Persists.isOpen ho hp ht]) (by rw [hp.form ht, hf]) he₁ hconstructed

end

/-- **Substitution commutes with construction over the element that a type was made for.**  The
constructed type `t` of `e` is over an element `e₀` of the same key, and substitution in `t` is
construction over the substituted `e₀`.  It is construction over the substituted `e` exactly if
the two substituted elements have equal keys again. -/
theorem substitute_construct (hr : r.Built) {e : TypeId} (he : r.Has (.type e)) (shape : Shape)
    {ctx : GenericContext} (hctx : r.HasContext ctx) {t : TypeId} {r₁ : Registry}
    (ht : (construct shape e).run r = (t, r₁)) :
    ∃ e₀, (r₁.type t).form = .constructed shape e₀ ∧ r₁.typeKey e₀ = r₁.typeKey e ∧
      r₁.Homomorphic ctx shape t e₀ ∧
      ∀ u r₂ e' r₃ v r₄, substitute ctx t r₁ = .ok u r₂ → substitute ctx e r₂ = .ok e' r₃ →
        (construct shape e').run r₃ = (v, r₄) →
        ∃ e₀', Lasting (substitute ctx e₀) e₀' r₄ ∧ (v = u ↔ r₄.typeKey e₀' = r₄.typeKey e') := by
  have ho := hr.orderly
  obtain ⟨hs₁, hthas, hmade⟩ := constructed_of_run ho he ht
  have ho₁ := hs₁.orderly
  have hctx₁ := hs₁.persists.hasContext hctx
  obtain ⟨e₀, hf, hkey⟩ := hmade.form ho₁
  have hknown := hmade.of_form ho₁ hthas hf hkey
  have he₀ : r₁.Has (.type e₀) := ho₁.wellFormed.element hthas (by rw [hf]; rfl)
  refine ⟨e₀, hf, hkey, ⟨?_, ?_⟩, ?_⟩
  · intro u s hu
    obtain ⟨e', hs, hhas, hreplaces, -, hconstructed⟩ :=
      substitute_element ho₁ hctx₁ hthas hf hknown hu
    exact ⟨e', hreplaces.lasting hs.orderly (hs.persists.hasContext hctx₁) (hs.persists.has _ he₀),
      lasting_construct hs.orderly hhas hconstructed⟩
  · intro e' s u s' he' hu
    obtain ⟨hs, hreplaces⟩ := substitute_type ho₁ hctx₁ hthas hf hknown he' hu
    exact hreplaces.lasting hs.orderly (hs.persists.hasContext hctx₁) (hs.persists.has _ hthas)
  · intro u r₂ e' r₃ v r₄ hu he' hv
    obtain ⟨e₀', hs₂, hhas₂, hreplaces, huhas, hconstructed⟩ :=
      substitute_element ho₁ hctx₁ hthas hf hknown hu
    have he₂ : r₂.Has (.type e) := hs₂.persists.has _ (hs₁.persists.has _ he)
    obtain ⟨hs₃, hhas₃, -⟩ :=
      (changes_substitute hs₂.orderly (hs₂.persists.hasContext hctx₁) he₂).ok he'
    obtain ⟨hs₄, -, hconstructedv⟩ := constructed_of_run hs₃.orderly hhas₃ hv
    have hp : r₂.Persists r₄ := hs₃.persists.trans hs₄.persists
    have hconstructedu := hconstructed.mono hs₂.orderly hp hhas₂
    refine ⟨e₀', (hreplaces.lasting hs₂.orderly (hs₂.persists.hasContext hctx₁)
      (hs₂.persists.has _ he₀)).mono hp, ?_, ?_⟩
    · rintro rfl
      obtain ⟨c, hfc, hkc⟩ := hconstructedu.form hs₄.orderly
      obtain ⟨c', hfc', hkc'⟩ := hconstructedv.form hs₄.orderly
      rw [hfc] at hfc'
      cases hfc'
      rw [← hkc, hkc']
    · intro hkeys
      have hk := hconstructedu.known
      rw [Registry.constructedKey, hkeys] at hk
      have hk' := hconstructedv.known
      rw [Registry.constructedKey] at hk'
      rw [hk'] at hk
      exact Option.some.inj hk

/-! ## parameters of one name -/

/-- Two generic parameters `T` of one module, at positions 0 and 1, and the array of the first one. -/
def sameNamedParameters : Registry :=
  core.applyAll [.addModule "App", .addParameter ⟨1⟩ "T" 0 .type, .addParameter ⟨1⟩ "T" 1 .type,
    .construct .szArray ⟨20⟩]

theorem built_sameNamedParameters : sameNamedParameters.Built :=
  Built.core.applyAll (by decide +kernel)

def bothWays (shape : Shape) (ctx : GenericContext) (e : TypeId) : Action (TypeId × TypeId) := do
  let t ← construct shape e
  let u ← substitute ctx t
  let e ← substitute ctx e
  let v ← construct shape e
  return (u, v)

theorem bothWays_ok {shape : Shape} {ctx : GenericContext} {e : TypeId} {u v : TypeId} {s : Registry}
    (h : bothWays shape ctx e r = .ok (u, v) s) :
    ∃ t r₁ r₂ e' r₃, (construct shape e).run r = (t, r₁) ∧ substitute ctx t r₁ = .ok u r₂ ∧
      substitute ctx e r₂ = .ok e' r₃ ∧ (construct shape e').run r₃ = (v, s) := by
  obtain ⟨t, r₁, ht, h⟩ := bind_eq_ok_iff.mp h
  obtain ⟨u', r₂, hu, h⟩ := bind_eq_ok_iff.mp h
  obtain ⟨e', r₃, he, h⟩ := bind_eq_ok_iff.mp h
  obtain ⟨v', r₄, hv, h⟩ := bind_eq_ok_iff.mp h
  cases h
  rw [lift_apply] at ht hv
  cases ht
  cases hv
  exact ⟨_, _, r₂, e', r₃, rfl, hu, he, rfl⟩

/-- the array of the first parameter, with arguments `System.Int32` and `System.String` -/
theorem substitute_construct_first : ∃ t r₁ u r₂ e' r₃ v r₄ e₀',
    (construct .szArray ⟨20⟩).run sameNamedParameters = (t, r₁) ∧
    substitute ⟨[⟨12⟩, ⟨4⟩], []⟩ t r₁ = .ok u r₂ ∧
    substitute ⟨[⟨12⟩, ⟨4⟩], []⟩ ⟨20⟩ r₂ = .ok e' r₃ ∧
    (construct .szArray e').run r₃ = (v, r₄) ∧ v = u ∧ r₄.typeKey e₀' = r₄.typeKey e' := by
  obtain ⟨he₀, hctx, heval⟩ : sameNamedParameters.Has (.type ⟨20⟩) ∧
      sameNamedParameters.HasContext ⟨[⟨12⟩, ⟨4⟩], []⟩ ∧
      answersWith (bothWays .szArray ⟨[⟨12⟩, ⟨4⟩], []⟩ ⟨20⟩) sameNamedParameters
        (fun p _ => p.1 = p.2) = true := by
    decide +kernel
  obtain ⟨⟨u, v⟩, r₄, hrun, huv⟩ := exists_of_answersWith heval
  obtain ⟨t, r₁, r₂, e', r₃, ht, hu, he, hv⟩ := bothWays_ok hrun
  obtain ⟨e₀, -, -, -, hboth⟩ := substitute_construct built_sameNamedParameters he₀ .szArray hctx ht
  obtain ⟨e₀', -, hiff⟩ := hboth u r₂ e' r₃ v r₄ hu he hv
  have huv' : v = u := (by simpa using huv : u = v).symm
  exact ⟨t, r₁, u, r₂, e', r₃, v, r₄, e₀', ht, hu, he, hv, huv', hiff.mp huv'⟩

/-- The array of the second parameter is the array of the first one, and substitution gives an array of
`System.Int32` in place of one of `System.String`. -/
theorem substitute_construct_second : ∃ t r₁ u r₂ e' r₃ v r₄,
    (construct .szArray ⟨21⟩).run sameNamedParameters = (t, r₁) ∧
    substitute ⟨[⟨12⟩, ⟨4⟩], []⟩ t r₁ = .ok u r₂ ∧
    substitute ⟨[⟨12⟩, ⟨4⟩], []⟩ ⟨21⟩ r₂ = .ok e' r₃ ∧
    (construct .szArray e').run r₃ = (v, r₄) ∧ r₄.sameType u v = false ∧
    r₄.fullName u = "System.Int32[]" ∧ r₄.fullName v = "System.String[]" := by
  have heval : answersWith (bothWays .szArray ⟨[⟨12⟩, ⟨4⟩], []⟩ ⟨21⟩) sameNamedParameters
      (fun p s => !s.sameType p.1 p.2 && s.fullName p.1 == "System.Int32[]" &&
        s.fullName p.2 == "System.String[]") = true := by
    decide +kernel
  obtain ⟨⟨u, v⟩, r₄, hrun, huv⟩ := exists_of_answersWith heval
  obtain ⟨t, r₁, r₂, e', r₃, ht, hu, he, hv⟩ := bothWays_ok hrun
  simp only [Bool.and_eq_true, Bool.not_eq_true', beq_iff_eq] at huv
  exact ⟨t, r₁, u, r₂, e', r₃, v, r₄, ht, hu, he, hv, huv.1.1, huv.1.2, huv.2⟩

end Registry

end ProgramScan

/-!
# Text with brackets

The name of an instance holds the names of its arguments, between angle brackets and with commas in
between, and each of these may be the name of an instance again.  It can be taken apart if the brackets
of every name match and commas stand inside of brackets only:

* `depthAfter commas d s`   how many brackets are open after `s`, if `d` are open before;
* `Closed s`                the brackets of `s` match, and its commas stand inside of them;
* `Inner s`                 the same with commas anywhere, as between brackets;
* `Closed.cons_inj`         a closed text ends where a comma or a closing bracket follows;
* `Inner.group_inj`         where the last group of a text starts;
* `intercalate_inj`         the closed texts that were joined by commas.
-/

namespace ProgramScan.Text

/-- The number of open brackets after `c`, if `d` are open before.  There is none if `c` closes a bracket
that is not open; commas outside of brackets count only if `commas` says so. -/
def depthStep (commas : Bool) (d : Nat) (c : Char) : Option Nat :=
  if c = '<' ∨ c = '[' then some (d + 1)
  else if c = '>' ∨ c = ']' then (if d = 0 then none else some (d - 1))
  else if c = ',' ∧ d = 0 ∧ commas = false then none
  else some d

/-- the number of open brackets after `s`, if `d` are open before -/
def depthAfter (commas : Bool) (d : Nat) (s : List Char) : Option Nat :=
  s.foldlM (depthStep commas) d

/-- brackets match, and commas stand inside of brackets -/
def Closed (s : List Char) : Prop := depthAfter false 0 s = some 0

/-- brackets match -/
def Inner (s : List Char) : Prop := depthAfter true 0 s = some 0

instance (s : List Char) : Decidable (Closed s) := inferInstanceAs (Decidable (_ = _))

instance (s : List Char) : Decidable (Inner s) := inferInstanceAs (Decidable (_ = _))

variable {commas : Bool} {d e : Nat} {c : Char} {s t : List Char}

/-! ## depths -/

theorem depthAfter_cons (commas : Bool) (d : Nat) (c : Char) (s : List Char) :
    depthAfter commas d (c :: s) = (depthStep commas d c).bind fun e => depthAfter commas e s := rfl

theorem depthAfter_append (commas : Bool) (d : Nat) (s t : List Char) :
    depthAfter commas d (s ++ t) = (depthAfter commas d s).bind fun e => depthAfter commas e t :=
  List.foldlM_append

theorem depthAfter_prefix (h : depthAfter commas d (s ++ t) = some e) :
    ∃ k, depthAfter commas d s = some k ∧ depthAfter commas k t = some e := by
  rw [depthAfter_append] at h
  exact Option.bind_eq_some_iff.mp h

theorem depthStep_deeper (h : depthStep commas d c = some e) :
    depthStep false (d + 1) c = some (e + 1) := by
  unfold depthStep at h ⊢
  grind

theorem depthAfter_deeper (h : depthAfter commas d s = some e) :
    depthAfter false (d + 1) s = some (e + 1) := by
  induction s generalizing d with
  | nil =>
    cases h
    rfl
  | cons c s ih =>
    rw [depthAfter_cons] at h ⊢
    obtain ⟨k, hk, hs⟩ := Option.bind_eq_some_iff.mp h
    rw [depthStep_deeper hk]
    exact ih hs

/-- more is allowed where commas may stand -/
theorem depthAfter_commas (h : depthAfter false d s = some e) : depthAfter true d s = some e := by
  induction s generalizing d with
  | nil => exact h
  | cons c s ih =>
    rw [depthAfter_cons] at h ⊢
    obtain ⟨k, hk, hs⟩ := Option.bind_eq_some_iff.mp h
    have hk' : depthStep true d c = some k := by
      unfold depthStep at hk ⊢
      grind
    rw [hk']
    exact ih hs

/-- dots do not count -/
theorem depthAfter_filter_dot (commas : Bool) (d : Nat) (s : List Char) :
    depthAfter commas d (s.filter (· ≠ '.')) = depthAfter commas d s := by
  induction s generalizing d with
  | nil => rfl
  | cons c s ih =>
    by_cases hc : c = '.'
    · subst hc
      rw [List.filter_cons_of_neg (by decide), ih, depthAfter_cons]
      have hdot : depthStep commas d '.' = some d := by
        unfold depthStep
        simp
      rw [hdot]
      rfl
    · rw [List.filter_cons_of_pos (by simpa using hc), depthAfter_cons, depthAfter_cons]
      cases depthStep commas d c with
      | none => rfl
      | some k => exact ih k

/-! ## closed texts -/

theorem Closed.inner (h : Closed s) : Inner s := depthAfter_commas h

theorem Closed.nil : Closed [] := rfl

theorem Closed.append (hs : Closed s) (ht : Closed t) : Closed (s ++ t) := by
  unfold Closed
  rw [depthAfter_append, hs]
  exact ht

theorem Inner.append (hs : Inner s) (ht : Inner t) : Inner (s ++ t) := by
  unfold Inner
  rw [depthAfter_append, hs]
  exact ht

theorem Closed.filter_dot (h : Closed s) : Closed (s.filter (· ≠ '.')) := by
  unfold Closed
  rw [depthAfter_filter_dot, h]

theorem Inner.replicate_comma (n : Nat) : Inner (List.replicate n ',') := by
  induction n with
  | zero => rfl
  | succ n ih => exact Inner.append (s := [',']) (by decide) ih

/-- what stands in brackets is closed -/
theorem Inner.group {o : Char} (ho : depthStep false 0 o = some 1)
    (hc : depthStep false 1 c = some 0) (h : Inner s) : Closed (o :: s ++ [c]) := by
  unfold Closed
  rw [List.cons_append, depthAfter_cons, ho, Option.bind_some, depthAfter_append,
    depthAfter_deeper h, Option.bind_some, depthAfter_cons, hc]
  rfl

/-! ## taking texts apart -/

variable {a b x y : List Char}

theorem Closed.not_stop (h : Closed (a ++ c :: s)) (ha : Closed a) :
    depthStep false 0 c ≠ none := by
  intro hc
  obtain ⟨k, hk, hs⟩ := depthAfter_prefix h
  rw [ha] at hk
  cases hk
  rw [depthAfter_cons, hc] at hs
  cases hs

/-- A closed text ends where a comma or a closing bracket follows. -/
theorem Closed.cons_inj (ha : Closed a) (hb : Closed b) (hc : depthStep false 0 c = none)
    (h : a ++ c :: x = b ++ c :: y) : a = b ∧ x = y := by
  rcases List.append_eq_append_iff.mp h with ⟨z, rfl, hz⟩ | ⟨z, rfl, hz⟩
  · cases z with
    | nil => exact ⟨(List.append_nil a).symm, (List.cons.inj hz).2⟩
    | cons d z =>
      obtain ⟨rfl, -⟩ := List.cons.inj hz
      exact absurd hc (hb.not_stop ha)
  · cases z with
    | nil => exact ⟨List.append_nil b, (List.cons.inj hz).2.symm⟩
    | cons d z =>
      obtain ⟨rfl, -⟩ := List.cons.inj hz
      exact absurd hc (ha.not_stop hb)

/-- no text with matching brackets ends inside of a group -/
theorem Inner.not_inside (ha : Inner a) (hs : Inner s) (h : Inner (a ++ '<' :: x))
    (hx : x ++ '<' :: t = s) : False := by
  subst hx
  obtain ⟨k, hk, -⟩ := depthAfter_prefix hs
  obtain ⟨k', hk', hrest⟩ := depthAfter_prefix h
  rw [ha] at hk'
  cases hk'
  have hdeep : depthAfter true 1 x = some (k + 1) := depthAfter_commas (depthAfter_deeper hk)
  rw [depthAfter_cons, show depthStep true 0 '<' = some 1 from rfl, Option.bind_some, hdeep] at hrest
  cases hrest

/-- where the last group of a text starts -/
theorem Inner.group_inj (ha : Inner a) (hb : Inner b) (hs : Inner s) (ht : Inner t)
    (h : a ++ '<' :: s = b ++ '<' :: t) : a = b ∧ s = t := by
  rcases List.append_eq_append_iff.mp h with ⟨z, rfl, hz⟩ | ⟨z, rfl, hz⟩
  · cases z with
    | nil => exact ⟨(List.append_nil a).symm, (List.cons.inj hz).2⟩
    | cons d z =>
      obtain ⟨rfl, hzs⟩ := List.cons.inj hz
      exact (ha.not_inside hs hb hzs.symm).elim
  · cases z with
    | nil => exact ⟨List.append_nil b, (List.cons.inj hz).2.symm⟩
    | cons d z =>
      obtain ⟨rfl, hzt⟩ := List.cons.inj hz
      exact (hb.not_inside ht ha hzt.symm).elim

/-! ## joined texts -/

theorem Inner.intercalate {w : List Char} (hw : Inner w) {ss : List (List Char)}
    (hss : ∀ s ∈ ss, Closed s) : Inner ((',' :: w).intercalate ss) := by
  induction ss with
  | nil => rfl
  | cons s ss ih =>
    have hs := hss s List.mem_cons_self
    cases ss with
    | nil =>
      rw [List.intercalate_singleton]
      exact hs.inner
    | cons t ss =>
      rw [List.intercalate_cons_cons]
      have hsep : Inner (',' :: w) := Inner.append (s := [',']) (by decide) hw
      exact (hs.inner.append hsep).append (ih fun t ht => hss t (List.mem_cons_of_mem _ ht))

/-- Texts that were joined can be taken apart if each of them ends where a separator follows with another
one behind it. -/
theorem intercalate_inj_of {P : List Char → Prop} {sep : List Char} {ss ts : List (List Char)}
    (hcut : ∀ {a b s t x y : List Char}, P a → P b → P s → P t →
      a ++ (sep ++ (s ++ x)) = b ++ (sep ++ (t ++ y)) → a = b)
    (hend : ∀ {a b s x : List Char}, P a → P b → P s → a ≠ b ++ (sep ++ (s ++ x)))
    (hss : ∀ s ∈ ss, P s) (hts : ∀ t ∈ ts, P t) (hs : ss ≠ []) (ht : ts ≠ [])
    (h : sep.intercalate ss = sep.intercalate ts) : ss = ts := by
  have hfirst : ∀ (s : List Char) ss, ∃ x, sep.intercalate (s :: ss) = s ++ x := by
    intro s ss
    cases ss with
    | nil => exact ⟨[], by rw [List.intercalate_singleton, List.append_nil]⟩
    | cons s' ss => exact ⟨_, by rw [List.intercalate_cons_cons, List.append_assoc]⟩
  induction ss generalizing ts with
  | nil => exact absurd rfl hs
  | cons s ss ih =>
    obtain ⟨t, ts, rfl⟩ := List.exists_cons_of_ne_nil ht
    have hsp := hss s List.mem_cons_self
    have htp := hts t List.mem_cons_self
    cases ss with
    | nil =>
      cases ts with
      | nil => simpa using h
      | cons t' ts =>
        -- a separator follows the first text on one side only
        obtain ⟨x, hx⟩ := hfirst t' ts
        rw [List.intercalate_singleton, List.intercalate_cons_cons, List.append_assoc, hx] at h
        exact absurd h (hend hsp htp (hts t' (by simp)))
    | cons s' ss =>
      have hsp' := hss s' (by simp)
      obtain ⟨x, hx⟩ := hfirst s' ss
      cases ts with
      | nil =>
        rw [List.intercalate_singleton, List.intercalate_cons_cons, List.append_assoc, hx] at h
        exact absurd h.symm (hend htp hsp hsp')
      | cons t' ts =>
        obtain ⟨y, hy⟩ := hfirst t' ts
        rw [List.intercalate_cons_cons, List.intercalate_cons_cons, List.append_assoc,
          List.append_assoc, hx, hy] at h
        obtain rfl := hcut hsp htp hsp' (hts t' (by simp)) h
        have hrest := List.append_cancel_left (List.append_cancel_left h)
        rw [← hx, ← hy] at hrest
        rw [ih (fun s hs => hss s (List.mem_cons_of_mem _ hs))
          (fun t ht => hts t (List.mem_cons_of_mem _ ht)) (List.cons_ne_nil _ _)
          (List.cons_ne_nil _ _) hrest]

/-- the closed texts that were joined by commas -/
theorem intercalate_inj {w : List Char} {ss ts : List (List Char)} (hss : ∀ s ∈ ss, Closed s)
    (hts : ∀ t ∈ ts, Closed t) (hs : ss ≠ []) (ht : ts ≠ [])
    (h : (',' :: w).intercalate ss = (',' :: w).intercalate ts) : ss = ts := by
  have hcomma : depthStep false 0 ',' = none := rfl
  refine intercalate_inj_of (P := Closed) (fun ha hb _ _ hab => ?_) (fun ha hb _ hab => ?_) hss hts hs
    ht h
  · exact (ha.cons_inj hb hcomma hab).1
  · exact absurd hcomma ((hab ▸ ha).not_stop hb)

end ProgramScan.Text

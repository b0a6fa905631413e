import ProgramScan.Proofs.Text.Brackets

/-!
# Keys in a row

The key of an instance ends with the keys of its arguments, in angle brackets and with commas in
between.  Names may hold other brackets that do not match, and the name of an array holds commas; but
every key starts with a `T`, and in a key no `T` follows a comma outside of angle brackets.

* `Angled s`             the angle brackets of `s` match;
* `Angled.group_inj`     where the last group in angle brackets starts;
* `Keyed s`              the angle brackets match, and what follows a comma outside of them is no `T`;
* `keys_inj`             keys that were joined by commas can be taken apart.
-/

namespace ProgramScan.Text

/-- The number of open angle brackets after `c`, if `d` are open before.  There is none if `c` closes a
bracket that is not open. -/
def angleStep (d : Nat) (c : Char) : Option Nat :=
  if c = '<' then some (d + 1)
  else if c = '>' then (if d = 0 then none else some (d - 1))
  else some d

/-- the number of open angle brackets after `s`, if `d` are open before -/
def angleAfter (d : Nat) (s : List Char) : Option Nat := s.foldlM angleStep d

def Angled (s : List Char) : Prop := angleAfter 0 s = some 0

/-- The number of open angle brackets, and whether a comma outside of them came last.  No `T` may come
next then. -/
def keyStep (q : Nat × Bool) (c : Char) : Option (Nat × Bool) :=
  if q.2 = true ∧ c = 'T' then none
  else (angleStep q.1 c).map fun e => (e, decide (c = ',' ∧ q.1 = 0))

def keyAfter (q : Nat × Bool) (s : List Char) : Option (Nat × Bool) := s.foldlM keyStep q

/-- Angle brackets match, and what follows a comma outside of them is no `T`. -/
def Keyed (s : List Char) : Prop := keyAfter (0, false) s = some (0, false)

instance (s : List Char) : Decidable (Angled s) := inferInstanceAs (Decidable (_ = _))

instance (s : List Char) : Decidable (Keyed s) := inferInstanceAs (Decidable (_ = _))

variable {d e k : Nat} {q q' : Nat × Bool} {s t a b x y : List Char}

/-! ## angle brackets -/

theorem angleAfter_cons (d : Nat) (c : Char) (s : List Char) :
    angleAfter d (c :: s) = (angleStep d c).bind fun e => angleAfter e s := rfl

theorem angleAfter_append (d : Nat) (s t : List Char) :
    angleAfter d (s ++ t) = (angleAfter d s).bind fun e => angleAfter e t :=
  List.foldlM_append

/-- more brackets that are open do not count -/
theorem angleAfter_add (k : Nat) (h : angleAfter d s = some e) :
    angleAfter (d + k) s = some (e + k) := by
  induction s generalizing d with
  | nil =>
    cases h
    rfl
  | cons c s ih =>
    rw [angleAfter_cons] at h ⊢
    obtain ⟨f, hf, hs⟩ := Option.bind_eq_some_iff.mp h
    have hstep : angleStep (d + k) c = some (f + k) := by
      unfold angleStep at hf ⊢
      grind
    rw [hstep]
    exact ih hs

namespace Angled

theorem append (hs : Angled s) (ht : Angled t) : Angled (s ++ t) := by
  unfold Angled
  rw [angleAfter_append, hs]
  exact ht

theorem intercalate {sep : List Char} (hsep : Angled sep) {ss : List (List Char)}
    (hss : ∀ s ∈ ss, Angled s) : Angled (sep.intercalate ss) := by
  induction ss with
  | nil => rfl
  | cons s ss ih =>
    have hs := hss s List.mem_cons_self
    cases ss with
    | nil => rwa [List.intercalate_singleton]
    | cons t ss =>
      rw [List.intercalate_cons_cons]
      exact (hs.append hsep).append (ih fun t ht => hss t (List.mem_cons_of_mem _ ht))

/-- no text with matching brackets ends inside of a group -/
theorem not_inside (hs : Angled (x ++ '<' :: s)) (h : Angled s) : False := by
  unfold Angled at hs
  rw [angleAfter_append] at hs
  obtain ⟨k, -, hk⟩ := Option.bind_eq_some_iff.mp hs
  rw [angleAfter_cons, show angleStep k '<' = some (k + 1) from rfl, Option.bind_some,
    ← Nat.zero_add (k + 1), angleAfter_add (k + 1) h] at hk
  cases hk

/-- where the last group in angle brackets starts -/
theorem group_inj (hs : Angled s) (ht : Angled t) (h : a ++ '<' :: s = b ++ '<' :: t) :
    a = b ∧ s = t := by
  rcases List.append_eq_append_iff.mp h with ⟨z, rfl, hz⟩ | ⟨z, rfl, hz⟩
  · cases z with
    | nil => exact ⟨(List.append_nil a).symm, (List.cons.inj hz).2⟩
    | cons c z =>
      obtain ⟨rfl, rfl⟩ := List.cons.inj hz
      exact (hs.not_inside ht).elim
  · cases z with
    | nil => exact ⟨List.append_nil b, (List.cons.inj hz).2.symm⟩
    | cons c z =>
      obtain ⟨rfl, rfl⟩ := List.cons.inj hz
      exact (ht.not_inside hs).elim

end Angled

/-! ## keys -/

theorem keyAfter_cons (q : Nat × Bool) (c : Char) (s : List Char) :
    keyAfter q (c :: s) = (keyStep q c).bind fun e => keyAfter e s := rfl

theorem keyAfter_append (q : Nat × Bool) (s t : List Char) :
    keyAfter q (s ++ t) = (keyAfter q s).bind fun e => keyAfter e t :=
  List.foldlM_append

/-- inside of angle brackets, commas do not matter -/
theorem keyAfter_of_angleAfter (h : angleAfter d s = some e) :
    keyAfter (d + 1, false) s = some (e + 1, false) := by
  induction s generalizing d with
  | nil =>
    cases h
    rfl
  | cons c s ih =>
    rw [angleAfter_cons] at h
    rw [keyAfter_cons]
    obtain ⟨f, hf, hs⟩ := Option.bind_eq_some_iff.mp h
    have hstep : keyStep (d + 1, false) c = some (f + 1, false) := by
      unfold angleStep at hf
      unfold keyStep angleStep
      grind
    rw [hstep]
    exact ih hs

theorem angleAfter_of_keyAfter (h : keyAfter q s = some q') : angleAfter q.1 s = some q'.1 := by
  induction s generalizing q with
  | nil =>
    cases h
    rfl
  | cons c s ih =>
    rw [keyAfter_cons] at h
    rw [angleAfter_cons]
    obtain ⟨f, hf, hs⟩ := Option.bind_eq_some_iff.mp h
    have hstep : angleStep q.1 c = some f.1 := by
      unfold keyStep at hf
      split at hf
      · cases hf
      · obtain ⟨e, he, rfl⟩ := Option.map_eq_some_iff.mp hf
        exact he
    rw [hstep]
    exact ih hs

namespace Keyed

theorem angled (h : Keyed s) : Angled s := angleAfter_of_keyAfter h

theorem append (hs : Keyed s) (ht : Keyed t) : Keyed (s ++ t) := by
  unfold Keyed
  rw [keyAfter_append, hs]
  exact ht

/-- text without commas and angle brackets -/
theorem of_plain (h : ∀ c ∈ s, c ≠ ',' ∧ c ≠ '<' ∧ c ≠ '>') : Keyed s := by
  induction s with
  | nil => rfl
  | cons c s ih =>
    obtain ⟨hcomma, hopen, hclose⟩ := h c List.mem_cons_self
    unfold Keyed
    rw [keyAfter_cons, show keyStep (0, false) c = some (0, false) by simp [keyStep, angleStep, *]]
    exact ih fun c hc => h c (List.mem_cons_of_mem _ hc)

/-- what stands in angle brackets -/
theorem group (h : Angled s) : Keyed ('<' :: s ++ ['>']) := by
  unfold Keyed
  rw [List.cons_append, keyAfter_cons, show keyStep (0, false) '<' = some (1, false) from rfl,
    Option.bind_some, keyAfter_append, keyAfter_of_angleAfter h, Option.bind_some]
  rfl

theorem ranks (n : Nat) : Keyed ('[' :: List.replicate n ',' ++ [']']) := by
  have hcommas : ∀ comma, ∃ comma', keyAfter (0, comma) (List.replicate n ',') = some (0, comma') := by
    induction n with
    | zero => exact fun comma => ⟨comma, rfl⟩
    | succ n ih =>
      intro comma
      rw [List.replicate_succ, keyAfter_cons,
        show keyStep (0, comma) ',' = some (0, true) by simp [keyStep, angleStep]]
      exact ih true
  obtain ⟨comma, hcomma⟩ := hcommas false
  unfold Keyed
  rw [List.cons_append, keyAfter_cons, show keyStep (0, false) '[' = some (0, false) from rfl,
    Option.bind_some, keyAfter_append, hcomma, Option.bind_some, keyAfter_cons,
    show keyStep (0, comma) ']' = some (0, false) by simp [keyStep, angleStep]]
  rfl

/-- a key does not go on behind a comma with a `T` -/
theorem not_joined (h : Keyed (a ++ ',' :: 'T' :: x)) (ha : Keyed a) : False := by
  unfold Keyed at h
  rw [keyAfter_append, ha] at h
  cases h

/-- nor does it end with a comma -/
theorem not_open (h : Keyed (a ++ [','])) (ha : Keyed a) : False := by
  unfold Keyed at h
  rw [keyAfter_append, ha] at h
  cases h

/-- A key ends where a comma and a `T` follow. -/
theorem cut_inj (ha : Keyed a) (hb : Keyed b) (h : a ++ ',' :: 'T' :: x = b ++ ',' :: 'T' :: y) :
    a = b := by
  have hlonger : ∀ {a b z x y : List Char}, Keyed a → Keyed b → b = a ++ z →
      ',' :: 'T' :: x = z ++ ',' :: 'T' :: y → a = b := by
    intro a b z x y ha hb hz h
    match z with
    | [] => rw [hz, List.append_nil]
    | [c] =>
      obtain ⟨rfl, -⟩ := List.cons.inj h
      exact (not_open (hz ▸ hb) ha).elim
    | c :: c' :: z =>
      obtain ⟨rfl, htail⟩ := List.cons.inj h
      obtain ⟨rfl, -⟩ := List.cons.inj htail
      exact (not_joined (hz ▸ hb) ha).elim
  rcases List.append_eq_append_iff.mp h with ⟨z, hz, hrest⟩ | ⟨z, hz, hrest⟩
  · exact hlonger ha hb hz hrest
  · exact (hlonger hb ha hz hrest).symm

end Keyed

/-- keys that were joined by commas -/
theorem keys_inj {ss ts : List (List Char)} (hss : ∀ s ∈ ss, Keyed s ∧ s.head? = some 'T')
    (hts : ∀ t ∈ ts, Keyed t ∧ t.head? = some 'T') (hs : ss ≠ []) (ht : ts ≠ [])
    (h : [','].intercalate ss = [','].intercalate ts) : ss = ts := by
  have hhead : ∀ {s : List Char}, s.head? = some 'T' → ∃ s', s = 'T' :: s' := fun {s} hs => by
    obtain ⟨s', hs'⟩ := List.head?_eq_some_iff.mp hs
    exact ⟨s', hs'⟩
  refine intercalate_inj_of (P := fun s => Keyed s ∧ s.head? = some 'T')
    (fun ha hb hs ht hab => ?_) (fun ha hb hs hab => ?_) hss hts hs ht h
  · obtain ⟨s, rfl⟩ := hhead hs.2
    obtain ⟨t, rfl⟩ := hhead ht.2
    exact ha.1.cut_inj hb.1 hab
  · obtain ⟨s, rfl⟩ := hhead hs.2
    exact (hab ▸ ha.1).not_joined hb.1

end ProgramScan.Text

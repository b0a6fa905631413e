import ProgramScan.Plug.Validate
import ProgramScan.Registry.Core

/-!
# Parameters beside those of an instance member

A plug method may have the instance as its first parameter or leave it out, and the comparison with an
instance member does not ask which.  It puts the parameters side by side, and once two of them do not
fit it starts again, with the plug's one further.

* `Registry.ShapeMatches`    a parameter of the plug fits one of the member;
* `Registry.AlignedFrom`     all parameters fit that lie beside each other from an alignment on;
* `Registry.DecidedAfter`    a comparison is decided after a number of rounds;
* `compareFrom_iff`          what a comparison decides, whatever it has passed already;
* `fitsInstanceMember_iff`   so a plug fits if its parameters do as they are, or without the first.
-/

namespace ProgramScan

namespace Registry

variable {r : Registry} {candidate plug : List (Option TypeId)} {a next : Alignment}

/-! ## parameters that fit -/

/-- a parameter of a plug stands for anything, or both are the same type -/
def ShapeMatches (r : Registry) (p c : Option TypeId) : Prop :=
  p = none ∨ ∃ s t, p = some s ∧ c = some t ∧ r.sameType s t = true

theorem shapeFits_iff {p c : Option TypeId} : r.shapeFits p c = true ↔ r.ShapeMatches p c := by
  unfold shapeFits ShapeMatches
  cases p with
  | none => simp
  | some s => cases c <;> simp

/-- all parameters fit that lie beside each other from the place of the alignment on -/
def AlignedFrom (r : Registry) (candidate plug : List (Option TypeId)) (a : Alignment) : Prop :=
  ∀ i c p, a.place ≤ i → candidate[i]? = some c → plug[i + a.offset]? = some p →
    r.ShapeMatches p c

/-- where one of the lists is at its end, no parameters lie beside each other -/
theorem alignedFrom_of_end
    (h : candidate[a.place]? = none ∨ plug[a.place + a.offset]? = none) :
    r.AlignedFrom candidate plug a := by
  intro i c p hi hc hp
  have hcandidate := (List.getElem?_eq_some_iff.mp hc).1
  have hplug := (List.getElem?_eq_some_iff.mp hp).1
  rcases h with h | h
  · have := List.getElem?_eq_none_iff.mp h
    omega
  · have := List.getElem?_eq_none_iff.mp h
    omega

/-- the parameters at the place, and those after them -/
theorem alignedFrom_iff_next {c p : Option TypeId} (hc : candidate[a.place]? = some c)
    (hp : plug[a.place + a.offset]? = some p) :
    r.AlignedFrom candidate plug a ↔
      r.ShapeMatches p c ∧ r.AlignedFrom candidate plug { a with place := a.place + 1 } := by
  constructor
  · intro h
    exact ⟨h a.place c p (Nat.le_refl _) hc hp, fun i c p hi => h i c p (Nat.le_of_succ_le hi)⟩
  · rintro ⟨hfirst, hrest⟩ i c' p' hi hc' hp'
    rcases Nat.eq_or_lt_of_le hi with rfl | hlt
    · rw [hc] at hc'
      rw [hp] at hp'
      cases hc'
      cases hp'
      exact hfirst
    · exact hrest i c' p' hlt hc' hp'

/-- the parameters fit that lie beside each other if the first `offset` of the plug are left out -/
theorem shapesFit_drop_iff (r : Registry) (candidate plug : List (Option TypeId)) (offset : Nat) :
    r.shapesFit (plug.drop offset) candidate = true ↔
      r.AlignedFrom candidate plug { offset, place := 0 } := by
  have hzip : ∀ ps cs : List (Option TypeId), r.shapesFit ps cs = true ↔
      ∀ (i : Nat) (c p : Option TypeId), cs[i]? = some c → ps[i]? = some p → r.ShapeMatches p c := by
    intro ps
    induction ps with
    | nil => simp [shapesFit]
    | cons p ps ih =>
      intro cs
      cases cs with
      | nil => simp [shapesFit]
      | cons c cs =>
        rw [shapesFit, Bool.and_eq_true, shapeFits_iff, ih]
        constructor
        · rintro ⟨hfirst, hrest⟩ i c' p' hc hp
          cases i with
          | zero =>
            cases hc
            cases hp
            exact hfirst
          | succ i => exact hrest i c' p' hc hp
        · intro h
          exact ⟨h 0 c p rfl rfl, fun i c' p' hc hp => h (i + 1) c' p' hc hp⟩
  rw [hzip]
  simp only [AlignedFrom, List.getElem?_drop, Nat.add_comm offset, Nat.zero_le, true_implies]

/-! ## one round -/

/-- What a round can do: it ends where a list does, it passes parameters that fit, and at those that do
not it starts again or, if it did so before, decides. -/
theorem compareRound_cases (r : Registry) (candidate plug : List (Option TypeId)) (a : Alignment) :
    r.compareRound candidate plug a = .inr true ∧ r.AlignedFrom candidate plug a ∨
    (r.compareRound candidate plug a = .inl { a with place := a.place + 1 } ∧
      (r.AlignedFrom candidate plug a ↔
        r.AlignedFrom candidate plug { a with place := a.place + 1 })) ∨
    (a.offset = 0 ∧ r.compareRound candidate plug a = .inl { offset := 1, place := 0 } ∧
      ¬ r.AlignedFrom candidate plug a) ∨
    (a.offset ≠ 0 ∧ r.compareRound candidate plug a = .inr false ∧
      ¬ r.AlignedFrom candidate plug a) := by
  unfold compareRound
  cases hc : candidate[a.place]? with
  | none => exact .inl ⟨rfl, alignedFrom_of_end (.inl hc)⟩
  | some c =>
    cases hp : plug[a.place + a.offset]? with
    | none => exact .inl ⟨rfl, alignedFrom_of_end (.inr hp)⟩
    | some p =>
      have hnext := alignedFrom_iff_next (r := r) hc hp
      by_cases hfits : r.ShapeMatches p c
      · right
        left
        exact ⟨if_pos (shapeFits_iff.mpr hfits), by rw [hnext, and_iff_right hfits]⟩
      · have hfalse : ¬ r.shapeFits p c = true := fun h => hfits (shapeFits_iff.mp h)
        have hmiss : ¬ r.AlignedFrom candidate plug a := fun h => hfits (hnext.mp h).1
        right
        right
        simp only [if_neg hfalse]
        by_cases hoffset : a.offset = 0
        · exact .inl ⟨hoffset, if_pos hoffset, hmiss⟩
        · exact .inr ⟨hoffset, if_neg hoffset, hmiss⟩

/-! ## comparisons -/

/-- A comparison succeeds if the parameters fit from where it is, or if it has not started again yet and
they fit with the plug's one further.  By induction on the rounds: a round that starts again has met
parameters that do not fit, wherever it was. -/
theorem compareFrom_iff (r : Registry) (candidate plug : List (Option TypeId)) (a : Alignment) :
    r.compareFrom candidate plug a = true ↔
      r.AlignedFrom candidate plug a ∨
        a.offset = 0 ∧ r.AlignedFrom candidate plug { offset := 1, place := 0 } := by
  induction a using compareFrom.induct r candidate plug with
  | case1 a next hround ih =>
    rw [compareFrom, hround]
    simp only
    rw [ih]
    rcases compareRound_cases r candidate plug a with
      ⟨hr, -⟩ | ⟨hr, hsame⟩ | ⟨hoffset, hr, hmiss⟩ | ⟨-, hr, -⟩ <;> rw [hround] at hr <;> cases hr
    · rw [hsame]
    · simp [hmiss, hoffset]
  | case2 a fits hround =>
    rw [compareFrom, hround]
    simp only
    rcases compareRound_cases r candidate plug a with
      ⟨hr, hall⟩ | ⟨hr, -⟩ | ⟨-, hr, -⟩ | ⟨hoffset, hr, hmiss⟩ <;> rw [hround] at hr <;> cases hr
    · simp [hall]
    · simp [hmiss, hoffset]

/-- the comparison is decided after `n` rounds that go on -/
inductive DecidedAfter (r : Registry) (candidate plug : List (Option TypeId)) :
    Nat → Alignment → Bool → Prop
  | now {a : Alignment} {fits : Bool} (h : r.compareRound candidate plug a = .inr fits) :
    DecidedAfter r candidate plug 0 a fits
  | later {n : Nat} {a next : Alignment} {fits : Bool}
    (h : r.compareRound candidate plug a = .inl next)
    (hnext : DecidedAfter r candidate plug n next fits) :
    DecidedAfter r candidate plug (n + 1) a fits

theorem compareFrom_decided (r : Registry) (candidate plug : List (Option TypeId)) (a : Alignment) :
    ∃ n ≤ a.roundsLeft candidate.length,
      r.DecidedAfter candidate plug n a (r.compareFrom candidate plug a) := by
  induction a using compareFrom.induct r candidate plug with
  | case1 a next hround ih =>
    obtain ⟨n, hn, hdecided⟩ := ih
    have heq : r.compareFrom candidate plug a = r.compareFrom candidate plug next := by
      rw [compareFrom, hround]
    rw [heq]
    exact ⟨n + 1, Nat.lt_of_le_of_lt hn (roundsLeft_lt hround), .later hround hdecided⟩
  | case2 a fits hround =>
    have heq : r.compareFrom candidate plug a = fits := by rw [compareFrom, hround]
    rw [heq]
    exact ⟨0, Nat.zero_le _, .now hround⟩

/-- a comparison from the start, as one over the lists and one without the plug's first parameter -/
theorem compareFrom_start (r : Registry) (candidate plug : List (Option TypeId)) :
    r.compareFrom candidate plug {} =
      (r.shapesFit plug candidate || r.shapesFit (plug.drop 1) candidate) := by
  have hfirst := shapesFit_drop_iff r candidate plug 0
  rw [List.drop_zero] at hfirst
  rw [Bool.eq_iff_iff, compareFrom_iff, Bool.or_eq_true, hfirst, shapesFit_drop_iff]
  simp

/-! ## instance members -/

/-- a plug has neither as many parameters as a member nor one more -/
theorem lengths_apart_iff {n m : Nat} : (n != m && n + 1 != m) = true ↔ ¬ (m = n ∨ m = n + 1) := by
  simp only [Bool.and_eq_true, bne_iff_ne]
  omega

theorem fitsInstanceMember_nil (r : Registry) (declaring : Option TypeId)
    (plug : List (Option TypeId)) :
    r.fitsInstanceMember declaring [] plug = true ↔
      plug = [] ∨ ∃ p, plug = [p] ∧ ∀ this ∈ p, ∃ t ∈ declaring, r.isAssignable this t = true := by
  unfold fitsInstanceMember
  cases plug with
  | nil => simp [compareFrom_start, shapesFit]
  | cons p ps =>
    cases ps with
    | cons _ _ => simp
    | nil =>
      cases p with
      | none => simp
      | some this => cases declaring <;> simp

theorem fitsInstanceMember_of_ne_nil (r : Registry) (declaring : Option TypeId)
    {candidate : List (Option TypeId)} (hne : candidate ≠ []) (plug : List (Option TypeId)) :
    r.fitsInstanceMember declaring candidate plug = true ↔
      (plug.length = candidate.length ∨ plug.length = candidate.length + 1) ∧
        (r.AlignedFrom candidate plug {} ∨ r.AlignedFrom candidate plug { offset := 1 }) := by
  obtain ⟨c, cs, rfl⟩ := List.exists_cons_of_ne_nil hne
  have hfits : r.fitsInstanceMember declaring (c :: cs) plug =
      if (c :: cs).length != plug.length && (c :: cs).length + 1 != plug.length then false
      else r.compareFrom (c :: cs) plug {} := rfl
  have hcompare := compareFrom_iff r (c :: cs) plug {}
  simp only [true_and] at hcompare
  rw [hfits, ← hcompare]
  by_cases hlength : plug.length = (c :: cs).length ∨ plug.length = (c :: cs).length + 1
  · rw [if_neg fun h => lengths_apart_iff.mp h hlength, and_iff_right hlength]
  · rw [if_pos (lengths_apart_iff.mpr hlength)]
    exact iff_of_false Bool.false_ne_true fun h => hlength h.1

/-- **Aligned parameters.**  The comparison of a plug method with an instance member is decided after at
most two rounds for each parameter of the member.  The plug fits a member with parameters if it has as
many or one more, and all that lie beside each other fit, from the first or from the second of the plug
on.  It fits a member without parameters if it has none, or one that stands for anything or can hold the
instance. -/
theorem fitsInstanceMember_iff (r : Registry) (declaring : Option TypeId)
    (candidate plug : List (Option TypeId)) :
    (∃ n ≤ 2 * candidate.length,
      r.DecidedAfter candidate plug n {} (r.compareFrom candidate plug {})) ∧
    (r.fitsInstanceMember declaring candidate plug = true ↔
      (candidate ≠ [] ∧ (plug.length = candidate.length ∨ plug.length = candidate.length + 1) ∧
        (r.AlignedFrom candidate plug {} ∨ r.AlignedFrom candidate plug { offset := 1 })) ∨
      (candidate = [] ∧ (plug = [] ∨
        ∃ p, plug = [p] ∧ ∀ this ∈ p, ∃ t ∈ declaring, r.isAssignable this t = true))) := by
  constructor
  · obtain ⟨n, hn, hdecided⟩ := compareFrom_decided r candidate plug {}
    refine ⟨n, ?_, hdecided⟩
    simp only [Alignment.roundsLeft] at hn
    omega
  · by_cases hne : candidate = []
    · subst hne
      simp [fitsInstanceMember_nil]
    · rw [fitsInstanceMember_of_ne_nil r declaring hne]
      simp [hne]

/-- the first parameters fit and the second do not, and the comparison starts again from the first
parameter of the member -/
example : core.compareFrom [some ⟨0⟩, some ⟨4⟩] [some ⟨0⟩, some ⟨0⟩, some ⟨4⟩] {} = true := by
  decide +kernel

end Registry

end ProgramScan

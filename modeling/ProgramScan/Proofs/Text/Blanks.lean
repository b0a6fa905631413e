import ProgramScan.Proofs.Text.Brackets

/-!
# Signatures taken apart

A signature is a result and two blanks, an owner and a point, a name with what stands in angle brackets
behind it, and parameters in parentheses.  In the name of a type a blank stands behind a comma only, so
that the result can be told from what follows it.

* `Spaced s`          blanks in `s` stand behind commas;
* `Spaced.cut_inj`    where a closed text with such blanks ends;
* `angles_inj`        a name, and what stands in angle brackets behind it.
-/

namespace ProgramScan.Text

variable {c : Char} {s t a b x y : List Char}

/-- blanks stand behind commas -/
def Spaced (s : List Char) : Prop :=
  ∀ before after, s = before ++ ' ' :: after → ∃ front, before = front ++ [',']

namespace Spaced

theorem of_not_mem (h : ' ' ∉ s) : Spaced s := by
  rintro before after rfl
  simp at h

theorem separator : Spaced [',', ' '] := by
  intro before after h
  match before, h with
  | [], h => cases h
  | [c], h => exact ⟨[], by rw [← (List.cons.inj h).1]; rfl⟩
  | c :: d :: before, h => simp at h

theorem append (hs : Spaced s) (ht : Spaced t) : Spaced (s ++ t) := by
  intro before after h
  rcases List.append_eq_append_iff.mp h with ⟨z, rfl, hz⟩ | ⟨z, rfl, hz⟩
  · obtain ⟨front, rfl⟩ := ht z after hz
    exact ⟨s ++ front, by rw [List.append_assoc]⟩
  · cases z with
    | nil =>
      obtain ⟨front, hfront⟩ := ht [] after hz.symm
      simp at hfront
    | cons d z =>
      obtain ⟨rfl, -⟩ := List.cons.inj hz
      exact hs before z rfl

theorem intercalate {ss : List (List Char)} (hss : ∀ s ∈ ss, Spaced s) :
    Spaced ([',', ' '].intercalate ss) := by
  induction ss with
  | nil => exact of_not_mem (by simp [List.intercalate])
  | cons s ss ih =>
    obtain ⟨hs, hrest⟩ := List.forall_mem_cons.mp hss
    cases ss with
    | nil => rwa [List.intercalate_singleton]
    | cons t ss =>
      rw [List.intercalate_cons_cons]
      exact (hs.append separator).append (ih hrest)

/-- no blank follows a closed text, as that does not end with a comma -/
theorem not_append (hs : Spaced (a ++ ' ' :: s)) (ha : Closed a) : False := by
  obtain ⟨front, rfl⟩ := hs a s rfl
  obtain ⟨k, -, hcomma⟩ := depthAfter_prefix ha
  rw [depthAfter_cons] at hcomma
  obtain ⟨d, hd, hnil⟩ := Option.bind_eq_some_iff.mp hcomma
  cases hnil
  simp [depthStep] at hd

/-- A closed text with blanks behind commas ends where a blank follows. -/
theorem cut_inj (ha : Closed a) (hb : Closed b) (hsa : Spaced a) (hsb : Spaced b)
    (h : a ++ ' ' :: x = b ++ ' ' :: y) : a = b ∧ x = y := by
  rcases List.append_eq_append_iff.mp h with ⟨z, rfl, hz⟩ | ⟨z, rfl, hz⟩
  · cases z with
    | nil => exact ⟨(List.append_nil a).symm, (List.cons.inj hz).2⟩
    | cons d z =>
      obtain ⟨rfl, -⟩ := List.cons.inj hz
      exact (hsb.not_append ha).elim
  · cases z with
    | nil => exact ⟨List.append_nil b, (List.cons.inj hz).2.symm⟩
    | cons d z =>
      obtain ⟨rfl, -⟩ := List.cons.inj hz
      exact (hsa.not_append hb).elim

end Spaced

/-! ## names with groups -/

/-- a group in angle brackets, if there is one -/
def angles : Option (List Char) → List Char
  | none => []
  | some s => '<' :: s ++ ['>']

/-- A name that does not end like a group is told from the group behind it. -/
theorem angles_inj {g k : Option (List Char)} (ha : Inner a) (hb : Inner b)
    (ha' : a.getLast? ≠ some '>') (hb' : b.getLast? ≠ some '>') (hg : ∀ s ∈ g, Inner s)
    (hk : ∀ s ∈ k, Inner s) (h : a ++ angles g = b ++ angles k) : a = b ∧ g = k := by
  have hlast (s : List Char) (u : List Char) : (u ++ angles (some s)).getLast? = some '>' := by
    rw [angles, ← List.append_assoc, List.getLast?_concat]
  cases g with
  | none =>
    cases k with
    | none => exact ⟨by simpa [angles] using h, rfl⟩
    | some s =>
      rw [angles, List.append_nil] at h
      exact absurd (h ▸ hlast s b) ha'
  | some s =>
    cases k with
    | none =>
      rw [angles, angles, List.append_nil] at h
      exact absurd (h ▸ hlast s a) hb'
    | some t =>
      simp only [angles, ← List.append_assoc] at h
      obtain ⟨rfl, rfl⟩ := ha.group_inj hb (hg s rfl) (hk t rfl) (List.append_cancel_right h)
      exact ⟨rfl, rfl⟩

end ProgramScan.Text

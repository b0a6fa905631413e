/-!
# Stable sorting by insertion

`sortBy le l` orders `l` by `le`; elements that compare equal both ways keep their order.  Sorting
is done by insertion from the right, so that it commutes with dropping elements.

* `sortBy_perm`     sorting only reorders;
* `sortBy_filter`   sorting and dropping elements can change places.
-/

namespace ProgramScan

variable {α : Type}

/-- puts `a` in front of the first element it is not above -/
def insertBy (le : α → α → Bool) (a : α) : List α → List α
  | [] => [a]
  | b :: rest => if le a b then a :: b :: rest else b :: insertBy le a rest

/-- `l` in the order `le`, stable -/
def sortBy (le : α → α → Bool) : List α → List α
  | [] => []
  | a :: rest => insertBy le a (sortBy le rest)

@[simp] theorem sortBy_nil (le : α → α → Bool) : sortBy le [] = [] := rfl

theorem sortBy_cons (le : α → α → Bool) (a : α) (l : List α) :
    sortBy le (a :: l) = insertBy le a (sortBy le l) := rfl

theorem insertBy_of_forall (le : α → α → Bool) (a : α) (l : List α) (h : ∀ b ∈ l, le a b = true) :
    insertBy le a l = a :: l := by
  cases l with
  | nil => rfl
  | cons b rest => rw [insertBy, if_pos (h b List.mem_cons_self)]

theorem insertBy_perm (le : α → α → Bool) (a : α) (l : List α) :
    (insertBy le a l).Perm (a :: l) := by
  induction l with
  | nil => exact .refl _
  | cons b rest ih =>
    rw [insertBy]
    split
    · exact .refl _
    · exact (ih.cons b).trans (.swap a b rest)

/-- Sorting only reorders. -/
theorem sortBy_perm (le : α → α → Bool) (l : List α) : (sortBy le l).Perm l := by
  induction l with
  | nil => exact .refl _
  | cons a rest ih => exact (insertBy_perm le a _).trans (ih.cons a)

section

variable {le : α → α → Bool} (total : ∀ a b, le a b = true ∨ le b a = true)
  (trans : ∀ a b c, le a b = true → le b c = true → le a c = true)
include trans

theorem insertBy_filter (p : α → Bool) (a : α) {l : List α}
    (hl : l.Pairwise fun a b => le a b = true) :
    (insertBy le a l).filter p = if p a then insertBy le a (l.filter p) else l.filter p := by
  induction l with
  | nil => cases hp : p a <;> simp [insertBy, hp]
  | cons b l ih =>
    obtain ⟨hb, hl'⟩ := List.pairwise_cons.mp hl
    rw [insertBy]
    by_cases hab : le a b = true
    · rw [if_pos hab, List.filter_cons]
      split
      · refine (insertBy_of_forall le a _ fun c hc => ?_).symm
        rcases List.mem_cons.mp (List.mem_filter.mp hc).1 with rfl | hc
        · exact hab
        · exact trans a b c hab (hb c hc)
      · rfl
    · rw [if_neg hab, List.filter_cons, ih hl']
      cases p a <;> cases hpb : p b <;> simp [hpb, insertBy, hab]

include total

theorem insertBy_pairwise (a : α) {l : List α} (hl : l.Pairwise fun a b => le a b = true) :
    (insertBy le a l).Pairwise fun a b => le a b = true := by
  induction l with
  | nil => exact List.pairwise_singleton _ _
  | cons b l ih =>
    obtain ⟨hb, hl'⟩ := List.pairwise_cons.mp hl
    rw [insertBy]
    split
    · rename_i hab
      refine List.pairwise_cons.mpr ⟨fun c hc => ?_, hl⟩
      rcases List.mem_cons.mp hc with rfl | hc
      · exact hab
      · exact trans a b c hab (hb c hc)
    · rename_i hab
      refine List.pairwise_cons.mpr ⟨fun c hc => ?_, ih hl'⟩
      rcases List.mem_cons.mp ((insertBy_perm le a l).mem_iff.mp hc) with rfl | hc
      · exact (total c b).resolve_left hab
      · exact hb c hc

theorem sortBy_pairwise (l : List α) : (sortBy le l).Pairwise fun a b => le a b = true := by
  induction l with
  | nil => exact .nil
  | cons a l ih => exact insertBy_pairwise total trans a ih

theorem sortBy_filter (p : α → Bool) (l : List α) :
    sortBy le (l.filter p) = (sortBy le l).filter p := by
  induction l with
  | nil => rfl
  | cons a l ih =>
    rw [sortBy_cons, insertBy_filter trans p a (sortBy_pairwise total trans l), ← ih,
      List.filter_cons]
    split <;> rfl

end

end ProgramScan

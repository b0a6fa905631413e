import ProgramScan.Proofs.Registry.Questions

/-!
# Chains of bases

Where the bases of a type lead to a root, its ancestors are that chain, and the ancestors of an
ancestor are the rest of it.

* `BaseChain`       the bases of a type, up to a root;
* `Rooted`          there is such a chain;
* `Acyclic`         there is one for every type;
* `Rooted.suffix`   the ancestors of an ancestor are the rest of the chain.
-/

namespace ProgramScan

namespace Registry

/-- the bases of `t` are `l`, nearest first, and the last one has no base -/
inductive BaseChain (r : Registry) : TypeId → List TypeId → Prop
  | root {t : TypeId} (h : (r.type t).base = none) : BaseChain r t []
  | step {t b : TypeId} {l : List TypeId} (h : (r.type t).base = some b) (hb : BaseChain r b l) :
      BaseChain r t (b :: l)

def Rooted (r : Registry) (t : TypeId) : Prop := ∃ l, r.BaseChain t l

/-- the bases of every type lead to a root -/
def Acyclic (r : Registry) : Prop := ∀ t, r.Has (.type t) → r.Rooted t

variable {r : Registry} {t b : TypeId} {l l' : List TypeId}

theorem BaseChain.unique (h : r.BaseChain t l) (h' : r.BaseChain t l') : l = l' := by
  induction h generalizing l' with
  | root hb =>
    cases h' with
    | root => rfl
    | step hb' => cases hb.symm.trans hb'
  | step hb _ ih =>
    cases h' with
    | root hb' => cases hb.symm.trans hb'
    | step hb' h' =>
      cases hb.symm.trans hb'
      rw [ih h']

theorem BaseChain.of_mem (h : r.BaseChain t l) (hb : b ∈ l) :
    ∃ below above, l = below ++ b :: above ∧ r.BaseChain b above := by
  induction h with
  | root => cases hb
  | @step t c l _ hc ih =>
    rcases List.mem_cons.mp hb with rfl | hb
    · exact ⟨[], l, rfl, hc⟩
    · obtain ⟨below, above, rfl, habove⟩ := ih hb
      exact ⟨c :: below, above, rfl, habove⟩

/-- no type is its own ancestor: its chain would be longer than itself -/
theorem BaseChain.not_mem (h : r.BaseChain t l) : t ∉ l := by
  intro ht
  obtain ⟨below, above, hl, habove⟩ := h.of_mem ht
  have hlength := congrArg List.length hl
  rw [← h.unique habove, List.length_append, List.length_cons] at hlength
  omega

/-- bases that come before the types that have them lead to roots -/
theorem acyclic_of_base_lt
    (h : ∀ i < r.types.size, (r.type ⟨i⟩).base.all (·.index < i) = true) : r.Acyclic := by
  intro t ht
  obtain ⟨i⟩ := t
  induction i using Nat.strongRecOn with
  | _ i ih =>
    cases hb : (r.type ⟨i⟩).base with
    | none => exact ⟨[], .root hb⟩
    | some b =>
      have hlt := h i ht
      rw [hb, Option.all_some, decide_eq_true_eq] at hlt
      obtain ⟨l, hl⟩ := ih b.index hlt (Nat.lt_trans hlt ht)
      exact ⟨b :: l, .step hb hl⟩

theorem BaseChain.ancestorsFrom (h : r.BaseChain t l) {n : Nat} {seen : List TypeId}
    (hseen : ∀ c ∈ l, c ∉ seen) (hn : l.length ≤ n) : r.ancestorsFrom n seen t = l := by
  induction h generalizing n seen with
  | root hb =>
    cases n with
    | zero => rfl
    | succ n => rw [Registry.ancestorsFrom, hb]
  | @step t c l hb hc ih =>
    cases n with
    | zero => cases hn
    | succ n =>
      have hcs : seen.contains c = false := by simpa using hseen c List.mem_cons_self
      have hrest : ∀ d ∈ l, d ∉ c :: seen := fun d hd hd' => by
        rcases List.mem_cons.mp hd' with rfl | hd'
        · exact hc.not_mem hd
        · exact hseen d (List.mem_cons_of_mem _ hd) hd'
      rw [Registry.ancestorsFrom, hb]
      simp only [hcs, Bool.false_eq_true, if_false]
      rw [ih hrest (Nat.le_of_succ_le_succ hn)]

theorem BaseChain.ancestors (hw : r.WellFormed) (ht : r.Has (.type t)) (h : r.BaseChain t l) :
    r.ancestors t = l := by
  have hunseen : r.unseen [] ≤ r.types.size := by
    unfold unseen
    exact Nat.le_trans List.countP_le_length (Nat.le_of_eq List.length_range)
  -- the walk has as many steps as there are types; with more it would go no further
  rw [Registry.ancestors, ancestorsFrom_eq hw ht hunseen (Nat.le_add_right _ l.length)]
  exact h.ancestorsFrom (by simp) (Nat.le_add_left _ _)

theorem Rooted.ancestors_length_lt (hw : r.WellFormed) (ht : r.Has (.type t)) (h : r.Rooted t)
    (hb : b ∈ r.ancestors t) : (r.ancestors b).length < (r.ancestors t).length := by
  obtain ⟨l, hl⟩ := h
  have hbase := hw.of_ancestorsFrom ht hb
  rw [hl.ancestors hw ht] at hb ⊢
  obtain ⟨below, above, rfl, habove⟩ := hl.of_mem hb
  rw [habove.ancestors hw hbase, List.length_append, List.length_cons]
  omega

theorem Rooted.suffix (hw : r.WellFormed) (ht : r.Has (.type t)) (h : r.Rooted t)
    (hb : b ∈ r.ancestors t) : b :: r.ancestors b <:+ t :: r.ancestors t := by
  obtain ⟨l, hl⟩ := h
  have hbase := hw.of_ancestorsFrom ht hb
  rw [hl.ancestors hw ht] at hb ⊢
  obtain ⟨below, above, rfl, habove⟩ := hl.of_mem hb
  rw [habove.ancestors hw hbase]
  exact ⟨t :: below, by simp⟩

end Registry

end ProgramScan

import ProgramScan.Label

/-!
# Brackets of arrays in labels

In a rendered name square brackets stand only behind the elements of arrays, in groups with commas
between them.  A label spells out a group with no comma or with one, and of the others it drops the
commas and keeps the brackets.

* `Squared s ks`              `s` has groups of square brackets, with `ks` commas in them;
* `Squared.replaceAll_group`  spelling out the groups with one number of commas leaves the others;
* `Squared.replaceAll_plain`  spelling out other parts leaves the groups;
* `Squared.spelledOut`        the brackets that are left when all is spelled out.
-/

namespace ProgramScan.Text

/-! ## replacing -/

variable {pattern new : List Char} {c : Char} {s t : List Char}

theorem replaceFrom_append (pattern new u s : List Char) :
    replaceFrom pattern new u.length (u ++ s) = replaceAll pattern new s := by
  induction u with
  | nil => rfl
  | cons c u ih => exact ih

theorem replaceAll_nil (pattern new : List Char) : replaceAll pattern new [] = [] := by
  rw [replaceAll, replaceFrom]

theorem replaceAll_append (hp : pattern ≠ []) (s : List Char) :
    replaceAll pattern new (pattern ++ s) = new ++ replaceAll pattern new s := by
  obtain ⟨c, u, rfl⟩ := List.exists_cons_of_ne_nil hp
  have hfound : (c :: u).isPrefixOf (c :: (u ++ s)) = true :=
    List.isPrefixOf_iff_prefix.mpr (List.prefix_append (c :: u) s)
  rw [List.cons_append, replaceAll, replaceFrom, if_pos hfound]
  exact congrArg (new ++ ·) (replaceFrom_append (c :: u) new u s)

theorem replaceAll_cons (h : ¬ pattern <+: c :: s) :
    replaceAll pattern new (c :: s) = c :: replaceAll pattern new s := by
  rw [replaceAll, replaceFrom, if_neg fun hp => h (List.isPrefixOf_iff_prefix.mp hp)]
  rfl

/-- nothing is replaced before the first character that the pattern starts with -/
theorem replaceAll_passed {p : Char} (ht : ∀ c ∈ t, p ≠ c) (s : List Char) :
    replaceAll (p :: pattern) new (t ++ s) = t ++ replaceAll (p :: pattern) new s := by
  induction t with
  | nil => rfl
  | cons c t ih =>
    obtain ⟨hc, ht⟩ := List.forall_mem_cons.mp ht
    rw [List.cons_append, replaceAll_cons fun h => hc (List.cons_prefix_cons.mp h).1, ih ht,
      List.cons_append]

/-- a character that is replaced is gone -/
theorem not_mem_replaceAll (hnew : c ∉ new) (s : List Char) : c ∉ replaceAll [c] new s := by
  induction s with
  | nil => simp [replaceAll_nil]
  | cons d s ih =>
    by_cases hd : c = d
    · have hfound : replaceAll [c] new (d :: s) = new ++ replaceAll [c] new s := by
        rw [← hd]
        exact replaceAll_append (List.cons_ne_nil _ _) s
      rw [hfound, List.mem_append]
      exact fun h => h.elim hnew ih
    · rw [replaceAll_cons fun h => hd (List.cons_prefix_cons.mp h).1]
      exact List.not_mem_cons_of_ne_of_not_mem hd ih

/-! ## groups -/

def group (k : Nat) : List Char := '[' :: List.replicate k ',' ++ [']']

/-- Square brackets stand in `s` in groups only, and `ks` are the numbers of commas in them. -/
inductive Squared : List Char → List Nat → Prop
  | nil : Squared [] []
  | plain {c : Char} {s : List Char} {ks : List Nat} (ho : c ≠ '[') (hc : c ≠ ']')
      (h : Squared s ks) : Squared (c :: s) ks
  | group (k : Nat) {s : List Char} {ks : List Nat} (h : Squared s ks) :
      Squared (group k ++ s) (k :: ks)

/-- no square brackets -/
def Unbracketed (s : List Char) : Prop := ∀ c ∈ s, c ≠ '[' ∧ c ≠ ']'

instance (s : List Char) : Decidable (Unbracketed s) :=
  List.decidableBAll (fun c => c ≠ '[' ∧ c ≠ ']') s

variable {j k : Nat} {ks ls : List Nat}

/-- a group starts another one only if it is the same -/
theorem group_inj_left (h : group j <+: group k ++ s) : j = k := by
  obtain ⟨t, ht⟩ := h
  simp only [group, List.cons_append, List.append_assoc, List.cons.injEq, true_and,
    List.nil_append] at ht
  -- the closing brackets are the first characters that are no commas
  have hcount := congrArg (fun u => (u.takeWhile (· = ',')).length) ht
  simpa [List.takeWhile_append_of_pos] using hcount

namespace Squared

theorem of_unbracketed (h : Unbracketed s) : Squared s [] := by
  induction s with
  | nil => exact .nil
  | cons c s ih =>
    obtain ⟨⟨ho, hc⟩, hs⟩ := List.forall_mem_cons.mp h
    exact .plain ho hc (ih hs)

theorem append (hs : Squared s ks) (ht : Squared t ls) : Squared (s ++ t) (ks ++ ls) := by
  induction hs with
  | nil => exact ht
  | plain ho hc _ ih => exact .plain ho hc ih
  | group k _ ih =>
    rw [List.append_assoc]
    exact .group k ih

theorem plain_append (ht : Unbracketed t) (hs : Squared s ks) : Squared (t ++ s) ks :=
  (of_unbracketed ht).append hs

/-- what is left after a plain character -/
theorem of_cons (ho : c ≠ '[') (h : Squared (c :: s) ks) : Squared s ks := by
  generalize hcs : c :: s = u at h
  cases h with
  | nil => cases hcs
  | plain _ _ h =>
    obtain ⟨rfl, rfl⟩ := List.cons.inj hcs
    exact h
  | group k h => exact absurd (List.cons.inj hcs).1 ho

/-- what is left after plain characters -/
theorem of_append (ht : Unbracketed t) (h : Squared (t ++ s) ks) : Squared s ks := by
  induction t with
  | nil => exact h
  | cons c t ih =>
    obtain ⟨⟨ho, -⟩, ht⟩ := List.forall_mem_cons.mp ht
    exact ih ht (h.of_cons ho)

theorem mem_iff (h : Squared s ks) (hb : c = '[' ∨ c = ']') : c ∈ s ↔ ∃ k, k ∈ ks := by
  induction h with
  | nil => simp
  | plain ho hc _ ih =>
    rw [List.mem_cons, ih]
    rcases hb with rfl | rfl
    · exact or_iff_right (Ne.symm ho)
    · exact or_iff_right (Ne.symm hc)
  | group k _ _ =>
    rcases hb with rfl | rfl <;> simp [Text.group]

/-- the groups with `j` commas are replaced, and the others stay -/
theorem replaceAll_group (j : Nat) (new : List Char) (hnew : Unbracketed new) (h : Squared s ks) :
    Squared (replaceAll (Text.group j) new s) (ks.filter (· ≠ j)) := by
  have hpattern : Text.group j = '[' :: (List.replicate j ',' ++ [']']) := rfl
  induction h with
  | nil => exact .nil
  | @plain c s ks ho hc _ ih =>
    have hpassed : replaceAll (Text.group j) new (c :: s) = c :: replaceAll (Text.group j) new s :=
      replaceAll_passed (t := [c]) (by simpa using Ne.symm ho) s
    rw [hpassed]
    exact .plain ho hc ih
  | @group k s ks _ ih =>
    by_cases hk : k = j
    · subst hk
      rw [replaceAll_append (by simp [Text.group]), List.filter_cons_of_neg (by simp)]
      exact plain_append hnew ih
    · have hrest : ∀ c ∈ List.replicate k ',' ++ [']'], '[' ≠ c := by
        simp +contextual [or_imp]
      have hpassed : replaceAll (Text.group j) new (Text.group k ++ s) =
          Text.group k ++ replaceAll (Text.group j) new s := by
        have hhead : ¬ Text.group j <+: '[' :: (List.replicate k ',' ++ [']'] ++ s) :=
          fun hp => hk (group_inj_left hp).symm
        calc replaceAll (Text.group j) new (Text.group k ++ s)
            = '[' :: replaceAll (Text.group j) new (List.replicate k ',' ++ [']'] ++ s) :=
              replaceAll_cons hhead
          _ = Text.group k ++ replaceAll (Text.group j) new s :=
              congrArg ('[' :: ·) (replaceAll_passed hrest s)
      rw [hpassed, List.filter_cons_of_pos (by simpa using hk)]
      exact .group k ih

/-- replacing what has no brackets and starts with no comma leaves all groups -/
theorem replaceAll_plain (p : Char) (pattern new : List Char) (hp : Unbracketed (p :: pattern))
    (hcomma : p ≠ ',') (hnew : Unbracketed new) (h : Squared s ks) :
    Squared (replaceAll (p :: pattern) new s) ks := by
  obtain ⟨ho, hc⟩ := hp p List.mem_cons_self
  induction hn : s.length using Nat.strongRecOn generalizing s ks with
  | _ n ih =>
    subst hn
    cases h with
    | nil => exact .nil
    | @plain c s ks hco hcc h =>
      by_cases hfound : p :: pattern <+: c :: s
      · obtain ⟨t, ht⟩ := hfound
        rw [← ht, replaceAll_append (List.cons_ne_nil _ _)]
        refine plain_append hnew (ih t.length ?_ ?_ rfl)
        · rw [← ht, List.length_append, List.length_cons]
          omega
        · exact of_append hp (ht ▸ Squared.plain hco hcc h)
      · rw [replaceAll_cons hfound]
        exact .plain hco hcc (ih s.length (by simp) h rfl)
    | @group k s ks h =>
      have hgroup : ∀ c ∈ Text.group k, p ≠ c := by
        simp +contextual [Text.group, or_imp, ho, hc, hcomma]
      rw [replaceAll_passed hgroup]
      refine .group k (ih s.length ?_ h rfl)
      simp only [Text.group, List.length_append, List.length_cons]
      omega

end Squared

end ProgramScan.Text

namespace ProgramScan

open Text

/-- the text with all spellings applied, before characters are dropped -/
theorem spelledOut_eq (s : List Char) :
    spelledOut s = (replaceAll ['|'] "sLine".toList (replaceAll ['*'] "pointer".toList
      (replaceAll (group 1) "array".toList (replaceAll ['<', '>'] "compilergenerated".toList
        (replaceAll (group 0) "array".toList s))))).filter fun c => !illegalInLabel.contains c := rfl

variable {s : List Char} {ks : List Nat}

/-- Of the square brackets those with two and more commas between them are left. -/
theorem Text.Squared.spelledOut (h : Squared s ks) {c : Char} (hb : c = '[' ∨ c = ']') :
    c ∈ ProgramScan.spelledOut s ↔ ∃ k ∈ ks, 2 ≤ k := by
  have hvectors := h.replaceAll_group 0 "array".toList (by decide)
  have hmarks := hvectors.replaceAll_plain '<' ['>'] "compilergenerated".toList (by decide)
    (by decide) (by decide)
  have hplanes := hmarks.replaceAll_group 1 "array".toList (by decide)
  have hpointers := hplanes.replaceAll_plain '*' [] "pointer".toList (by decide) (by decide)
    (by decide)
  have hbars := hpointers.replaceAll_plain '|' [] "sLine".toList (by decide) (by decide) (by decide)
  have hkept : (!illegalInLabel.contains c) = true := by
    rcases hb with rfl | rfl <;> decide
  rw [spelledOut_eq, List.mem_filter, hbars.mem_iff hb, and_iff_left hkept]
  refine exists_congr fun k => ?_
  rw [List.mem_filter, List.mem_filter, and_assoc, decide_eq_true_eq, decide_eq_true_eq]
  refine and_congr_right fun _ => ?_
  omega

/-- no character is left that is dropped or, as bars are, spelled out -/
theorem legal_of_mem_spelledOut {c : Char} (h : c ∈ spelledOut s) : c ∉ illegalInLabel ∧ c ≠ '|' := by
  rw [spelledOut_eq, List.mem_filter] at h
  refine ⟨by simpa using h.2, ?_⟩
  rintro rfl
  exact not_mem_replaceAll (by decide) _ h.1

end ProgramScan

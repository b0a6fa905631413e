import ProgramScan.Proofs.Plug.Filing
import ProgramScan.Proofs.Plug.Reported

/-!
# Exact plugs are stable

Plug types that are found later are filed behind those that are there, and the search for the plug of
a method ends at the first plug type that has one.  So nothing that is filed in addition takes the
place of a plug from the row of the declaring type, in that row or in another bucket.

* `Registry.findPlug_append`               a search that found a plug looks no further;
* `PlugIndex.extends_of_findImplementors`  rows of the index of more modules start with the old ones;
* `PlugManager.YieldsExact`                the row of the declaring type has a plug;
* `PlugManager.resolvePlug_exact_stable`   then it is the plug for every longer list of modules.
-/

namespace ProgramScan

theorem usesThrough_cons {α : Type} (stop : α → Bool) (uses : α → List TypeId) (a : α)
    (rest : List α) :
    usesThrough stop uses (a :: rest) =
      uses a ++ if stop a then [] else usesThrough stop uses rest := rfl

namespace Registry

variable {r r' : Registry} {target : TypeId} {m q f : MethodId} {args plugs : List TypeId}

/-! ## among more plug types -/

/-- a search that found a plug does not look at the plug types behind, and notes no names of theirs -/
theorem findPlug_append (h : r.findPlug target m args plugs = .ok (some f)) (more : List TypeId) :
    r.findPlug target m args (plugs ++ more) = .ok (some f) ∧
      r.findPlugUses target m args (plugs ++ more) = r.findPlugUses target m args plugs := by
  induction plugs with
  | nil => cases h
  | cons plug plugs ih =>
    rw [findPlug] at h
    rw [List.cons_append, findPlug, findPlugUses, findPlugUses, usesThrough_cons, usesThrough_cons]
    cases hname : r.findByName? plug (r.method m).name args with
    | some found =>
      rw [hname] at h
      exact ⟨h, rfl⟩
    | none =>
      rw [hname] at h
      cases hstands : r.findBySignature target m plug with
      | error e =>
        rw [hstands] at h
        cases h
      | ok found =>
        rw [hstands] at h
        cases found with
        | some found => exact ⟨h, rfl⟩
        | none =>
          obtain ⟨hfind, huses⟩ := ih h
          refine ⟨hfind, ?_⟩
          simp only [findPlugUses] at huses
          simp only [huses]

theorem resolveAmong_append {params : List TypeId}
    (h : resolveAmong target plugs m params r = .ok (some q) r') (more : List TypeId) :
    resolveAmong target (plugs ++ more) m params r = .ok (some q) r' := by
  rw [resolveAmong, get_bind_apply, modify_bind_apply] at h ⊢
  dsimp only at h ⊢
  generalize (if (r.method m).isStatic = true then params else target :: params) = args
    at h ⊢
  obtain ⟨found, s, hfind, hrest⟩ := bind_eq_ok_iff.mp h
  cases hplug : r.findPlug target m args plugs with
  | error e =>
    rw [hplug] at hfind
    cases hfind
  | ok answer =>
    rw [hplug] at hfind h
    cases hfind
    cases found with
    | none => cases hrest
    | some f =>
      obtain ⟨hmore, huses⟩ := findPlug_append hplug more
      rw [hmore, huses]
      exact h

end Registry

/-! ## in the index of more modules -/

namespace PlugIndex

variable {r : Registry} {modules more : List ModuleId} {index index' : PlugIndex}

/-- **The index of more modules** has the plug types of every row, in front of those it adds. -/
theorem extends_of_findImplementors (h : findImplementors r modules {} = .ok () index)
    (hmore : findImplementors r (modules ++ more) {} = .ok () index') (s : Registry)
    {target : TypeId} {plugs : List TypeId} (kind : PlugKind)
    (hget : (index.bucket kind).get? s target = some plugs) :
    ∃ added, (index'.bucket kind).get? s target = some (plugs ++ added) := by
  have hold := (lists_of_findImplementors h kind).plugs (s.typeKey target)
  have hnew := (lists_of_findImplementors hmore kind).plugs (s.typeKey target)
  rw [filings_append, plugsFiled_append] at hnew
  change plugsInRow? _ _ = _ at hget
  rw [hget] at hold
  split at hold
  · cases hold
  rename_i hsome
  cases hold
  rw [if_neg (List.append_ne_nil_of_left_ne_nil hsome _)] at hnew
  exact ⟨_, hnew⟩

end PlugIndex

/-! ## plugs of managers -/

namespace PlugManager

open Registry

variable {r s s' : Registry} {modules more : List ModuleId} {p p' : PlugManager} {m plug : MethodId}

/-- The row of the declaring type of `m` has a plug, which is looked for once the names of `m` are in
use, and leads to the program `s'`. -/
def YieldsExact (p : PlugManager) (m plug : MethodId) (s s' : Registry) : Prop :=
  ∃ declaring, (s.method m).declaring = some declaring ∧
    resolveExact p.index declaring m (s.useNames (s.methodUses m)) = .ok (some plug) s'

theorem findImplementors_fresh (h : findImplementors r modules {} = .ok () p) :
    PlugIndex.findImplementors r modules {} = .ok () p.index ∧ p.resolved = ∅ := by
  rw [findImplementors] at h
  split at h
  · rename_i hfile
    cases h
    exact ⟨hfile, rfl⟩
  · cases h

theorem YieldsExact.extend (h : YieldsExact p m plug s s')
    (hfirst : PlugIndex.findImplementors r modules {} = .ok () p.index)
    (hmore : PlugIndex.findImplementors r (modules ++ more) {} = .ok () p'.index) :
    YieldsExact p' m plug s s' := by
  obtain ⟨declaring, hdecl, hrun⟩ := h
  refine ⟨declaring, hdecl, ?_⟩
  rw [resolveExact, get_bind_apply] at hrun ⊢
  cases hplugs : p.index.exact.get? (s.useNames (s.methodUses m)) declaring with
  | none =>
    rw [hplugs] at hrun
    cases hrun
  | some plugs =>
    obtain ⟨added, hadded⟩ :=
      PlugIndex.extends_of_findImplementors hfirst hmore _ .exact hplugs
    rw [hplugs] at hrun
    rw [show p'.index.exact.get? _ declaring = _ from hadded]
    dsimp only at hrun ⊢
    rw [resolveIn, get_bind_apply] at hrun ⊢
    exact resolveAmong_append hrun added

/-- what is looked for first is the answer -/
theorem YieldsExact.resolvePlug (h : YieldsExact p m plug s s') (hp : p.resolved = ∅) :
    ∃ after, PlugManager.resolvePlug p m s = .ok (some plug, after) s' := by
  obtain ⟨declaring, hdecl, hrun⟩ := h
  rw [PlugManager.resolvePlug, get_bind_apply, modify_bind_apply, hp]
  refine ⟨_, bind_eq_ok_iff.mpr ⟨some plug, s', ?_, rfl⟩⟩
  rw [resolveByIndex, get_bind_apply, show (s.useNames _).method m = s.method m from rfl, hdecl]
  exact bind_eq_ok_iff.mpr ⟨some plug, s', hrun, rfl⟩

/-- the row still has the plug later, and nothing is made for it then -/
theorem YieldsExact.later (h : YieldsExact p m plug s s') (hs : s.WellFormed)
    (hi : s.HasIndex p.index) (hm : s.Has (.method m)) {t : Registry} (hg : s'.Grows t)
    (ht : t.WellFormed) : ∃ t', YieldsExact p m plug t t' ∧ t'.forget = t.forget := by
  obtain ⟨declaring, hdecl, hrun⟩ := h
  have hnoted := Grows.useNames s (s.methodUses m)
  obtain ⟨hgrows, -, hset, -⟩ := (builds_resolveExact (hs.useNames _) (hnoted.hasIndex hi)
    (hnoted.has (hs.declaring hm hdecl)) (hnoted.has hm)).ok hrun
  obtain ⟨t', hagain, hforget⟩ :=
    hset (t.useNames (t.methodUses m)) (hg.trans (.useNames t _)) (ht.useNames _)
  refine ⟨t', ⟨declaring, ?_, hagain⟩, hforget⟩
  rw [((hnoted.trans hgrows).trans hg).method hm, hdecl]

/-- **Exact plugs are stable.**  If the row of the declaring type has a plug for `m` in the index of
some modules, a manager for these and a manager for these and `more` both answer it, and leave the
same program; they also answer it in every later program, and add nothing to that. -/
theorem resolvePlug_exact_stable (hr : r.WellFormed)
    (hfirst : findImplementors r modules {} = .ok () p)
    (hmore : findImplementors r (modules ++ more) {} = .ok () p') (hg : r.Grows s)
    (hs : s.WellFormed) (hm : s.Has (.method m)) (h : YieldsExact p m plug s s') :
    ∀ q ∈ [p, p'], (∃ after, resolvePlug q m s = .ok (some plug, after) s') ∧
      ∀ t, s'.Grows t → t.WellFormed →
        ∃ after t', resolvePlug q m t = .ok (some plug, after) t' ∧ t'.forget = t.forget := by
  obtain ⟨hfirst, hfresh⟩ := findImplementors_fresh hfirst
  obtain ⟨hmore, hfresh'⟩ := findImplementors_fresh hmore
  have hboth : ∀ q ∈ [p, p'], YieldsExact q m plug s s' ∧ q.resolved = ∅ ∧ s.HasIndex q.index := by
    intro q hq
    rcases List.mem_pair.mp hq with rfl | rfl
    · exact ⟨h, hfresh, hg.hasIndex (hasIndex_of_findImplementors hr hfirst)⟩
    · exact ⟨h.extend hfirst hmore, hfresh', hg.hasIndex (hasIndex_of_findImplementors hr hmore)⟩
  intro q hq
  obtain ⟨hyields, hfresh, hi⟩ := hboth q hq
  refine ⟨hyields.resolvePlug hfresh, fun t hgt ht => ?_⟩
  obtain ⟨t', hagain, hforget⟩ := hyields.later hs hi hm hgt ht
  obtain ⟨after, hrun⟩ := hagain.resolvePlug hfresh
  exact ⟨after, t', hrun, hforget⟩

/-- `Impl` replaces a method of `Program`.  The second module of plug types has another type for
`Program`, and one for all descendants of the object class. -/
def contestedEdits : List Edit :=
  [.addModule "App",
    .declareType { module := ⟨1⟩, namespaceName := "App", name := "Program" },
    looseMethod ⟨1⟩ ⟨20⟩ "Run" MethodFlags.isStatic [{ name := "value", type := ⟨4⟩ }],
    .addModule "Plugs",
    .declareType
      { module := ⟨2⟩, namespaceName := "Plugs", name := "Impl",
        annotations := [.plug { target := some ⟨20⟩ }] },
    looseMethod ⟨2⟩ ⟨21⟩ "Run" MethodFlags.isStatic [{ name := "value", type := ⟨0⟩ }],
    .addModule "More",
    .declareType
      { module := ⟨3⟩, namespaceName := "More", name := "Other",
        annotations := [.plug { target := some ⟨20⟩ }] },
    looseMethod ⟨3⟩ ⟨22⟩ "Run" MethodFlags.isStatic [{ name := "value", type := ⟨4⟩ }],
    .declareType
      { module := ⟨3⟩, namespaceName := "More", name := "Wide",
        annotations := [.plug { target := some ⟨0⟩, inheritable := true }] },
    looseMethod ⟨3⟩ ⟨23⟩ "Run" MethodFlags.isStatic [{ name := "value", type := ⟨4⟩ }]]

def contested : Registry := Registry.core.applyAll contestedEdits

theorem resolvePlug_exact_stable_contested : ∃ p p' s',
    findImplementors contested [⟨2⟩] {} = .ok () p ∧
    findImplementors contested ([⟨2⟩] ++ [⟨3⟩]) {} = .ok () p' ∧
    p.index.plugCount = 1 ∧ p'.index.plugCount = 3 ∧ YieldsExact p ⟨0⟩ ⟨1⟩ contested s' ∧
    ∀ q ∈ [p, p'], (∃ after, resolvePlug q ⟨0⟩ contested = .ok (some ⟨1⟩, after) s') ∧
      ∀ t, s'.Grows t → t.WellFormed →
        ∃ after t', resolvePlug q ⟨0⟩ t = .ok (some ⟨1⟩, after) t' ∧ t'.forget = t.forget := by
  obtain ⟨hfits, hm, hdecl, hnarrow, hwide⟩ : Registry.FitAll Registry.core contestedEdits ∧
      contested.Has (.method ⟨0⟩) ∧ (contested.method ⟨0⟩).declaring = some ⟨20⟩ ∧
      answersWith (findImplementors contested [⟨2⟩]) {} (fun _ p =>
        decide (p.index.plugCount = 1) &&
          answersWith (resolveExact p.index ⟨20⟩ ⟨0⟩)
            (contested.useNames (contested.methodUses ⟨0⟩))
            fun answer _ => decide (answer = some ⟨1⟩)) = true ∧
      answersWith (findImplementors contested ([⟨2⟩] ++ [⟨3⟩])) {} (fun _ p =>
        decide (p.index.plugCount = 3)) = true := by
    decide +kernel
  have hw := (Registry.Built.core.applyAll hfits).wellFormed
  obtain ⟨_, p, hfirst, hp⟩ := exists_of_answersWith hnarrow
  obtain ⟨_, p', hmore, hp'⟩ := exists_of_answersWith hwide
  obtain ⟨hcount, hrun⟩ := Bool.and_eq_true_iff.mp hp
  obtain ⟨answer, s', hrun, hanswer⟩ := exists_of_answersWith hrun
  cases of_decide_eq_true hanswer
  have hyields : YieldsExact p ⟨0⟩ ⟨1⟩ contested s' := ⟨⟨20⟩, hdecl, hrun⟩
  exact ⟨p, p', s', hfirst, hmore, of_decide_eq_true hcount, of_decide_eq_true hp', hyields,
    resolvePlug_exact_stable hw hfirst hmore (.refl _) hw hm hyields⟩

end PlugManager

end ProgramScan

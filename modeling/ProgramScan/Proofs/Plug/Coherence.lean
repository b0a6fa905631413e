import ProgramScan.Proofs.Plug.Reported
import ProgramScan.Proofs.Registry.Coherence

/-!
# Asking for plugs keeps programs in order

Looking for a plug uses names and makes instances of types and of methods, and what it makes is there
afterwards also if it fails.

* `coheres_resolveIn`, `coheres_resolveByIndex`   among plug types, and in the index;
* `coheres_resolvePlug`                            all that looking for a plug does.
-/

namespace ProgramScan

namespace Registry

variable {r : Registry}

section
variable (h : r.Coherent)
include h

/-! ## among plug types -/

theorem coheres_resolveAmong (target : TypeId) {plugs : List TypeId}
    (hp : ∀ p ∈ plugs, r.Has (.type p)) {m : MethodId} (hm : r.Has (.method m))
    (params : List TypeId) : Coheres (resolveAmong target plugs m params) r := by
  refine .get (.noting h fun s hg hs => ?_)
  refine .bind (.ofExcept hs _) fun found s' hfind hg' hs' => ?_
  cases found with
  | none => exact .pure hs' none
  | some f =>
    have hf : r.Has (.method f) := by
      cases hplug : r.findPlug target m
          (if (r.method m).isStatic = true then params else target :: params) plugs with
      | error e =>
        rw [hplug] at hfind
        cases hfind
      | ok answer =>
        rw [hplug] at hfind
        cases hfind
        exact h.wellFormed.foundPlug hp hplug
    have hgs := hg.trans hg'
    dsimp only
    split
    · exact .pure hs' none
    split
    · refine .bind (coheres_instantiateMethod hs' (hgs.has hf)
        fun a hmem => hgs.has (h.wellFormed.genericArg hm hmem)) fun q _ _ _ hdone => ?_
      exact .pure hdone (some q)
    · exact .pure hs' (some f)

theorem coheres_resolveIn (target : TypeId) {plugs : List TypeId}
    (hp : ∀ p ∈ plugs, r.Has (.type p)) {m : MethodId} (hm : r.Has (.method m)) :
    Coheres (resolveIn target plugs m) r :=
  .get (coheres_resolveAmong h target hp hm _)

/-! ## in the index -/

theorem coheres_resolveExact {index : PlugIndex} (hi : r.HasIndex index) (declaring : TypeId)
    {m : MethodId} (hm : r.Has (.method m)) :
    Coheres (PlugManager.resolveExact index declaring m) r := by
  refine .get ?_
  split
  · exact .pure h none
  · rename_i plugs hplugs
    exact coheres_resolveIn h declaring ((hi .exact).get? hplugs) hm

theorem coheres_resolveInherited (declaring : TypeId) {m : MethodId} (hm : r.Has (.method m))
    {row : PlugRow} (hp : ∀ p ∈ row.plugs, r.Has (.type p)) :
    Coheres (PlugManager.resolveInherited declaring m row) r := by
  refine .get (.noting h fun s hg hs => ?_)
  split
  · exact coheres_resolveIn hs declaring (fun p hmem => hg.has (hp p hmem)) (hg.has hm)
  · exact .pure hs none

omit h in
theorem coheres_resolveInheritedAmong (h : r.Coherent) (declaring : TypeId) {m : MethodId}
    (hm : r.Has (.method m)) {rows : List PlugRow}
    (hr : ∀ row ∈ rows, ∀ p ∈ row.plugs, r.Has (.type p)) :
    Coheres (PlugManager.resolveInheritedAmong declaring m rows) r := by
  induction rows generalizing r with
  | nil => exact .pure h none
  | cons row rows ih =>
    have hfirst := coheres_resolveInherited h declaring hm (hr row List.mem_cons_self)
    refine .bind hfirst fun found s _ hg hs => ?_
    cases found with
    | some plug => exact .pure hs (some plug)
    | none =>
      exact ih hs (hg.has hm) fun row hmem p hp => hg.has (hr row (List.mem_cons_of_mem _ hmem) p hp)

/-! ## through the definition -/

theorem coheres_closePlug {declaring : TypeId} (hd : r.Has (.type declaring)) {m : MethodId}
    (hm : r.Has (.method m)) {openPlug : MethodId} (ho : r.Has (.method openPlug)) :
    Coheres (PlugManager.closePlug declaring m openPlug) r := by
  refine .get ?_
  split
  · exact .pure h none
  · rename_i plug hp
    have hplug := h.wellFormed.declaring ho hp
    have hargs : ∀ a ∈ (r.type declaring).form.genericArgs, r.Has (.type a) :=
      fun a hmem => h.wellFormed.genericArgOf hd hmem
    split
    · refine .bind (coheres_instantiate h hplug hargs) fun closed s hclosed hg hs => ?_
      obtain ⟨-, -, -, hclosed⟩ := (makes_instantiate h.wellFormed hplug hargs).ok hclosed
      refine .bind (coheres_correspondingMethod hs _ _) fun g s' hmember hg' hs' => ?_
      obtain ⟨-, -, -, hmember⟩ :=
        (builds_correspondingMethod hs.wellFormed hclosed.1 (hg.has ho)).ok hmember
      have hargs' : ∀ a ∈ (s'.method m).genericArgs, s'.Has (.type a) :=
        fun a hmem => hs'.wellFormed.genericArg ((hg.trans hg').has hm) hmem
      refine .get ?_
      split
      · exact .bind (coheres_instantiateMethod hs' hmember hargs')
          fun q _ _ _ hdone => .pure hdone _
      · exact .pure hs' (some g)
    · exact .pure h none

theorem coheres_findOpenPlug {bucket : PlugBucket} (hb : r.HasRows bucket.rows)
    (definition : TypeId) {m : MethodId} (hm : r.Has (.method m)) (params : List TypeId) :
    Coheres (PlugManager.findOpenPlug bucket definition m params) r := by
  refine .get ?_
  split
  · exact .pure h none
  · rename_i plugs hplugs
    exact coheres_resolveAmong h definition (hb.get? hplugs) hm params

theorem coheres_resolveGeneric {index : PlugIndex} (hi : r.HasIndex index) {declaring : TypeId}
    (hd : r.Has (.type declaring)) {definition : TypeId} (hdef : r.Has (.type definition))
    {m : MethodId} (hm : r.Has (.method m)) :
    Coheres (PlugManager.resolveGeneric index declaring definition m) r := by
  refine .get ?_
  split
  · exact .pure h none
  · rename_i openMethod ho
    have hw := h.wellFormed
    have hopen : r.Has (.method openMethod) :=
      hw.methodOf hdef (List.mem_filter.mp (mem_of_single? ho)).1
    have hparams : ∀ p ∈ (r.method m).paramTypes, r.Has (.type p) := fun p hp => hw.param hm hp
    refine .bind (coheres_findOpenPlug h (hi .exactGeneric) definition hopen _)
      fun found s hfirst hg hs => ?_
    have hfirst := (builds_findOpenPlug hw hopen (hi .exactGeneric) hdef hparams).ok hfirst
    cases found with
    | some plug => exact coheres_closePlug hs (hg.has hd) (hg.has hm) (hfirst.2.2.2 plug rfl).has
    | none =>
      have hrows := hg.hasIndex hi .inheritableGeneric
      refine .bind (coheres_findOpenPlug hs hrows definition (hg.has hopen) _)
        fun found s' hsecond hg' hs' => ?_
      have hsecond := (builds_findOpenPlug hs.wellFormed (hg.has hopen) hrows (hg.has hdef)
        fun p hp => hg.has (hparams p hp)).ok hsecond
      have hgs := hg.trans hg'
      cases found with
      | some plug =>
        exact coheres_closePlug hs' (hgs.has hd) (hgs.has hm) (hsecond.2.2.2 plug rfl).has
      | none => exact .pure hs' none

theorem coheres_resolveByIndex {index : PlugIndex} (hi : r.HasIndex index) {m : MethodId}
    (hm : r.Has (.method m)) : Coheres (PlugManager.resolveByIndex index m) r := by
  refine .get ?_
  split
  · exact .pure h none
  · rename_i declaring hdecl
    have hd := h.wellFormed.declaring hm hdecl
    refine .bind (coheres_resolveExact h hi declaring hm) fun found s _ hg hs => ?_
    cases found with
    | some plug => exact .pure hs (some plug)
    | none =>
      have hrows := hg.hasIndex hi .inheritable
      refine .bind (coheres_resolveInheritedAmong hs declaring (hg.has hm)
        fun row hmem => (hrows row hmem).2) fun found s' _ hg' hs' => ?_
      have hgs := hg.trans hg'
      cases found with
      | some plug => exact .pure hs' (some plug)
      | none =>
        refine .get ?_
        split
        · rename_i definition hdef
          exact coheres_resolveGeneric hs' (hgs.hasIndex hi) (hgs.has hd)
            (hs'.wellFormed.definition (hgs.has hd) hdef) (hgs.has hm)
        · exact .pure hs' none

/-- **Looking for a plug keeps a program in order**, and only adds to it, also if it fails. -/
theorem coheres_resolvePlug {p : PlugManager} (hi : r.HasIndex p.index) {m : MethodId}
    (hm : r.Has (.method m)) : Coheres (PlugManager.resolvePlug p m) r := by
  refine .get (.noting h fun s hg hs => ?_)
  dsimp only
  split
  · exact .pure hs _
  · exact .bind (coheres_resolveByIndex hs (hg.hasIndex hi) (hg.has hm))
      fun answer _ _ _ hdone => .pure hdone _

end

end Registry

end ProgramScan

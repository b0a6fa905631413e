import Mathlib.Data.List.Basic
import ProgramScan.Proofs.Plug.Alignment
import ProgramScan.Proofs.Plug.Settled

/-!
# Filing and checking plug types gives the same later

Plug types are filed by the identity of their targets and checked against the members of these.  Both
read the program and change only what they build, so over a later state of the program they build the
same (`Grows.findImplementors`, `Grows.checkPlugs`).  The types and methods that a check compares are
those of the index, which names elements of the program (`HasIndex`).
-/

namespace ProgramScan

theorem forM_congr_mem {m : Type → Type} [Monad m] {α : Type} {l : List α} {f g : α → m Unit}
    (h : ∀ a ∈ l, f a = g a) : l.forM f = l.forM g := by
  induction l with
  | nil => rfl
  | cons a l ih =>
    show (f a >>= fun _ => l.forM f) = (g a >>= fun _ => l.forM g)
    rw [h a List.mem_cons_self, ih fun b hb => h b (List.mem_cons_of_mem _ hb)]

theorem foldlM_congr_mem {m : Type → Type} [Monad m] {α β : Type} {l : List α}
    {f g : β → α → m β} (h : ∀ a ∈ l, ∀ b, f b a = g b a) (b : β) :
    l.foldlM f b = l.foldlM g b := by
  induction l generalizing b with
  | nil => rfl
  | cons a l ih =>
    rw [List.foldlM_cons, List.foldlM_cons, h a List.mem_cons_self]
    congr 1
    funext c
    exact ih (fun d hd => h d (List.mem_cons_of_mem _ hd)) c

namespace Registry

variable {r r' : Registry}

def HasShapes (r : Registry) (shapes : List (Option TypeId)) : Prop :=
  ∀ t, some t ∈ shapes → r.Has (.type t)

theorem HasShapes.drop {shapes : List (Option TypeId)} (h : r.HasShapes shapes) (n : Nat) :
    r.HasShapes (shapes.drop n) :=
  fun t ht => h t (List.mem_of_mem_drop ht)

theorem HasShapes.tail {s : Option TypeId} {shapes : List (Option TypeId)}
    (h : r.HasShapes (s :: shapes)) : r.HasShapes shapes :=
  fun t ht => h t (List.mem_cons_of_mem _ ht)

theorem WellFormed.comparableShape (hw : r.WellFormed) {t u : TypeId} (ht : r.Has (.type t))
    (h : r.comparableShape t = some u) : r.Has (.type u) := by
  unfold Registry.comparableShape at h
  split at h
  · rename_i element hform
    cases h
    apply hw.element ht
    rw [hform]
    rfl
  · cases h
  · cases h
    exact ht

theorem WellFormed.comparableShapes (hw : r.WellFormed) {m : MethodId} (hm : r.Has (.method m)) :
    r.HasShapes (r.comparableShapes m) := by
  intro t ht
  obtain ⟨p, hp, hshape⟩ := List.mem_map.mp ht
  exact hw.comparableShape (hw.param hm hp) hshape

/-- the rows of an index that are checked name elements -/
theorem HasIndex.closedPlugs {index : PlugIndex} (h : r.HasIndex index) :
    ∀ e ∈ index.closedPlugs, r.Has (.type e.1) ∧ r.Has (.type e.2) := by
  intro e he
  obtain ⟨row, hrow, hplug⟩ := List.mem_flatMap.mp he
  obtain ⟨plug, hp, rfl⟩ := List.mem_map.mp hplug
  have hrows : r.Has (.type row.target) ∧ ∀ p ∈ row.plugs, r.Has (.type p) := by
    rcases List.mem_append.mp hrow with hrow | hrow
    · exact h .exact row hrow
    · exact h .inheritable row hrow
  exact ⟨hrows.1, hrows.2 plug hp⟩

namespace Grows

variable (hg : r.Grows r') (hw : r.WellFormed)
include hg

/-! ## filing -/

theorem targetOf (mark : PlugTarget) : PlugIndex.targetOf r' mark = PlugIndex.targetOf r mark := by
  unfold PlugIndex.targetOf
  simp only [hg.resolveTypeName?]

include hw

theorem marksOf (modules : List ModuleId) :
    PlugIndex.marksOf r' modules = PlugIndex.marksOf r modules := by
  unfold PlugIndex.marksOf
  congr 1
  funext m
  rw [hg.module, List.flatMap_def, List.flatMap_def]
  congr 1
  apply List.map_congr_left
  intro plug hplug
  rw [hg.type (hw.home hplug)]

theorem insertPlug (index : PlugIndex) {target : TypeId} (ht : r.Has (.type target)) (plug : TypeId)
    (inheritable : Bool) :
    index.insert r' target plug inheritable = index.insert r target plug inheritable := by
  unfold PlugIndex.insert PlugBucket.insert
  rw [hg.isOpen hw ht, hg.typeKey ht]

theorem fileMark {plug : TypeId} (hp : r.Has (.type plug)) {mark : PlugTarget}
    (hm : mark ∈ (r.type plug).plugTargets) :
    PlugIndex.fileMark r' plug mark = PlugIndex.fileMark r plug mark := by
  unfold PlugIndex.fileMark
  rw [hg.targetOf]
  cases ht : PlugIndex.targetOf r mark with
  | error e => rfl
  | ok target =>
    have hhas := hw.targetOf hp hm ht
    simp only [hg.insertPlug hw _ hhas]

theorem findImplementors (modules : List ModuleId) :
    PlugIndex.findImplementors r' modules = PlugIndex.findImplementors r modules := by
  unfold PlugIndex.findImplementors
  rw [hg.marksOf hw]
  apply forM_congr_mem
  intro e he
  simp only [PlugIndex.marksOf, List.mem_flatMap, List.mem_map] at he
  obtain ⟨module, -, plug, hplug, mark, hmark, rfl⟩ := he
  exact hg.fileMark hw (hw.home hplug) hmark

/-! ## checking -/

omit hw in
theorem comparableShape {t : TypeId} (ht : r.Has (.type t)) :
    r'.comparableShape t = r.comparableShape t := by
  unfold Registry.comparableShape
  rw [hg.type ht]

theorem comparableShapes {m : MethodId} (hm : r.Has (.method m)) :
    r'.comparableShapes m = r.comparableShapes m := by
  unfold Registry.comparableShapes
  rw [hg.method hm]
  exact List.map_congr_left fun t ht => hg.comparableShape (hw.param hm ht)

omit hw in
theorem shapesFit {plug candidate : List (Option TypeId)} (hp : r.HasShapes plug)
    (hc : r.HasShapes candidate) : r'.shapesFit plug candidate = r.shapesFit plug candidate := by
  induction plug generalizing candidate with
  | nil => rfl
  | cons p ps ih =>
    cases candidate with
    | nil => rfl
    | cons c cs =>
      have hhead : r'.shapeFits p c = r.shapeFits p c := by
        cases p with
        | none => rfl
        | some t =>
          cases c with
          | none => rfl
          | some u =>
            exact hg.sameType (hp t List.mem_cons_self) (hc u List.mem_cons_self)
      rw [Registry.shapesFit, Registry.shapesFit, hhead, ih hp.tail hc.tail]

omit hw in
theorem sameKnowns {as bs : List (Option TypeId)} (ha : r.HasShapes as) (hb : r.HasShapes bs) :
    r'.sameKnowns as bs = r.sameKnowns as bs := by
  unfold Registry.sameKnowns
  congr 1
  apply all_congr_mem
  rintro ⟨a, b⟩ hp
  obtain ⟨hamem, hbmem⟩ := List.of_mem_zip hp
  cases a with
  | none => cases b <;> rfl
  | some t =>
    cases b with
    | none => rfl
    | some u => exact hg.sameType (ha t hamem) (hb u hbmem)

theorem fitsInstanceMember {declaring : Option TypeId}
    (hd : ∀ t, declaring = some t → r.Has (.type t)) {candidate plug : List (Option TypeId)}
    (hc : r.HasShapes candidate) (hp : r.HasShapes plug) :
    r'.fitsInstanceMember declaring candidate plug =
      r.fitsInstanceMember declaring candidate plug := by
  unfold Registry.fitsInstanceMember
  rw [compareFrom_start, compareFrom_start]
  have hfirst := hg.shapesFit hp hc
  have hsecond := hg.shapesFit (hp.drop 1) hc
  have hassign : ∀ this, some this ∈ plug →
      declaring.any (r'.isAssignable this) = declaring.any (r.isAssignable this) := by
    intro this hthis
    cases declaring with
    | none => rfl
    | some t => exact hg.isAssignable hw (hp this hthis) (hd t rfl)
  rw [hfirst, hsecond]
  split
  · rfl
  · cases candidate with
    | cons c cs => rfl
    | nil =>
      cases plug with
      | nil => rfl
      | cons p ps =>
        cases p with
        | none => rfl
        | some this => exact hassign this List.mem_cons_self

theorem fitsMember {plug : List (Option TypeId)} (hp : r.HasShapes plug) {candidate : MethodId}
    (hc : r.Has (.method candidate)) : r'.fitsMember plug candidate = r.fitsMember plug candidate := by
  have hshapes := hw.comparableShapes hc
  unfold Registry.fitsMember
  rw [hg.comparableShapes hw hc, hg.method hc]
  simp only
  rw [hg.sameKnowns hshapes hp,
    hg.fitsInstanceMember hw (fun t ht => hw.declaring hc ht) hshapes hp]

theorem matchesTargetMember {target : TypeId} (ht : r.Has (.type target)) {plug : MethodId}
    (hp : r.Has (.method plug)) :
    r'.matchesTargetMember target plug = r.matchesTargetMember target plug := by
  have hshapes := hw.comparableShapes hp
  unfold Registry.matchesTargetMember
  rw [hg.method hp, hg.methodsNamed hw ht, hg.comparableShapes hw hp]
  congr 1
  apply any_congr_mem
  intro c hc
  exact hg.fitsMember hw hshapes (hw.methodOf ht (List.mem_filter.mp hc).1)

theorem plugFinding? {target : TypeId} (ht : r.Has (.type target)) {plug : MethodId}
    (hp : r.Has (.method plug)) : r'.plugFinding? target plug = r.plugFinding? target plug := by
  unfold Registry.plugFinding?
  rw [hg.method hp, hg.methodName hw hp, hg.matchesTargetMember hw ht hp]

omit hw in
theorem insertField (fields : FieldPlugs) {target : TypeId} (ht : r.Has (.type target))
    (plug : FieldPlug) : fields.insert r' target plug = fields.insert r target plug := by
  unfold FieldPlugs.insert FieldPlugs.get?
  rw [hg.typeKey ht, hg.fullName ht]

omit hw in
theorem addFieldPlugs (fields : FieldPlugs) {target plug : TypeId} (ht : r.Has (.type target))
    (hp : r.Has (.type plug)) :
    r'.addFieldPlugs fields target plug = r.addFieldPlugs fields target plug := by
  unfold Registry.addFieldPlugs
  rw [hg.type hp]
  apply foldlM_congr_mem
  intro replacement _ fields
  exact hg.insertField fields ht replacement

theorem checkPlugType (fields : FieldPlugs) {target plug : TypeId} (ht : r.Has (.type target))
    (hp : r.Has (.type plug)) :
    r'.checkPlugType fields target plug = r.checkPlugType fields target plug := by
  have hfindings : (r.type plug).methods.filterMap (r'.plugFinding? target) =
      (r.type plug).methods.filterMap (r.plugFinding? target) := by
    apply List.filterMap_congr
    intro m hm
    exact hg.plugFinding? hw ht (hw.methodOf hp hm)
  unfold Registry.checkPlugType
  rw [hg.type hp, hfindings, hg.addFieldPlugs fields ht hp]

theorem checkPlugs {index : PlugIndex} (hi : r.HasIndex index) :
    r'.checkPlugs index = r.checkPlugs index := by
  unfold Registry.checkPlugs
  apply foldlM_congr_mem
  intro e he fields
  obtain ⟨ht, hp⟩ := hi.closedPlugs e he
  exact hg.checkPlugType hw fields ht hp

end Grows

end Registry

end ProgramScan

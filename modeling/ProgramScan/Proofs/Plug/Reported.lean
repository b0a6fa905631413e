import ProgramScan.Proofs.Plug.Overlooked
import ProgramScan.Proofs.Registry.Building

/-!
# Where plugs are taken from

Every plug is made from a plug method that the search took, for the method asked about or for the
member of a definition that it was instantiated from.

* `Registry.FoundClosed`               a plug method is filed for the declaring type or an ancestor;
* `Registry.FoundOpen`                 it is filed for the definition of the declaring type;
* `Registry.AppliedTo`                 a plug is the plug method or an instance of it;
* `Registry.ClosedFrom`                a plug belongs to the plug method on an instance of its type;
* `Registry.resolveByIndex_chosen`     how every plug was found, and how it was made;
* `PlugManager.Asked`                  managers that were asked for plugs before;
* `PlugManager.resolvePlug_reported`   a plug method that is reported was overlooked by the check.
-/

namespace ProgramScan

namespace Registry

variable {r : Registry} {target : TypeId} {m f : MethodId}

/-! ## among plug types -/

/-- noting names changes nothing that what follows depends on -/
theorem exists_of_noting {α : Type} {uses : Registry → List TypeId} {k : Unit → Action α} {a : α}
    {r' : Registry} (hw : r.WellFormed)
    (h : ((modify fun s => s.useNames (uses s) : Action Unit) >>= k) r = .ok a r') :
    ∃ s, r.Grows s ∧ s.WellFormed ∧ k () s = .ok a r' := by
  obtain ⟨_, s, hnote, h⟩ := bind_eq_ok_iff.mp h
  cases hnote
  exact ⟨_, .useNames r _, hw.useNames _, h⟩

/-- `f` is taken for `m` from one of the plug types `plugs` of `target`. -/
structure TakenFrom (r : Registry) (plugs : List TypeId) (target : TypeId) (m f : MethodId) :
    Prop where
  filed : ∃ plug ∈ plugs, f ∈ (r.type plug).methods
  takes : r.Takes target m f

inductive AppliedTo (r : Registry) (m f : MethodId) : MethodId → Prop
  | self : AppliedTo r m f f
  | generic {q : MethodId} (hf : (r.method f).isGenericDefinition = true)
    (hm : (r.method m).isGenericInstance = true)
    (hq : Settled (instantiateMethod f (r.method m).genericArgs) q r) : AppliedTo r m f q

theorem AppliedTo.madeFrom {q : MethodId} (h : r.AppliedTo m f q) : r.MadeFrom f q := by
  cases h with
  | self => exact .self
  | generic _ _ hq => exact .generic .self hq

theorem AppliedTo.mono {r' : Registry} {q : MethodId} (hg : r.Grows r') (hm : r.Has (.method m))
    (hf : r.Has (.method f)) (h : r.AppliedTo m f q) : r'.AppliedTo m f q := by
  cases h with
  | self => exact .self
  | generic hgen hinst hq =>
    refine .generic (by rw [hg.method hf, hgen]) (by rw [hg.method hm, hinst]) ?_
    rw [hg.method hm]
    exact hq.mono hg

/-- A method that can stand in for others: it is static and public, and not disabled. -/
structure CanPlug (r : Registry) (f : MethodId) : Prop where
  isStatic : (r.method f).isStatic = true
  isPublic : (r.method f).isPublic = true
  enabled : isDisabled (r.method f) = false

theorem resolveAmong_found {r' : Registry} (hw : r.WellFormed) {plugs : List TypeId}
    (hp : ∀ p ∈ plugs, r.Has (.type p)) (hm : r.Has (.method m))
    {params : List TypeId} {q : MethodId}
    (h : resolveAmong target plugs m params r = .ok (some q) r') :
    ∃ f, r.TakenFrom plugs target m f ∧ r.CanPlug f ∧ r'.AppliedTo m f q := by
  rw [resolveAmong, get_bind_apply] at h
  obtain ⟨s, hg, hws, h⟩ := exists_of_noting hw h
  obtain ⟨found, s', hfind, h⟩ := bind_eq_ok_iff.mp h
  cases hplug : r.findPlug target m
      (if (r.method m).isStatic = true then params else target :: params) plugs with
  | error e =>
    rw [hplug] at hfind
    cases hfind
  | ok answer =>
    rw [hplug] at hfind
    cases hfind
    cases found with
    | none => cases h
    | some f =>
      obtain ⟨plug, hmem, hf, htakes⟩ := takes_of_findPlug hplug
      obtain ⟨hstatic, hpublic⟩ := public_of_findPlug hplug
      have hold := hw.methodOf (hp plug hmem) hf
      refine ⟨f, ⟨⟨plug, hmem, hf⟩, htakes⟩, ?_⟩
      dsimp only at h
      split at h
      · cases h
      rename_i henabled
      refine ⟨⟨hstatic, hpublic, Bool.eq_false_iff.mpr henabled⟩, ?_⟩
      split at h
      · rename_i hgeneric
        simp only [Bool.and_eq_true] at hgeneric
        obtain ⟨⟨hgen, hinst⟩, -⟩ := hgeneric
        obtain ⟨inst, s₁, hrun, h⟩ := bind_eq_ok_iff.mp h
        cases h
        have hb := builds_instantiateMethod hws (hg.has hold)
          fun a hmem => hg.has (hw.genericArg hm hmem)
        obtain ⟨hg', -, hset, -⟩ := hb.ok hrun
        have hgs := hg.trans hg'
        refine .generic (by rw [hgs.method hold, hgen]) (by rw [hgs.method hm, hinst]) ?_
        rw [hgs.method hm]
        exact hset
      · cases h
        exact .self

variable {r' : Registry} {q : MethodId}

theorem resolveIn_found (hw : r.WellFormed) {plugs : List TypeId}
    (hp : ∀ p ∈ plugs, r.Has (.type p)) (hm : r.Has (.method m))
    (h : resolveIn target plugs m r = .ok (some q) r') :
    ∃ f, r.TakenFrom plugs target m f ∧ r.CanPlug f ∧ r'.AppliedTo m f q := by
  rw [resolveIn, get_bind_apply] at h
  exact resolveAmong_found hw hp hm h

theorem Grows.takenFrom (hg : r.Grows r') (hw : r.WellFormed) (ht : r.Has (.type target))
    (hm : r.Has (.method m)) {plugs : List TypeId} (hp : ∀ p ∈ plugs, r.Has (.type p))
    (h : r'.TakenFrom plugs target m f) : r.TakenFrom plugs target m f := by
  obtain ⟨⟨plug, hmem, hf⟩, htakes⟩ := h
  rw [hg.type (hp plug hmem)] at hf
  refine ⟨⟨plug, hmem, hf⟩, ?_⟩
  have hhas := hw.methodOf (hp plug hmem) hf
  rwa [Takes, hg.signatureAgrees hw hhas hm, hg.standsFor hw ht hm hhas] at htakes

theorem TakenFrom.has (hw : r.WellFormed) {plugs : List TypeId}
    (hp : ∀ p ∈ plugs, r.Has (.type p)) (h : r.TakenFrom plugs target m f) : r.Has (.method f) := by
  obtain ⟨plug, hmem, hf⟩ := h.filed
  exact hw.methodOf (hp plug hmem) hf

theorem Grows.canPlug_iff (hg : r.Grows r') (hf : r.Has (.method f)) :
    r'.CanPlug f ↔ r.CanPlug f := by
  constructor
  · rintro ⟨hs, hp, he⟩
    rw [hg.method hf] at hs hp he
    exact ⟨hs, hp, he⟩
  · rintro ⟨hs, hp, he⟩
    rw [← hg.method hf] at hs hp he
    exact ⟨hs, hp, he⟩

/-! ## in the index -/

/-- `f` is taken for `m`, filed for the declaring type or for an ancestor of it. -/
def FoundClosed (r : Registry) (index : PlugIndex) (declaring : TypeId) (m f : MethodId) : Prop :=
  (∃ plugs, index.exact.get? r declaring = some plugs ∧ r.TakenFrom plugs declaring m f) ∨
    ∃ row ∈ index.inheritable.rows, r.isSubclassOf declaring row.target = true ∧
      r.TakenFrom row.plugs declaring m f

/-- `f` is taken for the member that `m` was instantiated from, filed for the definition. -/
def FoundOpen (r : Registry) (index : PlugIndex) (declaring : TypeId) (m f : MethodId) : Prop :=
  ∃ definition openMethod, (r.type declaring).form.definition? = some definition ∧
    PlugManager.openMember? r definition m = some openMethod ∧
    ∃ bucket ∈ [index.exactGeneric, index.inheritableGeneric], ∃ plugs,
      bucket.get? r definition = some plugs ∧ r.TakenFrom plugs definition openMethod f

theorem FoundClosed.has {index : PlugIndex} (hw : r.WellFormed) (hi : r.HasIndex index)
    {declaring : TypeId} (h : r.FoundClosed index declaring m f) : r.Has (.method f) := by
  obtain ⟨plugs, hplugs, htaken⟩ | ⟨row, hrow, -, htaken⟩ := h
  · exact htaken.has hw ((hi .exact).get? hplugs)
  · exact htaken.has hw (hi .inheritable row hrow).2

theorem FoundOpen.has {index : PlugIndex} (hw : r.WellFormed) (hi : r.HasIndex index)
    {declaring : TypeId} (h : r.FoundOpen index declaring m f) : r.Has (.method f) := by
  obtain ⟨definition, openMethod, -, -, bucket, hbucket, plugs, hplugs, htaken⟩ := h
  rcases List.mem_pair.mp hbucket with rfl | rfl
  · exact htaken.has hw ((hi .exactGeneric).get? hplugs)
  · exact htaken.has hw ((hi .inheritableGeneric).get? hplugs)

section
variable (hw : r.WellFormed) {index : PlugIndex} (hi : r.HasIndex index)
  {declaring : TypeId} (hd : r.Has (.type declaring)) (hm : r.Has (.method m))
include hw hm

theorem resolveExact_found (hi : r.HasIndex index)
    (h : PlugManager.resolveExact index declaring m r = .ok (some q) r') :
    ∃ f, r.FoundClosed index declaring m f ∧ r.CanPlug f ∧ r'.AppliedTo m f q := by
  rw [PlugManager.resolveExact, get_bind_apply] at h
  cases hplugs : index.exact.get? r declaring with
  | none =>
    rw [hplugs] at h
    cases h
  | some plugs =>
    rw [hplugs] at h
    obtain ⟨f, htaken, happlied⟩ := resolveIn_found hw ((hi .exact).get? hplugs) hm h
    exact ⟨f, .inl ⟨plugs, hplugs, htaken⟩, happlied⟩

include hd

theorem resolveInherited_found {row : PlugRow} (hp : ∀ p ∈ row.plugs, r.Has (.type p))
    (h : PlugManager.resolveInherited declaring m row r = .ok (some q) r') :
    r.isSubclassOf declaring row.target = true ∧
      ∃ f, r.TakenFrom row.plugs declaring m f ∧ r.CanPlug f ∧ r'.AppliedTo m f q := by
  rw [PlugManager.resolveInherited, get_bind_apply] at h
  obtain ⟨s, hg, hws, h⟩ := exists_of_noting hw h
  split at h
  · rename_i hsub
    obtain ⟨f, htaken, hcan, happlied⟩ :=
      resolveIn_found hws (fun p h => hg.has (hp p h)) (hg.has hm) h
    have htaken := hg.takenFrom hw hd hm hp htaken
    exact ⟨hsub, f, htaken, (hg.canPlug_iff (htaken.has hw hp)).mp hcan, happlied⟩
  · cases h

theorem resolveInheritedAmong_found {rows : List PlugRow} (hr : r.HasRows rows)
    (h : PlugManager.resolveInheritedAmong declaring m rows r = .ok (some q) r') :
    ∃ row ∈ rows, r.isSubclassOf declaring row.target = true ∧
      ∃ f, r.TakenFrom row.plugs declaring m f ∧ r.CanPlug f ∧ r'.AppliedTo m f q := by
  induction rows generalizing r with
  | nil => cases h
  | cons row rows ih =>
    obtain ⟨ht, hp⟩ := hr row List.mem_cons_self
    obtain ⟨found, s, hfirst, h⟩ := bind_eq_ok_iff.mp h
    cases found with
    | some plug =>
      cases h
      obtain ⟨hsub, hfound⟩ := resolveInherited_found hw hd hm hp hfirst
      exact ⟨row, List.mem_cons_self, hsub, hfound⟩
    | none =>
      obtain ⟨hg, hws, -⟩ := (builds_resolveInherited hw hd hm ht hp).ok hfirst
      have hrest : ∀ row ∈ rows, r.Has (.type row.target) ∧ ∀ p ∈ row.plugs, r.Has (.type p) :=
        fun row hmem => hr row (List.mem_cons_of_mem _ hmem)
      obtain ⟨row', hmem, hsub, f, htaken, hcan, happlied⟩ := ih hws (hg.has hd) (hg.has hm)
        (fun row hmem => ⟨hg.has (hrest row hmem).1, fun p h => hg.has ((hrest row hmem).2 p h)⟩) h
      obtain ⟨ht', hp'⟩ := hrest row' hmem
      rw [hg.isSubclassOf hw hd ht'] at hsub
      have htaken := hg.takenFrom hw hd hm hp' htaken
      exact ⟨row', List.mem_cons_of_mem _ hmem, hsub, f, htaken,
        (hg.canPlug_iff (htaken.has hw hp')).mp hcan, happlied⟩

end

/-! ## through the definition -/

/-- `plug`, the generic type that declares `openPlug`, is closed with the arguments of `declaring`; `g`
is the member of the instance that belongs to `openPlug`, and `q` is made of it for `m`. -/
structure ClosedBy (r : Registry) (declaring : TypeId) (m openPlug : MethodId) (plug closed : TypeId)
    (g q : MethodId) : Prop where
  declares : (r.method openPlug).declaring = some plug
  generic : (r.type plug).form.isGenericDefinition = true
  closes : Settled (instantiate plug (r.type declaring).form.genericArgs) closed r
  member : Settled (correspondingMethod closed openPlug) g r
  applied : r.AppliedTo m g q

/-- `q` belongs to the plug method `f`, taken for a member of the definition of `declaring`. -/
def ClosedFrom (r : Registry) (declaring : TypeId) (m f q : MethodId) : Prop :=
  ∃ definition, ∃ openMethod ∈ (r.type definition).methods, ∃ openPlug plug closed g,
    r.AppliedTo openMethod f openPlug ∧ r.ClosedBy declaring m openPlug plug closed g q

theorem ClosedFrom.madeFrom {declaring : TypeId} (h : r.ClosedFrom declaring m f q) :
    r.MadeFrom f q := by
  obtain ⟨_, openMethod, -, openPlug, plug, closed, g, hopen, hclosed⟩ := h
  have hmember : r.MadeFrom f g := .member hopen.madeFrom hclosed.member
  cases hclosed.applied with
  | self => exact hmember
  | generic _ _ hq => exact .generic hmember hq

section
variable (hw : r.WellFormed) (hm : r.Has (.method m))
include hw hm

theorem findOpenPlug_found {bucket : PlugBucket} (hb : r.HasRows bucket.rows) {definition : TypeId}
    {params : List TypeId}
    (h : PlugManager.findOpenPlug bucket definition m params r = .ok (some q) r') :
    ∃ plugs f, bucket.get? r definition = some plugs ∧ r.TakenFrom plugs definition m f ∧
      r.CanPlug f ∧ r'.AppliedTo m f q := by
  rw [PlugManager.findOpenPlug, get_bind_apply] at h
  cases hplugs : bucket.get? r definition with
  | none =>
    rw [hplugs] at h
    cases h
  | some plugs =>
    rw [hplugs] at h
    obtain ⟨f, htaken, happlied⟩ := resolveAmong_found hw (hb.get? hplugs) hm h
    exact ⟨plugs, f, rfl, htaken, happlied⟩

/-- the plug of a member of `declaring` is made of the one of the definition's member -/
theorem closePlug_closed {declaring : TypeId} (hd : r.Has (.type declaring)) {openPlug : MethodId}
    (ho : r.Has (.method openPlug))
    (h : PlugManager.closePlug declaring m openPlug r = .ok (some q) r') :
    r.Grows r' ∧ ∃ plug closed g, r'.ClosedBy declaring m openPlug plug closed g q := by
  rw [PlugManager.closePlug, get_bind_apply] at h
  cases hp : (r.method openPlug).declaring with
  | none =>
    rw [hp] at h
    cases h
  | some plug =>
    rw [hp] at h
    dsimp only at h
    split at h
    swap
    · cases h
    rename_i hgeneric
    have hplug := hw.declaring ho hp
    obtain ⟨closed, s, hclosed, h⟩ := bind_eq_ok_iff.mp h
    obtain ⟨g, s', hmember, h⟩ := bind_eq_ok_iff.mp h
    obtain ⟨hg, hws, hset, hclosed'⟩ :=
      (makes_instantiate hw hplug fun a h => hw.genericArgOf hd h).ok hclosed
    obtain ⟨hg', hws', hset', hghas⟩ :=
      (builds_correspondingMethod hws hclosed'.1 (hg.has ho)).ok hmember
    have hgs := hg.trans hg'
    rw [get_bind_apply] at h
    have hclosedBy : ∀ {t}, s'.Grows t → t.AppliedTo m g q →
        t.ClosedBy declaring m openPlug plug closed g q := by
      intro t ht happlied
      have hgt := hgs.trans ht
      refine ⟨by rw [hgt.method ho, hp], by rw [hgt.type hplug, hgeneric], ?_, hset'.mono ht, happlied⟩
      rw [hgt.type hd]
      exact hset.mono (hg'.trans ht)
    split at h
    · rename_i hinst
      obtain ⟨hgen, hinst⟩ := Bool.and_eq_true_iff.mp hinst
      obtain ⟨inst, s₃, hrun, h⟩ := bind_eq_ok_iff.mp h
      cases h
      obtain ⟨hg₃, -, hset₃, -⟩ := (builds_instantiateMethod hws' hghas fun a h =>
        hws'.genericArg (hgs.has hm) h).ok hrun
      refine ⟨hgs.trans hg₃, plug, closed, g,
        hclosedBy hg₃ (.generic (by rw [hg₃.method hghas, hgen]) ?_ ?_)⟩
      · rw [hg₃.method (hgs.has hm), hinst]
      · rw [hg₃.method (hgs.has hm)]
        exact hset₃
    · cases h
      exact ⟨hgs, plug, closed, q, hclosedBy (.refl _) .self⟩

theorem resolveGeneric_found {index : PlugIndex} (hi : r.HasIndex index) {declaring : TypeId}
    (hd : r.Has (.type declaring)) {definition : TypeId}
    (hdef : (r.type declaring).form.definition? = some definition)
    (h : PlugManager.resolveGeneric index declaring definition m r = .ok (some q) r') :
    ∃ f, r.FoundOpen index declaring m f ∧ r.CanPlug f ∧ r'.ClosedFrom declaring m f q := by
  rw [PlugManager.resolveGeneric, get_bind_apply] at h
  have hdefhas := hw.definition hd hdef
  cases ho : PlugManager.openMember? r definition m with
  | none =>
    rw [ho] at h
    cases h
  | some openMethod =>
    rw [ho] at h
    have hmember := (List.mem_filter.mp (mem_of_single? ho)).1
    have hopen : r.Has (.method openMethod) := hw.methodOf hdefhas hmember
    have hparams : ∀ p ∈ (r.method m).paramTypes, r.Has (.type p) := fun p h => hw.param hm h
    -- the first bucket with a plug decides, and its plug is closed
    have hends : ∀ {s f plug}, r.Grows s → s.WellFormed → s.Has (.method plug) →
        s.AppliedTo openMethod f plug → r.Has (.method f) →
        PlugManager.closePlug declaring m plug s = .ok (some q) r' →
        r'.ClosedFrom declaring m f q := by
      intro s f plug hg hws hplug happlied hf hclose
      obtain ⟨hg', type, closed, g, hclosed⟩ :=
        closePlug_closed hws (hg.has hm) (hg.has hd) hplug hclose
      refine ⟨definition, openMethod, ?_, plug, type, closed, g,
        happlied.mono hg' (hg.has hopen) (hg.has hf), hclosed⟩
      rwa [(hg.trans hg').type hdefhas]
    obtain ⟨found, s, hfirst, h⟩ := bind_eq_ok_iff.mp h
    obtain ⟨hg, hws, -, hfound⟩ :=
      (builds_findOpenPlug hw hopen (hi .exactGeneric) hdefhas hparams).ok hfirst
    cases found with
    | some plug =>
      obtain ⟨plugs, f, hplugs, htaken, hcan, happlied⟩ :=
        findOpenPlug_found hw hopen (hi .exactGeneric) hfirst
      have hf := htaken.has hw ((hi .exactGeneric).get? hplugs)
      exact ⟨f, ⟨definition, openMethod, hdef, ho, _, List.mem_cons_self, plugs, hplugs, htaken⟩,
        hcan, hends hg hws (hfound plug rfl).has happlied hf h⟩
    | none =>
      obtain ⟨found, s', hsecond, h⟩ := bind_eq_ok_iff.mp h
      have hrows := hg.hasIndex hi .inheritableGeneric
      obtain ⟨hg', hws', -, hfound⟩ := (builds_findOpenPlug hws (hg.has hopen) hrows
        (hg.has hdefhas) fun p h => hg.has (hparams p h)).ok hsecond
      cases found with
      | none => cases h
      | some plug =>
        obtain ⟨plugs, f, hplugs, htaken, hcan, happlied⟩ :=
          findOpenPlug_found hws (hg.has hopen) hrows hsecond
        rw [hg.bucket_get? _ hdefhas] at hplugs
        have hp := (hi .inheritableGeneric).get? hplugs
        have htaken := hg.takenFrom hw hdefhas hopen hp htaken
        have hf := htaken.has hw hp
        exact ⟨f, ⟨definition, openMethod, hdef, ho, _,
          List.mem_cons_of_mem _ List.mem_cons_self, plugs, hplugs, htaken⟩,
          (hg.canPlug_iff hf).mp hcan,
          hends (hg.trans hg') hws' (hfound plug rfl).has happlied hf h⟩

theorem Grows.foundClosed {index : PlugIndex} (hg : r.Grows r') (hi : r.HasIndex index)
    {declaring : TypeId} (hd : r.Has (.type declaring)) (h : r'.FoundClosed index declaring m f) :
    r.FoundClosed index declaring m f := by
  obtain ⟨plugs, hplugs, htaken⟩ | ⟨row, hrow, hsub, htaken⟩ := h
  · rw [hg.bucket_get? index.exact hd] at hplugs
    exact .inl ⟨plugs, hplugs, hg.takenFrom hw hd hm ((hi .exact).get? hplugs) htaken⟩
  · obtain ⟨htarget, hp⟩ := hi .inheritable row hrow
    rw [hg.isSubclassOf hw hd htarget] at hsub
    exact .inr ⟨row, hrow, hsub, hg.takenFrom hw hd hm hp htaken⟩

theorem Grows.foundOpen {index : PlugIndex} (hg : r.Grows r') (hi : r.HasIndex index)
    {declaring : TypeId} (hd : r.Has (.type declaring)) (h : r'.FoundOpen index declaring m f) :
    r.FoundOpen index declaring m f := by
  obtain ⟨definition, openMethod, hdef, ho, bucket, hbucket, plugs, hplugs, htaken⟩ := h
  rw [hg.type hd] at hdef
  have hdefhas := hw.definition hd hdef
  rw [hg.openMember? hw hm hdefhas] at ho
  rw [hg.bucket_get? bucket hdefhas] at hplugs
  have hopen : r.Has (.method openMethod) :=
    hw.methodOf hdefhas (List.mem_filter.mp (mem_of_single? ho)).1
  have hrows : r.HasRows bucket.rows := by
    rcases List.mem_pair.mp hbucket with rfl | rfl
    · exact hi .exactGeneric
    · exact hi .inheritableGeneric
  exact ⟨definition, openMethod, hdef, ho, bucket, hbucket, plugs, hplugs,
    hg.takenFrom hw hdefhas hopen (hrows.get? hplugs) htaken⟩

end

/-- **How a plug is found and made**: a plug method is taken for the method, and applied to it; or one is
taken for the member of a definition, and closed with the arguments of the instance. -/
theorem resolveByIndex_chosen {index : PlugIndex} (hw : r.WellFormed) (hi : r.HasIndex index)
    (hm : r.Has (.method m))
    (h : PlugManager.resolveByIndex index m r = .ok (some q) r') :
    ∃ declaring f, (r.method m).declaring = some declaring ∧ r.CanPlug f ∧
      (r.FoundClosed index declaring m f ∧ r'.AppliedTo m f q ∨
        r.FoundOpen index declaring m f ∧ r'.ClosedFrom declaring m f q) := by
  rw [PlugManager.resolveByIndex, get_bind_apply] at h
  cases hdecl : (r.method m).declaring with
  | none =>
    rw [hdecl] at h
    cases h
  | some declaring =>
    rw [hdecl] at h
    have hd := hw.declaring hm hdecl
    refine ⟨declaring, ?_⟩
    simp only [true_and]
    obtain ⟨found, s, hexact, h⟩ := bind_eq_ok_iff.mp h
    obtain ⟨hg, hws, -⟩ := (builds_resolveExact hw hi hd hm).ok hexact
    cases found with
    | some plug =>
      cases h
      obtain ⟨f, hclosed, hcan, happlied⟩ := resolveExact_found hw hm hi hexact
      exact ⟨f, hcan, .inl ⟨hclosed, happlied⟩⟩
    | none =>
      obtain ⟨found, s', hamong, h⟩ := bind_eq_ok_iff.mp h
      have hrows := hg.hasIndex hi .inheritable
      cases found with
      | some plug =>
        cases h
        obtain ⟨row, hrow, hsub, f, htaken, hcan, happlied⟩ :=
          resolveInheritedAmong_found hws (hg.has hd) (hg.has hm) hrows hamong
        have hclosed : s.FoundClosed index declaring m f := .inr ⟨row, hrow, hsub, htaken⟩
        have hclosed := hg.foundClosed hw hm hi hd hclosed
        exact ⟨f, (hg.canPlug_iff (hclosed.has hw hi)).mp hcan, .inl ⟨hclosed, happlied⟩⟩
      | none =>
        obtain ⟨hg', hws', -⟩ :=
          (builds_resolveInheritedAmong hws (hg.has hd) (hg.has hm) hrows).ok hamong
        have hgs := hg.trans hg'
        dsimp only at h
        rw [get_bind_apply] at h
        cases hdef : (s'.type declaring).form.definition? with
        | none =>
          rw [hdef] at h
          cases h
        | some definition =>
          rw [hdef] at h
          obtain ⟨f, hopen, hcan, hmade⟩ := resolveGeneric_found hws' (hgs.has hm) (hgs.hasIndex hi)
            (hgs.has hd) hdef h
          have hopen := hgs.foundOpen hw hm hi hd hopen
          exact ⟨f, (hgs.canPlug_iff (hopen.has hw hi)).mp hcan, .inr ⟨hopen, hmade⟩⟩

/-- **A plug is made from a plug method that was taken**, for the member of a closed target or for
that of a definition. -/
theorem resolveByIndex_found {index : PlugIndex} (hw : r.WellFormed) (hi : r.HasIndex index)
    (hm : r.Has (.method m))
    (h : PlugManager.resolveByIndex index m r = .ok (some q) r') :
    ∃ declaring f, (r.method m).declaring = some declaring ∧
      (r.FoundClosed index declaring m f ∨ r.FoundOpen index declaring m f) ∧
      r'.MadeFrom f q := by
  obtain ⟨declaring, f, hdecl, -, ⟨hfound, hmade⟩ | ⟨hfound, hmade⟩⟩ :=
    resolveByIndex_chosen hw hi hm h
  · exact ⟨declaring, f, hdecl, .inl hfound, hmade.madeFrom⟩
  · exact ⟨declaring, f, hdecl, .inr hfound, hmade.madeFrom⟩

theorem FoundClosed.overlooked {index : PlugIndex} (hw : r.WellFormed) {declaring : TypeId}
    (hd : r.Has (.type declaring)) (hm : r.Has (.method m))
    (h : r.FoundClosed index declaring m f) (hu : r.Unmatched declaring f) :
    r.Overlooked declaring m f := by
  obtain ⟨_, -, htaken⟩ | ⟨_, -, -, htaken⟩ := h
  · exact hu.overlooked hw hd hm htaken.takes
  · exact hu.overlooked hw hd hm htaken.takes

end Registry

/-! ## managers -/

namespace PlugManager

open Registry

/-- managers of an index that names elements of the program, asked for plugs any number of times -/
inductive Asked : Registry → PlugManager → Prop
  | fresh {r : Registry} {p : PlugManager} (hw : r.WellFormed) (hi : r.HasIndex p.index)
    (hp : p.resolved = ∅) : Asked r p
  | answered {r r' : Registry} {p p' : PlugManager} {m : MethodId} {answer : Option MethodId}
    (h : Asked r p) (hm : r.Has (.method m)) (hrun : resolvePlug p m r = .ok (answer, p') r') :
    Asked r' p'
  | grown {r r' : Registry} {p : PlugManager} (h : Asked r p) (hg : r.Grows r')
    (hw : r'.WellFormed) : Asked r' p

/-- The answers that are remembered would be found again. -/
structure Recalls (r : Registry) (p : PlugManager) : Prop where
  wellFormed : r.WellFormed
  index : r.HasIndex p.index
  answers : ∀ {key answer}, p.resolved.get? key = some answer → ∃ m, r.Has (.method m) ∧
    r.methodKey m = key ∧ Settled (resolveByIndex p.index m) answer r

variable {r r' : Registry} {p p' : PlugManager} {m q : MethodId} {answer : Option MethodId}

theorem Recalls.grown (h : Recalls r p) (hg : r.Grows r') (hw : r'.WellFormed) : Recalls r' p where
  wellFormed := hw
  index := hg.hasIndex h.index
  answers hkey := by
    obtain ⟨m, hm, hkey, hset⟩ := h.answers hkey
    exact ⟨m, hg.has hm, by rw [hg.methodKey h.wellFormed hm, hkey], hset.mono hg⟩

theorem Recalls.resolvePlug (h : Recalls r p) (hm : r.Has (.method m))
    (hrun : resolvePlug p m r = .ok (answer, p') r') :
    Recalls r' p' ∧ r.Grows r' ∧ ∃ m', r.Has (.method m') ∧ r.sameMethod m' m = true ∧
      Settled (resolveByIndex p.index m') answer r' := by
  rw [PlugManager.resolvePlug, get_bind_apply] at hrun
  obtain ⟨s, hg, hws, hrun⟩ := exists_of_noting h.wellFormed hrun
  dsimp only at hrun
  have hs := h.grown hg hws
  cases hkey : p.resolved.get? (r.methodKey m) with
  | some known =>
    rw [hkey] at hrun
    cases hrun
    obtain ⟨m', hm', hsame, hset⟩ := h.answers hkey
    exact ⟨hs, hg, m', hm', by simp [sameMethod, hsame], hset.mono hg⟩
  | none =>
    rw [hkey] at hrun
    obtain ⟨found, s', hfind, hrun⟩ := bind_eq_ok_iff.mp hrun
    cases hrun
    obtain ⟨hg', hw', hset, -⟩ := (builds_resolveByIndex hws hs.index (hg.has hm)).ok hfind
    have hs' := hs.grown hg' hw'
    refine ⟨⟨hw', hs'.index, fun {key known} hkey' => ?_⟩, hg.trans hg', m, hm,
      by simp [sameMethod], hset⟩
    change (p.resolved.insert (r.methodKey m) answer).get? key = some known at hkey'
    by_cases hk : key = r.methodKey m
    · rw [hk, Table.get?_insert_self] at hkey'
      cases hkey'
      exact ⟨m, hg'.has (hg.has hm), by
        rw [hk, (hg.trans hg').methodKey h.wellFormed hm], hset⟩
    · rw [Table.get?_insert_of_ne _ _ hk] at hkey'
      exact hs'.answers hkey'

theorem Asked.recalls (h : Asked r p) : Recalls r p := by
  induction h with
  | fresh hw hi hp =>
    refine ⟨hw, hi, fun hkey => ?_⟩
    rw [hp] at hkey
    cases hkey
  | answered h hm hrun ih => exact (ih.resolvePlug hm hrun).1
  | grown h hg hw ih => exact ih.grown hg hw

/-- **Every plug is made from a plug method that was taken.**  One that is filed for the declaring
type or an ancestor, and that the check reports for the declaring type, was overlooked by the check
for one of the reasons of `Overlooked`. -/
theorem resolvePlug_reported (h : Asked r p) (hm : r.Has (.method m))
    (hrun : resolvePlug p m r = .ok (some q, p') r') :
    ∃ m' target f, r.sameMethod m' m = true ∧ (r.method m').declaring = some target ∧
      r'.MadeFrom f q ∧
      (r.FoundClosed p.index target m' f ∧ (r.Unmatched target f → r.Overlooked target m' f) ∨
        r.FoundOpen p.index target m' f) := by
  have hrecalls := h.recalls
  have hw := hrecalls.wellFormed
  obtain ⟨hafter, hg, m', hm', hsame, hset⟩ := hrecalls.resolvePlug hm hrun
  obtain ⟨r'', hagain, hforget⟩ := hset.run hafter.wellFormed
  obtain ⟨target, f, hdecl, hfound, hmade⟩ := resolveByIndex_found hafter.wellFormed
    (hg.hasIndex hrecalls.index) (hg.has hm') hagain
  rw [hg.method hm'] at hdecl
  have ht := hw.declaring hm' hdecl
  refine ⟨m', target, f, hsame, hdecl, hmade.mono (.of_forget hforget), ?_⟩
  refine hfound.imp (fun hclosed => ?_) fun hopen => hg.foundOpen hw hm' hrecalls.index ht hopen
  have hclosed := hg.foundClosed hw hm' hrecalls.index ht hclosed
  exact ⟨hclosed, hclosed.overlooked hw ht hm'⟩

/-! ## plug methods that are reported and taken -/

deriving instance DecidableEq for PlugRow, PlugBucket, PlugIndex

/-- a public method without result -/
def looseMethod (module : ModuleId) (declaring : TypeId) (name : String) (modifiers : MethodFlags)
    (params : List Param) : Edit :=
  .declareMethod { module, name, declaring := some declaring, modifiers, params }

/-- The methods of `Impl` are filed for those of `Program`.  `Run` takes an object for a string, a
parameter of `Load` names the type that it stands for, and the instance of `Stop` is a string. -/
def looseEdits : List Edit :=
  [.addModule "App",
    .declareType { module := ⟨1⟩, namespaceName := "App", name := "Program" },
    looseMethod ⟨1⟩ ⟨20⟩ "Run" MethodFlags.isStatic [{ name := "value", type := ⟨4⟩ }],
    looseMethod ⟨1⟩ ⟨20⟩ "Load" MethodFlags.isStatic [{ name := "value", type := ⟨12⟩ }],
    looseMethod ⟨1⟩ ⟨20⟩ "Stop" 0 [],
    .addModule "Plugs",
    .declareType
      { module := ⟨2⟩, namespaceName := "Plugs", name := "Impl",
        annotations := [.plug { target := some ⟨20⟩ }] },
    looseMethod ⟨2⟩ ⟨21⟩ "Run" MethodFlags.isStatic [{ name := "value", type := ⟨0⟩ }],
    looseMethod ⟨2⟩ ⟨21⟩ "Load" MethodFlags.isStatic
      [{ name := "value", type := ⟨18⟩, annotations := [.fieldType "System.Int32"] }],
    looseMethod ⟨2⟩ ⟨21⟩ "Stop" MethodFlags.isStatic [{ name := "aThis", type := ⟨4⟩ }]]

def loose : Registry := Registry.core.applyAll looseEdits

def looseIndex : PlugIndex := { exact := ⟨[⟨"T:App:App.Program", ⟨20⟩, [⟨21⟩]⟩]⟩ }

theorem wellFormed_loose : loose.WellFormed := by
  have hfits : Registry.FitAll Registry.core looseEdits := by decide +kernel
  exact (Registry.Built.core.applyAll hfits).wellFormed

theorem findImplementors_loose :
    PlugIndex.findImplementors loose [⟨2⟩] {} = .ok () looseIndex :=
  eq_ok_of_answersWith (by decide +kernel)

theorem asked_loose : Asked loose { index := looseIndex } :=
  .fresh wellFormed_loose
    (Registry.hasIndex_of_findImplementors wellFormed_loose findImplementors_loose) rfl

theorem resolvePlug_reported_loose : ∃ p r', loose.Has (.method ⟨0⟩) ∧
    resolvePlug { index := looseIndex } ⟨0⟩ loose = .ok (some ⟨3⟩, p) r' ∧
    ∃ m' target f, loose.sameMethod m' ⟨0⟩ = true ∧ (loose.method m').declaring = some target ∧
      r'.MadeFrom f ⟨3⟩ ∧
      (loose.FoundClosed looseIndex target m' f ∧
          (loose.Unmatched target f → loose.Overlooked target m' f) ∨
        loose.FoundOpen looseIndex target m' f) := by
  obtain ⟨hhas, heval⟩ : loose.Has (.method ⟨0⟩) ∧
      answersWith (resolvePlug { index := looseIndex } ⟨0⟩) loose (fun answer _ =>
        decide (answer.1 = some ⟨3⟩)) = true := by
    decide +kernel
  obtain ⟨⟨answer, p⟩, r', hrun, hanswer⟩ := exists_of_answersWith heval
  cases of_decide_eq_true hanswer
  exact ⟨p, r', hhas, hrun, resolvePlug_reported asked_loose hhas hrun⟩

/-- Each method of `Impl` is reported, and is the plug of a method of `Program`. -/
theorem resolvePlug_loose : loose.WellFormed ∧
    PlugIndex.findImplementors loose [⟨2⟩] {} = .ok () looseIndex ∧
    (∃ plugs, looseIndex.exact.get? loose ⟨20⟩ = some plugs ∧ ⟨21⟩ ∈ plugs) ∧
    (∃ fields, loose.checkPlugs looseIndex [] = .ok fields (loose.findings looseIndex)) ∧
    ∀ e ∈ [(⟨0⟩, ⟨3⟩), (⟨1⟩, ⟨4⟩), (⟨2⟩, ⟨5⟩)],
      (loose.method e.1).declaring = some ⟨20⟩ ∧ e.2 ∈ (loose.type ⟨21⟩).methods ∧
      loose.Unmatched ⟨20⟩ e.2 ∧
      ∃ p r', resolvePlug { index := looseIndex } e.1 loose = .ok (some e.2, p) r' := by
  obtain ⟨hfiled, hchecks, hreported, htaken⟩ :
      looseIndex.exact.get? loose ⟨20⟩ = some [⟨21⟩] ∧
      answersWith (loose.checkPlugs looseIndex) [] (fun _ _ => true) = true ∧
      (∀ e ∈ [(⟨0⟩, ⟨3⟩), (⟨1⟩, ⟨4⟩), (⟨2⟩, ⟨5⟩)],
        (loose.method e.1).declaring = some ⟨20⟩ ∧ e.2 ∈ (loose.type ⟨21⟩).methods ∧
        loose.Unmatched ⟨20⟩ e.2) ∧
      ∀ e ∈ [(⟨0⟩, ⟨3⟩), (⟨1⟩, ⟨4⟩), (⟨2⟩, ⟨5⟩)],
        answersWith (resolvePlug { index := looseIndex } e.1) loose (fun answer _ =>
          decide (answer.1 = some e.2)) = true := by
    decide +kernel
  obtain ⟨fields, ds, hchecked, -⟩ := exists_of_answersWith hchecks
  rw [checkPlugs_diagnostics hchecked] at hchecked
  refine ⟨wellFormed_loose, findImplementors_loose, ⟨_, hfiled, List.mem_singleton_self _⟩,
    ⟨fields, hchecked⟩, fun e he => ?_⟩
  obtain ⟨hdecl, hlisted, hunmatched⟩ := hreported e he
  obtain ⟨⟨answer, p⟩, r', hrun, hanswer⟩ := exists_of_answersWith (htaken e he)
  cases of_decide_eq_true hanswer
  exact ⟨hdecl, hlisted, hunmatched, p, r', hrun⟩

end PlugManager

end ProgramScan

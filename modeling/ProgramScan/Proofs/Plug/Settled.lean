import ProgramScan.Plug.Manager
import ProgramScan.Proofs.Registry.Members

/-!
# Finding a plug is settled

The search for the plug of a method asks questions about the method, the plug types of its target and
their methods, and then possibly instantiates what it found:

* `Grows.findPlug`          the search has the same answer later;
* `HasIndex`                the index names types of the program only;
* `IsPlug`                  a plug is an enabled plug method, or was made from one;
* `builds_resolveByIndex`   the plug of a method is found again, and nothing is made for it then.
-/

namespace ProgramScan

namespace Registry

namespace Grows

variable {r r' : Registry} (hg : r.Grows r') (hw : r.WellFormed)
include hg hw

/-! ## plugs by name -/

theorem takesArguments (name : String) {args : List TypeId} (ha : ∀ a ∈ args, r.Has (.type a))
    {c : MethodId} (hc : r.Has (.method c)) :
    r'.takesArguments name args c = r.takesArguments name args c := by
  simp only [Registry.takesArguments, hg.method hc]
  congr 1
  refine all_congr_mem fun p hp => ?_
  exact hg.isAssignable hw (hw.param hc (List.of_mem_zip hp).1) (ha p.2 (List.of_mem_zip hp).2)

theorem findByName? {plug : TypeId} (hp : r.Has (.type plug)) (name : String) {args : List TypeId}
    (ha : ∀ a ∈ args, r.Has (.type a)) :
    r'.findByName? plug name args = r.findByName? plug name args := by
  simp only [Registry.findByName?, hg.type hp]
  refine findSome?_congr_mem fun n _ => ?_
  exact find?_congr_mem fun c hc => hg.takesArguments hw n ha (hw.methodOf hp hc)

theorem signatureIs (options : Option PlugOptions) {m : MethodId} (hm : r.Has (.method m))
    (ignoreCase : Bool) :
    r'.signatureIs options m ignoreCase = r.signatureIs options m ignoreCase := by
  simp only [Registry.signatureIs, hg.methodName hw hm]

theorem signatureAgrees {found m : MethodId} (hf : r.Has (.method found))
    (hm : r.Has (.method m)) : r'.signatureAgrees found m = r.signatureAgrees found m := by
  simp only [Registry.signatureAgrees, hg.method hf, hg.method hm]
  congr 2
  refine all_congr_mem fun p hp => ?_
  have h₁ : r.Has (.type p.1) := hw.param hm (List.of_mem_zip hp).1
  have h₂ : r.Has (.type p.2) := hw.param hf (List.mem_of_mem_drop (List.of_mem_zip hp).2)
  simp only [paramAgrees, hg.sameType h₂ h₁, hg.type h₂, hg.method hf, hg.signatureIs hw _ hm]

/-! ## plugs by what they stand for -/

theorem wildcardTarget? {target : TypeId} (ht : r.Has (.type target)) {c : MethodId}
    (hc : r.Has (.method c)) : r'.wildcardTarget? target c = r.wildcardTarget? target c := by
  have hfilter : (r.type target).methods.filter (fun m => (r'.method m).isConstructor) =
      (r.type target).methods.filter fun m => (r.method m).isConstructor :=
    List.filter_congr fun m hm => by rw [hg.method (hw.methodOf ht hm)]
  simp only [Registry.wildcardTarget?, hg.method hc, hg.type ht, hfilter, hg.methodsNamed hw ht]

omit hw in
theorem resolveTypeName? (name : String) : r'.resolveTypeName? name = r.resolveTypeName? name := by
  simp only [Registry.resolveTypeName?, hg.find?, hg.findIn?]

omit hw in
theorem targetParamType (p : Param) : r'.targetParamType p = r.targetParamType p := by
  simp only [Registry.targetParamType, hg.resolveTypeName?]

omit hw in
theorem instanceTypes (params : List Param) : r'.instanceTypes params = r.instanceTypes params := by
  have h : r'.targetParamType = r.targetParamType := funext hg.targetParamType
  simp only [Registry.instanceTypes, h]

omit hw in
theorem staticTypes (params : List Param) : r'.staticTypes params = r.staticTypes params := by
  have h : r'.targetParamType = r.targetParamType := funext hg.targetParamType
  simp only [Registry.staticTypes, h]

end Grows

theorem WellFormed.resolvedName {r : Registry} (hw : r.WellFormed) {name : String} {t : TypeId}
    (h : r.resolveTypeName? name = some t) : r.Has (.type t) := by
  simp only [resolveTypeName?] at h
  split at h
  · exact hw.found h
  · exact hw.foundIn h

theorem WellFormed.targetParamType {r : Registry} (hw : r.WellFormed) {p : Param}
    (hp : r.Has (.type p.type)) {t : TypeId} (h : r.targetParamType p = .ok t) :
    r.Has (.type t) := by
  simp only [Registry.targetParamType] at h
  split at h
  · cases h
    exact hp
  · split at h
    · rename_i u hu
      cases h
      exact hw.resolvedName hu
    · cases h

theorem mem_of_mapM_except {α β : Type} {f : α → Except Error β} {l : List α} {bs : List β}
    (h : l.mapM f = .ok bs) {b : β} (hb : b ∈ bs) : ∃ a ∈ l, f a = .ok b := by
  induction l generalizing bs with
  | nil =>
    cases h
    cases hb
  | cons a l ih =>
    rw [List.mapM_cons] at h
    cases ha : f a with
    | error e =>
      rw [ha] at h
      cases h
    | ok c =>
      cases hl : l.mapM f with
      | error e =>
        rw [ha, hl] at h
        cases h
      | ok cs =>
        rw [ha, hl] at h
        cases h
        rcases List.mem_cons.mp hb with rfl | hb
        · exact ⟨a, List.mem_cons_self, ha⟩
        · obtain ⟨a', ha', hf⟩ := ih hl hb
          exact ⟨a', List.mem_cons_of_mem _ ha', hf⟩

theorem WellFormed.instanceTypes {r : Registry} (hw : r.WellFormed) {params : List Param}
    (hp : ∀ p ∈ params, r.Has (.type p.type)) {types : List TypeId}
    (h : r.instanceTypes params = .ok (some types)) : ∀ t ∈ types, r.Has (.type t) := by
  intro t ht
  simp only [Registry.instanceTypes] at h
  split at h
  · cases h
  · cases h
    cases ht
  · cases hm : ((params.drop 1).filter fun p => !p.isFieldAccess).mapM r.targetParamType with
    | error e =>
      rw [hm] at h
      cases h
    | ok found =>
      rw [hm] at h
      cases h
      obtain ⟨p, hpm, hpt⟩ := mem_of_mapM_except hm ht
      exact hw.targetParamType
        (hp p (List.mem_of_mem_drop (List.mem_filter.mp hpm).1)) hpt

theorem WellFormed.staticTypes {r : Registry} (hw : r.WellFormed) {params : List Param}
    (hp : ∀ p ∈ params, r.Has (.type p.type)) {types : List TypeId}
    (h : r.staticTypes params = .ok types) : ∀ t ∈ types, r.Has (.type t) := by
  intro t ht
  simp only [Registry.staticTypes] at h
  split at h
  · rename_i only honly
    have hmem : only ∈ params := by
      have : only ∈ params.filter fun p => !p.isFieldAccess := honly ▸ List.mem_cons_self
      exact (List.mem_filter.mp this).1
    cases hu : r.targetParamType only with
    | error e =>
      rw [hu] at h
      cases h
    | ok u =>
      rw [hu] at h
      cases h
      rw [List.mem_singleton.mp ht]
      exact hw.targetParamType (hp only hmem) hu
  · cases h
    obtain ⟨p, hpm, rfl⟩ := List.mem_map.mp ht
    exact hp p (List.mem_filter.mp hpm).1

namespace Grows

variable {r r' : Registry} (hg : r.Grows r') (hw : r.WellFormed)
include hg hw

theorem instanceTarget? {target : TypeId} (ht : r.Has (.type target)) (name : String)
    {params : Option (List TypeId)} (hp : ∀ ts, params = some ts → ∀ t ∈ ts, r.Has (.type t)) :
    r'.instanceTarget? target name params = r.instanceTarget? target name params := by
  simp only [Registry.instanceTarget?]
  cases params with
  | none => rfl
  | some ts => exact hg.findMethod? hw ht _ false (hp ts rfl)

theorem signatureTarget? {target : TypeId} (ht : r.Has (.type target)) {c : MethodId}
    (hc : r.Has (.method c)) : r'.signatureTarget? target c = r.signatureTarget? target c := by
  have hp : ∀ p ∈ (r.method c).params, r.Has (.type p.type) :=
    fun p h => hw.param hc (List.mem_map_of_mem h)
  simp only [Registry.signatureTarget?, hg.method hc, hg.instanceTypes, hg.staticTypes]
  cases hi : r.instanceTypes (r.method c).params with
  | error e => rfl
  | ok instanceParams =>
    cases hs : r.staticTypes (r.method c).params with
    | error e => rfl
    | ok staticParams =>
      show Except.ok _ = Except.ok _
      rw [hg.instanceTarget? hw ht _ fun ts h => hw.instanceTypes hp (h ▸ hi),
        hg.findMethod? hw ht _ true (hw.staticTypes hp hs)]

end Grows

theorem mem_of_single? {α : Type} {l : List α} {a : α} (h : single? l = some a) : a ∈ l := by
  cases l with
  | nil => cases h
  | cons b l =>
    cases l with
    | nil =>
      cases h
      exact List.mem_cons_self
    | cons c l => cases h

section
variable {r : Registry} (hw : r.WellFormed) {target : TypeId} (ht : r.Has (.type target))
include hw ht

theorem WellFormed.foundMethod {name : String} {isStatic : Bool} {params : List TypeId}
    {m : MethodId} (h : r.findMethod? target name isStatic params = some m) :
    r.Has (.method m) := by
  have hmem := List.mem_of_find?_eq_some h
  exact hw.methodOf ht (List.mem_filter.mp hmem).1

theorem WellFormed.wildcardTarget {c m : MethodId} (h : r.wildcardTarget? target c = some m) :
    r.Has (.method m) := by
  simp only [Registry.wildcardTarget?] at h
  split at h
  · exact hw.methodOf ht (List.mem_filter.mp (mem_of_single? h)).1
  · exact hw.methodOf ht (List.mem_filter.mp (mem_of_single? h)).1

theorem WellFormed.signatureTarget {c m : MethodId}
    (h : r.signatureTarget? target c = .ok (some m)) : r.Has (.method m) := by
  simp only [Registry.signatureTarget?] at h
  cases hi : r.instanceTypes (r.method c).params with
  | error e =>
    rw [hi] at h
    cases h
  | ok instanceParams =>
    cases hs : r.staticTypes (r.method c).params with
    | error e =>
      rw [hi, hs] at h
      cases h
    | ok staticParams =>
      rw [hi, hs] at h
      replace h : (r.instanceTarget? target (r.method c).name instanceParams).or
          (r.findMethod? target (staticMemberName (r.method c).name) true staticParams) = some m :=
        Except.ok.inj h
      rcases Option.or_eq_some_iff.mp h with h | ⟨-, h⟩
      · obtain ⟨params, -, hfind⟩ := Option.bind_eq_some_iff.mp h
        exact hw.foundMethod ht hfind
      · exact hw.foundMethod ht h

end

namespace Grows

variable {r r' : Registry} (hg : r.Grows r') (hw : r.WellFormed)
include hg hw

/-- the member that a plug method stands for is the same one later -/
theorem isMember {found : Option MethodId} (hf : ∀ c, found = some c → r.Has (.method c))
    {m : MethodId} (hm : r.Has (.method m)) :
    found.any (r'.sameMethod · m) = found.any (r.sameMethod · m) := by
  cases found with
  | none => rfl
  | some c => simp only [Option.any_some, hg.sameMethod hw (hf c rfl) hm]

theorem standsFor {target : TypeId} (ht : r.Has (.type target)) {m c : MethodId}
    (hm : r.Has (.method m)) (hc : r.Has (.method c)) :
    r'.standsFor target m c = r.standsFor target m c := by
  simp only [Registry.standsFor, hg.method hc, hg.wildcardTarget? hw ht hc,
    hg.signatureTarget? hw ht hc, hg.signatureIs hw _ hm]
  rw [hg.isMember hw (fun c h => hw.wildcardTarget ht h) hm]
  split
  · rfl
  split
  · rfl
  · cases hs : r.signatureTarget? target c with
    | error e => rfl
    | ok plugged =>
      show Except.ok _ = Except.ok _
      rw [hg.isMember hw (fun c h => hw.signatureTarget ht (h ▸ hs)) hm]

theorem findStandIn {target : TypeId} (ht : r.Has (.type target)) {m : MethodId}
    (hm : r.Has (.method m)) {cs : List MethodId} (hcs : ∀ c ∈ cs, r.Has (.method c)) :
    r'.findStandIn target m cs = r.findStandIn target m cs := by
  induction cs with
  | nil => rfl
  | cons c cs ih =>
    rw [Registry.findStandIn, Registry.findStandIn,
      hg.standsFor hw ht hm (hcs c List.mem_cons_self),
      ih fun d hd => hcs d (List.mem_cons_of_mem _ hd)]

theorem findBySignature {target : TypeId} (ht : r.Has (.type target)) {m : MethodId}
    (hm : r.Has (.method m)) {plug : TypeId} (hp : r.Has (.type plug)) :
    r'.findBySignature target m plug = r.findBySignature target m plug := by
  rw [Registry.findBySignature, Registry.findBySignature, hg.type hp]
  exact hg.findStandIn hw ht hm fun c hc => hw.methodOf hp hc

end Grows

/-! ## the search among plug types -/

def Takes (r : Registry) (target : TypeId) (m f : MethodId) : Prop :=
  r.signatureAgrees f m = true ∨ r.standsFor target m f = .ok true

section
variable {r : Registry} {target : TypeId} {m found : MethodId}

theorem mem_of_findByName? {plug : TypeId} {name : String} {args : List TypeId}
    (h : r.findByName? plug name args = some found) : found ∈ (r.type plug).methods := by
  obtain ⟨n, -, hn⟩ := List.exists_of_findSome?_eq_some h
  exact List.mem_of_find?_eq_some hn

theorem mem_of_findStandIn {cs : List MethodId}
    (h : r.findStandIn target m cs = .ok (some found)) :
    found ∈ cs ∧ r.standsFor target m found = .ok true := by
  induction cs with
  | nil => cases h
  | cons c cs ih =>
    rw [Registry.findStandIn] at h
    cases hs : r.standsFor target m c with
    | error e =>
      rw [hs] at h
      cases h
    | ok stands =>
      rw [hs] at h
      cases stands with
      | true =>
        cases h
        exact ⟨List.mem_cons_self, hs⟩
      | false => exact (ih h).imp_left (List.mem_cons_of_mem c)

theorem exists_of_findPlug {args plugs : List TypeId}
    (h : r.findPlug target m args plugs = .ok (some found)) : ∃ plug ∈ plugs,
      r.findByName? plug (r.method m).name args = some found ∧ r.signatureAgrees found m = true ∨
        r.findBySignature target m plug = .ok (some found) := by
  induction plugs with
  | nil => cases h
  | cons plug plugs ih =>
    rw [Registry.findPlug] at h
    cases hn : r.findByName? plug (r.method m).name args with
    | some byName =>
      rw [hn] at h
      simp only [Pure.pure, Except.pure, Except.ok.injEq] at h
      split at h
      · rename_i hagrees
        cases h
        exact ⟨plug, List.mem_cons_self, .inl ⟨hn, hagrees⟩⟩
      · cases h
    | none =>
      rw [hn] at h
      cases hs : r.findBySignature target m plug with
      | error e =>
        rw [hs] at h
        cases h
      | ok bySignature =>
        rw [hs] at h
        cases bySignature with
        | some c =>
          cases h
          exact ⟨plug, List.mem_cons_self, .inr hs⟩
        | none =>
          obtain ⟨plug', hplug', hfound⟩ := ih h
          exact ⟨plug', List.mem_cons_of_mem _ hplug', hfound⟩

theorem takes_of_findPlug {args plugs : List TypeId}
    (h : r.findPlug target m args plugs = .ok (some found)) :
    ∃ plug ∈ plugs, found ∈ (r.type plug).methods ∧ r.Takes target m found := by
  obtain ⟨plug, hplug, ⟨hn, hagrees⟩ | hs⟩ := exists_of_findPlug h
  · exact ⟨plug, hplug, mem_of_findByName? hn, .inl hagrees⟩
  · obtain ⟨hmem, hstands⟩ := mem_of_findStandIn hs
    exact ⟨plug, hplug, hmem, .inr hstands⟩

theorem public_of_findPlug {args plugs : List TypeId}
    (h : r.findPlug target m args plugs = .ok (some found)) :
    (r.method found).isStatic = true ∧ (r.method found).isPublic = true := by
  obtain ⟨plug, -, ⟨hn, -⟩ | hs⟩ := exists_of_findPlug h
  · obtain ⟨n, -, hfind⟩ := List.exists_of_findSome?_eq_some hn
    have htakes := List.find?_some hfind
    simp only [takesArguments, isPlugCalled, Bool.and_eq_true] at htakes
    exact ⟨htakes.1.1.1.1, htakes.1.1.1.2⟩
  · have hstands := (mem_of_findStandIn hs).2
    rw [standsFor] at hstands
    split at hstands
    · cases hstands
    · rename_i hcheck
      simpa using hcheck

variable (hw : r.WellFormed)
include hw

theorem WellFormed.foundPlug {args plugs : List TypeId} (hp : ∀ p ∈ plugs, r.Has (.type p))
    (h : r.findPlug target m args plugs = .ok (some found)) : r.Has (.method found) := by
  obtain ⟨plug, hmem, hfound, -⟩ := takes_of_findPlug h
  exact hw.methodOf (hp plug hmem) hfound

theorem Grows.findPlug {r' : Registry} (hg : r.Grows r') (ht : r.Has (.type target))
    (hm : r.Has (.method m)) {args plugs : List TypeId} (ha : ∀ a ∈ args, r.Has (.type a))
    (hp : ∀ p ∈ plugs, r.Has (.type p)) :
    r'.findPlug target m args plugs = r.findPlug target m args plugs := by
  induction plugs with
  | nil => rfl
  | cons plug plugs ih =>
    have hplug := hp plug List.mem_cons_self
    rw [Registry.findPlug, Registry.findPlug, hg.method hm, hg.findByName? hw hplug _ ha,
      hg.findBySignature hw ht hm hplug, ih fun p hmem => hp p (List.mem_cons_of_mem _ hmem)]
    cases hn : r.findByName? plug (r.method m).name args with
    | none => rfl
    | some found => simp only [hg.signatureAgrees hw (hw.methodOf hplug (mem_of_findByName? hn)) hm]

end

/-- `p` is the method `found` or was made from it: as a generic instance, or as a member of one -/
inductive MadeFrom (r : Registry) (found : MethodId) : MethodId → Prop
  | self : MadeFrom r found found
  | generic {m p : MethodId} {args : List TypeId} (h : MadeFrom r found m)
    (hp : Settled (instantiateMethod m args) p r) : MadeFrom r found p
  | member {m p : MethodId} {owner : TypeId} (h : MadeFrom r found m)
    (hp : Settled (correspondingMethod owner m) p r) : MadeFrom r found p

def isDisabled (d : Method) : Bool := d.plugOptions?.any fun options => !options.enabled

/-- A method that stands in for others: it was made from a plug method that is not disabled. -/
structure IsPlug (r : Registry) (p : MethodId) : Prop where
  has : r.Has (.method p)
  enabled : ∃ found, r.Has (.method found) ∧ isDisabled (r.method found) = false ∧
    r.MadeFrom found p

def HasPlug (found : Option MethodId) (r : Registry) : Prop := ∀ p, found = some p → r.IsPlug p

theorem MadeFrom.mono {r r' : Registry} {found p : MethodId} (h : r.MadeFrom found p)
    (hg : r.Grows r') : r'.MadeFrom found p := by
  induction h with
  | self => exact .self
  | generic _ hp ih => exact .generic ih (hp.mono hg)
  | member _ hp ih => exact .member ih (hp.mono hg)

theorem IsPlug.mono {r r' : Registry} {p : MethodId} (h : r.IsPlug p) (hg : r.Grows r') :
    r'.IsPlug p := by
  obtain ⟨found, hfound, hd, hmade⟩ := h.enabled
  exact ⟨hg.has h.has, found, hg.has hfound, by rw [hg.method hfound, hd], hmade.mono hg⟩

theorem HasPlug.mono {r r' : Registry} {found : Option MethodId} (h : HasPlug found r)
    (hg : r.Grows r') : HasPlug found r' :=
  fun p hp => (h p hp).mono hg

theorem hasPlug_some {r : Registry} {p : MethodId} (h : r.IsPlug p) : HasPlug (some p) r := by
  intro q hq
  cases hq
  exact h

theorem builds_resolveAmong {r : Registry} (hw : r.WellFormed) {target : TypeId}
    (ht : r.Has (.type target)) {plugs : List TypeId} (hp : ∀ p ∈ plugs, r.Has (.type p))
    {m : MethodId} (hm : r.Has (.method m)) {params : List TypeId}
    (ha : ∀ a ∈ params, r.Has (.type a)) :
    Builds (resolveAmong target plugs m params) r HasPlug := by
  have hargs : ∀ a ∈ (if (r.method m).isStatic then params else target :: params),
      r.Has (.type a) := by
    intro a hmem
    split at hmem
    · exact ha a hmem
    · rcases List.mem_cons.mp hmem with rfl | hmem
      · exact ht
      · exact ha a hmem
  refine Builds.get ?_ fun r' hg _ => ?_
  · refine Builds.noting hw fun s hf hw' => ?_
    have hg₀ : r.Grows s := .of_forget hf.symm
    refine Builds.bind (Q := fun found _ => ∀ p, found = some p → r.Has (.method p))
      (.ofExcept hw' ?_) ?_
    · intro found hfound p h
      exact hw.foundPlug hp (h ▸ hfound)
    · intro found s' hg' hw'' hfound
      cases found with
      | none => exact .pure hw'' fun p h => by cases h
      | some c =>
        have hg₁ := hg₀.trans hg'
        have hc := hg₁.has (hfound c rfl)
        dsimp only
        split
        · exact .pure hw'' fun p h => by cases h
        rename_i henabled
        have henabled : isDisabled (s'.method c) = false := by
          rw [hg₁.method (hfound c rfl)]
          simpa only [isDisabled, Bool.not_eq_true] using henabled
        split
        · refine Builds.bind (builds_instantiateMethod hw'' hc fun a hmem =>
            hg₁.has (hw.genericArg hm hmem)).settled fun inst s'' hg₂ hw₃ hinst => ?_
          refine .pure hw₃ (hasPlug_some ⟨hinst.2, c, hg₂.has hc, ?_, .generic .self hinst.1⟩)
          rw [hg₂.method hc, henabled]
        · exact .pure hw'' (hasPlug_some ⟨hc, c, hc, henabled, .self⟩)
  · -- the methods of the continuation are read only if the search finds one
    dsimp only
    rw [hg.method hm, hg.findPlug hw ht hm hargs hp]
    cases hfind : r.findPlug target m
      (if (r.method m).isStatic = true then params else target :: params) plugs with
    | error e => rfl
    | ok found =>
      cases found with
      | none => rfl
      | some c =>
        have hc := hw.foundPlug hp hfind
        show (_ >>= fun _ => pure (some c) >>= _) = (_ >>= fun _ => pure (some c) >>= _)
        simp only [pure_bind, hg.method hc]

theorem builds_resolveIn {r : Registry} (hw : r.WellFormed) {target : TypeId}
    (ht : r.Has (.type target)) {plugs : List TypeId} (hp : ∀ p ∈ plugs, r.Has (.type p))
    {m : MethodId} (hm : r.Has (.method m)) : Builds (resolveIn target plugs m) r HasPlug :=
  .get (builds_resolveAmong hw ht hp hm fun _ h => hw.param hm h)
    fun _ hg _ => by rw [hg.method hm]

/-! ## the index -/

def HasRows (r : Registry) (rows : List PlugRow) : Prop :=
  ∀ row ∈ rows, r.Has (.type row.target) ∧ ∀ p ∈ row.plugs, r.Has (.type p)

def HasIndex (r : Registry) (index : PlugIndex) : Prop :=
  ∀ kind, r.HasRows (index.bucket kind).rows

theorem Grows.hasIndex {r r' : Registry} (hg : r.Grows r') {index : PlugIndex}
    (h : r.HasIndex index) : r'.HasIndex index :=
  fun kind row hrow =>
    ⟨hg.has (h kind row hrow).1, fun p hp => hg.has ((h kind row hrow).2 p hp)⟩

theorem HasRows.get? {r : Registry} {b : PlugBucket} (h : r.HasRows b.rows) {target : TypeId}
    {plugs : List TypeId} (hg : b.get? r target = some plugs) : ∀ p ∈ plugs, r.Has (.type p) := by
  obtain ⟨row, hrow, rfl⟩ := Option.map_eq_some_iff.mp hg
  exact (h row (List.mem_of_find?_eq_some hrow)).2

theorem Grows.bucket_get? {r r' : Registry} (hg : r.Grows r') (b : PlugBucket) {target : TypeId}
    (ht : r.Has (.type target)) : b.get? r' target = b.get? r target := by
  simp only [PlugBucket.get?, hg.typeKey ht]

theorem HasRows.filePlug {r : Registry} {rows : List PlugRow} (h : r.HasRows rows) (key : String)
    {target plug : TypeId} (ht : r.Has (.type target)) (hp : r.Has (.type plug)) :
    r.HasRows (filePlug key target plug rows) := by
  induction rows with
  | nil =>
    intro row hrow
    rw [List.mem_singleton.mp hrow]
    exact ⟨ht, fun p hmem => by rw [List.mem_singleton.mp hmem]; exact hp⟩
  | cons first rows ih =>
    have hfirst := h first List.mem_cons_self
    have hrest : r.HasRows rows := fun row hrow => h row (List.mem_cons_of_mem _ hrow)
    intro row hrow
    rw [ProgramScan.filePlug] at hrow
    split at hrow
    · rcases List.mem_cons.mp hrow with rfl | hrow
      · refine ⟨hfirst.1, fun p hmem => ?_⟩
        rcases List.mem_append.mp hmem with hmem | hmem
        · exact hfirst.2 p hmem
        · rw [List.mem_singleton.mp hmem]
          exact hp
      · exact hrest row hrow
    · rcases List.mem_cons.mp hrow with rfl | hrow
      · exact hfirst
      · exact ih hrest row hrow

theorem HasIndex.insert {r : Registry} {index : PlugIndex} (h : r.HasIndex index)
    {target plug : TypeId} (ht : r.Has (.type target)) (hp : r.Has (.type plug))
    (inheritable : Bool) : r.HasIndex (index.insert r target plug inheritable) := by
  intro kind
  have hkind := h kind
  simp only [PlugIndex.insert]
  cases PlugKind.ofTarget (r.isOpen target) inheritable <;> cases kind <;>
    first
    | exact hkind
    | exact hkind.filePlug _ ht hp

theorem WellFormed.targetOf {r : Registry} (hw : r.WellFormed) {plug : TypeId}
    (hp : r.Has (.type plug)) {mark : PlugTarget} (hm : mark ∈ (r.type plug).plugTargets)
    {target : TypeId} (h : PlugIndex.targetOf r mark = .ok target) : r.Has (.type target) := by
  simp only [PlugIndex.targetOf] at h
  split at h
  · rename_i t ht
    cases h
    refine hw.of_type hp ?_
    obtain ⟨a, ha, hmark⟩ := List.mem_filterMap.mp hm
    have ha' : a = .plug mark := by
      cases a <;> simp_all [ Annotation.plug?]
    subst ha'
    simp only [TypeDecl.items, List.mem_append, List.mem_flatMap]
    exact .inr ⟨.plug mark, ha, by simp [ Annotation.items, ht]⟩
  · cases h
  · split at h
    · rename_i t ht
      cases h
      exact hw.resolvedName ht
    · cases h

/-- what was filed stays filed when filing fails -/
theorem hasIndex_findImplementors {r : Registry} (hw : r.WellFormed) (modules : List ModuleId)
    {index : PlugIndex} (h : r.HasIndex index) :
    match PlugIndex.findImplementors r modules index with
    | .ok _ index' => r.HasIndex index'
    | .error _ index' => r.HasIndex index' := by
  have hmarks : ∀ e ∈ PlugIndex.marksOf r modules,
      r.Has (.type e.1) ∧ e.2 ∈ (r.type e.1).plugTargets := by
    intro e he
    simp only [PlugIndex.marksOf, List.mem_flatMap, List.mem_map] at he
    obtain ⟨module, -, plug, hplug, mark, hmark, rfl⟩ := he
    exact ⟨hw.home hplug, hmark⟩
  rw [PlugIndex.findImplementors]
  generalize PlugIndex.marksOf r modules = marks at hmarks
  induction marks generalizing index with
  | nil => exact h
  | cons e marks ih =>
    obtain ⟨hplug, hmark⟩ := hmarks e List.mem_cons_self
    have hrest := fun {i} (hi : r.HasIndex i) =>
      ih hi fun d hd => hmarks d (List.mem_cons_of_mem _ hd)
    show match EStateM.bind (PlugIndex.fileMark r e.1 e.2) (fun _ => marks.forM _) index with
      | .ok _ index' => r.HasIndex index'
      | .error _ index' => r.HasIndex index'
    rw [EStateM.bind, PlugIndex.fileMark]
    cases ht : PlugIndex.targetOf r e.2 with
    | ok target => exact hrest (h.insert (hw.targetOf hplug hmark ht) hplug _)
    | error err =>
      cases e.2.optional with
      | true => exact hrest h
      | false => exact h

theorem hasIndex_of_findImplementors {r : Registry} (hw : r.WellFormed) {modules : List ModuleId}
    {index : PlugIndex} (h : PlugIndex.findImplementors r modules {} = .ok () index) :
    r.HasIndex index := by
  have hempty : r.HasIndex {} := fun kind row hrow => by cases kind <;> cases hrow
  have hfiled := hasIndex_findImplementors hw modules hempty
  rwa [h] at hfiled

/-! ## the plug of a method -/

section
variable {r : Registry} (hw : r.WellFormed) {index : PlugIndex} (hi : r.HasIndex index)
  {declaring : TypeId} (hd : r.Has (.type declaring)) {m : MethodId} (hm : r.Has (.method m))
include hw hd hm

theorem builds_resolveInherited {row : PlugRow} (ht : r.Has (.type row.target))
    (hp : ∀ p ∈ row.plugs, r.Has (.type p)) :
    Builds (PlugManager.resolveInherited declaring m row) r HasPlug := by
  refine Builds.get ?_ fun r' hg _ => by rw [hg.isSubclassOf hw hd ht]
  refine Builds.noting hw fun s hf hw' => ?_
  have hg : r.Grows s := .of_forget hf.symm
  split
  · exact builds_resolveIn hw' (hg.has hd) (fun p h => hg.has (hp p h)) (hg.has hm)
  · exact .pure hw' fun p h => by cases h

theorem builds_resolveInheritedAmong {rows : List PlugRow} (hr : r.HasRows rows) :
    Builds (PlugManager.resolveInheritedAmong declaring m rows) r HasPlug := by
  induction rows generalizing r with
  | nil => exact .pure hw fun p h => by cases h
  | cons row rows ih =>
    obtain ⟨ht, hp⟩ := hr row List.mem_cons_self
    refine Builds.bind (builds_resolveInherited hw hd hm ht hp) fun found s hg hw' hfound => ?_
    cases found with
    | some plug => exact .pure hw' hfound
    | none =>
      refine ih hw' (hg.has hd) (hg.has hm) fun row hmem => ?_
      have hrow := hr row (List.mem_cons_of_mem _ hmem)
      exact ⟨hg.has hrow.1, fun p h => hg.has (hrow.2 p h)⟩

theorem builds_closePlug {openPlug : MethodId} (hopen : r.IsPlug openPlug) :
    Builds (PlugManager.closePlug declaring m openPlug) r HasPlug := by
  have ho := hopen.has
  refine Builds.get ?_ fun r' hg _ => ?_
  · cases hp : (r.method openPlug).declaring with
    | none => exact .pure hw fun p h => by cases h
    | some plugType =>
      have hplug := hw.declaring ho hp
      dsimp only
      split
      · refine Builds.bind (makes_instantiate hw hplug fun a h => hw.genericArgOf hd h)
          fun closed s₁ hg₁ hw₁ hclosed => ?_
        refine Builds.bind (builds_correspondingMethod hw₁ hclosed.1 (hg₁.has ho)).settled
          fun plug s₂ hg₂ hw₂ ⟨hmember, hfound⟩ => ?_
        obtain ⟨found, hhas, hd, hmade⟩ := hopen.mono (hg₁.trans hg₂) |>.enabled
        have hplug₂ : s₂.IsPlug plug := ⟨hfound, found, hhas, hd, .member hmade hmember⟩
        have hm₂ := hg₂.has (hg₁.has hm)
        refine Builds.get ?_ fun r' hg _ => by rw [hg.method hfound, hg.method hm₂]
        split
        · refine Builds.bind (builds_instantiateMethod hw₂ hfound fun a h =>
            hw₂.genericArg hm₂ h).settled fun inst s₃ hg₃ hw₃ ⟨hinst, hhas₃⟩ => ?_
          obtain ⟨found, hhas, hd, hmade⟩ := (hplug₂.mono hg₃).enabled
          exact .pure hw₃ (hasPlug_some ⟨hhas₃, found, hhas, hd, .generic hmade hinst⟩)
        · exact .pure hw₂ (hasPlug_some hplug₂)
      · exact .pure hw fun p h => by cases h
  · rw [hg.method ho]
    cases hp : (r.method openPlug).declaring with
    | none => rfl
    | some plugType => simp only [hg.type (hw.declaring ho hp), hg.type hd]

omit hd in
theorem builds_findOpenPlug {bucket : PlugBucket} (hb : r.HasRows bucket.rows)
    {definition : TypeId} (hdef : r.Has (.type definition)) {params : List TypeId}
    (hp : ∀ p ∈ params, r.Has (.type p)) :
    Builds (PlugManager.findOpenPlug bucket definition m params) r HasPlug := by
  refine Builds.get ?_ fun r' hg _ => by rw [hg.bucket_get? bucket hdef]
  split
  · exact .pure hw fun p h => by cases h
  · rename_i plugs hplugs
    exact builds_resolveAmong hw hdef (hb.get? hplugs) hm hp

omit hd in
theorem Grows.openMember? {r' : Registry} (hg : r.Grows r') {definition : TypeId}
    (hdef : r.Has (.type definition)) :
    PlugManager.openMember? r' definition m = PlugManager.openMember? r definition m := by
  simp only [PlugManager.openMember?, hg.type hdef]
  congr 1
  refine List.filter_congr fun c hc => ?_
  simp only [PlugManager.isOpenMemberOf, hg.method hm, hg.method (hw.methodOf hdef hc)]

include hi

theorem builds_resolveGeneric {definition : TypeId} (hdef : r.Has (.type definition)) :
    Builds (PlugManager.resolveGeneric index declaring definition m) r HasPlug := by
  refine Builds.get ?_ fun r' hg _ => by rw [hg.openMember? hw hm hdef, hg.method hm]
  cases ho : PlugManager.openMember? r definition m with
  | none => exact .pure hw fun p h => by cases h
  | some openMethod =>
    have hopen : r.Has (.method openMethod) :=
      hw.methodOf hdef (List.mem_filter.mp (mem_of_single? ho)).1
    have hparams : ∀ p ∈ (r.method m).paramTypes, r.Has (.type p) := fun p h => hw.param hm h
    refine Builds.bind (builds_findOpenPlug hw hopen (hi .exactGeneric) hdef hparams)
      fun found s₁ hg₁ hw₁ hfound => ?_
    cases found with
    | some plug => exact builds_closePlug hw₁ (hg₁.has hd) (hg₁.has hm) (hfound plug rfl)
    | none =>
      refine Builds.bind (builds_findOpenPlug hw₁ (hg₁.has hopen)
        (hg₁.hasIndex hi .inheritableGeneric) (hg₁.has hdef) fun p h => hg₁.has (hparams p h))
        fun found s₂ hg₂ hw₂ hfound => ?_
      have hg := hg₁.trans hg₂
      cases found with
      | some plug => exact builds_closePlug hw₂ (hg.has hd) (hg.has hm) (hfound plug rfl)
      | none => exact .pure hw₂ fun p h => by cases h

theorem builds_resolveExact : Builds (PlugManager.resolveExact index declaring m) r HasPlug := by
  refine Builds.get ?_ fun r' hg _ => by rw [hg.bucket_get? index.exact hd]
  split
  · exact .pure hw fun p h => by cases h
  · rename_i plugs hplugs
    exact builds_resolveIn hw hd ((hi .exact).get? hplugs) hm

omit hd

/-- **Finding the plug of a method is settled**: done again, it gives the same plug and makes
nothing. -/
theorem builds_resolveByIndex : Builds (PlugManager.resolveByIndex index m) r HasPlug := by
  refine Builds.get ?_ fun r' hg _ => by rw [hg.method hm]
  cases hdecl : (r.method m).declaring with
  | none => exact .pure hw fun p h => by cases h
  | some declaring =>
    have hd := hw.declaring hm hdecl
    refine Builds.bind (builds_resolveExact hw hi hd hm) fun found s₁ hg₁ hw₁ hfound => ?_
    cases found with
    | some plug => exact .pure hw₁ hfound
    | none =>
      refine Builds.bind (builds_resolveInheritedAmong hw₁ (hg₁.has hd) (hg₁.has hm)
        (hg₁.hasIndex hi .inheritable)) fun found s₂ hg₂ hw₂ hfound => ?_
      have hg := hg₁.trans hg₂
      cases found with
      | some plug => exact .pure hw₂ hfound
      | none =>
        refine Builds.get ?_ fun r' hg' _ => by rw [hg'.type (hg.has hd)]
        split
        · rename_i definition hdef
          exact builds_resolveGeneric hw₂ (hg.hasIndex hi) (hg.has hd) (hg.has hm)
            (hw₂.definition (hg.has hd) hdef)
        · exact .pure hw₂ fun p h => by cases h

end

/-- a plug that is remembered is not looked for; a search adds what the index leads to -/
theorem builds_resolvePlug {r : Registry} (hw : r.WellFormed) {manager : PlugManager}
    (hi : r.HasIndex manager.index) {m : MethodId} (hm : r.Has (.method m)) :
    Builds (manager.resolvePlug m) r fun _ _ => True := by
  rw [PlugManager.resolvePlug]
  refine Builds.get ?_ fun r' hg _ => by rw [hg.methodKey hw hm]
  refine Builds.noting hw fun s hf hw' => ?_
  have hg : r.Grows s := .of_forget hf.symm
  dsimp only
  cases manager.resolved.get? (r.methodKey m) with
  | some answer => exact .pure hw' trivial
  | none =>
    refine Builds.bind (builds_resolveByIndex hw' (hg.hasIndex hi) (hg.has hm))
      fun answer s' _ hw'' _ => ?_
    exact .pure hw'' trivial

end Registry

end ProgramScan

import ProgramScan.Proofs.Plug.Reported

/-!
# Which overload replaces a method

The methods of a plug type that go by a name are its overloads.  The search by name takes the first
one, in the order of declaration, whose parameters can take the arguments of the method; only then it
is compared with the method.  An overload with exactly the types of the method can therefore be
overtaken by one with wider types that is declared before it:

* `Registry.overloads`                  the overloads in the order of the search;
* `Registry.ExactOverload`              an overload that has the types of the method;
* `Registry.exists_first_overload`      one that can take the arguments is found, and is not behind an
                                        exact one;
* `PlugManager.resolvePlug_overload`    what becomes of the method, by the overload that is found;
* `PlugManager.resolvePlug_overtaken`   exact overloads that lose.
-/

namespace ProgramScan

namespace Registry

/-- the types that a plug of `m` takes: those of its parameters, behind the instance if it has one -/
def callTypes (r : Registry) (target : TypeId) (m : MethodId) : List TypeId :=
  if (r.method m).isStatic then (r.method m).paramTypes else target :: (r.method m).paramTypes

/-- the methods of a plug type that go by a method name, in the order of the search -/
def overloads (r : Registry) (plug : TypeId) (name : String) : List MethodId :=
  (plugNames name).flatMap fun n => (r.type plug).methods.filter fun c => (r.method c).name == n

/-- an overload that the search by name accepts for the arguments -/
def canTake (r : Registry) (args : List TypeId) (c : MethodId) : Bool :=
  r.takesArguments (r.method c).name args c

/-- `c` is an enabled plug method of `plug` that goes by the name of `m` and has its types. -/
structure ExactOverload (r : Registry) (target plug : TypeId) (m c : MethodId) : Prop where
  mem : c ∈ (r.type plug).methods
  isStatic : (r.method c).isStatic = true
  isPublic : (r.method c).isPublic = true
  enabled : isDisabled (r.method c) = false
  plain : (r.method c).isGenericDefinition = false
  name : (r.method c).name ∈ plugNames (r.method m).name
  types : r.sameTypes (r.method c).paramTypes (r.callTypes target m) = true

instance (r : Registry) (target plug : TypeId) (m c : MethodId) :
    Decidable (r.ExactOverload target plug m c) :=
  decidable_of_iff
    (c ∈ (r.type plug).methods ∧ (r.method c).isStatic = true ∧ (r.method c).isPublic = true ∧
      isDisabled (r.method c) = false ∧ (r.method c).isGenericDefinition = false ∧
      (r.method c).name ∈ plugNames (r.method m).name ∧
      r.sameTypes (r.method c).paramTypes (r.callTypes target m) = true)
    ⟨fun ⟨h₁, h₂, h₃, h₄, h₅, h₆, h₇⟩ => ⟨h₁, h₂, h₃, h₄, h₅, h₆, h₇⟩,
      fun ⟨h₁, h₂, h₃, h₄, h₅, h₆, h₇⟩ => ⟨h₁, h₂, h₃, h₄, h₅, h₆, h₇⟩⟩

variable {r r' : Registry} {target plug : TypeId} {m c f q : MethodId} {args : List TypeId}

/-! ## the search by name -/

/-- the search by name stops at the first overload that can take the arguments -/
theorem findByName?_eq (plug : TypeId) (name : String) (args : List TypeId) :
    r.findByName? plug name args = (r.overloads plug name).find? (r.canTake args) := by
  rw [findByName?, overloads, List.find?_flatMap]
  congr 1
  funext n
  rw [List.find?_filter]
  congr 1
  funext c
  by_cases hname : (r.method c).name = n
  · subst hname
    simp [canTake]
  · simp [takesArguments, isPlugCalled, hname]

theorem mem_overloads {name : String} : c ∈ r.overloads plug name ↔
    c ∈ (r.type plug).methods ∧ (r.method c).name ∈ plugNames name := by
  simp [overloads, List.mem_flatMap, and_comm]

theorem isAssignable_of_sameType {a b : TypeId} (h : r.sameType a b = true) :
    r.isAssignable a b = true := by
  simp [isAssignable, h]

theorem ExactOverload.length (h : r.ExactOverload target plug m c) :
    (r.method c).params.length = (r.callTypes target m).length := by
  have hlength := beq_iff_eq.mp (Bool.and_eq_true_iff.mp h.types).1
  rwa [Method.paramTypes, List.length_map] at hlength

theorem ExactOverload.canTake (h : r.ExactOverload target plug m c) :
    r.canTake (r.callTypes target m) c = true := by
  rw [Registry.canTake, takesArguments, Bool.and_eq_true]
  refine ⟨by simp [isPlugCalled, h.isStatic, h.isPublic, h.length], ?_⟩
  refine List.all_eq_true.mpr fun p hp => isAssignable_of_sameType ?_
  exact List.all_eq_true.mp (Bool.and_eq_true_iff.mp h.types).2 p hp

/-- **The search by name finds an overload that is not behind an exact one.** -/
theorem exists_first_overload (h : r.ExactOverload target plug m c) :
    ∃ f before after, r.findByName? plug (r.method m).name (r.callTypes target m) = some f ∧
      r.overloads plug (r.method m).name = before ++ f :: after ∧
      (∀ x ∈ before, r.canTake (r.callTypes target m) x = false) ∧ c ∈ f :: after := by
  have hmem : c ∈ r.overloads plug (r.method m).name := mem_overloads.mpr ⟨h.mem, h.name⟩
  have hsome : ((r.overloads plug (r.method m).name).find?
      (r.canTake (r.callTypes target m))).isSome = true :=
    List.find?_isSome.mpr ⟨c, hmem, h.canTake⟩
  obtain ⟨f, hf⟩ := Option.isSome_iff_exists.mp hsome
  obtain ⟨-, before, after, hsplit, hbefore⟩ := List.find?_eq_some_iff_append.mp hf
  refine ⟨f, before, after, (findByName?_eq _ _ _).trans hf, hsplit, fun x hx => ?_, ?_⟩
  · simpa using hbefore x hx
  · rw [hsplit] at hmem
    refine (List.mem_append.mp hmem).resolve_left fun hx => ?_
    have hnot := hbefore c hx
    rw [h.canTake] at hnot
    cases hnot

theorem plugNameFits_of_mem {plugName name : String} (h : plugName ∈ plugNames name) :
    plugNameFits plugName name = true := by
  unfold plugNames at h
  split at h
  · next hname =>
    subst hname
    rcases List.mem_pair.mp h with rfl | rfl <;> decide
  split at h
  · next hname =>
    subst hname
    rcases List.mem_pair.mp h with rfl | rfl <;> decide
  · rw [List.mem_singleton.mp h]
    simp [plugNameFits]

theorem sameTypes_drop {as bs : List TypeId} (h : r.sameTypes as bs = true) (n : Nat) :
    r.sameTypes (as.drop n) (bs.drop n) = true := by
  induction n generalizing as bs with
  | zero => exact h
  | succ n ih =>
    cases as with
    | nil =>
      cases bs with
      | nil => rfl
      | cons b bs => cases h
    | cons a as =>
      cases bs with
      | nil => cases h
      | cons b bs =>
        rw [sameTypes_cons, Bool.and_eq_true] at h
        exact ih h.2

theorem drop_callTypes (target : TypeId) (m : MethodId) :
    (r.callTypes target m).drop (instanceShift (r.method m)) = (r.method m).paramTypes := by
  rw [callTypes, instanceShift]
  split <;> rfl

theorem ExactOverload.agrees (h : r.ExactOverload target plug m c) :
    r.signatureAgrees c m = true := by
  refine signatureAgrees_iff.mpr ⟨?_, fun p hp => ?_, plugNameFits_of_mem h.name⟩
  · rw [h.length, callTypes, instanceShift]
    split <;> simp [Method.paramTypes]
  · have htypes := sameTypes_drop h.types (instanceShift (r.method m))
    rw [drop_callTypes, sameTypes_comm] at htypes
    have hsame : r.sameType p.1 p.2 = true :=
      List.all_eq_true.mp (Bool.and_eq_true_iff.mp htypes).2 p hp
    rw [paramAgrees, sameType_comm, hsame]
    rfl

/-! ## the only plug type -/

def accepts (r : Registry) (m f : MethodId) : Bool :=
  r.signatureAgrees f m && !isDisabled (r.method f)

theorem ExactOverload.accepts (h : r.ExactOverload target plug m c) : r.accepts m c = true := by
  rw [Registry.accepts, h.agrees, h.enabled]
  rfl

theorem findPlug_single (hf : r.findByName? plug (r.method m).name args = some f) :
    r.findPlug target m args [plug] =
      .ok (if r.signatureAgrees f m = true then some f else none) := by
  rw [findPlug, hf]
  rfl

def instantiates (r : Registry) (m f : MethodId) : Bool :=
  (r.method f).isGenericDefinition && (r.method m).isGenericInstance &&
    (r.method f).genericArgs.length == (r.method m).genericArgs.length

theorem ExactOverload.not_instantiates (h : r.ExactOverload target plug m c) :
    r.instantiates m c = false := by
  rw [instantiates, h.plain]
  rfl

/-- the only plug type answers with the overload that it finds, if it is accepted -/
theorem resolveIn_single (hf : r.findByName? plug (r.method m).name (r.callTypes target m) = some f) :
    resolveIn target [plug] m r =
      (if r.accepts m f then
        if r.instantiates m f then do
          return some (← instantiateMethod f (r.method m).genericArgs)
        else pure (some f)
      else pure none : Action (Option MethodId))
        (r.useNames (r.findPlugUses target m (r.callTypes target m) [plug])) := by
  have hplug : MonadExcept.ofExcept (r.findPlug target m (r.callTypes target m) [plug]) =
      (pure (if r.signatureAgrees f m = true then some f else none) : Action (Option MethodId)) := by
    rw [findPlug_single hf]
    rfl
  rw [resolveIn, get_bind_apply, resolveAmong, get_bind_apply, ← callTypes, bind_apply]
  dsimp only [modify, modifyGet, MonadStateOf.modifyGet, EStateM.modifyGet]
  rw [hplug, pure_bind, accepts]
  cases r.signatureAgrees f m with
  | false => rfl
  | true =>
    rw [Bool.true_and]
    change (if isDisabled (r.method f) = true then (pure none : Action (Option MethodId)) else
      if r.instantiates m f = true then _ else _) _ = _
    cases isDisabled (r.method f) <;> rfl

/-- The only plug type for exactly `target` finds `f` for `m`. -/
structure FindsOnly (r : Registry) (index : PlugIndex) (target plug : TypeId) (m f : MethodId) :
    Prop where
  declaring : (r.method m).declaring = some target
  filed : index.exact.get? r target = some [plug]
  found : r.findByName? plug (r.method m).name (r.callTypes target m) = some f

variable {index : PlugIndex}

theorem FindsOnly.resolveExact (h : r.FindsOnly index target plug m f) :
    PlugManager.resolveExact index target m r = resolveIn target [plug] m r := by
  rw [PlugManager.resolveExact, get_bind_apply, h.filed]

/-- an overload that is not accepted leaves the method to the other plug types -/
theorem FindsOnly.resolveExact_none (h : r.FindsOnly index target plug m f)
    (ha : r.accepts m f = false) :
    ∃ r', PlugManager.resolveExact index target m r = .ok none r' := by
  rw [h.resolveExact, resolveIn_single h.found, ha]
  exact ⟨_, rfl⟩

theorem FindsOnly.resolveByIndex_some (h : r.FindsOnly index target plug m f)
    (hexact : PlugManager.resolveExact index target m r = .ok (some q) r') :
    PlugManager.resolveByIndex index m r = .ok (some q) r' := by
  rw [PlugManager.resolveByIndex, get_bind_apply, h.declaring]
  exact bind_eq_ok_iff.mpr ⟨_, _, hexact, rfl⟩

theorem FindsOnly.resolveByIndex_self (h : r.FindsOnly index target plug m f)
    (ha : r.accepts m f = true) (hg : r.instantiates m f = false) :
    ∃ r', PlugManager.resolveByIndex index m r = .ok (some f) r' := by
  have hexact := h.resolveExact
  rw [resolveIn_single h.found, ha, hg] at hexact
  exact ⟨_, h.resolveByIndex_some hexact⟩

theorem FindsOnly.resolveByIndex_made (h : r.FindsOnly index target plug m f) (hw : r.WellFormed)
    (hf : r.Has (.method f)) (hm : r.Has (.method m)) (ha : r.accepts m f = true)
    {answer : Option MethodId} (hrun : PlugManager.resolveByIndex index m r = .ok answer r') :
    ∃ q, answer = some q ∧ r'.MadeFrom f q := by
  cases hg : r.instantiates m f with
  | false =>
    obtain ⟨s, hself⟩ := h.resolveByIndex_self ha hg
    rw [hself] at hrun
    cases hrun
    exact ⟨f, rfl, .self⟩
  | true =>
    have hexact := h.resolveExact
    rw [resolveIn_single h.found, ha, hg] at hexact
    have hgrows := Grows.useNames r (r.findPlugUses target m (r.callTypes target m) [plug])
    have hnames := hw.useNames (r.findPlugUses target m (r.callTypes target m) [plug])
    have hmakes := builds_instantiateMethod hnames (hgrows.has hf) fun a hmem =>
      hgrows.has (hw.genericArg hm hmem)
    rw [PlugManager.resolveByIndex, get_bind_apply, h.declaring] at hrun
    obtain ⟨found, s, hfound, hrun⟩ := bind_eq_ok_iff.mp hrun
    rw [hexact] at hfound
    obtain ⟨q, s', hq, hfound⟩ := bind_eq_ok_iff.mp hfound
    cases hfound
    cases hrun
    exact ⟨q, rfl, .generic .self (hmakes.ok hq).2.2.1⟩

/-- what the search by name finds is the same later -/
theorem FindsOnly.grown (h : r.FindsOnly index target plug m f) (hg : r.Grows r')
    (hw : r.WellFormed) (hi : r.HasIndex index) (hm : r.Has (.method m)) :
    r'.FindsOnly index target plug m f := by
  have ht := hw.declaring hm h.declaring
  have hplug := (hi .exact).get? h.filed plug List.mem_cons_self
  have hargs : ∀ a ∈ r.callTypes target m, r.Has (.type a) := by
    intro a ha
    rw [callTypes] at ha
    split at ha
    · exact hw.param hm ha
    · rcases List.mem_cons.mp ha with rfl | ha
      · exact ht
      · exact hw.param hm ha
  refine ⟨by rw [hg.method hm, h.declaring], by rw [hg.bucket_get? index.exact ht, h.filed], ?_⟩
  rw [callTypes, hg.method hm, ← callTypes, hg.findByName? hw hplug _ hargs, h.found]

theorem FindsOnly.has (h : r.FindsOnly index target plug m f) (hw : r.WellFormed)
    (hi : r.HasIndex index) : r.Has (.method f) :=
  hw.methodOf ((hi .exact).get? h.filed plug List.mem_cons_self) (mem_of_findByName? h.found)

theorem Grows.accepts (hg : r.Grows r') (hw : r.WellFormed) (hm : r.Has (.method m))
    (hf : r.Has (.method f)) : r'.accepts m f = r.accepts m f := by
  rw [Registry.accepts, Registry.accepts, hg.signatureAgrees hw hf hm, hg.method hf]

theorem Grows.instantiates (hg : r.Grows r') (hm : r.Has (.method m)) (hf : r.Has (.method f)) :
    r'.instantiates m f = r.instantiates m f := by
  rw [Registry.instantiates, Registry.instantiates, hg.method hf, hg.method hm]

end Registry

namespace PlugManager

open Registry

variable {r r' : Registry} {p p' : PlugManager} {m c q : MethodId} {target plug : TypeId}

/-- What is remembered for the identity of `m` was found for `m`, not for another method. -/
def RecallsOwn (r : Registry) (p : PlugManager) (m : MethodId) : Prop :=
  ∀ answer, p.resolved.get? (r.methodKey m) = some answer →
    Settled (resolveByIndex p.index m) answer r

/-- an answer is looked for in the index, now or before -/
theorem RecallsOwn.search (h : p.RecallsOwn r m) (hw : r.WellFormed) {answer : Option MethodId}
    (hrun : resolvePlug p m r = .ok (answer, p') r') :
    ∃ s s', r.Grows s ∧ s.WellFormed ∧ resolveByIndex p.index m s = .ok answer s' ∧
      s'.Grows r' := by
  rw [resolvePlug, get_bind_apply] at hrun
  obtain ⟨s, hg, hws, hrun⟩ := exists_of_noting hw hrun
  dsimp only at hrun
  cases hkey : p.resolved.get? (r.methodKey m) with
  | some known =>
    rw [hkey] at hrun
    obtain ⟨s', hsearch, hforget⟩ := h _ hkey s hg hws
    cases hrun
    exact ⟨_, s', hg, hws, hsearch, .of_forget hforget⟩
  | none =>
    rw [hkey] at hrun
    obtain ⟨found, s', hsearch, hrun⟩ := bind_eq_ok_iff.mp hrun
    cases hrun
    exact ⟨s, _, hg, hws, hsearch, .of_forget rfl⟩

/-- an answer that the index gives at any later time is given -/
theorem RecallsOwn.answers (h : p.RecallsOwn r m) (hw : r.WellFormed) {answer : Option MethodId}
    (hsearch : ∀ s, r.Grows s → s.WellFormed → ∃ s', resolveByIndex p.index m s = .ok answer s') :
    ∃ p' r', resolvePlug p m r = .ok (answer, p') r' := by
  let s := r.useNames (r.methodUses m)
  have hg : r.Grows s := .useNames r _
  have hws : s.WellFormed := hw.useNames _
  obtain ⟨s', hfound⟩ := hsearch s hg hws
  cases hkey : p.resolved.get? (r.methodKey m) with
  | some known =>
    obtain ⟨s'', hknown, -⟩ := h _ hkey s hg hws
    cases hfound.symm.trans hknown
    refine ⟨p, s, ?_⟩
    rw [resolvePlug, get_bind_apply, bind_apply]
    dsimp only [modify, modifyGet, MonadStateOf.modifyGet, EStateM.modifyGet]
    rw [hkey]
    rfl
  | none =>
    refine ⟨{ p with resolved := p.resolved.insert (r.methodKey m) answer }, s', ?_⟩
    rw [resolvePlug, get_bind_apply, bind_apply]
    dsimp only [modify, modifyGet, MonadStateOf.modifyGet, EStateM.modifyGet]
    rw [hkey]
    exact bind_eq_ok_iff.mpr ⟨answer, s', hfound, rfl⟩

/-- **What becomes of a method with an exact overload.**  The search by name finds an overload `f`
that is not behind the exact one, and behind none that can take the arguments.  If `f` has the types
of the method as well, it is the plug.  If it has others, it or an instance of it is the plug when it
is accepted for the method; when it is not, no method of the plug type is, and the search goes on with
the plug types for ancestors. -/
theorem resolvePlug_overload (hw : r.WellFormed) (hi : r.HasIndex p.index) (hm : r.Has (.method m))
    (hown : p.RecallsOwn r m) (hdecl : (r.method m).declaring = some target)
    (hfiled : p.index.exact.get? r target = some [plug]) (hc : r.ExactOverload target plug m c) :
    ∃ f before after, r.overloads plug (r.method m).name = before ++ f :: after ∧
      (∀ x ∈ before, r.canTake (r.callTypes target m) x = false) ∧ c ∈ f :: after ∧
      (r.ExactOverload target plug m f → ∃ p' r', resolvePlug p m r = .ok (some f, p') r') ∧
      (r.accepts m f = true → ∀ answer p' r', resolvePlug p m r = .ok (answer, p') r' →
        ∃ q, answer = some q ∧ r'.MadeFrom f q) ∧
      (r.accepts m f = false → ∃ r', resolveExact p.index target m r = .ok none r') := by
  obtain ⟨f, before, after, hfound, hsplit, hbefore, hmem⟩ := exists_first_overload hc
  have honly : r.FindsOnly p.index target plug m f := ⟨hdecl, hfiled, hfound⟩
  have hf := honly.has hw hi
  refine ⟨f, before, after, hsplit, hbefore, hmem, fun hexact => ?_, fun ha => ?_,
    honly.resolveExact_none⟩
  · refine hown.answers hw fun s hg hws => ?_
    refine (honly.grown hg hw hi hm).resolveByIndex_self ?_ ?_
    · rw [hg.accepts hw hm hf, hexact.accepts]
    · rw [hg.instantiates hm hf, hexact.not_instantiates]
  · intro answer p' r' hrun
    obtain ⟨s, s', hg, hws, hsearch, hg'⟩ := hown.search hw hrun
    rw [← hg.accepts hw hm hf] at ha
    obtain ⟨q, hq, hmade⟩ :=
      (honly.grown hg hw hi hm).resolveByIndex_made hws (hg.has hf) (hg.has hm) ha hsearch
    exact ⟨q, hq, hmade.mono hg'⟩

/-! ## overloads that are overtaken -/

/-- The overloads of `Impl` are filed for the methods of `Program`.  One with exactly the types comes
behind one with an object for `Run`, behind one with the base class for `Load`, and before that one
for `Stop`. -/
def overtakenEdits : List Edit :=
  [.addModule "App",
    .declareType { module := ⟨1⟩, namespaceName := "App", name := "Program" },
    .declareType { module := ⟨1⟩, namespaceName := "App", name := "Base" },
    .declareType { module := ⟨1⟩, namespaceName := "App", name := "Derived", base := .explicit ⟨21⟩ },
    looseMethod ⟨1⟩ ⟨20⟩ "Run" MethodFlags.isStatic [{ name := "value", type := ⟨4⟩ }],
    looseMethod ⟨1⟩ ⟨20⟩ "Load" MethodFlags.isStatic [{ name := "value", type := ⟨22⟩ }],
    looseMethod ⟨1⟩ ⟨20⟩ "Stop" MethodFlags.isStatic [{ name := "value", type := ⟨22⟩ }],
    .addModule "Plugs",
    .declareType
      { module := ⟨2⟩, namespaceName := "Plugs", name := "Impl",
        annotations := [.plug { target := some ⟨20⟩ }] },
    looseMethod ⟨2⟩ ⟨23⟩ "Run" MethodFlags.isStatic [{ name := "value", type := ⟨0⟩ }],
    looseMethod ⟨2⟩ ⟨23⟩ "Run" MethodFlags.isStatic [{ name := "value", type := ⟨4⟩ }],
    looseMethod ⟨2⟩ ⟨23⟩ "Load" MethodFlags.isStatic [{ name := "value", type := ⟨21⟩ }],
    looseMethod ⟨2⟩ ⟨23⟩ "Load" MethodFlags.isStatic [{ name := "value", type := ⟨22⟩ }],
    looseMethod ⟨2⟩ ⟨23⟩ "Stop" MethodFlags.isStatic [{ name := "value", type := ⟨22⟩ }],
    looseMethod ⟨2⟩ ⟨23⟩ "Stop" MethodFlags.isStatic [{ name := "value", type := ⟨21⟩ }]]

def overtaken : Registry := Registry.core.applyAll overtakenEdits

def overtakenIndex : PlugIndex := { exact := ⟨[⟨"T:App:App.Program", ⟨20⟩, [⟨23⟩]⟩]⟩ }

theorem wellFormed_overtaken : overtaken.WellFormed := by
  have hfits : Registry.FitAll Registry.core overtakenEdits := by decide +kernel
  exact (Registry.Built.core.applyAll hfits).wellFormed

theorem findImplementors_overtaken :
    PlugIndex.findImplementors overtaken [⟨2⟩] {} = .ok () overtakenIndex :=
  eq_ok_of_answersWith (by decide +kernel)

theorem hasIndex_overtaken : overtaken.HasIndex overtakenIndex :=
  Registry.hasIndex_of_findImplementors wellFormed_overtaken findImplementors_overtaken

/-- `Stop` is replaced by the overload with its types, which is declared first. -/
theorem resolvePlug_overload_stop :
    overtaken.ExactOverload ⟨20⟩ ⟨23⟩ ⟨2⟩ ⟨7⟩ ∧
    ∃ f before after, overtaken.overloads ⟨23⟩ (overtaken.method ⟨2⟩).name = before ++ f :: after ∧
      (∀ x ∈ before, overtaken.canTake (overtaken.callTypes ⟨20⟩ ⟨2⟩) x = false) ∧
      ⟨7⟩ ∈ f :: after ∧
      (overtaken.ExactOverload ⟨20⟩ ⟨23⟩ ⟨2⟩ f →
        ∃ p' r', resolvePlug { index := overtakenIndex } ⟨2⟩ overtaken = .ok (some f, p') r') ∧
      (overtaken.accepts ⟨2⟩ f = true → ∀ answer p' r',
        resolvePlug { index := overtakenIndex } ⟨2⟩ overtaken = .ok (answer, p') r' →
          ∃ q, answer = some q ∧ r'.MadeFrom f q) ∧
      (overtaken.accepts ⟨2⟩ f = false →
        ∃ r', resolveExact overtakenIndex ⟨20⟩ ⟨2⟩ overtaken = .ok none r') := by
  obtain ⟨hhas, hdecl, hfiled, hexact⟩ :
      overtaken.Has (.method ⟨2⟩) ∧ (overtaken.method ⟨2⟩).declaring = some ⟨20⟩ ∧
      overtakenIndex.exact.get? overtaken ⟨20⟩ = some [⟨23⟩] ∧
      overtaken.ExactOverload ⟨20⟩ ⟨23⟩ ⟨2⟩ ⟨7⟩ := by
    decide +kernel
  have hown : ({ index := overtakenIndex } : PlugManager).RecallsOwn overtaken ⟨2⟩ :=
    fun _ hanswer => by cases hanswer
  exact ⟨hexact, resolvePlug_overload (p := { index := overtakenIndex }) wellFormed_overtaken
    hasIndex_overtaken hhas hown hdecl hfiled hexact⟩

/-- `Run` is replaced by an overload with another type although there is one with its own, and `Load`
is not replaced at all. -/
theorem resolvePlug_overtaken : overtaken.WellFormed ∧
    PlugIndex.findImplementors overtaken [⟨2⟩] {} = .ok () overtakenIndex ∧
    overtakenIndex.exact.get? overtaken ⟨20⟩ = some [⟨23⟩] ∧
    ((overtaken.method ⟨0⟩).declaring = some ⟨20⟩ ∧
      overtaken.ExactOverload ⟨20⟩ ⟨23⟩ ⟨0⟩ ⟨4⟩ ∧
      (∃ p r', resolvePlug { index := overtakenIndex } ⟨0⟩ overtaken = .ok (some ⟨3⟩, p) r' ∧
        r'.sameTypes (r'.method ⟨3⟩).paramTypes (r'.callTypes ⟨20⟩ ⟨0⟩) = false)) ∧
    ((overtaken.method ⟨1⟩).declaring = some ⟨20⟩ ∧
      overtaken.ExactOverload ⟨20⟩ ⟨23⟩ ⟨1⟩ ⟨6⟩ ∧
      ∃ p r', resolvePlug { index := overtakenIndex } ⟨1⟩ overtaken = .ok (none, p) r') := by
  obtain ⟨hfiled, hdeclRun, hexactRun, hdeclLoad, hexactLoad, hrun, hload⟩ :
      overtakenIndex.exact.get? overtaken ⟨20⟩ = some [⟨23⟩] ∧
      (overtaken.method ⟨0⟩).declaring = some ⟨20⟩ ∧
      overtaken.ExactOverload ⟨20⟩ ⟨23⟩ ⟨0⟩ ⟨4⟩ ∧
      (overtaken.method ⟨1⟩).declaring = some ⟨20⟩ ∧
      overtaken.ExactOverload ⟨20⟩ ⟨23⟩ ⟨1⟩ ⟨6⟩ ∧
      answersWith (resolvePlug { index := overtakenIndex } ⟨0⟩) overtaken (fun answer r' =>
        decide (answer.1 = some ⟨3⟩) &&
          !r'.sameTypes (r'.method ⟨3⟩).paramTypes (r'.callTypes ⟨20⟩ ⟨0⟩)) = true ∧
      answersWith (resolvePlug { index := overtakenIndex } ⟨1⟩) overtaken (fun answer _ =>
        decide (answer.1 = none)) = true := by
    decide +kernel
  obtain ⟨⟨answer, p⟩, r', hrun, hanswer⟩ := exists_of_answersWith hrun
  obtain ⟨hthird, hdiffers⟩ := Bool.and_eq_true_iff.mp hanswer
  cases of_decide_eq_true hthird
  obtain ⟨⟨answer', p'⟩, r'', hload, hnone⟩ := exists_of_answersWith hload
  cases of_decide_eq_true hnone
  exact ⟨wellFormed_overtaken, findImplementors_overtaken, hfiled,
    ⟨hdeclRun, hexactRun, p, r', hrun, by simpa using hdiffers⟩, hdeclLoad, hexactLoad, p', r'', hload⟩

end PlugManager

end ProgramScan

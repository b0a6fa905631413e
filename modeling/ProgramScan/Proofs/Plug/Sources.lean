import ProgramScan.Proofs.Plug.Coherence
import ProgramScan.Proofs.Registry.Discernible

/-!
# Where plugs come from

A plug is a method of a plug type that was filed for the declaring type, for an ancestor of it or, for a
member of a generic instance, for the definition.  In the last case the plug type is generic, and the
plug is declared on its instance with the same arguments.  A generic plug method gets the generic
arguments of the method.

Instances are found again by keys.  So all this holds as long as elements have keys of their own, also
those that looking for the plug has made (`Registry.Discernible`).

* `Registry.Applied`                 a plug is the plug method, or its instance with the same arguments;
* `Registry.Counterpart`             a method belongs to a plug method, on an instance of its type;
* `Registry.PlugFrom`                the three ways to get to a plug;
* `PlugManager.Queried`              managers of a program that was built, asked for plugs before;
* `PlugManager.resolvePlug_source`   every plug comes about in one of these ways, and can stand in for
                                     the method;
* `PlugManager.resolvePlug_misled`   plugs that are taken from the wrong instance.
-/

namespace ProgramScan

namespace Registry

variable {r r' : Registry} {index : PlugIndex} {m f g q : MethodId} {declaring : TypeId}

/-! ## the ways to a plug -/

def Applied (r : Registry) (m f q : MethodId) : Prop :=
  q = f ∨ r.MethodInstance f (r.method m).genericArgs q

/-- `g` is what `f`, a method of the generic type `plug`, is on the type closed with `args`: itself, if
these are the parameters of `plug`, and the member that was made from it otherwise. -/
structure Counterpart (r : Registry) (plug : TypeId) (args : List TypeId) (f : MethodId)
    (closed : TypeId) (g : MethodId) : Prop where
  closes : closed = plug ∧ (r.type plug).form.genericArgs = args ∧ g = f ∨
    (∃ kind, (r.type closed).form = .instantiated kind plug args) ∧
      (r.method g).memberDefinition? = some f
  listed : g ∈ (r.type closed).methods
  declared : (r.method g).declaring = some closed

/-- How `q` is the plug of `m`, a method that `declaring` declares. -/
inductive PlugFrom (r : Registry) (index : PlugIndex) (declaring : TypeId) (m q : MethodId) : Prop
  /-- from a plug type filed for exactly this type -/
  | exact {plugs : List TypeId} {plug : TypeId} {f : MethodId}
    (hrow : index.exact.get? r declaring = some plugs) (hplug : plug ∈ plugs)
    (hf : f ∈ (r.type plug).methods) (hq : r.Applied m f q)
  /-- from one filed for an ancestor -/
  | inherited {row : PlugRow} {plug : TypeId} {f : MethodId}
    (hrow : row ∈ index.inheritable.rows) (htarget : row.target ∈ r.ancestors declaring)
    (hplug : plug ∈ row.plugs) (hf : f ∈ (r.type plug).methods) (hq : r.Applied m f q)
  /-- from one filed for the definition, with the arguments of the instance -/
  | generic {kind : TypeKind} {definition : TypeId} {args : List TypeId} {bucket : PlugBucket}
    {plugs : List TypeId} {plug closed : TypeId} {f g : MethodId}
    (hform : (r.type declaring).form = .instantiated kind definition args)
    (hbucket : bucket ∈ [index.exactGeneric, index.inheritableGeneric])
    (hrow : bucket.get? r definition = some plugs) (hplug : plug ∈ plugs)
    (hgeneric : (r.type plug).form.isGenericDefinition = true)
    (hf : f ∈ (r.type plug).methods) (hg : r.Counterpart plug args f closed g)
    (hq : r.Applied m g q)

/-- Where plug types are filed for definitions only, the type that declares a plug has the arguments of
the type that declares the method. -/
theorem PlugFrom.args_eq {closed : TypeId} (hexact : index.exact.rows = [])
    (hinheritable : index.inheritable.rows = []) (hq : (r.method q).declaring = some closed)
    (h : r.PlugFrom index declaring m q) :
    (r.type closed).form.genericArgs = (r.type declaring).form.genericArgs := by
  cases h with
  | exact hrow =>
    rw [PlugBucket.get?, hexact] at hrow
    cases hrow
  | inherited hrow =>
    rw [hinheritable] at hrow
    cases hrow
  | @generic kind definition args bucket plugs plug owner f g hform _ _ _ _ _ hg happlied =>
    have hdeclared : (r.method q).declaring = some owner := by
      rcases happlied with rfl | hi
      · exact hg.declared
      · exact hi.declaring.trans hg.declared
    rw [hq] at hdeclared
    cases hdeclared
    rw [hform]
    rcases hg.closes with ⟨rfl, hown, -⟩ | ⟨⟨kind, hclosed⟩, -⟩
    · exact hown
    · rw [hclosed]
      rfl

/-! ## states that differ in the names in use -/

theorem method_of_forget (h : r'.forget = r.forget) : r'.method = r.method := by
  have hmethods := congrArg Registry.methods h
  funext m
  exact congrArg (fun ms : Array Method => ms.getD m.index default) hmethods

theorem type_of_forget (h : r'.forget = r.forget) : r'.type = r.type := by
  have htypes := congrArg Registry.types h
  funext t
  exact congrArg (fun ts : Array TypeDecl => ts.getD t.index default) htypes

theorem AppliedTo.of_forget (hf : r'.forget = r.forget) (h : r.AppliedTo m f q) :
    r'.AppliedTo m f q := by
  have hmethod := method_of_forget hf
  cases h with
  | self => exact .self
  | generic hgen hinst hq =>
    refine .generic (by rw [hmethod, hgen]) (by rw [hmethod, hinst]) ?_
    rw [hmethod]
    exact hq.mono (.of_forget hf.symm)

theorem ClosedFrom.of_forget (hf : r'.forget = r.forget) (h : r.ClosedFrom declaring m f q) :
    r'.ClosedFrom declaring m f q := by
  have hmethod := method_of_forget hf
  have htype := type_of_forget hf
  obtain ⟨definition, openMethod, hmem, openPlug, plug, closed, g, hopen, hclosed⟩ := h
  refine ⟨definition, openMethod, by rw [htype]; exact hmem, openPlug, plug, closed, g,
    hopen.of_forget hf, by rw [hmethod, hclosed.declares], by rw [htype, hclosed.generic], ?_,
    hclosed.member.mono (.of_forget hf.symm), hclosed.applied.of_forget hf⟩
  rw [htype]
  exact hclosed.closes.mono (.of_forget hf.symm)

/-! ## copies of plug methods -/

theorem CanPlug.of_traits (h : r.CanPlug f) (ht : (r.method q).traits = (r.method f).traits) :
    r.CanPlug q := by
  have hstatic := congrArg Method.isStatic ht
  have hpublic := congrArg Method.isPublic ht
  have hdisabled := congrArg isDisabled ht
  exact ⟨hstatic.trans h.isStatic, hpublic.trans h.isPublic, hdisabled.trans h.enabled⟩

/-- what can stand in for others is copied with the method -/
theorem Copying.canPlug (hc : r.Copying) (h : r.CanPlug f)
    (hq : (r.method q).origin.source? = some f) : r.CanPlug q :=
  h.of_traits (hc.alike q f hq).2

theorem Applied.canPlug (hc : r.Copying) (h : r.CanPlug f) (hq : r.Applied m f q) :
    r.CanPlug q := by
  rcases hq with rfl | hi
  · exact h
  · exact hc.canPlug h (source?_of_genericDefinition? hi.definition)

theorem Counterpart.canPlug {plug closed : TypeId} {args : List TypeId} (hc : r.Copying)
    (h : r.CanPlug f) (hg : r.Counterpart plug args f closed g) : r.CanPlug g := by
  rcases hg.closes with ⟨-, -, rfl⟩ | ⟨-, hmember⟩
  · exact h
  · exact hc.canPlug h (source?_of_memberDefinition? hmember)

/-! ## plugs that were found -/

section
variable (hd : r.Discernible) (hc : r.Coherent)
include hd hc

theorem AppliedTo.applied (hm : r.Has (.method m)) (hf : r.Has (.method f))
    (h : r.AppliedTo m f q) : r.Applied m f q := by
  cases h with
  | self => exact .inl rfl
  | generic hgen _ hq =>
    have hplain : (r.method f).genericDefinition? = none := by
      simp only [Method.isGenericDefinition, Bool.and_eq_true, Bool.not_eq_true',
        Method.isGenericInstance, Option.isSome_eq_false_iff, Option.isNone_iff_eq_none] at hgen
      exact hgen.2
    exact .inr (hd.methodInstance hc hf hplain (fun a ha => hc.wellFormed.genericArg hm ha) hq)

/-- what is filed for the type or an ancestor -/
theorem FoundClosed.plugFrom (hi : r.HasIndex index) (ht : r.Has (.type declaring))
    (h : r.FoundClosed index declaring m f) (hq : r.Applied m f q) :
    r.PlugFrom index declaring m q := by
  obtain ⟨plugs, hrow, htaken⟩ | ⟨row, hrow, hsub, htaken⟩ := h
  · obtain ⟨plug, hplug, hf⟩ := htaken.filed
    exact .exact hrow hplug hf hq
  · obtain ⟨plug, hplug, hf⟩ := htaken.filed
    obtain ⟨base, hbase, hsame⟩ := List.any_eq_true.mp hsub
    have hkey := hd.types base row.target (hc.wellFormed.of_ancestorsFrom ht hbase)
      (hi .inheritable row hrow).1 (sameType_iff.mp hsame)
    exact .inherited hrow (hkey ▸ hbase) hplug hf hq

theorem counterpart_of_closed {plug closed : TypeId} {args : List TypeId}
    (hplug : r.Has (.type plug)) (hgeneric : (r.type plug).form.isGenericDefinition = true)
    (hargs : ∀ a ∈ args, r.Has (.type a)) (hf : f ∈ (r.type plug).methods)
    (hclosed : Settled (instantiate plug args) closed r)
    (hg : Settled (correspondingMethod closed f) g r) : r.Counterpart plug args f closed g := by
  have hdef : (r.type plug).form.definition? = none := by
    cases hform : (r.type plug).form <;> simp_all [TypeForm.isGenericDefinition, TypeForm.definition?]
  have horigin := hc.copying.declared plug hdef f hf
  obtain ⟨s, hrun, -⟩ := hg.run hc.wellFormed
  obtain ⟨hlisted, hstems, -⟩ := correspondingMethod_found hrun
  have hroot : (r.method f).memberDefinition?.getD f = f := by
    simp [Method.memberDefinition?, horigin]
  have hdeclared := (hc.copying.owned closed g hlisted).1
  rw [hroot, stemsFrom, Bool.or_eq_true, decide_eq_true_eq, decide_eq_true_eq] at hstems
  refine ⟨?_, hlisted, hdeclared⟩
  rcases hd.instantiated hc.orderly hplug hdef hargs hclosed with ⟨rfl, hown⟩ | ⟨kind, hform⟩
  · -- a definition lists no copies
    refine .inl ⟨rfl, hown, hstems.resolve_right fun hmember => ?_⟩
    rw [Method.memberDefinition?, hc.copying.declared closed hdef g hlisted] at hmember
    cases hmember
  · -- and its methods are not those of an instance
    refine .inr ⟨⟨kind, hform⟩, hstems.resolve_left ?_⟩
    rintro rfl
    have hsame := hdeclared.symm.trans (hc.copying.owned plug g hf).1
    cases hsame
    rw [hform] at hdef
    cases hdef

/-- what is filed for the definition -/
theorem FoundOpen.plugFrom (hi : r.HasIndex index) (hm : r.Has (.method m))
    (ht : r.Has (.type declaring)) (hcan : r.CanPlug f) (h : r.FoundOpen index declaring m f)
    (hq : r.ClosedFrom declaring m f q) : r.PlugFrom index declaring m q ∧ r.CanPlug q := by
  have hw := hc.wellFormed
  obtain ⟨definition, _, hdef, -, bucket, hbucket, plugs, hrow, htaken⟩ := h
  obtain ⟨_, openMethod, hmember, openPlug, plug', closed, g, hopen, hclosed⟩ := hq
  obtain ⟨plug, hplug, hf⟩ := htaken.filed
  have hfiled : ∀ t ∈ plugs, r.Has (.type t) := by
    rcases List.mem_pair.mp hbucket with rfl | rfl
    · exact (hi .exactGeneric).get? hrow
    · exact (hi .inheritableGeneric).get? hrow
  have hplughas := hfiled plug hplug
  -- the members of the definition are no instances, so the method found for one is taken as it is
  obtain rfl : openPlug = f := by
    cases hopen with
    | self => rfl
    | generic _ hinst _ =>
      rw [Method.isGenericInstance, (hc.copying.owned _ _ hmember).2] at hinst
      cases hinst
  obtain rfl : plug' = plug := by
    have hsame := hclosed.declares.symm.trans (hc.copying.owned plug openPlug hf).1
    exact Option.some.inj hsame
  obtain ⟨kind, args, hform⟩ : ∃ kind args,
      (r.type declaring).form = .instantiated kind definition args := by
    cases hform : (r.type declaring).form <;> simp_all [TypeForm.definition?]
  have hargs : ∀ a ∈ args, r.Has (.type a) := fun a ha => hw.genericArgOf ht (by
    rw [hform]
    exact ha)
  have hcloses := hclosed.closes
  rw [hform] at hcloses
  have hcounter := counterpart_of_closed hd hc hplughas hclosed.generic hargs hf hcloses
    hclosed.member
  have hgcan := hcounter.canPlug hc.copying hcan
  have happlied := hclosed.applied.applied hd hc hm (has_of_declaring hcounter.declared)
  exact ⟨.generic hform hbucket hrow hplug hclosed.generic hf hcounter happlied,
    happlied.canPlug hc.copying hgcan⟩

end

end Registry

/-! ## managers -/

namespace PlugManager

open Registry

variable {r r' : Registry} {p p' : PlugManager} {m q : MethodId}

/-- managers of an index for a program that was built, asked for plugs any number of times, with or
without an answer -/
inductive Queried : Registry → PlugManager → Prop
  | fresh {r : Registry} {p : PlugManager} (hr : r.Built) (hi : r.HasIndex p.index)
    (hp : p.resolved = ∅) : Queried r p
  | answered {r r' : Registry} {p p' : PlugManager} {m : MethodId} {answer : Option MethodId}
    (h : Queried r p) (hm : r.Has (.method m)) (hrun : resolvePlug p m r = .ok (answer, p') r') :
    Queried r' p'
  | failed {r r' : Registry} {p : PlugManager} {m : MethodId} {e : Error} (h : Queried r p)
    (hm : r.Has (.method m)) (hrun : resolvePlug p m r = .error e r') : Queried r' p

/-- the program stays in order, and the answers that are remembered would be found again -/
theorem Queried.coherent_recalls (h : Queried r p) : r.Coherent ∧ Recalls r p := by
  induction h with
  | fresh hr hi hp => exact ⟨hr.coherent, (Asked.fresh hr.wellFormed hi hp).recalls⟩
  | answered _ hm hrun ih =>
    exact ⟨((coheres_resolvePlug ih.1 ih.2.index hm).ok hrun).coherent, (ih.2.resolvePlug hm hrun).1⟩
  | failed _ hm hrun ih =>
    obtain ⟨hg, -, hc⟩ := (coheres_resolvePlug ih.1 ih.2.index hm).error hrun
    exact ⟨hc, ih.2.grown hg hc.wellFormed⟩

/-- **Where plugs come from.**  Whatever a manager was asked before, a plug that it gives is static and
public and not disabled, the method has a declaring type, and the plug comes from a plug type that is
filed for this type, for an ancestor or for the definition, with the same type arguments and the same
generic arguments; as long as the elements of the program have keys of their own that can be taken
apart. -/
theorem resolvePlug_source (h : Queried r p) (hm : r.Has (.method m))
    (hrun : resolvePlug p m r = .ok (some q, p') r') (hd : r'.Discernible) :
    r'.CanPlug q ∧ ∃ declaring, (r.method m).declaring = some declaring ∧
      r'.PlugFrom p.index declaring m q := by
  obtain ⟨hcoherent, hrecalls⟩ := h.coherent_recalls
  obtain ⟨-, -, hc⟩ := (coheres_resolvePlug hcoherent hrecalls.index hm).ok hrun
  obtain ⟨-, hg, m', hm', hsame, hset⟩ := hrecalls.resolvePlug hm hrun
  have hi := hg.hasIndex hrecalls.index
  have hmr := hg.has hm
  -- the method that the answer was found for has the same key, so it is the method itself
  obtain rfl : m' = m := by
    rw [← hg.sameMethod hrecalls.wellFormed hm' hm, sameMethod, Bool.or_eq_true, decide_eq_true_eq,
      beq_iff_eq] at hsame
    exact hsame.elim id (hd.methods m' m (hg.has hm') hmr)
  obtain ⟨r'', hagain, hforget⟩ := hset.run hc.wellFormed
  obtain ⟨declaring, f, hdecl, hcan, hfound⟩ :=
    resolveByIndex_chosen hc.wellFormed hi hmr hagain
  have ht := hc.wellFormed.declaring hmr hdecl
  rw [hg.method hm] at hdecl
  rcases hfound with ⟨hclosed, happlied⟩ | ⟨hopen, hmade⟩
  · have happlied := (happlied.of_forget hforget.symm).applied hd hc hmr (hclosed.has hc.wellFormed hi)
    exact ⟨happlied.canPlug hc.copying hcan, declaring, hdecl, hclosed.plugFrom hd hc hi ht happlied⟩
  · obtain ⟨hfrom, hq⟩ := hopen.plugFrom hd hc hi hmr ht hcan (hmade.of_forget hforget.symm)
    exact ⟨hq, declaring, hdecl, hfrom⟩

/-! ## generic plugs -/

/-- a manager of the plug types of some modules, not asked yet -/
theorem queried_of_findImplementors {modules : List ModuleId} {index : PlugIndex} (hr : r.Built)
    (h : PlugIndex.findImplementors r modules {} = .ok () index) : Queried r { index } :=
  .fresh hr (hasIndex_of_findImplementors hr.wellFormed h) rfl

def genericMethod (module : ModuleId) (declaring : TypeId) (name : String) (params : List TypeId) :
    Edit :=
  .declareMethod
    { module, name, declaring := some declaring, modifiers := MethodFlags.isStatic,
      genericParams := params }

/-- The modules `A` and `B` have a class `N.X` each.  The generic class `Impl` is filed for the generic
class `Box`, and both have a generic method `Make`. -/
def boxEdits : List Edit :=
  [.addModule "A",
    .declareType { module := ⟨1⟩, namespaceName := "N", name := "X" },
    .addModule "B",
    .declareType { module := ⟨2⟩, namespaceName := "N", name := "X" },
    .addModule "App",
    .declareType { module := ⟨3⟩, namespaceName := "App", name := "Box", generic := ["T"] },
    .addParameter ⟨3⟩ "U" 0 .method,
    genericMethod ⟨3⟩ ⟨23⟩ "Make" [⟨24⟩],
    .addModule "Plugs",
    .declareType
      { module := ⟨4⟩, namespaceName := "Plugs", name := "Impl", generic := ["S"],
        annotations := [.plug { target := some ⟨23⟩ }] },
    .addParameter ⟨4⟩ "V" 0 .method,
    genericMethod ⟨4⟩ ⟨26⟩ "Make" [⟨27⟩]]

def boxIndex : PlugIndex := { exactGeneric := ⟨[⟨"T:App:App.Box`1", ⟨23⟩, [⟨26⟩]⟩]⟩ }

def boxes : Registry :=
  Registry.core.applyAll (boxEdits ++ [.instantiate ⟨23⟩ [⟨21⟩], .instantiateMethod ⟨2⟩ [⟨12⟩]])

/-- The plug of `Box<B.X>.Make<Int32>` is `Impl<B.X>.Make<Int32>`. -/
theorem resolvePlug_source_boxes : ∃ p r', Queried boxes { index := boxIndex } ∧
    boxes.Has (.method ⟨3⟩) ∧
    resolvePlug { index := boxIndex } ⟨3⟩ boxes = .ok (some ⟨5⟩, p) r' ∧ r'.Discernible ∧
    r'.CanPlug ⟨5⟩ ∧ ∃ declaring, (boxes.method ⟨3⟩).declaring = some declaring ∧
      r'.PlugFrom boxIndex declaring ⟨3⟩ ⟨5⟩ := by
  obtain ⟨hfits, hfind, hhas, heval⟩ :
      FitAll Registry.core (boxEdits ++ [.instantiate ⟨23⟩ [⟨21⟩], .instantiateMethod ⟨2⟩ [⟨12⟩]]) ∧
      answersWith (PlugIndex.findImplementors boxes [⟨4⟩]) {} (fun _ t => decide (t = boxIndex)) =
        true ∧
      boxes.Has (.method ⟨3⟩) ∧
      answersWith (resolvePlug { index := boxIndex } ⟨3⟩) boxes (fun answer r' =>
        decide (answer.1 = some ⟨5⟩ ∧ r'.Discernible)) = true := by
    decide +kernel
  have hbuilt : boxes.Built := .applyAll .core hfits
  have hqueried := queried_of_findImplementors hbuilt (eq_ok_of_answersWith hfind)
  obtain ⟨⟨answer, p⟩, r', hrun, hanswer⟩ := exists_of_answersWith heval
  obtain ⟨rfl, hd⟩ := of_decide_eq_true hanswer
  exact ⟨p, r', hqueried, hhas, hrun, hd, resolvePlug_source hqueried hhas hrun hd⟩

/-- `Impl<A.X>.Make<Int32>` is there already when `Box<B.X>.Make<Int32>` is used -/
def crowded : Registry :=
  Registry.core.applyAll (boxEdits ++
    [.instantiate ⟨26⟩ [⟨20⟩], .instantiateMethod ⟨2⟩ [⟨12⟩], .instantiate ⟨23⟩ [⟨21⟩],
      .instantiateMethod ⟨4⟩ [⟨12⟩]])

/-- The generic class `Impl` is filed for the generic class `Pair`, and both have a method `Run`.  Two
classes have a comma in their names.  The key of `Impl` for `X` and the first of them is therefore also
the key of `Impl` for the second one and `Z`, which are the arguments of `Pair` here. -/
def commaEdits : List Edit :=
  [.addModule "App",
    .declareType { module := ⟨1⟩, namespaceName := "App", name := "X" },
    .declareType { module := ⟨1⟩, namespaceName := "App", name := "Y,T:App:App.Z" },
    .declareType { module := ⟨1⟩, namespaceName := "App", name := "X,T:App:App.Y" },
    .declareType { module := ⟨1⟩, namespaceName := "App", name := "Z" },
    .declareType { module := ⟨1⟩, namespaceName := "App", name := "Pair", generic := ["K", "V"] },
    genericMethod ⟨1⟩ ⟨26⟩ "Run" [],
    .addModule "Plugs",
    .declareType
      { module := ⟨2⟩, namespaceName := "Plugs", name := "Impl", generic := ["A", "B"],
        annotations := [.plug { target := some ⟨26⟩ }] },
    genericMethod ⟨2⟩ ⟨29⟩ "Run" [],
    .instantiate ⟨29⟩ [⟨20⟩, ⟨21⟩],
    .instantiate ⟨26⟩ [⟨22⟩, ⟨23⟩]]

def commas : Registry := Registry.core.applyAll commaEdits

def commaIndex : PlugIndex := { exactGeneric := ⟨[⟨"T:App:App.Pair`2", ⟨26⟩, [⟨29⟩]⟩]⟩ }

/-- **Plugs of the wrong instance.**  In two programs whose elements have keys of their own, the plug of a
method is declared on an instance of the plug type with other arguments.  In the first one the names of
arguments cannot be taken apart; in the second one the instance that the plug should be declared on gets
the key of one that is there. -/
theorem resolvePlug_misled :
    (commas.Built ∧ commas.KeysDistinct ∧ commas.MethodKeysDistinct ∧
      PlugIndex.findImplementors commas [⟨2⟩] {} = .ok () commaIndex ∧
      ∃ p r', resolvePlug { index := commaIndex } ⟨3⟩ commas = .ok (some ⟨2⟩, p) r' ∧
        r'.KeysDistinct ∧ r'.MethodKeysDistinct ∧ (commas.method ⟨3⟩).declaring = some ⟨31⟩ ∧
        (r'.type ⟨31⟩).form.genericArgs = [⟨22⟩, ⟨23⟩] ∧ (r'.method ⟨2⟩).declaring = some ⟨30⟩ ∧
        (r'.type ⟨30⟩).form.genericArgs = [⟨20⟩, ⟨21⟩] ∧ ¬ r'.PlugFrom commaIndex ⟨31⟩ ⟨3⟩ ⟨2⟩) ∧
    (crowded.Built ∧ crowded.KeysDistinct ∧ crowded.MethodKeysDistinct ∧
      PlugIndex.findImplementors crowded [⟨4⟩] {} = .ok () boxIndex ∧
      ∃ p r', resolvePlug { index := boxIndex } ⟨5⟩ crowded = .ok (some ⟨3⟩, p) r' ∧
        (crowded.method ⟨5⟩).declaring = some ⟨29⟩ ∧ (r'.type ⟨29⟩).form.genericArgs = [⟨21⟩] ∧
        (r'.method ⟨3⟩).declaring = some ⟨28⟩ ∧ (r'.type ⟨28⟩).form.genericArgs = [⟨20⟩] ∧
        ¬ r'.PlugFrom boxIndex ⟨29⟩ ⟨5⟩ ⟨3⟩) := by
  constructor
  · obtain ⟨hfits, htypes, hmethods, hdeclaring, hfind, heval⟩ :
        FitAll Registry.core commaEdits ∧ commas.KeysDistinct ∧ commas.MethodKeysDistinct ∧
        (commas.method ⟨3⟩).declaring = some ⟨31⟩ ∧
        answersWith (PlugIndex.findImplementors commas [⟨2⟩]) {} (fun _ t =>
          decide (t = commaIndex)) = true ∧
        answersWith (resolvePlug { index := commaIndex } ⟨3⟩) commas (fun answer r' =>
          decide (answer.1 = some ⟨2⟩ ∧ r'.KeysDistinct ∧ r'.MethodKeysDistinct ∧
            (r'.type ⟨31⟩).form.genericArgs = [⟨22⟩, ⟨23⟩] ∧ (r'.method ⟨2⟩).declaring = some ⟨30⟩ ∧
            (r'.type ⟨30⟩).form.genericArgs = [⟨20⟩, ⟨21⟩])) = true := by
      decide +kernel
    obtain ⟨⟨answer, p⟩, r', hrun, hanswer⟩ := exists_of_answersWith heval
    obtain ⟨rfl, htypes', hmethods', hargs, hdecl, hargs'⟩ := of_decide_eq_true hanswer
    refine ⟨.applyAll .core hfits, htypes, hmethods, eq_ok_of_answersWith hfind, p, r', hrun, htypes',
      hmethods', hdeclaring, hargs, hdecl, hargs', fun hfrom => ?_⟩
    have hsame := hfrom.args_eq rfl rfl hdecl
    rw [hargs, hargs'] at hsame
    exact absurd hsame (by decide)
  · obtain ⟨hfits, htypes, hmethods, hdeclaring, hfind, heval⟩ :
        FitAll Registry.core (boxEdits ++ [.instantiate ⟨26⟩ [⟨20⟩], .instantiateMethod ⟨2⟩ [⟨12⟩],
          .instantiate ⟨23⟩ [⟨21⟩], .instantiateMethod ⟨4⟩ [⟨12⟩]]) ∧
        crowded.KeysDistinct ∧ crowded.MethodKeysDistinct ∧
        (crowded.method ⟨5⟩).declaring = some ⟨29⟩ ∧
        answersWith (PlugIndex.findImplementors crowded [⟨4⟩]) {} (fun _ t =>
          decide (t = boxIndex)) = true ∧
        answersWith (resolvePlug { index := boxIndex } ⟨5⟩) crowded (fun answer r' =>
          decide (answer.1 = some ⟨3⟩ ∧ (r'.type ⟨29⟩).form.genericArgs = [⟨21⟩] ∧
            (r'.method ⟨3⟩).declaring = some ⟨28⟩ ∧
            (r'.type ⟨28⟩).form.genericArgs = [⟨20⟩])) = true := by
      decide +kernel
    obtain ⟨⟨answer, p⟩, r', hrun, hanswer⟩ := exists_of_answersWith heval
    obtain ⟨rfl, hargs, hdecl, hargs'⟩ := of_decide_eq_true hanswer
    refine ⟨.applyAll .core hfits, htypes, hmethods, eq_ok_of_answersWith hfind, p, r', hrun,
      hdeclaring, hargs, hdecl, hargs', fun hfrom => ?_⟩
    have hsame := hfrom.args_eq rfl rfl hdecl
    rw [hargs, hargs'] at hsame
    exact absurd hsame (by decide)

end PlugManager

end ProgramScan

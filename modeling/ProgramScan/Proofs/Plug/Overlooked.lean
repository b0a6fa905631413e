import ProgramScan.Proofs.Plug.Checking

/-!
# Plug methods that are reported and taken

The check of plug types reports plug methods that fit no member of their target.  The search for the
plug of a method compares by rules of its own, and can take a method that was reported.

* `checkPlugs_diagnostics`   what the check reports;
* `Unmatched`                the check reports a plug method of a target;
* `Overlooked`               why the search takes one that is reported;
* `Unmatched.overlooked`     there are no other reasons.
-/

namespace ProgramScan

namespace Registry

/-! ## what the check reports -/

def findings (r : Registry) (index : PlugIndex) : Diagnostics :=
  index.closedPlugs.flatMap fun (target, plug) =>
    (r.type plug).methods.filterMap (r.plugFinding? target)

theorem checkPlugs_diagnostics {r : Registry} {index : PlugIndex} {ds ds' : Diagnostics}
    {fields : FieldPlugs} (h : r.checkPlugs index ds = .ok fields ds') :
    ds' = ds ++ r.findings index := by
  unfold checkPlugs at h
  unfold findings
  generalize index.closedPlugs = plugs at h ⊢
  generalize ({} : FieldPlugs) = before at h
  induction plugs generalizing ds before with
  | nil =>
    cases h
    simp
  | cons e plugs ih =>
    rw [List.foldlM_cons] at h
    obtain ⟨between, ds₁, hfirst, hrest⟩ := bind_eq_ok_iff.mp h
    obtain ⟨_, ds₂, hreport, hfields⟩ := bind_eq_ok_iff.mp hfirst
    cases hreport
    have hds : ds₁ = ds ++ (r.type e.2).methods.filterMap (r.plugFinding? e.1) := by
      cases hadd : r.addFieldPlugs before e.1 e.2 with
      | error err =>
        rw [hadd] at hfields
        cases hfields
      | ok added =>
        rw [hadd] at hfields
        cases hfields
        rfl
    rw [ih _ hrest, hds, List.flatMap_cons, List.append_assoc]

variable {r : Registry} {target : TypeId} {m f c : MethodId}

/-- the check reports `f`, a plug method without options, for `target` -/
def Unmatched (r : Registry) (target : TypeId) (f : MethodId) : Prop :=
  (r.method f).plugOptions?.isNone = true ∧ (r.plugFinding? target f).isSome = true

instance (r : Registry) (target : TypeId) (f : MethodId) : Decidable (r.Unmatched target f) :=
  inferInstanceAs (Decidable (_ ∧ _))

theorem Unmatched.plain (h : r.Unmatched target f) : (r.method f).plugOptions? = none :=
  Option.isNone_iff_eq_none.mp h.1

theorem Unmatched.not_matches (h : r.Unmatched target f) :
    r.matchesTargetMember target f = false := by
  have hsome := h.2
  simp only [Registry.plugFinding?, h.plain] at hsome
  split at hsome
  · cases hsome
  · split at hsome
    · cases hsome
    · rename_i hmatch
      simpa using hmatch

theorem Unmatched.not_granted (h : r.Unmatched target f) :
    takenForGranted (r.method f) = false :=
  (Bool.or_eq_false_iff.mp h.not_matches).1

theorem Unmatched.not_fits (h : r.Unmatched target f)
    (hc : c ∈ r.methodsNamed target (r.method f).name) :
    r.fitsMember (r.comparableShapes f) c = false := by
  have hall := (Bool.or_eq_false_iff.mp h.not_matches).2
  simpa using List.any_eq_false.mp hall c hc

theorem Unmatched.not_fieldAccess (h : r.Unmatched target f) {p : Param}
    (hp : p ∈ (r.method f).params) : p.isFieldAccess = false := by
  have hall := (Bool.or_eq_false_iff.mp h.not_granted).2
  have hp := List.any_eq_false.mp hall p hp
  simp only [Bool.or_eq_true, not_or, Bool.not_eq_true] at hp
  exact hp.1

theorem Unmatched.not_alias (h : r.Unmatched target f) :
    isConstructorAlias (r.method f).name = false :=
  (Bool.or_eq_false_iff.mp h.not_granted).1

/-! ## members with the parameters of a plug method -/

section
variable {a b : TypeId} {as bs : List TypeId} {s s' : Option TypeId} {ss ss' : List (Option TypeId)}

theorem sameType_comm (a b : TypeId) : r.sameType a b = r.sameType b a := by
  simp only [sameType, eq_comm, BEq.comm]

theorem sameKnown_comm (s s' : Option TypeId) : r.sameKnown s s' = r.sameKnown s' s := by
  cases s with
  | none => cases s' <;> rfl
  | some a =>
    cases s' with
    | none => rfl
    | some b => exact sameType_comm a b

theorem sameTypes_cons :
    r.sameTypes (a :: as) (b :: bs) = (r.sameType a b && r.sameTypes as bs) := by
  simp [sameTypes, Bool.and_left_comm]

theorem sameKnowns_cons :
    r.sameKnowns (s :: ss) (s' :: ss') = (r.sameKnown s s' && r.sameKnowns ss ss') := by
  simp [sameKnowns, Bool.and_left_comm]

theorem sameTypes_comm (as bs : List TypeId) : r.sameTypes as bs = r.sameTypes bs as := by
  induction as generalizing bs with
  | nil => cases bs <;> rfl
  | cons a as ih =>
    cases bs with
    | nil => rfl
    | cons b bs => rw [sameTypes_cons, sameTypes_cons, sameType_comm, ih]

theorem sameKnowns_comm (ss ss' : List (Option TypeId)) :
    r.sameKnowns ss ss' = r.sameKnowns ss' ss := by
  induction ss generalizing ss' with
  | nil => cases ss' <;> rfl
  | cons s ss ih =>
    cases ss' with
    | nil => rfl
    | cons s' ss' => rw [sameKnowns_cons, sameKnowns_cons, sameKnown_comm, ih]

theorem shapesFit_of_sameKnowns (h : r.sameKnowns ss ss' = true) : r.shapesFit ss ss' = true := by
  induction ss generalizing ss' with
  | nil => rfl
  | cons s ss ih =>
    cases ss' with
    | nil => rfl
    | cons s' ss' =>
      rw [sameKnowns_cons, Bool.and_eq_true] at h
      rw [shapesFit, ih h.2, Bool.and_true]
      cases s with
      | none => rfl
      | some a =>
        cases s' with
        | none => cases h.1
        | some b => exact h.1

end

theorem fitsMember_static (hc : (r.method c).isStatic = true)
    (hshapes : r.sameKnowns (r.comparableShapes f) (r.comparableShapes c) = true) :
    r.fitsMember (r.comparableShapes f) c = true := by
  rw [fitsMember, hc, sameKnowns_comm]
  exact hshapes

/-- the only parameter of `f` cannot be an instance with the member `c`, which has none -/
structure NoReceiver (r : Registry) (f c : MethodId) : Prop where
  isStatic : (r.method c).isStatic = false
  params : (r.method c).params = []
  receiver : ∃ p shape, (r.method f).params = [p] ∧ r.comparableShape p.type = some shape ∧
    (r.method c).declaring.any (r.isAssignable shape) = false

theorem fitsMember_instance (hc : (r.method c).isStatic = false) {p : Param} {rest : List Param}
    (hf : (r.method f).params = p :: rest)
    (hshapes : r.sameKnowns ((rest.map (·.type)).map r.comparableShape)
      (r.comparableShapes c) = true) :
    r.fitsMember (r.comparableShapes f) c = true ∨ r.NoReceiver f c := by
  have hcons : r.comparableShapes f =
      r.comparableShape p.type :: (rest.map (·.type)).map r.comparableShape := by
    rw [comparableShapes, Method.paramTypes, hf, List.map_cons, List.map_cons]
  have hlength : (r.comparableShapes c).length = rest.length := by
    have := beq_iff_eq.mp (Bool.and_eq_true_iff.mp hshapes).1
    simpa using this.symm
  rw [fitsMember, hc, hcons]
  cases hshapes' : r.comparableShapes c with
  | cons shape shapes =>
    rw [hshapes'] at hshapes hlength
    have hfit := shapesFit_of_sameKnowns hshapes
    left
    simp [fitsInstanceMember, compareFrom_start, hlength, hfit, -List.map_map]
  | nil =>
    have hnone : (r.method c).params = [] := by
      simpa [comparableShapes, Method.paramTypes] using hshapes'
    have hrest : rest = [] := by simpa [hshapes'] using hlength.symm
    subst hrest
    cases hshape : r.comparableShape p.type with
    | none => exact .inl rfl
    | some shape =>
      cases hassign : (r.method c).declaring.any (r.isAssignable shape) with
      | true => exact .inl hassign
      | false => exact .inr ⟨hc, hnone, p, shape, hf, hshape, hassign⟩

/-- types with the key of a parameter type of `f` are compared as it is -/
def ShapesByKey (r : Registry) (f : MethodId) : Prop :=
  ∀ a ∈ (r.method f).paramTypes, ∀ b, r.Has (.type b) → r.sameType a b = true →
    r.sameKnown (r.comparableShape a) (r.comparableShape b) = true

theorem ShapesByKey.sameKnowns (h : r.ShapesByKey f) {as bs : List TypeId}
    (has : ∀ a ∈ as, a ∈ (r.method f).paramTypes) (hbs : ∀ b ∈ bs, r.Has (.type b))
    (hs : r.sameTypes as bs = true) :
    r.sameKnowns (as.map r.comparableShape) (bs.map r.comparableShape) = true := by
  induction as generalizing bs with
  | nil =>
    cases bs with
    | nil => rfl
    | cons b bs => cases hs
  | cons a as ih =>
    cases bs with
    | nil => cases hs
    | cons b bs =>
      rw [sameTypes_cons, Bool.and_eq_true] at hs
      rw [List.map_cons, List.map_cons, sameKnowns_cons,
        h a (has a List.mem_cons_self) b (hbs b List.mem_cons_self) hs.1,
        ih (fun a ha => has a (List.mem_cons_of_mem _ ha))
          (fun b hb => hbs b (List.mem_cons_of_mem _ hb)) hs.2]
      rfl

/-! ## why a plug method that is reported is taken -/

/-- Why the search takes `f` for the member `m` of `target` although `f` fits no member. -/
inductive Overlooked (r : Registry) (target : TypeId) (m f : MethodId) : Prop
  /-- a parameter is of the object class, and stands for one of another type -/
  | object {expected actual : TypeId} (hagrees : r.signatureAgrees f m = true)
    (hpair : (expected, actual) ∈ (r.method m).paramTypes.zip
      ((r.method f).paramTypes.drop (instanceShift (r.method m))))
    (hne : r.sameType actual expected = false) (hname : (r.type actual).name = "Object")
  /-- a parameter names the type that it stands for -/
  | fieldType {p : Param} {name : String} (hstands : r.standsFor target m f = .ok true)
    (hp : p ∈ (r.method f).params) (hname : p.fieldTypeName? = some name)
  /-- the instance that the only parameter stands for is of another type -/
  | receiver {c : MethodId} (hc : c ∈ (r.type target).methods) (hsame : r.sameMethod c m = true)
    (hthis : r.NoReceiver f c)
  /-- `m` is not listed with the members of `target` -/
  | unlisted (hagrees : r.signatureAgrees f m = true) (hm : m ∉ (r.type target).methods)
  /-- a type has the key of a parameter type, and is not compared as that one is -/
  | twins (htwins : ¬ r.ShapesByKey f)

theorem signatureAgrees_iff : r.signatureAgrees f m = true ↔
    (r.method f).params.length = (r.method m).params.length + instanceShift (r.method m) ∧
    (∀ p ∈ (r.method m).paramTypes.zip ((r.method f).paramTypes.drop (instanceShift (r.method m))),
      r.paramAgrees f m p.1 p.2 = true) ∧
    plugNameFits (r.method f).name (r.method m).name = true := by
  simp only [signatureAgrees, Bool.and_eq_true, beq_iff_eq, List.all_eq_true, and_assoc]

/-- only constructor plugs have other names than their members -/
theorem name_eq_of_plugNameFits {plug name : String} (h : plugNameFits plug name = true)
    (halias : isConstructorAlias plug = false) : plug = name := by
  unfold plugNameFits at h
  by_cases hctor : plug = "Ctor"
  · subst hctor
    exact absurd halias (by decide)
  by_cases hcctor : plug = "CCtor"
  · subst hcctor
    exact absurd halias (by decide)
  simpa [hctor, hcctor] using h

/-- a plug method without options has the types of the method, or the object class for one -/
theorem Unmatched.agrees (hu : r.Unmatched target f) (h : r.signatureAgrees f m = true) :
    r.sameTypes ((r.method f).paramTypes.drop (instanceShift (r.method m)))
      (r.method m).paramTypes = true ∨
    ∃ p ∈ (r.method m).paramTypes.zip ((r.method f).paramTypes.drop (instanceShift (r.method m))),
      r.sameType p.2 p.1 = false ∧ (r.type p.2).name = "Object" := by
  obtain ⟨hlength, hall, -⟩ := signatureAgrees_iff.mp h
  by_cases hobject : ∃ p ∈ (r.method m).paramTypes.zip
      ((r.method f).paramTypes.drop (instanceShift (r.method m))),
      r.sameType p.2 p.1 = false ∧ (r.type p.2).name = "Object"
  · exact .inr hobject
  left
  rw [sameTypes_comm, sameTypes, Bool.and_eq_true, List.all_eq_true]
  refine ⟨by simp [Method.paramTypes, hlength], fun p hp => ?_⟩
  show r.sameType p.1 p.2 = true
  have hsignature : r.signatureIs (r.method f).plugOptions? m false = false := by
    rw [hu.plain]
    rfl
  have hagrees := hall p hp
  simp only [paramAgrees, hsignature, Bool.or_false, Bool.or_eq_true, beq_iff_eq] at hagrees
  rw [sameType_comm]
  by_contra hne
  rw [Bool.not_eq_true] at hne
  obtain hsame | hname := hagrees
  · cases hne.symm.trans hsame
  · exact hobject ⟨p, hp, hne, hname⟩

theorem Unmatched.overlooked_of_agrees (hw : r.WellFormed) (hm : r.Has (.method m))
    (hu : r.Unmatched target f) (h : r.signatureAgrees f m = true) :
    r.Overlooked target m f := by
  by_cases hlisted : m ∈ (r.type target).methods
  swap
  · exact .unlisted h hlisted
  by_cases hkeys : r.ShapesByKey f
  swap
  · exact .twins hkeys
  obtain hparams | ⟨⟨expected, actual⟩, hpair, hne, hname⟩ := hu.agrees h
  swap
  · exact .object h hpair hne hname
  obtain ⟨hlength, -, hfits⟩ := signatureAgrees_iff.mp h
  have hname := name_eq_of_plugNameFits hfits hu.not_alias
  have hnot := hu.not_fits (List.mem_filter.mpr ⟨hlisted, by simp [hname]⟩)
  have hshapes := hkeys.sameKnowns (fun a ha => List.mem_of_mem_drop ha)
    (fun b hb => hw.param hm hb) hparams
  cases hstatic : (r.method m).isStatic with
  | true =>
    rw [instanceShift, hstatic, if_pos rfl, List.drop_zero] at hshapes
    cases (fitsMember_static hstatic hshapes).symm.trans hnot
  | false =>
    rw [instanceShift, hstatic, if_neg Bool.false_ne_true] at hshapes hlength
    obtain ⟨p, rest, hcons⟩ := List.exists_cons_of_length_eq_add_one hlength
    rw [Method.paramTypes, hcons] at hshapes
    obtain hfit | hthis := fitsMember_instance hstatic hcons hshapes
    · cases hfit.symm.trans hnot
    · exact .receiver hlisted (by simp [sameMethod]) hthis

/-! ## what a plug method stands for -/

theorem mem_of_findMethod? {name : String} {isStatic : Bool} {types : List TypeId}
    (h : r.findMethod? target name isStatic types = some c) :
    c ∈ (r.type target).methods ∧ (r.method c).name = name ∧ (r.method c).isStatic = isStatic ∧
      r.sameTypes (r.method c).paramTypes types = true := by
  obtain ⟨hc, hcalled⟩ := List.mem_filter.mp (List.mem_of_find?_eq_some h)
  obtain ⟨hname, hstatic⟩ := Bool.and_eq_true_iff.mp hcalled
  exact ⟨hc, beq_iff_eq.mp hname, beq_iff_eq.mp hstatic,
    List.find?_some (p := fun m => r.sameTypes (r.method m).paramTypes types) h⟩

theorem Unmatched.standsFor (hu : r.Unmatched target f) (h : r.standsFor target m f = .ok true) :
    ∃ plugged, r.signatureTarget? target f = .ok (some plugged) ∧
      r.sameMethod plugged m = true := by
  have hsignature : r.signatureIs (r.method f).plugOptions? m true = false := by
    rw [hu.plain]
    rfl
  simp only [Registry.standsFor, hu.plain, Option.any_none, Bool.false_eq_true, if_false] at h
  split at h
  · cases h
  cases htarget : r.signatureTarget? target f with
  | error e =>
    rw [htarget] at h
    cases h
  | ok plugged =>
    rw [htarget] at h
    replace h : (plugged.any (r.sameMethod · m) || r.signatureIs none m true) = true :=
      Except.ok.inj h
    rw [show r.signatureIs none m true = false from rfl, Bool.or_false] at h
    cases plugged with
    | none => cases h
    | some c => exact ⟨c, rfl, h⟩

theorem filter_fieldAccess {params : List Param} (h : ∀ p ∈ params, p.isFieldAccess = false) :
    (params.filter fun p => !p.isFieldAccess) = params :=
  List.filter_eq_self.mpr fun p hp => by rw [h p hp]; rfl

theorem mapM_targetParamType {params : List Param} (h : ∀ p ∈ params, p.fieldTypeName? = none) :
    params.mapM r.targetParamType = .ok (params.map (·.type)) := by
  induction params with
  | nil => rfl
  | cons p params ih =>
    have hp : r.targetParamType p = .ok p.type := by
      rw [targetParamType, h p List.mem_cons_self]
    rw [List.mapM_cons, hp, ih fun q hq => h q (List.mem_cons_of_mem _ hq)]
    rfl

section
variable {params : List Param} (haccess : ∀ p ∈ params, p.isFieldAccess = false)
  (hname : ∀ p ∈ params, p.fieldTypeName? = none)
include haccess hname

theorem instanceTypes_plain {types : List TypeId}
    (h : r.instanceTypes params = .ok (some types)) :
    ∃ p rest, params = p :: rest ∧ types = rest.map (·.type) := by
  rw [instanceTypes, filter_fieldAccess haccess,
    filter_fieldAccess fun p hp => haccess p (List.mem_of_mem_drop hp),
    mapM_targetParamType fun p hp => hname p (List.mem_of_mem_drop hp)] at h
  rcases params with _ | ⟨p, _ | ⟨q, rest⟩⟩
  · cases h
  · cases h
    exact ⟨p, [], rfl, rfl⟩
  · cases h
    exact ⟨p, q :: rest, rfl, rfl⟩

theorem staticTypes_plain : r.staticTypes params = .ok (params.map (·.type)) := by
  rw [staticTypes, filter_fieldAccess haccess]
  rcases params with _ | ⟨p, _ | ⟨q, rest⟩⟩
  · rfl
  · simp only [targetParamType, hname p List.mem_cons_self]
    rfl
  · rfl

end

theorem Unmatched.signatureTarget (hu : r.Unmatched target f)
    (hname : ∀ p ∈ (r.method f).params, p.fieldTypeName? = none)
    (h : r.signatureTarget? target f = .ok (some c)) :
    (∃ p rest, (r.method f).params = p :: rest ∧
      r.findMethod? target (r.method f).name false (rest.map (·.type)) = some c) ∨
    r.findMethod? target (r.method f).name true (r.method f).paramTypes = some c := by
  have haccess : ∀ p ∈ (r.method f).params, p.isFieldAccess = false :=
    fun p hp => hu.not_fieldAccess hp
  have hctor := (Bool.or_eq_false_iff.mp hu.not_alias).1
  have hinstance : instanceMemberName (r.method f).name = (r.method f).name := by
    rw [instanceMemberName, hctor]
    rfl
  have hstatic : staticMemberName (r.method f).name = (r.method f).name := by
    rw [staticMemberName, hu.not_alias]
    rfl
  simp only [signatureTarget?, staticTypes_plain haccess hname, hstatic] at h
  cases htypes : r.instanceTypes (r.method f).params with
  | error e =>
    rw [htypes] at h
    cases h
  | ok types =>
    rw [htypes] at h
    replace h := Except.ok.inj h
    rcases Option.or_eq_some_iff.mp h with h | ⟨-, h⟩
    · obtain ⟨ts, rfl, hfind⟩ := Option.bind_eq_some_iff.mp h
      obtain ⟨p, rest, hparams, rfl⟩ := instanceTypes_plain haccess hname htypes
      rw [hinstance] at hfind
      exact .inl ⟨p, rest, hparams, hfind⟩
    · exact .inr h

theorem Unmatched.overlooked_of_standsFor (hw : r.WellFormed) (ht : r.Has (.type target))
    (hu : r.Unmatched target f) (h : r.standsFor target m f = .ok true) :
    r.Overlooked target m f := by
  by_cases hnames : ∃ p ∈ (r.method f).params, p.fieldTypeName?.isSome = true
  · obtain ⟨p, hp, hsome⟩ := hnames
    obtain ⟨name, hname⟩ := Option.isSome_iff_exists.mp hsome
    exact .fieldType h hp hname
  by_cases hkeys : r.ShapesByKey f
  swap
  · exact .twins hkeys
  have hname : ∀ p ∈ (r.method f).params, p.fieldTypeName? = none := by simpa using hnames
  obtain ⟨c, htarget, hsame⟩ := hu.standsFor h
  have hfound {isStatic : Bool} {types : List TypeId}
      (hfind : r.findMethod? target (r.method f).name isStatic types = some c)
      (htypes : ∀ t ∈ types, t ∈ (r.method f).paramTypes) :
      c ∈ (r.type target).methods ∧ (r.method c).isStatic = isStatic ∧
        r.sameKnowns (types.map r.comparableShape) (r.comparableShapes c) = true ∧
        r.fitsMember (r.comparableShapes f) c = false := by
    obtain ⟨hc, hcname, hstatic, hparams⟩ := mem_of_findMethod? hfind
    rw [sameTypes_comm] at hparams
    exact ⟨hc, hstatic,
      hkeys.sameKnowns htypes (fun t h => hw.param (hw.methodOf ht hc) h) hparams,
      hu.not_fits (List.mem_filter.mpr ⟨hc, by simp [hcname]⟩)⟩
  obtain ⟨p, rest, hparams, hfind⟩ | hfind := hu.signatureTarget hname htarget
  · obtain ⟨hc, hstatic, hshapes, hnot⟩ := hfound hfind fun t h => by
      rw [Method.paramTypes, hparams]
      exact List.mem_cons_of_mem _ h
    obtain hfit | hthis := fitsMember_instance hstatic hparams hshapes
    · cases hfit.symm.trans hnot
    · exact .receiver hc hsame hthis
  · obtain ⟨-, hstatic, hshapes, hnot⟩ := hfound hfind fun t h => h
    cases (fitsMember_static hstatic hshapes).symm.trans hnot

/-- a plug method that is reported is taken for one of the reasons above only -/
theorem Unmatched.overlooked (hw : r.WellFormed) (ht : r.Has (.type target))
    (hm : r.Has (.method m)) (hu : r.Unmatched target f) (h : r.Takes target m f) :
    r.Overlooked target m f :=
  h.elim (hu.overlooked_of_agrees hw hm) (hu.overlooked_of_standsFor hw ht)

end Registry

end ProgramScan

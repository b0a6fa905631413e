import ProgramScan.Proofs.Registry.Records

/-!
# Changes that define no type

Only a definition is entered in the list of a module and in the name indices.  Other operations add
parameters, constructed types and instances, give members to types, or fail on the way, and none of
this shows there.

* `Registry.Numbered`      types have their places as numbers;
* `Registry.definitions`   the definitions of a program, in order;
* `Registry.Aside`         a change that defines no type and keeps the numbers of types.

There is a lemma for each operation that defines no type (`aside_edit`).
-/

namespace ProgramScan

def Edit.definesType : Edit → Bool
  | .declareType _ => true
  | .define _ _ _ _ _ _ _ => true
  | _ => false

namespace Registry

variable {α : Type} {r r' r'' base : Registry}

/-! ## numbers -/

/-- Types have their places as numbers, and so will the next one. -/
structure Numbered (r : Registry) : Prop where
  next : r.nextId = r.types.size
  id_eq : ∀ t, r.Has (.type t) → (r.type t).id = t.index

namespace Numbered

/-- a change that neither adds a type nor gives one another number -/
theorem of_same (h : r.Numbered) (hnext : r'.nextId = r.nextId) (hsize : r'.types.size = r.types.size)
    (hid : ∀ t, (r'.type t).id = (r.type t).id) : r'.Numbered := by
  refine ⟨by rw [hnext, hsize, h.next], fun t ht => ?_⟩
  rw [hid]
  refine h.id_eq t ?_
  show t.index < r.types.size
  rw [← hsize]
  exact ht

theorem pushType (h : r.Numbered) (d : TypeDecl) : (r.pushType (r.entitle d)).Numbered := by
  have hsize : (r.pushType (r.entitle d)).types.size = r.types.size + 1 := Array.size_push _
  refine ⟨by rw [hsize, ← h.next]; rfl, fun t ht => ?_⟩
  by_cases hold : r.Has (.type t)
  · rw [(Grows.push_type r _).type hold]
    exact h.id_eq t hold
  · have hlt : t.index < r.types.size + 1 := hsize ▸ ht
    have hindex : t.index = r.types.size :=
      Nat.le_antisymm (Nat.le_of_lt_succ hlt) (Nat.le_of_not_lt hold)
    have hnew : t = ⟨r.types.size⟩ := by
      cases t
      cases hindex
      rfl
    rw [hnew, type_push]
    exact h.next

theorem get?_eq_some_iff (h : r.Numbered) {id : Nat} {t : TypeId} :
    r.get? id = some t ↔ r.Has (.type t) ∧ t.index = id := by
  have hid : ∀ i (hi : i < r.types.size), r.types[i].id = i := by
    intro i hi
    have := h.id_eq ⟨i⟩ hi
    simpa [Registry.type, Array.getD_eq_getD_getElem?, Array.getElem?_eq_getElem hi] using this
  simp only [get?, Option.map_eq_some_iff, Array.findIdx?_eq_some_iff_getElem]
  constructor
  · rintro ⟨i, ⟨hi, heq, -⟩, rfl⟩
    exact ⟨hi, (hid i hi).symm.trans (beq_iff_eq.mp heq)⟩
  · rintro ⟨ht, rfl⟩
    refine ⟨t.index, ⟨ht, beq_iff_eq.mpr (hid _ ht), fun j hj => ?_⟩, rfl⟩
    have hne : j ≠ t.index := Nat.ne_of_lt hj
    simpa [hid j (Nat.lt_trans hj ht)] using hne

end Numbered

/-! ## definitions -/

def definitions (r : Registry) : List TypeId :=
  ((List.range r.types.size).map TypeId.mk).filter fun t => (r.type t).form.isDefinition

theorem mem_definitions {t : TypeId} :
    t ∈ r.definitions ↔ r.Has (.type t) ∧ (r.type t).form.isDefinition = true := by
  simp only [definitions, List.mem_filter, List.mem_map, List.mem_range]
  refine and_congr_left fun _ => ⟨?_, fun h => ⟨t.index, h, rfl⟩⟩
  rintro ⟨i, hi, rfl⟩
  exact hi

theorem definitions_congr (hsize : r'.types.size = r.types.size)
    (hform : ∀ t, (r'.type t).form = (r.type t).form) : r'.definitions = r.definitions := by
  simp only [definitions, hsize, hform]

theorem definitions_pushType (r : Registry) (d : TypeDecl) :
    (r.pushType d).definitions =
      r.definitions ++ if d.form.isDefinition then [⟨r.types.size⟩] else [] := by
  have hsize : (r.pushType d).types.size = r.types.size + 1 := Array.size_push _
  simp only [definitions, hsize, List.range_succ, List.map_append, List.filter_append, List.map_cons,
    List.map_nil, List.filter_cons, List.filter_nil, type_push]
  congr 1
  refine List.filter_congr fun t ht => ?_
  obtain ⟨i, hi, rfl⟩ := List.mem_map.mp ht
  rw [(Grows.push_type r d).type (List.mem_range.mp hi)]

/-! ## changes -/

/-- what a change of one module leaves as it is -/
theorem of_modifyModule (r : Registry) (m : ModuleId) {f : Module → Module} {g : Module → α}
    (hg : ∀ d, g (f d) = g d) (n : ModuleId) : g ((r.modifyModule m f).module n) = g (r.module n) := by
  simp only [module, Registry.modifyModule, Array.getD_eq_getD_getElem?, Array.getElem?_modify]
  split
  · cases r.modules[n.index]? with
    | none => rfl
    | some d => exact hg d
  · rfl

/-- A change that defines no type and keeps the numbers of types: lists of modules and name indices
stay as they are. -/
structure Aside (r r' : Registry) : Prop where
  numbered : r.Numbered → r'.Numbered
  definitions : r'.definitions = r.definitions
  types : r.types.size ≤ r'.types.size
  modules : r.modules.size ≤ r'.modules.size
  lists : ∀ m, (r'.module m).types = (r.module m).types
  byName : r'.byName = r.byName
  byModule : r'.byModule = r.byModule

namespace Aside

theorem refl (r : Registry) : r.Aside r :=
  ⟨id, rfl, Nat.le_refl _, Nat.le_refl _, fun _ => rfl, rfl, rfl⟩

theorem trans (h : r.Aside r') (h' : r'.Aside r'') : r.Aside r'' where
  numbered := h'.numbered ∘ h.numbered
  definitions := h'.definitions.trans h.definitions
  types := Nat.le_trans h.types h'.types
  modules := Nat.le_trans h.modules h'.modules
  lists m := (h'.lists m).trans (h.lists m)
  byName := h'.byName.trans h.byName
  byModule := h'.byModule.trans h.byModule

/-- a change of types that leaves numbers and forms as they are -/
theorem of_forms (hnext : r'.nextId = r.nextId) (hsize : r'.types.size = r.types.size)
    (hsame : ∀ t, (r'.type t).id = (r.type t).id ∧ (r'.type t).form = (r.type t).form)
    (hm : r'.modules = r.modules) (hn : r'.byName = r.byName) (hi : r'.byModule = r.byModule) :
    r.Aside r' where
  numbered h := h.of_same hnext hsize fun t => (hsame t).1
  definitions := definitions_congr hsize fun t => (hsame t).2
  types := Nat.le_of_eq hsize.symm
  modules := Nat.le_of_eq (congrArg Array.size hm.symm)
  lists m := by rw [module, module, hm]
  byName := hn
  byModule := hi

/-- a change that leaves types and modules alone -/
theorem of_types (ht : r'.types = r.types) (hnext : r'.nextId = r.nextId)
    (hm : r'.modules = r.modules) (hn : r'.byName = r.byName) (hi : r'.byModule = r.byModule) :
    r.Aside r' :=
  .of_forms hnext (congrArg Array.size ht) (fun t => by simp [type, ht]) hm hn hi

theorem modifyType (r : Registry) (t : TypeId) {f : TypeDecl → TypeDecl}
    (hf : ∀ d, (f d).id = d.id ∧ (f d).form = d.form) : r.Aside (r.modifyType t f) :=
  .of_forms rfl (Array.size_modify ..)
    (fun u => ⟨of_modifyType r t (g := TypeDecl.id) (fun d => (hf d).1) u,
      of_modifyType r t (g := TypeDecl.form) (fun d => (hf d).2) u⟩) rfl rfl rfl

theorem nestIn (r : Registry) (t outer : TypeId) : r.Aside (r.nestIn t outer) :=
  modifyType r t fun _ => ⟨rfl, rfl⟩

theorem refreshNames (r : Registry) : r.Aside r.refreshNames := by
  refine .of_forms rfl (Array.size_mapIdx ..) (fun t => ?_) rfl rfl rfl
  simp only [Registry.type, Registry.refreshNames, Array.getD_eq_getD_getElem?,
    Array.getElem?_mapIdx]
  cases r.types[t.index]? with
  | none => exact ⟨rfl, rfl⟩
  | some d =>
    simp only [Option.map_some, Option.getD_some]
    split <;> exact ⟨rfl, rfl⟩

theorem push_type (r : Registry) {d : TypeDecl} (hd : d.form.isDefinition = false) :
    r.Aside (r.pushType (r.entitle d)) where
  numbered h := h.pushType d
  definitions := by
    have hform : ¬ (r.entitle d).form.isDefinition = true := Bool.eq_false_iff.mp hd
    rw [definitions_pushType, if_neg hform, List.append_nil]
  types := by
    show r.types.size ≤ (r.types.push _).size
    rw [Array.size_push]
    exact Nat.le_succ _
  modules := Nat.le_refl _
  lists _ := rfl
  byName := rfl
  byModule := rfl

/-- a module changes, its list of types apart -/
theorem modifyModule (r : Registry) (m : ModuleId) {f : Module → Module}
    (hf : ∀ d, (f d).types = d.types) : r.Aside (r.modifyModule m f) where
  numbered h := h.of_same rfl rfl fun _ => rfl
  definitions := rfl
  types := Nat.le_refl _
  modules := Nat.le_of_eq (Array.size_modify ..).symm
  lists := of_modifyModule r m (g := Module.types) hf
  byName := rfl
  byModule := rfl

theorem push_module (r : Registry) {d : Module} (hd : d.types = []) :
    r.Aside { r with modules := r.modules.push d } where
  numbered h := h.of_same rfl rfl fun _ => rfl
  definitions := rfl
  types := Nat.le_refl _
  modules := by
    show r.modules.size ≤ (r.modules.push d).size
    rw [Array.size_push]
    exact Nat.le_succ _
  lists n := by
    simp only [module, Array.getD_eq_getD_getElem?, Array.getElem?_push]
    split
    · rename_i h
      rw [h, Array.getElem?_eq_none (Nat.le_refl _)]
      exact hd
    · rfl
  byName := rfl
  byModule := rfl

end Aside

/-! ## elements -/

/-- an operation that cannot fail, by what it does to a state -/
theorem aside_lift {x : StateM Registry α} (hx : ∀ s : Registry, s.Aside (x.run s).2) :
    Keeps base.Aside (liftM x) fun _ => True :=
  .lift fun s h => ⟨h.trans (hx s), trivial⟩

theorem aside_modify {f : Registry → Registry} (hf : ∀ s : Registry, s.Aside (f s)) :
    Keeps base.Aside (modify f : Action Unit) fun _ => True :=
  .modify fun s h => h.trans (hf s)

theorem aside_useNames (uses : Registry → List TypeId) :
    Keeps base.Aside (modify fun r => r.useNames (uses r) : Action Unit) fun _ => True :=
  aside_modify fun _ => .of_types rfl rfl rfl rfl rfl

theorem aside_rememberMethod (key : String) (m : MethodId) :
    Keeps base.Aside
      (modify fun r => { r with methodInstances := r.methodInstances.insert key m } : Action Unit)
      fun _ => True :=
  aside_modify fun _ => .of_types rfl rfl rfl rfl rfl

theorem aside_remember (key : String) (t : TypeId) :
    Keeps base.Aside
      (modify fun r => { r with instances := r.instances.insert key t } : Action Unit)
      fun _ => True :=
  aside_modify fun _ => .of_types rfl rfl rfl rfl rfl

theorem aside_addModule (name : String) :
    Keeps base.Aside (liftM (addModule name)) fun _ => True := by
  refine aside_lift fun s => ?_
  simp only [addModule, StateT.run_bind, StateT.run_get, pure_bind]
  split
  · exact .refl s
  · exact .push_module s rfl

theorem aside_addType {d : TypeDecl} (hd : d.form.isDefinition = false) :
    Keeps base.Aside (liftM (addType d)) fun _ => True :=
  aside_lift fun s => .push_type s hd

theorem aside_reserveToken (module : ModuleId) (table : UInt8) :
    Keeps base.Aside (liftM (reserveToken module table)) fun _ => True :=
  aside_lift fun s => .modifyModule s module fun _ => rfl

theorem aside_bindToken (module : ModuleId) (token : Token) (target : TokenTarget) :
    Keeps base.Aside (liftM (bindToken module token target)) fun _ => True :=
  aside_lift fun s => .modifyModule s module fun _ => rfl

theorem aside_tokenFor (module : ModuleId) (target : TokenTarget) :
    Keeps base.Aside (liftM (tokenFor module target)) fun _ => True := by
  have hadd : ∀ table, Keeps base.Aside (liftM (addToken module table target)) fun _ => True := by
    intro table
    rw [addToken, lift_bind]
    refine (aside_reserveToken _ _).bind fun _ _ => ?_
    rw [lift_bind]
    exact (aside_bindToken _ _ _).bind fun _ _ => .pure trivial
  cases target <;> exact hadd _

theorem aside_addField (d : Field) : Keeps base.Aside (liftM (addField d)) fun _ => True :=
  aside_lift fun _ => .of_types rfl rfl rfl rfl rfl

theorem aside_addMethod (d : Method) : Keeps base.Aside (liftM (addMethod d)) fun _ => True :=
  aside_lift fun _ => .of_types rfl rfl rfl rfl rfl

theorem aside_attachField (t : TypeId) (f : FieldId) :
    Keeps base.Aside (liftM (attachField t f)) fun _ => True :=
  aside_lift fun s => .modifyType s t fun _ => ⟨rfl, rfl⟩

theorem aside_attachMethod (t : TypeId) (m : MethodId) :
    Keeps base.Aside (liftM (attachMethod t m)) fun _ => True :=
  aside_lift fun s => .modifyType s t fun _ => ⟨rfl, rfl⟩

theorem aside_addInterface (t iface : TypeId) :
    Keeps base.Aside (liftM (addInterface t iface)) fun _ => True :=
  aside_lift fun s => .modifyType s t fun _ => ⟨rfl, rfl⟩

theorem aside_setBase (t newBase : TypeId) :
    Keeps base.Aside (liftM (setBase t newBase)) fun _ => True := by
  refine aside_lift fun s => ?_
  show s.Aside (if (s.type t).base.isSome then (false, s) else (true, _) : Bool × Registry).2
  split
  · exact .refl s
  · exact .modifyType s t fun _ => ⟨rfl, rfl⟩

theorem aside_setEnclosing (t outer : TypeId) :
    Keeps base.Aside (liftM (setEnclosing t outer)) fun _ => True := by
  refine aside_lift fun s => ?_
  show s.Aside (if (s.type t).enclosing.isSome then (false, s) else (true, _) : Bool × Registry).2
  split
  · exact .refl s
  · exact (Aside.nestIn s t outer).trans (.refreshNames _)

theorem aside_setBody (m : MethodId) (body : Body) :
    Keeps base.Aside (liftM (setBody m body)) fun _ => True := by
  refine aside_lift fun s => ?_
  show s.Aside (if (s.method m).body.isSome then (false, s) else (true, _) : Bool × Registry).2
  split
  · exact .refl s
  · exact .of_types rfl rfl rfl rfl rfl

theorem aside_annotate (t : TypeId) (mark : Annotation) :
    Keeps base.Aside (liftM (annotate t mark)) fun _ => True :=
  aside_lift fun s => .modifyType s t fun _ => ⟨rfl, rfl⟩

theorem aside_setPacking (t : TypeId) (packing : UInt16) :
    Keeps base.Aside (liftM (setPacking t packing)) fun _ => True :=
  aside_lift fun s => .modifyType s t fun _ => ⟨rfl, rfl⟩

theorem aside_setClassSize (t : TypeId) (size : UInt32) :
    Keeps base.Aside (liftM (setClassSize t size)) fun _ => True :=
  aside_lift fun s => .modifyType s t fun _ => ⟨rfl, rfl⟩

/-! ## instances -/

theorem aside_construct (shape : Shape) (element : TypeId) :
    Keeps base.Aside (liftM (construct shape element)) fun _ => True := by
  rw [construct, lift_bind, lift_modify]
  refine (aside_useNames fun _ => [element]).bind fun _ _ => ?_
  rw [lift_bind, lift_get]
  refine .get fun r _ => ?_
  dsimp only
  split
  · exact .pure trivial
  · rw [lift_bind]
    refine (aside_addType rfl).bind fun t _ => ?_
    rw [lift_bind, lift_modify]
    exact (aside_remember _ t).bind fun _ _ => .pure trivial

theorem aside_substituteWith {make : TypeId → List TypeId → Action TypeId}
    (hmake : ∀ t args, Keeps base.Aside (make t args) fun _ => True) (ctx : GenericContext)
    (depth : Nat) (t : TypeId) : Keeps base.Aside (substituteWith make ctx depth t) fun _ => True := by
  induction depth generalizing t with
  | zero => exact .pure trivial
  | succ depth ih =>
    refine .get fun r _ => ?_
    split
    · exact .pure trivial
    · split
      · exact .pure trivial
      · exact (ih _).bind fun _ _ => aside_construct _ _
      · exact (Keeps.mapM fun u _ => ih u).bind fun _ _ => hmake _ _
      · exact (Keeps.mapM fun u _ => ih u).bind fun _ _ => hmake _ _

section
variable {sub : TypeId → Action TypeId} (hsub : ∀ t, Keeps base.Aside (sub t) fun _ => True)
include hsub

theorem aside_instantiateField (inst : TypeId) (f : FieldId) :
    Keeps base.Aside (instantiateField sub inst f) fun _ => True :=
  .get fun _ _ => (hsub _).bind fun _ _ =>
    (aside_addField _).bind fun _ _ => aside_attachField _ _

theorem aside_instantiateMember (inst : TypeId) (m : MethodId) :
    Keeps base.Aside (instantiateMember sub inst m) fun _ => True :=
  .get fun _ _ => (hsub _).bind fun _ _ => (keeps_substituteParams hsub _).bind fun _ _ =>
    (aside_addMethod _).bind fun _ _ => aside_attachMethod _ _

theorem aside_populate (definition inst : TypeId) :
    Keeps base.Aside (populate sub definition inst) fun _ => True := by
  refine .get fun r _ => ?_
  refine (Keeps.optionForM fun outer _ => aside_modify fun s => .nestIn s inst outer).bind
    fun _ _ => ?_
  refine (Keeps.optionForM fun b _ => (hsub b).bind fun _ _ =>
    (aside_setBase _ _).bind fun _ _ => .pure trivial).bind fun _ _ => ?_
  refine (Keeps.optionForM fun packing _ => aside_setPacking inst packing).bind fun _ _ => ?_
  refine (Keeps.optionForM fun size _ => aside_setClassSize inst size).bind fun _ _ => ?_
  refine (Keeps.forM fun mark _ => aside_annotate inst mark).bind fun _ _ => ?_
  refine (Keeps.forM fun iface _ => (hsub iface).bind fun _ _ =>
    aside_addInterface _ _).bind fun _ _ => ?_
  refine (Keeps.forM fun f _ => aside_instantiateField hsub inst f).bind fun _ _ => ?_
  exact Keeps.forM fun m _ => aside_instantiateMember hsub inst m

end

theorem aside_existingInstance? (definition : TypeId) (args : List TypeId) :
    Keeps base.Aside (existingInstance? definition args) fun _ => True := by
  refine .get fun r _ => ?_
  dsimp only
  split
  · exact (aside_useNames fun _ => [definition]).bind fun _ _ => .throw _
  · split
    · exact .pure trivial
    · exact (aside_useNames fun _ => definition :: args).bind fun _ _ => .pure trivial

theorem aside_addInstance (definition : TypeId) (args : List TypeId) :
    Keeps base.Aside (liftM (addInstance definition args)) fun _ => True := by
  rw [addInstance, lift_bind, lift_get]
  refine .get fun r _ => ?_
  rw [lift_bind]
  refine (aside_addType rfl).bind fun inst _ => ?_
  rw [lift_bind, lift_modify]
  exact (aside_remember _ inst).bind fun _ _ => .pure trivial

theorem aside_nested {act : Action α} (h : Keeps base.Aside act fun _ => True) :
    Keeps base.Aside (nested act) fun _ => True where
  ok {r _ _} hr hrun := by
    have hin : base.Aside { r with nesting := r.nesting + 1 } :=
      hr.trans (.of_types rfl rfl rfl rfl rfl)
    rw [nested] at hrun
    split at hrun
    · rename_i hact
      cases hrun
      exact ⟨(h.ok hin hact).1.trans (.of_types rfl rfl rfl rfl rfl), trivial⟩
    · cases hrun
  error {r _ _} hr hrun := by
    have hin : base.Aside { r with nesting := r.nesting + 1 } :=
      hr.trans (.of_types rfl rfl rfl rfl rfl)
    rw [nested] at hrun
    split at hrun
    · cases hrun
    · rename_i hact
      cases hrun
      exact (h.error hin hact).trans (.of_types rfl rfl rfl rfl rfl)

theorem aside_instantiateAt (levels : Nat) (t : TypeId) (args : List TypeId) :
    Keeps base.Aside (instantiateAt levels t args) fun _ => True := by
  induction levels generalizing base t args with
  | zero =>
    refine .get fun r _ => (aside_existingInstance? _ _).bind fun found _ => ?_
    cases found with
    | some inst => exact .pure trivial
    | none => exact .throw _
  | succ levels ih =>
    refine .get fun r _ => (aside_existingInstance? _ _).bind fun found _ => ?_
    cases found with
    | some inst => exact .pure trivial
    | none =>
      refine aside_nested <| (aside_addInstance _ _).bind fun inst _ => ?_
      exact (aside_populate (fun u => aside_substituteWith ih _ _ u) _ inst).bind
        fun _ _ => .pure trivial

theorem aside_instantiate (t : TypeId) (args : List TypeId) :
    Keeps base.Aside (instantiate t args) fun _ => True :=
  .get fun _ _ => aside_instantiateAt _ _ _

theorem aside_substitute (ctx : GenericContext) (t : TypeId) :
    Keeps base.Aside (substitute ctx t) fun _ => True :=
  aside_substituteWith aside_instantiate ctx _ t

theorem aside_instantiateMethod (m : MethodId) (args : List TypeId) :
    Keeps base.Aside (instantiateMethod m args) fun _ => True := by
  refine .get fun r _ => (aside_useNames fun s => s.methodUses _).bind fun _ _ => ?_
  split
  · exact .throw _
  · refine (aside_useNames fun _ => args).bind fun _ _ => ?_
    dsimp only
    split
    · exact .pure trivial
    · refine (aside_substitute _ _).bind fun _ _ => ?_
      refine (keeps_substituteParams (aside_substitute _) _).bind fun _ _ => ?_
      refine (aside_addMethod _).bind fun inst _ => ?_
      exact (aside_rememberMethod _ inst).bind fun _ _ => .pure trivial

/-! ## declarations -/

theorem aside_addParameters (module : ModuleId) (owner : ParameterOwner) (index : Nat)
    (names : List String) :
    Keeps base.Aside (liftM (addParameters module owner index names)) fun _ => True := by
  induction names generalizing index with
  | nil => exact .pure trivial
  | cons name rest ih =>
    rw [addParameters, lift_bind]
    refine (aside_addType rfl).bind fun p _ => ?_
    rw [lift_bind]
    exact (ih _).bind fun _ _ => .pure trivial

theorem aside_declareDetached (module : ModuleId) (declaring : TypeId) (name : String)
    (type : TypeId) (flags : FieldFlags) (annotations : List Annotation) :
    Keeps base.Aside (liftM (declareDetached module declaring name type flags annotations))
      fun _ => True := by
  rw [declareDetached, lift_bind]
  exact (aside_reserveToken _ _).bind fun _ _ => aside_addField _

theorem aside_declareField (module : ModuleId) (declaring : TypeId) (name : String)
    (type : TypeId) (flags : FieldFlags) (annotations : List Annotation) :
    Keeps base.Aside (liftM (declareField module declaring name type flags annotations))
      fun _ => True := by
  simp only [declareField, lift_bind]
  refine (aside_reserveToken _ _).bind fun _ _ => (aside_addField _).bind fun _ _ => ?_
  refine (aside_bindToken _ _ _).bind fun _ _ => ?_
  exact (aside_attachField _ _).bind fun _ _ => .pure trivial

theorem aside_declareReturning (d : MethodDesign) (returnType : TypeId) :
    Keeps base.Aside (declareReturning d returnType) fun _ => True := by
  refine (aside_reserveToken _ _).bind fun token _ => (aside_addMethod _).bind fun m _ => ?_
  refine (aside_bindToken _ _ _).bind fun _ _ => ?_
  cases d.declaring with
  | none => exact .pure trivial
  | some declaring => exact (aside_attachMethod _ _).bind fun _ _ => .pure trivial

theorem aside_declareMethod (d : MethodDesign) :
    Keeps base.Aside (declareMethod d) fun _ => True := by
  rw [declareMethod_eq]
  cases d.returnType with
  | some t => exact aside_declareReturning d t
  | none => exact (keeps_wellKnown _).bind fun _ _ => aside_declareReturning d _

theorem aside_edit {e : Edit} (he : e.definesType = false) :
    Keeps base.Aside e.action fun _ => True := by
  cases e with
  | addModule name => exact (aside_addModule name).bind fun _ _ => .pure trivial
  | declareType => cases he
  | define => cases he
  | addParameter => exact (aside_addType rfl).bind fun _ _ => .pure trivial
  | declareField => exact (aside_declareField _ _ _ _ _ _).bind fun _ _ => .pure trivial
  | declareDetached => exact (aside_declareDetached _ _ _ _ _ _).bind fun _ _ => .pure trivial
  | declareMethod design => exact (aside_declareMethod design).bind fun _ _ => .pure trivial
  | setBase => exact (aside_setBase _ _).bind fun _ _ => .pure trivial
  | setEnclosing => exact (aside_setEnclosing _ _).bind fun _ _ => .pure trivial
  | addInterface => exact aside_addInterface _ _
  | annotate => exact aside_annotate _ _
  | setPacking => exact aside_setPacking _ _
  | setClassSize => exact aside_setClassSize _ _
  | setBody => exact (aside_setBody _ _).bind fun _ _ => .pure trivial
  | reserveToken => exact (aside_reserveToken _ _).bind fun _ _ => .pure trivial
  | tokenFor => exact (aside_tokenFor _ _).bind fun _ _ => .pure trivial
  | bindToken => exact aside_bindToken _ _ _
  | readNames ts => exact aside_useNames fun _ => ts
  | construct => exact (aside_construct _ _).bind fun _ _ => .pure trivial
  | instantiate => exact (aside_instantiate _ _).bind fun _ _ => .pure trivial
  | substitute => exact (aside_substitute _ _).bind fun _ _ => .pure trivial
  | instantiateMethod => exact (aside_instantiateMethod _ _).bind fun _ _ => .pure trivial

end Registry

end ProgramScan

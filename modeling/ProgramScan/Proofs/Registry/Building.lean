import ProgramScan.Proofs.Registry.Instantiating
import ProgramScan.Registry.Core

/-!
# How programs are built

A program starts as the core library and is built by edits: elements are declared and related, tokens
are bound, names are read, instances are made.  An edit is given elements and modules of the program,
and every program that can be built is orderly (`Registry.Built.orderly`), hence well-formed.

* `Edit`, `Edit.items`, `Edit.modules`   an edit, and the elements and modules it is given;
* `Edit.changes`                         the types whose members an edit changes;
* `Registry.Built`                       the programs that edits lead to.

An enum is built by two edits: its type is declared, then its field.
-/

namespace ProgramScan

/-! ## the elements that an edit is given -/

def BaseChoice.explicit? : BaseChoice → Option TypeId
  | .explicit base => some base
  | _ => Option.none

def TypeDesign.items (d : TypeDesign) : List Item :=
  (d.base.explicit?.toList ++ d.enclosing.toList ++ d.interfaces).map .type ++
    d.annotations.flatMap Annotation.items

def MethodDesign.items (d : MethodDesign) : List Item :=
  (d.declaring.toList ++ d.returnType.toList ++ d.params.map (·.type) ++ d.genericParams ++
    d.body.toList.flatMap (·.locals)).map .type

namespace Registry

variable {α : Type} {r : Registry}

/-! ## declarations -/

section
variable {changed : List TypeId} (ho : r.Orderly)
include ho

theorem changes_addParameter {module : ModuleId} (hm : module.index < r.modules.size) (name : String)
    (index : Nat) (owner : ParameterOwner) :
    Changes changed (liftM (addParameter module name index owner)) r fun p s => s.Has (.type p) :=
  changes_addType ho (by simp [TypeDecl.items, TypeForm.items]) hm (.inr rfl) ⟨rfl, rfl⟩

theorem changes_addParameters {module : ModuleId} (hm : module.index < r.modules.size)
    (owner : ParameterOwner) (index : Nat) (names : List String) :
    Changes changed (liftM (addParameters module owner index names)) r fun ps s =>
      ∀ p ∈ ps, s.Has (.type p) := by
  induction names generalizing r index with
  | nil => exact .pure ho (by simp)
  | cons name rest ih =>
    rw [addParameters, lift_bind]
    refine Changes.bind (changes_addParameter ho hm name index owner) fun p r₁ hs₁ hp => ?_
    rw [lift_bind]
    have hm₁ : module.index < r₁.modules.size := Nat.lt_of_lt_of_le hm hs₁.persists.modules
    refine Changes.bind (ih hs₁.orderly hm₁ (index + 1)) fun ps r₂ hs₂ hps => ?_
    refine .pure hs₂.orderly fun q hq => ?_
    rcases List.mem_cons.mp hq with rfl | hq
    · exact hs₂.persists.has _ hp
    · exact hps q hq

theorem changes_wellKnown (name : String) :
    Changes changed (wellKnown name) r fun t s => s.Has (.type t) := by
  refine Changes.get ?_
  cases hf : r.find? name with
  | some t => exact .pure ho (ho.wellFormed.found hf)
  | none => exact .throw ho _

theorem changes_chosenBase {d : TypeDesign} (hd : ∀ b, d.base = .explicit b → r.Has (.type b)) :
    Changes changed (chosenBase d) r fun base s => ∀ b ∈ base, s.Has (.type b) := by
  have hknown : ∀ name, Changes changed (do return some (← wellKnown name)) r
      fun (base : Option TypeId) s => ∀ b ∈ base, s.Has (.type b) := fun name =>
    Changes.bind (changes_wellKnown ho name) fun t r' hs ht => .pure hs.orderly (by simpa using ht)
  unfold chosenBase
  split
  · rename_i base hbase
    exact .pure ho (by simpa using hd base hbase)
  · exact .pure ho (by simp)
  · exact hknown _
  · exact hknown _
  · exact hknown _
  · exact .pure ho (by simp)

theorem changes_declareType {d : TypeDesign} (hm : d.module.index < r.modules.size)
    (hd : ∀ x ∈ d.items, r.Has x) :
    Changes changed (declareType d) r fun t s => s.Has (.type t) := by
  have hbase : ∀ b, d.base = .explicit b → r.Has (.type b) := fun b hb =>
    hd _ (by simp [TypeDesign.items, BaseChoice.explicit?, hb])
  refine Changes.bind (changes_chosenBase ho hbase) fun base r₁ hs₁ hchosen => ?_
  have hm₁ : d.module.index < r₁.modules.size := Nat.lt_of_lt_of_le hm hs₁.persists.modules
  refine Changes.bind (changes_addParameters hs₁.orderly hm₁ _ _ _) fun params r₂ hs₂ hparams => ?_
  refine Changes.bind (changes_reserveToken hs₂.orderly _ _) fun token r₃ hs₃ _ => ?_
  have hp : r.Persists r₃ := (hs₁.persists.trans hs₂.persists).trans hs₃.persists
  have hmono₁ := (hs₂.persists.trans hs₃.persists).has
  have hmono₂ := hs₃.persists.has
  have hitems : ∀ x ∈ d.items, r₃.Has x := fun x hx => hp.has x (hd x hx)
  refine Changes.bind (changes_defineType hs₃.orderly ?_
    (Nat.lt_of_lt_of_le hm hp.modules) rfl ⟨rfl, rfl⟩) fun t r₄ hs₄ ht => ?_
  · intro x hx
    simp only [TypeDecl.items, TypeForm.items, TypeDesign.items, List.map_append, List.mem_append,
      List.mem_map, Option.mem_toList, List.map_nil, List.not_mem_nil, or_false] at hx hitems
    grind
  · refine Changes.bind
      (changes_bindToken hs₄.orderly _ _ (by simpa [TokenTarget.items] using ht)) ?_
    exact fun _ r₅ hs₅ _ => .pure hs₅.orderly (hs₅.persists.has _ ht)

theorem changes_tokenFor (module : ModuleId) {target : TokenTarget}
    (ht : ∀ x ∈ target.items, r.Has x) :
    Changes changed (liftM (tokenFor module target)) r fun _ _ => True := by
  have hadd : ∀ table, Changes changed (liftM (addToken module table target)) r
      fun _ _ => True := by
    intro table
    rw [addToken, lift_bind]
    refine Changes.bind (changes_reserveToken ho module table) fun token r₁ hs₁ _ => ?_
    rw [lift_bind]
    refine Changes.bind
      (changes_bindToken hs₁.orderly module token fun x hx => hs₁.persists.has x (ht x hx)) ?_
    exact fun _ r₂ hs₂ _ => .pure hs₂.orderly trivial
  cases target <;> exact hadd _

theorem changes_declareField (module : ModuleId) {declaring type : TypeId} (name : String)
    (hc : declaring ∈ changed) (hd : r.Has (.type declaring)) (ht : r.Has (.type type))
    (flags : FieldFlags) (annotations : List Annotation) :
    Changes changed (liftM (declareField module declaring name type flags annotations)) r fun f s =>
      s.Has (.field f) := by
  simp only [declareField, lift_bind]
  refine Changes.bind (changes_reserveToken ho _ _) fun token r₁ hs₁ _ => ?_
  refine Changes.bind (changes_addField hs₁.orderly ?_) fun f r₂ hs₂ hf => ?_
  · simpa [Field.items] using ⟨hs₁.persists.has _ hd, hs₁.persists.has _ ht⟩
  refine Changes.bind
    (changes_bindToken hs₂.orderly _ _ (by simpa [TokenTarget.items] using hf.1)) ?_
  intro _ r₃ hs₃ _
  have hdecl : (r₃.field f).declaring = declaring := by rw [hs₃.persists.field f hf.1, hf.2]
  refine Changes.bind (changes_attachField hs₃.orderly hc (hs₃.persists.has _ hf.1) hdecl) ?_
  exact fun _ r₄ hs₄ _ => .pure hs₄.orderly (hs₄.persists.has _ (hs₃.persists.has _ hf.1))

theorem changes_declareDetached (module : ModuleId) {declaring type : TypeId} (name : String)
    (hd : r.Has (.type declaring)) (ht : r.Has (.type type)) (flags : FieldFlags)
    (annotations : List Annotation) :
    Changes changed (liftM (declareDetached module declaring name type flags annotations)) r
      fun f s => s.Has (.field f) := by
  rw [declareDetached, lift_bind]
  refine Changes.bind (changes_reserveToken ho _ _) fun token r₁ hs₁ _ => ?_
  refine (changes_addField hs₁.orderly ?_).weaken fun f r₂ _ hf => hf.1
  simpa [Field.items] using ⟨hs₁.persists.has _ hd, hs₁.persists.has _ ht⟩

def designed (d : MethodDesign) (returnType : TypeId) (token : Token) : Method :=
  { token, name := d.name, access := d.access, modifiers := d.modifiers,
    implementation := d.implementation, declaring := d.declaring, returnType,
    params := d.params, genericArgs := d.genericParams, annotations := d.annotations,
    body := d.body }

def declareReturning (d : MethodDesign) (returnType : TypeId) : Action MethodId := do
  let token ← reserveToken d.module Token.methodDefTable
  let m ← addMethod (designed d returnType token)
  bindToken d.module token (.method (some m))
  if let some declaring := d.declaring then
    attachMethod declaring m
  return m

omit ho in
theorem declareMethod_eq (d : MethodDesign) : declareMethod d =
    ((match d.returnType with
      | some t => pure t
      | none => wellKnown "System.Void") >>= declareReturning d) := by
  unfold declareMethod
  cases d.returnType <;> rfl

theorem changes_declareReturning {d : MethodDesign} (hc : ∀ t ∈ d.declaring, t ∈ changed)
    (hd : ∀ x ∈ d.items, r.Has x) {returnType : TypeId} (ht : r.Has (.type returnType)) :
    Changes changed (declareReturning d returnType) r fun m s => s.Has (.method m) := by
  refine Changes.bind (changes_reserveToken ho _ _) fun token r₁ hs₁ _ => ?_
  have hreturn : r₁.Has (.type returnType) := hs₁.persists.has _ ht
  have hitems : ∀ x ∈ (designed d returnType token).items, r₁.Has x := by
    intro x hx
    have hall : ∀ x ∈ d.items, r₁.Has x := fun x hx => hs₁.persists.has x (hd x hx)
    simp only [designed, Method.items, Method.paramTypes, MethodDesign.items, MethodOrigin.source?,
      List.map_append, List.mem_append, List.map_cons, List.mem_cons, Option.toList_none,
      List.map_nil, List.not_mem_nil, or_false] at hx hall
    grind
  cases hdecl : d.declaring with
  | none =>
    refine Changes.bind (changes_addMethod hs₁.orderly hitems fun _ => .inl ⟨hdecl, rfl⟩)
      fun m r₂ hs₂ hm => ?_
    refine Changes.bind
      (changes_bindToken hs₂.orderly _ _ (by simpa [TokenTarget.items] using hm.1)) ?_
    exact fun _ r₃ hs₃ _ => .pure hs₃.orderly (hs₃.persists.has _ hm.1)
  | some declaring =>
    -- it is the same if the token is bound when the type lists the method
    let r₂ := r₁.enlist declaring (designed d returnType token)
    have hs₂ : Step changed r₁ r₂ := by
      refine step_enlist hs₁.orderly (hc declaring hdecl) ?_ hitems hdecl rfl fun _ c hc => ?_
      · exact hs₁.persists.has _ (hd _ (by simp [MethodDesign.items, hdecl]))
      · cases hc
    have hnew : r₂.Has (.method r₁.nextMethod) := by
      show r₁.methods.size < (r₁.methods.push _).size
      simp
    have hbind : Changes changed (liftM (bindToken d.module token (.method (some r₁.nextMethod)))) r₂
        fun _ _ => True :=
      changes_bindToken hs₂.orderly _ _ (by simpa [TokenTarget.items] using hnew)
    obtain ⟨hs₃, -⟩ := hbind.ok (lift_apply _ r₂)
    refine .of_ok (a := r₁.nextMethod) ?_ (hs₂.trans hs₃) (hs₃.persists.has _ hnew)
    rfl

theorem changes_declareMethod {d : MethodDesign} (hc : ∀ t ∈ d.declaring, t ∈ changed)
    (hd : ∀ x ∈ d.items, r.Has x) :
    Changes changed (declareMethod d) r fun m s => s.Has (.method m) := by
  have hresult : Changes changed (match d.returnType with
      | some t => pure t
      | none => wellKnown "System.Void") r fun t s => s.Has (.type t) := by
    cases ht : d.returnType with
    | some t => exact .pure ho (hd _ (by simp [MethodDesign.items, ht]))
    | none => exact changes_wellKnown ho _
  rw [declareMethod_eq]
  refine Changes.bind hresult fun returnType r₁ hs₁ ht => ?_
  exact changes_declareReturning hs₁.orderly hc (fun x hx => hs₁.persists.has x (hd x hx)) ht

end

end Registry

/-! ## edits -/

/-- A change that a client makes to a program. -/
inductive Edit
  | addModule (name : String)
  | declareType (design : TypeDesign)
  | define (module : ModuleId) (namespaceName name : String) (kind : TypeKind) (flags : TypeFlags)
    (args : List TypeId) (enclosing : Option TypeId)
  | addParameter (module : ModuleId) (name : String) (index : Nat) (owner : ParameterOwner)
  | declareField (module : ModuleId) (declaring : TypeId) (name : String) (type : TypeId)
    (flags : FieldFlags) (annotations : List Annotation)
  | declareDetached (module : ModuleId) (declaring : TypeId) (name : String) (type : TypeId)
    (flags : FieldFlags) (annotations : List Annotation)
  | declareMethod (design : MethodDesign)
  | setBase (t base : TypeId)
  | setEnclosing (t outer : TypeId)
  | addInterface (t iface : TypeId)
  | annotate (t : TypeId) (mark : Annotation)
  | setPacking (t : TypeId) (packing : UInt16)
  | setClassSize (t : TypeId) (size : UInt32)
  | setBody (m : MethodId) (body : Body)
  | reserveToken (module : ModuleId) (table : UInt8)
  | tokenFor (module : ModuleId) (target : TokenTarget)
  | bindToken (module : ModuleId) (token : Token) (target : TokenTarget)
  | readNames (ts : List TypeId)
  | construct (shape : Shape) (element : TypeId)
  | instantiate (t : TypeId) (args : List TypeId)
  | substitute (ctx : GenericContext) (t : TypeId)
  | instantiateMethod (m : MethodId) (args : List TypeId)

namespace Edit

/-- the elements that an edit is given, those that it changes included -/
def items : Edit → List Item
  | addModule _ => []
  | declareType design => design.items
  | define _ _ _ _ _ args enclosing => (args ++ enclosing.toList).map .type
  | addParameter _ _ _ _ => []
  | declareField _ declaring _ type _ _ => [.type declaring, .type type]
  | declareDetached _ declaring _ type _ _ => [.type declaring, .type type]
  | declareMethod design => design.items
  | setBase t base => [.type t, .type base]
  | setEnclosing t outer => [.type t, .type outer]
  | addInterface t iface => [.type t, .type iface]
  | annotate t mark => .type t :: mark.items
  | setPacking t _ => [.type t]
  | setClassSize t _ => [.type t]
  | setBody m body => .method m :: body.locals.map .type
  | reserveToken _ _ => []
  | tokenFor _ target => target.items
  | bindToken _ _ target => target.items
  | readNames ts => ts.map .type
  | construct _ element => [.type element]
  | instantiate t args => .type t :: args.map .type
  | substitute ctx t => .type t :: (ctx.typeArgs ++ ctx.methodArgs).map .type
  | instantiateMethod m args => .method m :: args.map .type

def modules : Edit → List ModuleId
  | declareType design => [design.module]
  | define module _ _ _ _ _ _ => [module]
  | addParameter module _ _ _ => [module]
  | declareField module _ _ _ _ _ => [module]
  | declareDetached module _ _ _ _ _ => [module]
  | declareMethod design => [design.module]
  | reserveToken module _ => [module]
  | tokenFor module _ => [module]
  | bindToken module _ _ => [module]
  | _ => []

/-- the types whose members an edit changes -/
def changes : Edit → List TypeId
  | declareField _ declaring _ _ _ _ => [declaring]
  | declareMethod design => design.declaring.toList
  | setBase t _ => [t]
  | addInterface t _ => [t]
  | _ => []

def action : Edit → Action Unit
  | addModule name => do let _ ← Registry.addModule name
  | declareType design => do let _ ← Registry.declareType design
  | define module namespaceName name kind flags args enclosing => do
    let _ ← Registry.defineType
      { module, namespaceName, name, form := .defined kind args, flags, enclosing }
  | addParameter module name index owner => do
    let _ ← Registry.addParameter module name index owner
  | declareField module declaring name type flags annotations => do
    let _ ← Registry.declareField module declaring name type flags annotations
  | declareDetached module declaring name type flags annotations => do
    let _ ← Registry.declareDetached module declaring name type flags annotations
  | declareMethod design => do let _ ← Registry.declareMethod design
  | setBase t base => do let _ ← Registry.setBase t base
  | setEnclosing t outer => do let _ ← Registry.setEnclosing t outer
  | addInterface t iface => Registry.addInterface t iface
  | annotate t mark => Registry.annotate t mark
  | setPacking t packing => Registry.setPacking t packing
  | setClassSize t size => Registry.setClassSize t size
  | setBody m body => do let _ ← Registry.setBody m body
  | reserveToken module table => do let _ ← Registry.reserveToken module table
  | tokenFor module target => do let _ ← Registry.tokenFor module target
  | bindToken module token target => Registry.bindToken module token target
  | readNames ts => modify (·.useNames ts)
  | construct shape element => do let _ ← Registry.construct shape element
  | instantiate t args => do let _ ← Registry.instantiate t args
  | substitute ctx t => do let _ ← Registry.substitute ctx t
  | instantiateMethod m args => do let _ ← Registry.instantiateMethod m args

def Fits (e : Edit) (r : Registry) : Prop :=
  (∀ x ∈ e.items, r.Has x) ∧ ∀ m ∈ e.modules, m.index < r.modules.size

instance (e : Edit) (r : Registry) : Decidable (e.Fits r) :=
  inferInstanceAs (Decidable (_ ∧ _))

def apply (e : Edit) (r : Registry) : Registry :=
  match e.action r with
  | .ok _ r' => r'
  | .error _ r' => r'

/-- the edit is made, or it fails -/
theorem action_apply (e : Edit) (r : Registry) :
    e.action r = .ok () (e.apply r) ∨ ∃ err, e.action r = .error err (e.apply r) := by
  unfold apply
  cases e.action r with
  | ok _ _ => exact .inl rfl
  | error err _ => exact .inr ⟨err, rfl⟩

theorem instantiateMethod_apply (m : MethodId) (args : List TypeId) (r : Registry) :
    (∃ x, Registry.instantiateMethod m args r = .ok x ((instantiateMethod m args).apply r)) ∨
      ∃ err, Registry.instantiateMethod m args r = .error err ((instantiateMethod m args).apply r) := by
  obtain hrun | ⟨err, hrun⟩ := (instantiateMethod m args).action_apply r
  · obtain ⟨x, s, hx, hs⟩ := Registry.bind_eq_ok_iff.mp hrun
    cases hs
    exact .inl ⟨x, hx⟩
  · rcases Registry.bind_eq_error_iff.mp hrun with hx | ⟨x, s, -, hs⟩
    · exact .inr ⟨err, hx⟩
    · cases hs

end Edit

namespace Registry

variable {r : Registry}

/-- a program that edits lead to, from the core library -/
inductive Built : Registry → Prop
  | core : Built core
  | edit {r : Registry} (h : Built r) {e : Edit} (he : e.Fits r) : Built (e.apply r)

def applyAll (r : Registry) (es : List Edit) : Registry := es.foldl (fun r e => e.apply r) r

/-- each edit is given elements and modules of the program it is applied to -/
def FitAll : Registry → List Edit → Prop
  | _, [] => True
  | r, e :: es => e.Fits r ∧ FitAll (e.apply r) es

instance instDecidableFitAll : (r : Registry) → (es : List Edit) → Decidable (FitAll r es)
  | _, [] => .isTrue trivial
  | r, e :: es => @instDecidableAnd _ _ _ (instDecidableFitAll (e.apply r) es)

theorem Built.applyAll (h : Built r) {es : List Edit} (hes : FitAll r es) :
    Built (r.applyAll es) := by
  induction es generalizing r with
  | nil => exact h
  | cons e es ih => exact ih (h.edit hes.1) hes.2

/-- an edit keeps a program orderly, and changes the members of some types only -/
theorem changes_edit (ho : r.Orderly) {e : Edit} (hfits : e.Fits r) :
    Changes e.changes e.action r fun _ _ => True := by
  obtain ⟨he, hm⟩ := hfits
  cases e <;> simp only [Edit.items, List.forall_mem_cons, List.forall_mem_map] at he
  case addModule name => exact (changes_addModule ho name).drop
  case declareType design =>
    exact (changes_declareType ho (hm _ (List.mem_singleton.mpr rfl)) he).drop
  case define =>
    refine (changes_defineType ho ?_ (hm _ (List.mem_singleton.mpr rfl)) rfl ⟨rfl, rfl⟩).drop
    intro x hx
    simp only [TypeDecl.items, TypeForm.items, List.map_append, List.mem_append, List.mem_map,
      Option.mem_toList, Option.toList_none, List.map_nil, List.not_mem_nil, or_false,
      List.flatMap_nil] at hx he
    grind
  case addParameter =>
    exact (changes_addParameter ho (hm _ (List.mem_singleton.mpr rfl)) _ _ _).drop
  case declareField =>
    exact (changes_declareField ho _ _ (List.mem_singleton.mpr rfl) he.1 he.2.1 _ _).drop
  case declareDetached => exact (changes_declareDetached ho _ _ he.1 he.2.1 _ _).drop
  case declareMethod =>
    exact (changes_declareMethod ho (fun t ht => Option.mem_toList.mpr ht) he).drop
  case setBase => exact (changes_setBase ho (List.mem_singleton.mpr rfl) he.2.1).drop
  case setEnclosing => exact (changes_setEnclosing ho _ he.2.1).drop
  case addInterface =>
    refine (changes_addInterface ho (List.mem_singleton.mpr rfl) he.2.1).weaken ?_
    exact fun _ _ _ _ => trivial
  case annotate => exact changes_annotate ho _ he.2
  case setPacking => exact changes_setPacking ho _ _
  case setClassSize => exact changes_setClassSize ho _ _
  case setBody => exact (changes_setBody ho _ he.2).drop
  case reserveToken => exact (changes_reserveToken ho _ _).drop
  case tokenFor => exact (changes_tokenFor ho _ he).drop
  case bindToken => exact changes_bindToken ho _ _ he
  case readNames => exact (changes_useNames ho _).weaken fun _ _ _ _ => trivial
  case construct => exact (changes_construct ho _ he.1).drop
  case instantiate => exact (supplies_instantiate ho he.1 he.2).drop
  case substitute => exact (changes_substitute ho he.2 he.1).drop
  case instantiateMethod => exact (changes_instantiateMethod ho he.1 he.2).drop

theorem orderly_core : core.Orderly := by
  have hplain : ∀ d ∈ core.types.toList, d.form.isDefinition = true ∧ d.form.items.isEmpty = true ∧
      d.module.index < core.modules.size := by
    decide +kernel
  have hform : ∀ t, core.Has (.type t) → (core.type t).form.isDefinition = true ∧
      (core.type t).form.items.isEmpty = true ∧
      (core.type t).module.index < core.modules.size :=
    fun t ht => hplain (core.type t) (type_mem ht)
  have hmemo : core.instances.entries = [] := by
    have hempty : core.instances.entries.isEmpty = true := by decide +kernel
    exact List.isEmpty_iff.mp hempty
  refine ⟨by decide +kernel, fun t ht => ?_, fun key t hk => ?_⟩
  · obtain ⟨hdef, hitems, hhome⟩ := hform t ht
    have hparts : (core.type t).form.items = [] := List.isEmpty_iff.mp hitems
    refine ⟨hhome, ?_, ?_, ?_, ?_⟩
    · rw [hparts]
      intro u hu
      cases hu
    · intro hnd
      rw [hdef] at hnd
      cases hnd
    · intro hnd
      rw [hdef] at hnd
      cases hnd
    · intro d hd
      have hmem := TypeForm.mem_items_of_definition? hd
      rw [hparts] at hmem
      cases hmem
  · simp only [Table.get?, hmemo, Table.find?_nil] at hk
    cases hk

/-- an edit leads to a later state, also if it fails -/
theorem Orderly.apply (ho : r.Orderly) {e : Edit} (he : e.Fits r) :
    After e.changes r (e.apply r) := by
  have hedit := changes_edit ho he
  obtain hr | ⟨err, hr⟩ := e.action_apply r
  · exact (hedit.ok hr).1.toAfter
  · exact hedit.error hr

theorem Orderly.applyAll (ho : r.Orderly) {es : List Edit} (hes : FitAll r es) :
    r.Persists (r.applyAll es) ∧ (r.applyAll es).Orderly := by
  induction es generalizing r with
  | nil => exact ⟨.refl r, ho⟩
  | cons e es ih =>
    have hafter := ho.apply hes.1
    obtain ⟨hp, hos⟩ := ih hafter.orderly hes.2
    exact ⟨hafter.persists.trans hp, hos⟩

/-- **Programs are orderly**, however they were built. -/
theorem Built.orderly (h : Built r) : r.Orderly := by
  induction h with
  | core => exact orderly_core
  | edit _ he ih => exact (ih.apply he).orderly

theorem Built.wellFormed (h : Built r) : r.WellFormed := h.orderly.wellFormed

theorem not_has_method_core (m : MethodId) : ¬ Registry.core.Has (.method m) := by
  have hmethods : Registry.core.methods.size = 0 := by decide +kernel
  intro hm
  simp only [Registry.Has, hmethods] at hm
  exact Nat.not_lt_zero _ hm

theorem methods_core (t : TypeId) : (Registry.core.type t).methods = [] := by
  have hlists : ∀ d ∈ Registry.core.types.toList, d.methods.isEmpty = true := by decide +kernel
  by_cases ht : Registry.core.Has (.type t)
  · exact List.isEmpty_iff.mp (hlists _ (type_mem ht))
  · rw [type_of_not_has ht]
    rfl

/-- the core library has no members and no instances -/
theorem listed_core : core.Listed := by
  have hbare : ∀ d ∈ core.types.toList, d.fields.isEmpty = true ∧ d.form.definition? = none := by
    decide +kernel
  have hplain : ∀ t, (core.type t).fields = [] ∧ (core.type t).form.definition? = none := by
    intro t
    by_cases ht : core.Has (.type t)
    · obtain ⟨hfields, hdef⟩ := hbare _ (type_mem ht)
      exact ⟨List.isEmpty_iff.mp hfields, hdef⟩
    · rw [type_of_not_has ht]
      exact ⟨rfl, rfl⟩
  have hmethod : ∀ x, core.method x = default := fun x => method_of_not_has (not_has_method_core x)
  refine ⟨fun t f hf => ?_, fun t x => ?_, fun t => ?_, fun x c hx => ?_, fun x y c hx => ?_,
    fun x d hx => ?_, fun t kind definition args hf => ?_⟩
  · rw [(hplain t).1] at hf
    cases hf
  · rw [methods_core, hmethod]
    constructor
    · intro hx
      cases hx
    · rintro ⟨hx, -⟩
      cases hx
  · rw [methods_core]
    exact List.nodup_nil
  · rw [hmethod] at hx
    cases hx
  · rw [hmethod] at hx
    cases hx
  · rw [hmethod] at hx
    cases hx
  · have hnone := (hplain t).2
    rw [hf] at hnone
    cases hnone

/-- **Types list what they declare**, in every program that can be built: a method is in the list of its
declaring type, once, unless it is an instance, and members of an instance belong to different members of
its definition. -/
theorem Built.listed (h : Built r) : r.Listed := by
  induction h with
  | core => exact listed_core
  | edit h he ih => exact (h.orderly.apply he).listed ih

theorem remembers_core : core.Remembers := by
  have hnone : ∀ d ∈ core.types.toList, d.form.isMade = false := by decide +kernel
  intro t ht hmade
  rw [hnone _ (type_mem ht)] at hmade
  cases hmade

/-- **Types made on demand are remembered**, in every program that can be built, and the instance of a
definition with its own parameters is the definition. -/
theorem Built.remembers (h : Built r) : r.Remembers := by
  induction h with
  | core => exact remembers_core
  | edit h he ih => exact (h.orderly.apply he).remembers ih

/-! ## programs to look at -/

/-- the operation succeeds, with an answer and in a state of which `P` holds -/
def answersWith {σ α : Type} (act : EStateM Error σ α) (s : σ) (P : α → σ → Bool) : Bool :=
  match act s with
  | .ok a s' => P a s'
  | .error _ _ => false

theorem exists_of_answersWith {σ α : Type} {act : EStateM Error σ α} {s : σ} {P : α → σ → Bool}
    (h : answersWith act s P = true) : ∃ a s', act s = .ok a s' ∧ P a s' = true := by
  rw [answersWith] at h
  cases hr : act s with
  | ok a s' =>
    rw [hr] at h
    exact ⟨a, s', rfl, h⟩
  | error e s' =>
    rw [hr] at h
    cases h

theorem eq_ok_of_answersWith {σ : Type} [DecidableEq σ] {act : EStateM Error σ Unit} {s s' : σ}
    (h : answersWith act s (fun _ t => decide (t = s')) = true) : act s = .ok () s' := by
  obtain ⟨_, t, hrun, ht⟩ := exists_of_answersWith h
  rw [hrun, of_decide_eq_true ht]

end Registry

end ProgramScan

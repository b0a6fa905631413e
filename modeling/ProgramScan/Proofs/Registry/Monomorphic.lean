import ProgramScan.Proofs.Keeping
import ProgramScan.Proofs.Plug.Settled
import ProgramScan.Proofs.Registry.Additions

/-!
# Programs without generic elements

In a program without generic parameters and arguments nothing can be instantiated: the only elements
that operations on it make are arrays, pointers and references, which declare nothing.

* `Registry.Monomorphic`   no type and no method has generic parameters or arguments;
* `Registry.Holds`         the item is a type, a method, or a field that a type lists or a token is bound
                           to;
* `Registry.Widens r₀ r`   `r` has the elements of the monomorphic program `r₀` and constructed types;
* `Registry.Broadens r₀ r`  besides, `r` is well-formed.

The lemmas after that say of each operation that it keeps `Widens r₀`, and that what it finds is held by
`r₀`: tokens (`widens_resolveToken`) and plugs (`widens_resolveByIndex`).
-/

namespace ProgramScan

namespace Registry

variable {α : Type} {r₀ r : Registry}

/-- no type and no method has generic parameters or arguments -/
structure Monomorphic (r : Registry) : Prop where
  types : ∀ t, (r.type t).form.genericArgs = []
  methods : ∀ m, (r.method m).genericArgs = []

/-- a type, a method, or a field that a type lists or a token is bound to -/
def Holds (r : Registry) : Item → Prop
  | .type t => r.Has (.type t)
  | .method m => r.Has (.method m)
  | .field f => (∃ t, f ∈ (r.type t).fields) ∨
    ∃ module token, (r.module module).tokens.get? token = some (.field (some f))

/-- The program has the elements of `r₀`, and types without members or arguments beside them. -/
structure Widens (r₀ r : Registry) : Prop where
  grows : r₀.Grows r
  methods : r.methods = r₀.methods
  fields : r.fields = r₀.fields
  bare : ∀ t, ¬ r₀.Has (.type t) → (r.type t).form.genericArgs = [] ∧ (r.type t).methods = [] ∧
    (r.type t).fields = []

/-! ## states -/

theorem monomorphic_of_forall (ht : ∀ d ∈ r.types.toList, d.form.genericArgs = [])
    (hm : ∀ d ∈ r.methods.toList, d.genericArgs = []) : r.Monomorphic where
  types t := by
    by_cases h : r.Has (.type t)
    · exact ht _ (type_mem h)
    · rw [type_of_not_has h]
      rfl
  methods m := by
    by_cases h : r.Has (.method m)
    · exact hm _ (method_mem h)
    · rw [method_of_not_has h]
      rfl

theorem has_of_field {t : TypeId} {f : FieldId} (h : f ∈ (r.type t).fields) : r.Has (.type t) := by
  by_cases ht : r.Has (.type t)
  · exact ht
  · rw [type_of_not_has ht] at h
    cases h

/-- what is held is an element of a well-formed program -/
theorem Holds.has (hw : r.WellFormed) {x : Item} (h : r.Holds x) : r.Has x := by
  cases x with
  | type t => exact h
  | method m => exact h
  | field f =>
    rcases h with ⟨t, hf⟩ | ⟨module, token, hf⟩
    · exact hw.fieldOf (has_of_field hf) hf
    · exact hw.tokenTarget hf List.mem_cons_self

namespace Widens

protected theorem refl (r : Registry) : r.Widens r :=
  ⟨.refl r, rfl, rfl, fun t ht => by rw [type_of_not_has ht]; exact ⟨rfl, rfl, rfl⟩⟩

theorem of_forget {r' : Registry} (h : r₀.Widens r) (hf : r.forget = r'.forget) : r₀.Widens r' where
  grows := h.grows.trans (.of_forget hf)
  methods := (congrArg Registry.methods hf).symm.trans h.methods
  fields := (congrArg Registry.fields hf).symm.trans h.fields
  bare t ht := by
    have htypes : r'.types = r.types := (congrArg Registry.types hf).symm
    rw [type, htypes]
    exact h.bare t ht

theorem useNames (h : r₀.Widens r) (ts : List TypeId) : r₀.Widens (r.useNames ts) :=
  h.of_forget (forget_useNames r ts).symm

theorem monomorphic (h : r₀.Widens r) (hm : r₀.Monomorphic) : r.Monomorphic where
  types t := by
    by_cases ht : r₀.Has (.type t)
    · rw [h.grows.type ht]
      exact hm.types t
    · exact (h.bare t ht).1
  methods m := by
    rw [method, h.methods]
    exact hm.methods m

theorem has_method (h : r₀.Widens r) {m : MethodId} (hm : r.Has (.method m)) :
    r₀.Has (.method m) := by
  rw [Has, ← h.methods]
  exact hm

/-- methods that types list are held -/
theorem listed_method (h : r₀.Widens r) (hw : r₀.WellFormed) {t : TypeId} {m : MethodId}
    (hm : m ∈ (r.type t).methods) : r₀.Has (.method m) := by
  by_cases ht : r₀.Has (.type t)
  · rw [h.grows.type ht] at hm
    exact hw.methodOf ht hm
  · rw [(h.bare t ht).2.1] at hm
    cases hm

/-- fields that types list are held -/
theorem listed_field (h : r₀.Widens r) {t : TypeId} {f : FieldId} (hf : f ∈ (r.type t).fields) :
    r₀.Holds (.field f) := by
  by_cases ht : r₀.Has (.type t)
  · rw [h.grows.type ht] at hf
    exact .inl ⟨t, hf⟩
  · rw [(h.bare t ht).2.2] at hf
    cases hf

/-- a type without members or arguments is added -/
theorem push_type (h : r₀.Widens r) {d : TypeDecl} (hargs : d.form.genericArgs = [])
    (hmethods : d.methods = []) (hfields : d.fields = []) :
    r₀.Widens (r.pushType d) where
  grows := h.grows.trans (.push_type r d)
  methods := h.methods
  fields := h.fields
  bare t ht := by
    simp only [type, pushType, Array.getD_eq_getD_getElem?, Array.getElem?_push]
    split
    · exact ⟨hargs, hmethods, hfields⟩
    · simpa only [type, Array.getD_eq_getD_getElem?] using h.bare t ht

/-- a structural key that is not known yet is entered -/
theorem insert_instance (h : r₀.Widens r) {key : String} (t : TypeId)
    (hk : r.instances.get? key = none) :
    r₀.Widens { r with instances := r.instances.insert key t } :=
  ⟨h.grows.trans (.insert_instance t hk), h.methods, h.fields, h.bare⟩

end Widens

/-- a well-formed program with the elements of `r₀` and constructed types -/
structure Broadens (r₀ r : Registry) : Prop where
  widens : r₀.Widens r
  wellFormed : r.WellFormed

namespace Broadens

theorem useNames (h : r₀.Broadens r) (ts : List TypeId) : r₀.Broadens (r.useNames ts) :=
  ⟨h.widens.useNames ts, h.wellFormed.useNames ts⟩

theorem of_forget {r' : Registry} (h : r₀.Broadens r) (hf : r.forget = r'.forget) : r₀.Broadens r' :=
  ⟨h.widens.of_forget hf, h.wellFormed.of_forget hf⟩

/-- what is held is held from then on -/
theorem holds (h : r₀.Broadens r) {x : Item} (hx : r₀.Holds x) : r.Holds x := by
  have hg := h.widens.grows
  cases x with
  | type t => exact hg.has (x := .type t) hx
  | method m => exact hg.has (x := .method m) hx
  | field f =>
    rcases hx with ⟨t, hf⟩ | ⟨module, token, hf⟩
    · exact .inl ⟨t, by rw [hg.type (has_of_field hf)]; exact hf⟩
    · exact .inr ⟨module, token, by rw [hg.module]; exact hf⟩

/-- an action that only adds to well-formed programs, and adds nothing but constructed types -/
theorem keeps {act : Action α} {Q : α → Prop} {S : α → Registry → Prop}
    (hbuilds : ∀ r, r₀.Broadens r → Builds act r S) (hkeeps : Keeps r₀.Widens act Q) :
    Keeps r₀.Broadens act fun a => Q a ∧ ∃ r, r₀.Broadens r ∧ S a r where
  ok {s a s'} h hr := by
    obtain ⟨hwidens, hq⟩ := hkeeps.ok h.widens hr
    obtain ⟨-, hw, -, hs⟩ := (hbuilds s h).ok hr
    exact ⟨⟨hwidens, hw⟩, hq, s', ⟨hwidens, hw⟩, hs⟩
  error {s e s'} h hr := ⟨hkeeps.error h.widens hr, ((hbuilds s h).error hr).2⟩

end Broadens

/-- a context in which there is nothing to substitute -/
theorem contextOf_isEmpty (hm : r.Monomorphic) (m : MethodId) : (r.contextOf m).isEmpty = true := by
  have hdeclaring : r.declaringArgs m = [] := by
    rw [declaringArgs]
    split
    · exact hm.types _
    · rfl
  rw [contextOf, hdeclaring, hm.methods m]
  rfl

/-! ## types -/

theorem widens_useNames (uses : Registry → List TypeId) :
    Keeps r₀.Widens (modify fun r => r.useNames (uses r) : Action Unit) fun _ => True :=
  .modify fun _ h => h.useNames _

theorem widens_construct (shape : Shape) (element : TypeId) :
    Keeps r₀.Widens (liftM (construct shape element)) fun _ => True := by
  refine .lift fun r h => ⟨?_, trivial⟩
  have hnoted := h.useNames [element]
  rw [run_construct]
  split
  · exact hnoted
  · rename_i hk
    exact (hnoted.push_type rfl rfl rfl).insert_instance _ hk

/-- a method without parameters cannot be instantiated, which only notes names -/
theorem keeps_instantiateMethod {I : Registry → Prop} (hnames : ∀ r ts, I r → I (r.useNames ts))
    (hmono : ∀ r, I r → r.Monomorphic) (m : MethodId) (args : List TypeId) :
    Keeps I (instantiateMethod m args) fun _ => False := by
  refine .get fun r h => Keeps.bind (Q := fun _ => True) (.modify fun r hr => hnames r _ hr) fun _ _ => ?_
  have hparams := (hmono r h).methods ((r.method m).genericDefinition?.getD m)
  dsimp only
  rw [hparams]
  split
  · exact .throw _
  · rename_i hc
    -- no arguments, or not as many as there are parameters
    cases args with
    | nil => exact absurd rfl hc
    | cons a args => exact absurd rfl hc

section
variable (hm : r₀.Monomorphic)
include hm

theorem widens_existingInstance? (definition : TypeId) (args : List TypeId) :
    Keeps r₀.Widens (existingInstance? definition args) fun _ => False := by
  refine .get fun r h => ?_
  have hparams := (h.monomorphic hm).types definition
  dsimp only
  rw [hparams, List.isEmpty_nil, Bool.or_true, if_pos rfl]
  exact (widens_useNames _).bind fun _ _ => .throw _

/-- **Nothing can be instantiated.** -/
theorem widens_instantiate (t : TypeId) (args : List TypeId) :
    Keeps r₀.Widens (instantiate t args) fun _ => False := by
  refine .get fun r _ => ?_
  cases maxNesting - r.nesting with
  | zero => exact .get fun _ _ => (widens_existingInstance? hm _ _).bind fun _ h => h.elim
  | succ levels => exact .get fun _ _ => (widens_existingInstance? hm _ _).bind fun _ h => h.elim

theorem widens_instantiateMethod (m : MethodId) (args : List TypeId) :
    Keeps r₀.Widens (instantiateMethod m args) fun _ => False :=
  keeps_instantiateMethod (fun _ _ h => h.useNames _) (fun _ h => h.monomorphic hm) m args

end

/-! ## tokens -/

section
variable {ctx : GenericContext} (hctx : ctx.isEmpty = true)
include hctx

theorem widens_substitute (t : TypeId) : Keeps r₀.Widens (substitute ctx t) fun u => u = t := by
  refine .get fun r _ => ?_
  rw [hctx, Bool.true_or, if_pos rfl]
  exact .pure rfl

theorem widens_rehome (m : MethodId) : Keeps r₀.Widens (rehome ctx m) fun n => n = m := by
  refine .get fun r _ => ?_
  rw [hctx]
  split
  · exact .pure rfl
  · exact .pure rfl

theorem widens_substituteMethod (hm : r₀.Monomorphic) (m : MethodId) :
    Keeps r₀.Widens (substituteMethod ctx m) fun n => n = m := by
  refine .get fun r _ => ?_
  split
  · exact widens_rehome hctx m
  · refine (widens_rehome hctx _).bind fun target _ => ?_
    refine (Keeps.mapM (R := fun _ => True) fun a _ => (widens_substitute hctx a).plain).bind
      fun args _ => ?_
    exact (widens_instantiateMethod hm _ _).weaken fun _ h => h.elim

theorem widens_substituteField (f : FieldId) :
    Keeps r₀.Widens (substituteField ctx f) fun g => g = f := by
  refine .get fun r _ => ?_
  rw [hctx]
  exact .pure rfl

/-- what a token is bound to is held -/
theorem widens_resolveToken (hw : r₀.WellFormed) (hm : r₀.Monomorphic) (module : ModuleId)
    (token : Token) :
    Keeps r₀.Widens (resolveToken module token ctx) fun found => ∀ x ∈ found.items, r₀.Holds x := by
  refine .get fun r h => ?_
  have hbound : ∀ target, (r.module module).tokens.get? token = some target →
      ∀ x ∈ target.items, r₀.Has x := by
    intro target htarget x hx
    rw [h.grows.module] at htarget
    exact hw.tokenTarget htarget hx
  split
  · exact .throw _
  · exact .throw _
  · exact .throw _
  · exact .throw _
  · rename_i t htoken
    refine (widens_substitute hctx t).bind fun u hu => .pure fun x hx => ?_
    rw [List.mem_singleton.mp hx, hu]
    exact hbound _ htoken (.type t) List.mem_cons_self
  · rename_i m htoken
    refine (widens_substituteMethod hctx hm m).bind fun n hn => .pure fun x hx => ?_
    rw [List.mem_singleton.mp hx, hn]
    exact hbound _ htoken (.method m) List.mem_cons_self
  · rename_i f htoken
    refine (widens_substituteField hctx f).bind fun g hg => .pure fun x hx => ?_
    rw [List.mem_singleton.mp hx, hg]
    rw [h.grows.module] at htoken
    exact .inr ⟨module, token, htoken⟩
  · exact .pure fun x hx => by cases hx
  · rename_i site htoken
    refine .pure fun x hx => ?_
    have hhas := hbound _ htoken x hx
    obtain ⟨t, -, rfl⟩ := List.mem_map.mp hx
    exact hhas

end

/-! ## plugs -/

section
variable (hm : r₀.Monomorphic)
include hm

theorem widens_resolveAmong (target : TypeId) (plugs : List TypeId) (m : MethodId)
    (params : List TypeId) :
    Keeps r₀.Widens (resolveAmong target plugs m params) fun _ => True := by
  refine .get fun r _ => (widens_useNames _).bind fun _ _ => ?_
  refine Keeps.bind (Q := fun _ => True) (.ofExcept fun _ _ => trivial) fun found _ => ?_
  split
  · exact .pure trivial
  · dsimp only
    split
    · exact .pure trivial
    · split
      · exact (widens_instantiateMethod hm _ _).bind fun _ _ => .pure trivial
      · exact .pure trivial

theorem widens_resolveIn (target : TypeId) (plugs : List TypeId) (m : MethodId) :
    Keeps r₀.Widens (resolveIn target plugs m) fun _ => True :=
  .get fun _ _ => widens_resolveAmong hm _ _ _ _

end

end Registry

namespace PlugManager

variable {r₀ : Registry} (hm : r₀.Monomorphic)
include hm

theorem widens_resolveInheritedAmong (declaring : TypeId) (m : MethodId) (rows : List PlugRow) :
    Keeps r₀.Widens (resolveInheritedAmong declaring m rows) fun _ => True := by
  induction rows with
  | nil => exact .pure trivial
  | cons row rest ih =>
    refine Keeps.bind (Q := fun _ => True) ?_ fun found _ => ?_
    · refine .get fun r _ => (Registry.widens_useNames _).bind fun _ _ => ?_
      split
      · exact Registry.widens_resolveIn hm _ _ _
      · exact .pure trivial
    · split
      · exact .pure trivial
      · exact ih

/-- a plug type without parameters cannot be instantiated -/
theorem widens_closePlug (declaring : TypeId) (m openPlug : MethodId) :
    Keeps r₀.Widens (closePlug declaring m openPlug) fun _ => True := by
  refine .get fun r _ => ?_
  split
  · exact .pure trivial
  · split
    · exact (Registry.widens_instantiate hm _ _).bind fun _ h => h.elim
    · exact .pure trivial

theorem widens_findOpenPlug (bucket : PlugBucket) (definition : TypeId) (openMethod : MethodId)
    (params : List TypeId) :
    Keeps r₀.Widens (findOpenPlug bucket definition openMethod params) fun _ => True := by
  refine .get fun r _ => ?_
  split
  · exact .pure trivial
  · exact Registry.widens_resolveAmong hm _ _ _ _

theorem widens_resolveGeneric (index : PlugIndex) (declaring definition : TypeId) (m : MethodId) :
    Keeps r₀.Widens (resolveGeneric index declaring definition m) fun _ => True := by
  refine .get fun r _ => ?_
  split
  · exact .pure trivial
  · refine (widens_findOpenPlug hm _ _ _ _).bind fun found _ => ?_
    split
    · exact widens_closePlug hm _ _ _
    · refine (widens_findOpenPlug hm _ _ _ _).bind fun found _ => ?_
      split
      · exact widens_closePlug hm _ _ _
      · exact .pure trivial

theorem widens_resolveByIndex (index : PlugIndex) (m : MethodId) :
    Keeps r₀.Widens (resolveByIndex index m) fun _ => True := by
  refine .get fun r _ => ?_
  split
  · exact .pure trivial
  · refine Keeps.bind (Q := fun _ => True) ?_ fun found _ => ?_
    · refine .get fun r _ => ?_
      split
      · exact .pure trivial
      · exact Registry.widens_resolveIn hm _ _ _
    · split
      · exact .pure trivial
      · refine (widens_resolveInheritedAmong hm _ _ _).bind fun found _ => ?_
        split
        · exact .pure trivial
        · refine .get fun r' _ => ?_
          split
          · exact widens_resolveGeneric hm _ _ _ _
          · exact .pure trivial

end PlugManager

end ProgramScan

import ProgramScan.Proofs.Keeping
import ProgramScan.Proofs.Registry.Building
import ProgramScan.Proofs.Registry.Overriding

/-!
# Changes to methods

Operations on a program change the methods and the lists of methods in few ways.  A method is declared
and listed, a member of an instance is copied from the member of the definition, an instance of a
method is added, or a method gets a body; anything else leaves the methods alone.

* `Registry.Quiet`     a change that leaves the methods alone;
* `Registry.Retains`   methods stay as they were, up to their bodies, and types are made as they were;
* `Registry.Kept`      an invariant that these changes keep, instances of methods apart;
* `keeps_edit`         every edit keeps such an invariant, except the one that makes an instance of a
                       method.

There is a lemma for each operation, in the order in which they are defined.
-/

namespace ProgramScan

namespace Registry

variable {α β : Type} {r r' r'' : Registry} {I : Registry → Prop}

/-! ## records that are added -/

theorem has_push_method (r : Registry) (d : Method) {m : MethodId} (hm : r.Has (.method m)) :
    Registry.Has { r with methods := r.methods.push d } (.method m) := by
  show m.index < (r.methods.push d).size
  rw [Array.size_push]
  exact Nat.lt_succ_of_lt hm

theorem methods_push_type (r : Registry) {d : TypeDecl} (hd : d.methods = []) (u : TypeId) :
    ((r.pushType d).type u).methods = (r.type u).methods := by
  simp only [type, pushType, Array.getD_eq_getD_getElem?, Array.getElem?_push]
  split
  · rename_i h
    rw [h, Array.getElem?_eq_none (Nat.le_refl _)]
    exact hd
  · rfl

theorem methods_refreshNames (r : Registry) (u : TypeId) :
    (r.refreshNames.type u).methods = (r.type u).methods :=
  congrArg (fun x : Option TypeId × List TypeId × List FieldId × List MethodId => x.2.2.2)
    (members_refreshNames r u)

theorem signature_modifyMethod (r : Registry) (m : MethodId) (body : Body) (c : MethodId) :
    ((r.modifyMethod m fun d => { d with body := some body }).method c).signature =
      (r.method c).signature := by
  simp only [method, modifyMethod, Array.getD_eq_getD_getElem?, Array.getElem?_modify]
  split
  · cases r.methods[c.index]? <;> rfl
  · rfl

/-! ## changes -/

/-- A change that leaves the methods and the lists of methods alone. -/
structure Quiet (r r' : Registry) : Prop where
  methods : r'.methods = r.methods
  listed : ∀ t, (r'.type t).methods = (r.type t).methods
  forms : ∀ t, r.Has (.type t) → r'.Has (.type t) ∧ (r'.type t).form = (r.type t).form
  methodInstances : r'.methodInstances = r.methodInstances

theorem Quiet.method (h : Quiet r r') : r'.method = r.method :=
  funext fun m => by rw [Registry.method, Registry.method, h.methods]

/-- a change that leaves the types alone as well -/
theorem Quiet.of_types (ht : r'.types = r.types) (hm : r'.methods = r.methods)
    (hi : r'.methodInstances = r.methodInstances) : Quiet r r' := by
  have htype : r'.type = r.type := funext fun t => by rw [type, type, ht]
  refine ⟨hm, fun t => by rw [htype], fun t hhas => ⟨?_, by rw [htype]⟩, hi⟩
  show t.index < r'.types.size
  rw [ht]
  exact hhas

theorem Quiet.trans (h : Quiet r r') (h' : Quiet r' r'') : Quiet r r'' where
  methods := h'.methods.trans h.methods
  listed t := (h'.listed t).trans (h.listed t)
  forms t ht :=
    have h₁ := h.forms t ht
    have h₂ := h'.forms t h₁.1
    ⟨h₂.1, h₂.2.trans h₁.2⟩
  methodInstances := h'.methodInstances.trans h.methodInstances

theorem Quiet.useNames (r : Registry) (ts : List TypeId) : Quiet r (r.useNames ts) :=
  .of_types rfl rfl rfl

theorem Quiet.modifyType (r : Registry) (t : TypeId) {f : TypeDecl → TypeDecl}
    (hm : ∀ d, (f d).methods = d.methods := by intro _; rfl)
    (hf : ∀ d, (f d).form = d.form := by intro _; rfl) : Quiet r (r.modifyType t f) := by
  refine ⟨rfl, fun u => ?_, fun u hu => ⟨(WellFormed.has_modifyType r t f _).mpr hu, ?_⟩, rfl⟩
  · rcases type_modifyType r t f u with h | ⟨-, h⟩
    · rw [h]
    · rw [h, hm]
  · rcases type_modifyType r t f u with h | ⟨-, h⟩
    · rw [h]
    · rw [h, hf]

theorem Quiet.push_type (r : Registry) {d : TypeDecl} (hd : d.methods = []) :
    Quiet r (r.pushType d) :=
  ⟨rfl, methods_push_type r hd, fun t ht =>
    ⟨(Grows.push_type r d).has ht, by rw [(Grows.push_type r d).type ht]⟩, rfl⟩

theorem Quiet.refreshNames (r : Registry) : Quiet r r.refreshNames :=
  ⟨rfl, methods_refreshNames r, fun _ ht =>
    ⟨(Persists.refreshNames r).has _ ht, (Persists.refreshNames r).form ht⟩, rfl⟩

/-- Methods stay as they were, up to their bodies, and types are made as they were. -/
structure Retains (r r' : Registry) : Prop where
  signatures : ∀ m, r.Has (.method m) →
    r'.Has (.method m) ∧ (r'.method m).signature = (r.method m).signature
  forms : ∀ t, r.Has (.type t) → r'.Has (.type t) ∧ (r'.type t).form = (r.type t).form

namespace Retains

theorem refl (r : Registry) : r.Retains r := ⟨fun _ h => ⟨h, rfl⟩, fun _ h => ⟨h, rfl⟩⟩

theorem trans (h : r.Retains r') (h' : r'.Retains r'') : r.Retains r'' where
  signatures m hm :=
    have h₁ := h.signatures m hm
    have h₂ := h'.signatures m h₁.1
    ⟨h₂.1, h₂.2.trans h₁.2⟩
  forms t ht :=
    have h₁ := h.forms t ht
    have h₂ := h'.forms t h₁.1
    ⟨h₂.1, h₂.2.trans h₁.2⟩

theorem of_quiet (h : Quiet r r') : r.Retains r' := by
  refine ⟨fun m hm => ⟨?_, by rw [h.method]⟩, h.forms⟩
  show m.index < r'.methods.size
  rw [h.methods]
  exact hm

theorem push_method (r : Registry) (d : Method) :
    r.Retains { r with methods := r.methods.push d } :=
  ⟨fun _ hm => ⟨has_push_method r d hm, by rw [method_push_of_has r d hm]⟩, fun _ ht => ⟨ht, rfl⟩⟩

theorem modifyType (r : Registry) (t : TypeId) {f : TypeDecl → TypeDecl}
    (hf : ∀ d, (f d).form = d.form := by intro _; rfl) : r.Retains (r.modifyType t f) := by
  refine ⟨fun m hm => ⟨hm, rfl⟩, fun u hu => ⟨(WellFormed.has_modifyType r t f _).mpr hu, ?_⟩⟩
  rcases type_modifyType r t f u with h | ⟨-, h⟩
  · rw [h]
  · rw [h, hf]

theorem body (r : Registry) (m : MethodId) (body : Body) :
    r.Retains (r.modifyMethod m fun d => { d with body := some body }) :=
  ⟨fun c hc => ⟨by simpa [Registry.Has, Registry.modifyMethod] using hc,
    signature_modifyMethod r m body c⟩, fun _ ht => ⟨ht, rfl⟩⟩

end Retains

/-! ## invariants -/

def listIn (r : Registry) (t : TypeId) (m : MethodId) : Registry :=
  r.modifyType t fun d => { d with methods := d.methods ++ [m] }

/-- `t` is a generic definition with arguments -/
def IsInstance (r : Registry) (t : TypeId) : Prop := (r.type t).form.definition?.isSome = true

def memberRecord (d : Method) (m : MethodId) (inst returnType : TypeId) (params : List Param) :
    Method :=
  { d with declaring := some inst, returnType, params, origin := .memberOf m, body := none }

theorem memberRecord_congr {d d' : Method} (h : d'.signature = d.signature) (m : MethodId)
    (inst returnType : TypeId) (params : List Param) :
    memberRecord d' m inst returnType params = memberRecord d m inst returnType params := by
  simp only [Method.signature, Method.mk.injEq] at h
  simp [memberRecord, h]

/-- A condition on programs in which types list their own methods, and which stays true of them
whatever happens to methods, except when an instance of a method is added. -/
structure Kept (I : Registry → Prop) : Prop where
  owned : ∀ {r}, I r → r.Owned
  quiet : ∀ {r r'}, I r → Quiet r r' → I r'
  declare : ∀ {r} {d : Method}, I r → d.origin = .declared →
    I { r with methods := r.methods.push d }
  list : ∀ {r t m}, I r → (r.method m).declaring = some t → (r.method m).origin = .declared →
    I (r.listIn t m)
  copy : ∀ {r inst m returnType params}, I r → r.Has (.method m) → r.IsInstance inst →
    I (Registry.listIn
      { r with methods := r.methods.push (memberRecord (r.method m) m inst returnType params) }
      inst ⟨r.methods.size⟩)
  body : ∀ {r m body}, I r → I (r.modifyMethod m fun d => { d with body := some body })

namespace Kept

variable (hI : Kept I)
include hI

/-- it can be kept in mind what the methods were at some time -/
theorem and_retains (base : Registry) : Kept fun s => I s ∧ base.Retains s where
  owned h := hI.owned h.1
  quiet h hq := ⟨hI.quiet h.1 hq, h.2.trans (.of_quiet hq)⟩
  declare h hd := ⟨hI.declare h.1 hd, h.2.trans (.push_method _ _)⟩
  list h hd ho := ⟨hI.list h.1 hd ho, h.2.trans (.modifyType _ _)⟩
  copy h hm hinst :=
    ⟨hI.copy h.1 hm hinst, (h.2.trans (.push_method _ _)).trans (.modifyType _ _)⟩
  body h := ⟨hI.body h.1, h.2.trans (.body _ _ _)⟩

theorem modifyType (h : I r) (t : TypeId) {f : TypeDecl → TypeDecl}
    (hm : ∀ d, (f d).methods = d.methods := by intro _; rfl)
    (hf : ∀ d, (f d).form = d.form := by intro _; rfl) : I (r.modifyType t f) :=
  hI.quiet h (.modifyType r t hm hf)

end Kept

/-- what follows a look at the program can rest on what was seen -/
theorem keeps_getRetaining {k : Registry → Action α} {Q : α → Prop}
    (hk : ∀ s, I s → Keeps (fun s' => I s' ∧ s.Retains s') (k s) Q) : Keeps I (get >>= k) Q where
  ok {s _ _} hs hr := ((hk s hs).ok ⟨hs, .refl s⟩ hr).imp And.left id
  error {s _ _} hs hr := ((hk s hs).error ⟨hs, .refl s⟩ hr).1

/-! ## elements -/

theorem keeps_wellKnown (name : String) : Keeps I (wellKnown name) fun _ => True := by
  refine .get fun r _ => ?_
  split
  · exact .pure trivial
  · exact .throw _

theorem keeps_chosenBase (d : TypeDesign) :
    Keeps I (chosenBase d) fun _ => True := by
  have hknown : ∀ name, Keeps I (do return some (← wellKnown name))
      fun (_ : Option TypeId) => True :=
    fun name => (keeps_wellKnown name).bind fun _ _ => .pure trivial
  unfold chosenBase
  split
  · exact .pure trivial
  · exact .pure trivial
  · exact hknown _
  · exact hknown _
  · exact hknown _
  · exact .pure trivial

section
variable (hI : Kept I)
include hI

theorem keeps_addType {d : TypeDecl} (hd : d.methods = []) :
    Keeps I (liftM (addType d)) fun _ => True :=
  .lift fun r h => ⟨hI.quiet h (.push_type r hd), trivial⟩

theorem keeps_addMethod {d : Method} (hd : d.origin = .declared) :
    Keeps I (liftM (addMethod d)) fun _ => True :=
  .lift fun _ h => ⟨hI.declare h hd, trivial⟩

theorem keeps_addField (d : Field) : Keeps I (liftM (addField d)) fun _ => True :=
  .lift fun _ h => ⟨hI.quiet h (.of_types rfl rfl rfl), trivial⟩

theorem keeps_attachField (t : TypeId) (f : FieldId) :
    Keeps I (liftM (attachField t f)) fun _ => True :=
  .lift fun r h => ⟨hI.modifyType h _, trivial⟩

theorem keeps_reserveToken (module : ModuleId) (table : UInt8) :
    Keeps I (liftM (reserveToken module table)) fun _ => True :=
  .lift fun _ h => ⟨hI.quiet h (.of_types rfl rfl rfl), trivial⟩

theorem keeps_bindToken (module : ModuleId) (token : Token) (target : TokenTarget) :
    Keeps I (liftM (bindToken module token target)) fun _ => True :=
  .lift fun _ h => ⟨hI.quiet h (.of_types rfl rfl rfl), trivial⟩

theorem keeps_setBase (t base : TypeId) :
    Keeps I (liftM (setBase t base)) fun _ => True := by
  refine .lift fun r h => ⟨?_, trivial⟩
  show I (if (r.type t).base.isSome then (false, r) else (true, _) : Bool × Registry).2
  split
  · exact h
  · exact hI.modifyType h t

theorem keeps_addInterface (t iface : TypeId) :
    Keeps I (liftM (addInterface t iface)) fun _ => True :=
  .lift fun r h => ⟨hI.modifyType h _, trivial⟩

theorem keeps_useNames (uses : Registry → List TypeId) :
    Keeps I (modify fun r => r.useNames (uses r) : Action Unit) fun _ => True :=
  .modify fun _ h => hI.quiet h (.of_types rfl rfl rfl)

theorem keeps_remember (key : String) (t : TypeId) :
    Keeps I
      (modify fun r => { r with instances := r.instances.insert key t } : Action Unit)
      fun _ => True :=
  .modify fun _ h => hI.quiet h (.of_types rfl rfl rfl)

/-! ## instances of types -/

theorem keeps_construct (shape : Shape) (element : TypeId) :
    Keeps I (liftM (construct shape element)) fun _ => True := by
  rw [construct, lift_bind, lift_modify]
  refine (keeps_useNames hI fun _ => [element]).bind fun _ _ => ?_
  rw [lift_bind, lift_get]
  refine .get fun r _ => ?_
  dsimp only
  split
  · exact .pure trivial
  · rw [lift_bind]
    refine (keeps_addType hI rfl).bind fun t _ => ?_
    rw [lift_bind, lift_modify]
    exact (keeps_remember hI _ t).bind fun _ _ => .pure trivial

theorem keeps_substituteWith {make : TypeId → List TypeId → Action TypeId}
    (hmake : ∀ t args, Keeps I (make t args) fun _ => True) (ctx : GenericContext) (depth : Nat)
    (t : TypeId) : Keeps I (substituteWith make ctx depth t) fun _ => True := by
  induction depth generalizing t with
  | zero => exact .pure trivial
  | succ depth ih =>
    refine .get fun r _ => ?_
    split
    · exact .pure trivial
    · split
      · exact .pure trivial
      · exact (ih _).bind fun _ _ => keeps_construct hI _ _
      · exact (Keeps.mapM fun u _ => ih u).bind fun _ _ => hmake _ _
      · exact (Keeps.mapM fun u _ => ih u).bind fun _ _ => hmake _ _

end

theorem keeps_substituteParams {sub : TypeId → Action TypeId}
    (hsub : ∀ t, Keeps I (sub t) fun _ => True) (params : List Param) :
    Keeps I (substituteParams sub params) fun _ => True :=
  (Keeps.mapM (R := fun _ => True) fun _ _ => (hsub _).bind fun _ _ => .pure trivial).plain

/-- the members of `inst` are copied while it is known that it is an instance -/
theorem Kept.and_isInstance (hI : Kept I) (inst : TypeId) :
    Kept fun s => I s ∧ s.IsInstance inst := by
  have hstays : ∀ {r r' : Registry}, r.IsInstance inst → r.Retains r' → r'.IsInstance inst := by
    intro r r' h hr
    have hhas : r.Has (.type inst) := by
      by_contra hnot
      rw [IsInstance, type_of_not_has hnot] at h
      cases h
    rw [IsInstance, (hr.forms inst hhas).2]
    exact h
  exact
    { owned := fun h => hI.owned h.1
      quiet := fun h hq => ⟨hI.quiet h.1 hq, hstays h.2 (.of_quiet hq)⟩
      declare := fun h hd => ⟨hI.declare h.1 hd, h.2⟩
      list := fun h hd ho => ⟨hI.list h.1 hd ho, hstays h.2 (.modifyType _ _)⟩
      copy := fun h hm hinst =>
        ⟨hI.copy h.1 hm hinst, hstays h.2 ((Retains.push_method _ _).trans (.modifyType _ _))⟩
      body := fun h => ⟨hI.body h.1, h.2⟩ }

section
variable {sub : TypeId → Action TypeId}
  (hsub : ∀ {J : Registry → Prop}, Kept J → ∀ t, Keeps J (sub t) fun _ => True)
include hsub

theorem keeps_instantiateField (hI : Kept I) (inst : TypeId) (f : FieldId) :
    Keeps I (instantiateField sub inst f) fun _ => True := by
  refine .get fun r _ => (hsub hI _).bind fun _ _ => ?_
  exact (keeps_addField hI _).bind fun _ _ => keeps_attachField hI _ _

theorem keeps_instantiateMember (hI : Kept I) {inst : TypeId} {m : MethodId}
    (hinst : ∀ s, I s → s.IsInstance inst) (hm : ∀ s, I s → s.Has (.method m)) :
    Keeps I (instantiateMember sub inst m) fun _ => True := by
  refine keeps_getRetaining fun s hs => ?_
  have hJ := hI.and_retains s
  refine (hsub hJ _).bind fun returnType _ => (keeps_substituteParams (hsub hJ) _).bind fun params _ => ?_
  -- the record that was read is that of the member when it is copied, up to the body
  refine .lift (x := addMethod (memberRecord (s.method m) m inst returnType params) >>=
    attachMethod inst) fun s' h => ⟨?_, trivial⟩
  have hsame := (h.2.signatures m (hm s hs)).2
  rw [← memberRecord_congr hsame]
  exact hJ.copy h (hm s' h.1) (hinst s' h.1)

theorem keeps_populate (hI : Kept I) (definition : TypeId) {inst : TypeId}
    (hinst : ∀ s, I s → s.IsInstance inst) :
    Keeps I (populate sub definition inst) fun _ => True := by
  refine keeps_getRetaining fun s hs => ?_
  have hJ := hI.and_retains s
  have hlisted : ∀ m ∈ (s.type definition).methods, s.Has (.method m) :=
    fun m hm => has_of_declaring (hI.owned hs definition m hm).1
  refine (Keeps.optionForM fun outer _ => .modify fun r h => hJ.modifyType h _).bind fun _ _ => ?_
  refine (Keeps.optionForM fun base _ => (hsub hJ base).bind fun _ _ =>
    (keeps_setBase hJ _ _).bind fun _ _ => .pure trivial).bind fun _ _ => ?_
  refine (Keeps.optionForM fun packing _ =>
    .lift fun r h => ⟨hJ.modifyType h _, trivial⟩).bind fun _ _ => ?_
  refine (Keeps.optionForM fun size _ =>
    .lift fun r h => ⟨hJ.modifyType h _, trivial⟩).bind fun _ _ => ?_
  refine (Keeps.forM fun mark _ => .lift fun r h => ⟨hJ.modifyType h _, trivial⟩).bind fun _ _ => ?_
  refine (Keeps.forM fun iface _ => (hsub hJ iface).bind fun _ _ =>
    keeps_addInterface hJ _ _).bind fun _ _ => ?_
  refine (Keeps.forM fun f _ => keeps_instantiateField hsub hJ inst f).bind fun _ _ => ?_
  exact Keeps.forM fun m hm => keeps_instantiateMember hsub hJ (fun s' h => hinst s' h.1)
    fun s' h => (h.2.signatures m (hlisted m hm)).1

end

section
variable (hI : Kept I)
include hI

theorem keeps_existingInstance? (definition : TypeId) (args : List TypeId) :
    Keeps I (existingInstance? definition args) fun _ => True := by
  refine .get fun r _ => ?_
  dsimp only
  split
  · exact (keeps_useNames hI fun _ => [definition]).bind fun _ _ => .throw _
  · split
    · exact .pure trivial
    · exact (keeps_useNames hI fun _ => definition :: args).bind fun _ _ => .pure trivial

theorem keeps_addInstance (definition : TypeId) (args : List TypeId) :
    Keeps I (liftM (addInstance definition args)) fun _ => True := by
  rw [addInstance, lift_bind, lift_get]
  refine .get fun r _ => ?_
  rw [lift_bind]
  refine (keeps_addType hI rfl).bind fun inst _ => ?_
  rw [lift_bind, lift_modify]
  exact (keeps_remember hI _ inst).bind fun _ _ => .pure trivial

/-- what follows can rest on it that the new type is an instance -/
theorem keeps_addInstance_bind {definition : TypeId} {args : List TypeId}
    {k : TypeId → Action α} {Q : α → Prop}
    (hk : ∀ inst, Keeps (fun s => I s ∧ s.IsInstance inst) (k inst) Q) :
    Keeps I ((liftM (addInstance definition args) : Action TypeId) >>= k) Q := by
  have hnew : ∀ s, I s → I ((addInstance definition args).run s).2 ∧
      ((addInstance definition args).run s).2.IsInstance ((addInstance definition args).run s).1 := by
    intro s hs
    refine ⟨((keeps_addInstance hI definition args).ok hs (lift_apply _ s)).1, ?_⟩
    rw [run_addInstance, IsInstance]
    simp only [type, Array.getD_eq_getD_getElem?, Array.getElem?_push_size, Option.getD_some]
    rfl
  refine ⟨fun {s _ _} hs hr => ?_, fun {s _ _} hs hr => ?_⟩
  · exact ((hk _).ok (hnew s hs) hr).imp And.left id
  · exact ((hk _).error (hnew s hs) hr).1

theorem keeps_nested {act : Action α} (h : Keeps I act fun _ => True) :
    Keeps I (nested act) fun _ => True where
  ok {r _ _} hr hrun := by
    have hin : I { r with nesting := r.nesting + 1 } := hI.quiet hr (.of_types rfl rfl rfl)
    rw [nested] at hrun
    split at hrun
    · rename_i hact
      cases hrun
      exact ⟨hI.quiet (h.ok hin hact).1 (.of_types rfl rfl rfl), trivial⟩
    · cases hrun
  error {r _ _} hr hrun := by
    have hin : I { r with nesting := r.nesting + 1 } := hI.quiet hr (.of_types rfl rfl rfl)
    rw [nested] at hrun
    split at hrun
    · cases hrun
    · rename_i hact
      cases hrun
      exact hI.quiet (h.error hin hact) (.of_types rfl rfl rfl)

end

theorem keeps_instantiateAt (hI : Kept I) (levels : Nat) (t : TypeId) (args : List TypeId) :
    Keeps I (instantiateAt levels t args) fun _ => True := by
  -- the members of an instance are made while more is known of the program
  induction levels generalizing I t args with
  | zero =>
    refine .get fun r _ => (keeps_existingInstance? hI _ _).bind fun found _ => ?_
    cases found with
    | some inst => exact .pure trivial
    | none => exact .throw _
  | succ levels ih =>
    refine .get fun r _ => (keeps_existingInstance? hI _ _).bind fun found _ => ?_
    cases found with
    | some inst => exact .pure trivial
    | none =>
      refine keeps_nested hI (keeps_addInstance_bind hI fun inst => ?_)
      exact (keeps_populate (fun hJ u => keeps_substituteWith hJ (ih hJ) _ _ u)
        (hI.and_isInstance inst) _ fun _ h => h.2).bind fun _ _ => .pure trivial

theorem keeps_instantiate (hI : Kept I) (t : TypeId) (args : List TypeId) :
    Keeps I (instantiate t args) fun _ => True :=
  .get fun _ _ => keeps_instantiateAt hI _ _ _

theorem keeps_substitute (hI : Kept I) (ctx : GenericContext) (t : TypeId) :
    Keeps I (substitute ctx t) fun _ => True :=
  keeps_substituteWith hI (keeps_instantiate hI) ctx _ t

/-! ## declarations -/

section
variable (hI : Kept I)
include hI

theorem keeps_addModule (name : String) :
    Keeps I (liftM (addModule name)) fun _ => True := by
  refine .lift fun r h => ⟨?_, trivial⟩
  simp only [addModule, StateT.run_bind, StateT.run_get, pure_bind]
  split
  · exact h
  · exact hI.quiet h (.of_types rfl rfl rfl)

theorem keeps_defineType {d : TypeDecl} (hd : d.methods = []) :
    Keeps I (liftM (defineType d)) fun _ => True := by
  rw [defineType, lift_bind]
  refine (keeps_addType hI hd).bind fun t _ => ?_
  rw [lift_bind, lift_modify]
  refine Keeps.bind (Q := fun _ => True) (.modify fun _ h => ?_) fun _ _ => .pure trivial
  exact hI.quiet h (.of_types rfl rfl rfl)

theorem keeps_addParameters (module : ModuleId) (owner : ParameterOwner) (index : Nat)
    (names : List String) :
    Keeps I (liftM (addParameters module owner index names)) fun _ => True := by
  induction names generalizing index with
  | nil => exact .pure trivial
  | cons name rest ih =>
    rw [addParameters, lift_bind]
    refine (keeps_addType hI rfl).bind fun p _ => ?_
    rw [lift_bind]
    exact (ih _).bind fun _ _ => .pure trivial

theorem keeps_declareType (d : TypeDesign) :
    Keeps I (declareType d) fun _ => True := by
  refine (keeps_chosenBase d).bind fun _ _ => (keeps_addParameters hI _ _ _ _).bind fun _ _ => ?_
  refine (keeps_reserveToken hI _ _).bind fun _ _ => (keeps_defineType hI rfl).bind fun _ _ => ?_
  exact (keeps_bindToken hI _ _ _).bind fun _ _ => .pure trivial

theorem keeps_declareDetached (module : ModuleId) (declaring : TypeId) (name : String)
    (type : TypeId) (flags : FieldFlags) (annotations : List Annotation) :
    Keeps I (liftM (declareDetached module declaring name type flags annotations))
      fun _ => True := by
  rw [declareDetached, lift_bind]
  exact (keeps_reserveToken hI _ _).bind fun _ _ => keeps_addField hI _

theorem keeps_declareField (module : ModuleId) (declaring : TypeId) (name : String)
    (type : TypeId) (flags : FieldFlags) (annotations : List Annotation) :
    Keeps I (liftM (declareField module declaring name type flags annotations))
      fun _ => True := by
  simp only [declareField, lift_bind]
  refine (keeps_reserveToken hI _ _).bind fun _ _ => (keeps_addField hI _).bind fun _ _ => ?_
  refine (keeps_bindToken hI _ _ _).bind fun _ _ => ?_
  exact (keeps_attachField hI _ _).bind fun _ _ => .pure trivial

theorem keeps_tokenFor (module : ModuleId) (target : TokenTarget) :
    Keeps I (liftM (tokenFor module target)) fun _ => True := by
  have hadd : ∀ table, Keeps I (liftM (addToken module table target))
      fun _ => True := by
    intro table
    rw [addToken, lift_bind]
    refine (keeps_reserveToken hI _ _).bind fun _ _ => ?_
    rw [lift_bind]
    exact (keeps_bindToken hI _ _ _).bind fun _ _ => .pure trivial
  cases target <;> exact hadd _

theorem keeps_declareReturning (d : MethodDesign) (returnType : TypeId) :
    Keeps I (declareReturning d returnType) fun _ => True := by
  refine (keeps_reserveToken hI _ _).bind fun token _ => ?_
  cases hd : d.declaring with
  | none =>
    refine (keeps_addMethod hI rfl).bind fun _ _ => ?_
    exact (keeps_bindToken hI _ _ _).bind fun _ _ => .pure trivial
  | some declaring =>
    let added := designed d returnType token
    change Keeps I (liftM (addMethod added >>= fun m =>
      bindToken d.module token (.method (some m)) >>= fun _ =>
        attachMethod declaring m >>= fun _ => pure m)) fun _ => True
    refine .lift fun r h => ⟨?_, trivial⟩
    have hnew := method_push r added ⟨r.methods.size⟩
    rw [if_pos rfl] at hnew
    have hbound : I (Registry.modifyModule { r with methods := r.methods.push added }
        d.module fun m =>
          { m with tokens := m.tokens.insert token (.method (some ⟨r.methods.size⟩)) }) :=
      hI.quiet (hI.declare (d := added) h rfl) (.of_types rfl rfl rfl)
    exact hI.list hbound ((congrArg Method.declaring hnew).trans hd) (congrArg Method.origin hnew)

theorem keeps_declareMethod (d : MethodDesign) :
    Keeps I (declareMethod d) fun _ => True := by
  rw [declareMethod_eq]
  cases d.returnType with
  | some t => exact keeps_declareReturning hI d t
  | none => exact (keeps_wellKnown _).bind fun _ _ => keeps_declareReturning hI d _

theorem keeps_setEnclosing (t outer : TypeId) :
    Keeps I (liftM (setEnclosing t outer)) fun _ => True := by
  refine .lift fun r h => ⟨?_, trivial⟩
  show I (if (r.type t).enclosing.isSome then (false, r) else (true, _) : Bool × Registry).2
  split
  · exact h
  · have hnested : I (r.nestIn t outer) := hI.modifyType h t
    exact hI.quiet hnested (.refreshNames _)

theorem keeps_setBody (m : MethodId) (body : Body) :
    Keeps I (liftM (setBody m body)) fun _ => True := by
  refine .lift fun r h => ⟨?_, trivial⟩
  show I (if (r.method m).body.isSome then (false, r) else (true, _) : Bool × Registry).2
  split
  · exact h
  · exact hI.body h

theorem keeps_edit {e : Edit} (he : ∀ m args, e ≠ .instantiateMethod m args) :
    Keeps I e.action fun _ => True := by
  cases e with
  | addModule name => exact (keeps_addModule hI name).bind fun _ _ => .pure trivial
  | declareType design => exact (keeps_declareType hI design).bind fun _ _ => .pure trivial
  | define => exact (keeps_defineType hI rfl).bind fun _ _ => .pure trivial
  | addParameter => exact (keeps_addType hI rfl).bind fun _ _ => .pure trivial
  | declareField => exact (keeps_declareField hI _ _ _ _ _ _).bind fun _ _ => .pure trivial
  | declareDetached => exact (keeps_declareDetached hI _ _ _ _ _ _).bind fun _ _ => .pure trivial
  | declareMethod design => exact (keeps_declareMethod hI design).bind fun _ _ => .pure trivial
  | setBase => exact (keeps_setBase hI _ _).bind fun _ _ => .pure trivial
  | setEnclosing => exact (keeps_setEnclosing hI _ _).bind fun _ _ => .pure trivial
  | addInterface => exact keeps_addInterface hI _ _
  | annotate t mark => exact .lift fun _ h => ⟨hI.modifyType h _, trivial⟩
  | setPacking t packing => exact .lift fun _ h => ⟨hI.modifyType h _, trivial⟩
  | setClassSize t size => exact .lift fun _ h => ⟨hI.modifyType h _, trivial⟩
  | setBody => exact (keeps_setBody hI _ _).bind fun _ _ => .pure trivial
  | reserveToken => exact (keeps_reserveToken hI _ _).bind fun _ _ => .pure trivial
  | tokenFor => exact (keeps_tokenFor hI _ _).bind fun _ _ => .pure trivial
  | bindToken => exact keeps_bindToken hI _ _ _
  | readNames ts => exact keeps_useNames hI fun _ => ts
  | construct => exact (keeps_construct hI _ _).bind fun _ _ => .pure trivial
  | instantiate => exact (keeps_instantiate hI _ _).bind fun _ _ => .pure trivial
  | substitute => exact (keeps_substitute hI _ _).bind fun _ _ => .pure trivial
  | instantiateMethod m args => exact absurd rfl (he m args)

end

end Registry

end ProgramScan

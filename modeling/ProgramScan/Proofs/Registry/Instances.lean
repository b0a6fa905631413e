import ProgramScan.Proofs.Registry.Additions
import ProgramScan.Proofs.Registry.Questions
import ProgramScan.Proofs.Registry.Settled

/-!
# Instances of types are made once

Constructed types and instances of types are found again once they were made, so making them and
everything built from it is `Registry.Builds` (`builds_construct`, `makes_instantiate`,
`builds_substitute`).

An instance is known before it has its members, and while these are made the program does not grow
in the sense of `Grows`, because the new type still changes.  `Making` is what holds meanwhile: the
program grows from the state before the instance, and the instance is remembered.  When the
instantiation runs again, it finds the instance and makes nothing.
-/

namespace ProgramScan

namespace Registry

/-! ## constructed types -/

/-- the answer is a type of the program, and no method was instantiated to find it -/
def FoundType (memo : Table String MethodId) (t : TypeId) (r : Registry) : Prop :=
  r.Has (.type t) ∧ r.methodInstances = memo

def constructedDecl (r : Registry) (shape : Shape) (element : TypeId) : TypeDecl :=
  { module := (r.type element).module, name := "", form := .constructed shape element,
    flags := TypeFlags.isPublic ||| TypeFlags.isSealed,
    base := if shape.isArray then r.find? "System.Array" else none }

theorem run_construct (r : Registry) (shape : Shape) (element : TypeId) :
    (construct shape element).run r =
      match r.instances.get? (r.constructedKey shape element) with
      | some t => (t, r.useNames [element])
      | none =>
        let decl := r.constructedDecl shape element
        let s := r.useNames [element]
        (⟨r.types.size⟩,
          { s with
            types := s.types.push { decl with id := s.nextId, fullName := s.render decl }
            instances := s.instances.insert (r.constructedKey shape element) ⟨r.types.size⟩
            nextId := s.nextId + 1 }) := by
  show (match (r.useNames [element]).instances.get? (r.constructedKey shape element) with
    | some t => _
    | none => _ : StateM Registry TypeId).run (r.useNames [element]) = _
  show (match r.instances.get? (r.constructedKey shape element) with
    | some t => _
    | none => _ : StateM Registry TypeId).run (r.useNames [element]) = _
  cases r.instances.get? (r.constructedKey shape element) <;> rfl

theorem Grows.constructedKey {r r' : Registry} (hg : r.Grows r') (shape : Shape) {element : TypeId}
    (he : r.Has (.type element)) :
    r'.constructedKey shape element = r.constructedKey shape element := by
  simp only [Registry.constructedKey, hg.typeKey he]

theorem settled_construct {r : Registry} {shape : Shape} {element t : TypeId}
    (he : r.Has (.type element))
    (hk : r.instances.get? (r.constructedKey shape element) = some t) :
    Settled (liftM (construct shape element)) t r := by
  intro r' hg _
  refine ⟨r'.useNames [element], ?_, rfl⟩
  rw [lift_apply, run_construct, hg.constructedKey shape he, hg.instances _ _ hk]

theorem builds_construct {r : Registry} (hw : r.WellFormed) (shape : Shape) {element : TypeId}
    (he : r.Has (.type element)) :
    Builds (liftM (construct shape element)) r (FoundType r.methodInstances) where
  ok {t r'} hr := by
    rw [lift_apply, run_construct] at hr
    cases hk : r.instances.get? (r.constructedKey shape element) with
    | some u =>
      simp only [hk, EStateM.Result.ok.injEq] at hr
      obtain ⟨rfl, rfl⟩ := hr
      have hg := Grows.useNames r [element]
      exact ⟨hg, hw.useNames _, (settled_construct he hk).mono hg, hw.instance_ hk, rfl⟩
    | none =>
      simp only [hk, EStateM.Result.ok.injEq] at hr
      obtain ⟨rfl, rfl⟩ := hr
      -- the type is added, then remembered
      let s := r.useNames [element]
      let decl := { r.constructedDecl shape element with
        id := s.nextId, fullName := s.render (r.constructedDecl shape element) }
      have hitems : ∀ x ∈ decl.items, s.Has x := by
        intro x hx
        simp only [TypeDecl.items, constructedDecl, TypeForm.items, decl, List.map_nil,
          List.append_nil, Option.toList_none, List.flatMap_nil, List.mem_append,
          List.mem_singleton, List.mem_map, Option.mem_toList] at hx
        rcases hx with rfl | ⟨b, hb, rfl⟩
        · exact he
        · split at hb
          · exact hw.found hb
          · cases hb
      have hg₁ : r.Grows (s.pushType decl) := (Grows.useNames r [element]).trans (.push_type s decl)
      have hw₁ : (s.pushType decl).WellFormed := (hw.useNames [element]).push_type hitems
      have hnew : (s.pushType decl).Has (.type ⟨r.types.size⟩) := by
        show r.types.size < (r.types.push decl).size
        simp
      have hg₂ := hg₁.trans (.insert_instance ⟨r.types.size⟩ hk)
      refine ⟨hg₂, hw₁.insert_instance hnew _, ?_, hnew, rfl⟩
      refine settled_construct (hg₂.has he) ?_
      have hkey := hg₂.constructedKey shape he
      refine (congrArg _ hkey).trans ?_
      exact Table.get?_insert_self _ _ _
  error hr := by
    rw [lift_apply] at hr
    cases hr

/-! ## inside an instantiation -/

/-- The instance `inst` of the key is being made in `s`, in a program that was `r` before. -/
structure Making (r : Registry) (key : String) (inst : TypeId) (s : Registry) : Prop where
  grows : r.Grows s
  wellFormed : s.WellFormed
  isNew : ¬ r.Has (.type inst)
  has : s.Has (.type inst)
  known : s.instances.get? key = some inst
  memo : s.methodInstances = r.methodInstances

/-- run in `s`, `act` leaves the instance in the making, and its answer satisfies `Q` -/
def Stays (r : Registry) (key : String) (inst : TypeId) {α : Type} (act : Action α) (s : Registry)
    (Q : α → Registry → Prop) : Prop :=
  match act s with
  | .ok a s' => Making r key inst s' ∧ Q a s'
  | .error _ s' => r.Grows s' ∧ s'.WellFormed

section
variable {r : Registry} {key : String} {inst : TypeId}

theorem Making.grow {s s' : Registry} (h : Making r key inst s) (hg : s.Grows s')
    (hw : s'.WellFormed) (hm : s'.methodInstances = r.methodInstances) : Making r key inst s' :=
  ⟨h.grows.trans hg, hw, h.isNew, hg.has h.has, hg.instances _ _ h.known, hm⟩

/-- the new instance can change as long as it mentions elements of the program -/
theorem Making.modifyType {s : Registry} (h : Making r key inst s) {f : TypeDecl → TypeDecl}
    (hf : ∀ x ∈ (f (s.type inst)).items, s.Has x) : Making r key inst (s.modifyType inst f) :=
  ⟨h.grows.modifyType h.isNew f, h.wellFormed.modifyType fun _ => hf, h.isNew,
    (WellFormed.has_modifyType s inst f _).mpr h.has, h.known, h.memo⟩

theorem Making.items {s : Registry} (h : Making r key inst s) :
    ∀ x ∈ (s.type inst).items, s.Has x :=
  fun _ hx => h.wellFormed.of_type h.has hx

namespace Stays

variable {α β : Type} {s : Registry}

theorem bind {x : Action α} {k : α → Action β} {Q : α → Registry → Prop} {R : β → Registry → Prop}
    (hx : Stays r key inst x s Q)
    (hk : ∀ a s', Making r key inst s' → Q a s' → Stays r key inst (k a) s' R) :
    Stays r key inst (x >>= k) s R := by
  simp only [Stays] at hx ⊢
  rw [bind_apply]
  cases h : x s with
  | ok a s' =>
    rw [h] at hx
    exact hk a s' hx.1 hx.2
  | error e s' =>
    rw [h] at hx
    exact hx

theorem step {x : Action α} {k : α → Action β} {a : α} {s' : Registry} {R : β → Registry → Prop}
    (hx : x s = .ok a s') (hk : Stays r key inst (k a) s' R) : Stays r key inst (x >>= k) s R := by
  simp only [Stays] at hk ⊢
  rw [bind_apply, hx]
  exact hk

theorem of_builds {x : Action α} {Q : α → Registry → Prop} (hI : Making r key inst s)
    (hx : Builds x s fun a s' => Q a s' ∧ s'.methodInstances = r.methodInstances) :
    Stays r key inst x s Q := by
  simp only [Stays]
  cases h : x s with
  | ok a s' =>
    obtain ⟨hg, hw, -, hq, hm⟩ := hx.ok h
    exact ⟨hI.grow hg hw hm, hq⟩
  | error e s' =>
    obtain ⟨hg, hw⟩ := hx.error h
    exact ⟨hI.grows.trans hg, hw⟩

theorem forM {f : α → Action Unit} {l : List α} (hI : Making r key inst s)
    (hf : ∀ a ∈ l, ∀ s', Making r key inst s' → Stays r key inst (f a) s' fun _ _ => True) :
    Stays r key inst (l.forM f) s fun _ _ => True := by
  induction l generalizing s with
  | nil => exact ⟨hI, trivial⟩
  | cons a l ih =>
    show Stays r key inst (f a >>= fun _ => l.forM f) s _
    refine bind (hf a List.mem_cons_self s hI) fun _ s' hI' _ => ?_
    exact ih hI' fun b hb => hf b (List.mem_cons_of_mem _ hb)

theorem optionForM {f : α → Action Unit} {o : Option α} (hI : Making r key inst s)
    (hf : ∀ a, o = some a → Stays r key inst (f a) s fun _ _ => True) :
    Stays r key inst (o.forM f) s fun _ _ => True := by
  cases o with
  | none => exact ⟨hI, trivial⟩
  | some a => exact hf a rfl

/-- a change of the new instance that brings in items of the program only -/
theorem modifyType (hI : Making r key inst s) {act : Action Unit} {f : TypeDecl → TypeDecl}
    (hact : act s = .ok () (s.modifyType inst f))
    (hf : ∀ x ∈ (f (s.type inst)).items, x ∈ (s.type inst).items ∨ s.Has x) :
    Stays r key inst act s fun _ _ => True := by
  simp only [Stays, hact]
  refine ⟨hI.modifyType fun x hx => ?_, trivial⟩
  rcases hf x hx with h | h
  · exact hI.items x h
  · exact h

end Stays

variable {sub : TypeId → Action TypeId}
  (hsub : ∀ u s, r.Grows s → s.WellFormed → s.Has (.type u) →
    s.methodInstances = r.methodInstances → Builds (sub u) s (FoundType r.methodInstances))
include hsub

theorem stays_sub {s : Registry} (hI : Making r key inst s) {u : TypeId} (hu : s.Has (.type u)) :
    Stays r key inst (sub u) s fun t s' => s'.Has (.type t) :=
  .of_builds hI (hsub u s hI.grows hI.wellFormed hu hI.memo)

theorem stays_instantiateBase {s : Registry} (hI : Making r key inst s) {base : TypeId}
    (hb : s.Has (.type base)) :
    Stays r key inst (instantiateBase sub inst base) s fun _ _ => True := by
  refine Stays.bind (stays_sub hsub hI hb) fun b s' hI' hb' => ?_
  refine Stays.bind (Q := fun _ _ => True) ?_ fun _ s'' h _ => ⟨h, trivial⟩
  have hrun : (setBase inst b).run s' =
      if (s'.type inst).base.isSome then (false, s')
      else (true, s'.modifyType inst fun d => { d with base := some b }) := rfl
  simp only [Stays, lift_apply, hrun]
  split
  · exact ⟨hI', trivial⟩
  · refine ⟨hI'.modifyType fun x hx => ?_, trivial⟩
    by_cases hxb : x = .type b
    · rw [hxb]
      exact hb'
    · refine hI'.items x ?_
      simp only [TypeDecl.items, List.mem_append, List.mem_map] at hx ⊢
      grind

theorem stays_instantiateInterface {s : Registry} (hI : Making r key inst s) {iface : TypeId}
    (hi : s.Has (.type iface)) :
    Stays r key inst (instantiateInterface sub inst iface) s fun _ _ => True := by
  refine Stays.bind (stays_sub hsub hI hi) fun i s' hI' hi' => ?_
  refine Stays.modifyType hI' rfl fun x hx => ?_
  by_cases hxi : x = .type i
  · rw [hxi]
    exact .inr hi'
  · left
    simp only [TypeDecl.items, List.mem_append, List.mem_map] at hx ⊢
    grind

theorem stays_instantiateField {s : Registry} (hI : Making r key inst s) {f : FieldId}
    (hf : s.Has (.field f)) :
    Stays r key inst (instantiateField sub inst f) s fun _ _ => True := by
  show Stays r key inst (sub (s.field f).type >>= _) s _
  refine Stays.bind (stays_sub hsub hI (hI.wellFormed.typeOf hf)) fun type s' hI' ht => ?_
  -- the copy is added, then given to the instance
  let copy : Field := { s.field f with declaring := inst, type }
  have hcopy : Making r key inst { s' with fields := s'.fields.push copy } := by
    refine hI'.grow (.push_field s' copy) (hI'.wellFormed.push_field fun x hx => ?_) hI'.memo
    simp only [Field.items, List.mem_cons, List.not_mem_nil, or_false, copy] at hx
    rcases hx with rfl | rfl
    · exact hI'.has
    · exact ht
  have hnew : Registry.Has { s' with fields := s'.fields.push copy } (.field ⟨s'.fields.size⟩) := by
    show s'.fields.size < (s'.fields.push copy).size
    simp
  have hadd : (liftM (addField copy) : Action FieldId) s' =
      .ok ⟨s'.fields.size⟩ { s' with fields := s'.fields.push copy } := rfl
  refine Stays.step hadd (Stays.modifyType hcopy rfl fun x hx => ?_)
  by_cases hxf : x = .field ⟨s'.fields.size⟩
  · rw [hxf]
    exact .inr hnew
  · left
    simp only [TypeDecl.items, List.mem_append, List.mem_map] at hx ⊢
    grind

theorem builds_substituteParams {s : Registry} (hg : r.Grows s) (hw : s.WellFormed)
    (hm : s.methodInstances = r.methodInstances) {params : List Param}
    (hp : ∀ p ∈ params, s.Has (.type p.type)) :
    Builds (substituteParams sub params) s fun ps s' =>
      (∀ p ∈ ps, s'.Has (.type p.type)) ∧ s'.methodInstances = r.methodInstances := by
  refine Builds.mapM (R := fun (p : Param) s' => s'.Has (.type p.type))
    (P := fun s' => s'.methodInstances = r.methodInstances) (fun _ _ _ hg' h => hg'.has h) hw hm ?_
  intro p hmem s' hg' hw' hm'
  refine Builds.bind (hsub p.type s' (hg.trans hg') hw' (hg'.has (hp p hmem)) hm') ?_
  intro t s'' _ hw'' ht
  exact .pure hw'' ht

theorem stays_instantiateMember {s : Registry} (hI : Making r key inst s) {m : MethodId}
    (hm : s.Has (.method m)) :
    Stays r key inst (instantiateMember sub inst m) s fun _ _ => True := by
  show Stays r key inst (sub (s.method m).returnType >>= _) s _
  refine Stays.bind (Q := fun t s' => s'.Has (.type t) ∧ s.Grows s') ?_ ?_
  · have hb := hsub _ s hI.grows hI.wellFormed (hI.wellFormed.returnType hm) hI.memo
    exact .of_builds hI (hb.weaken fun t s' hg _ h => ⟨⟨h.1, hg⟩, h.2⟩)
  intro returnType s₁ hI₁ ⟨ht₁, hg₁⟩
  refine Stays.bind
    (Q := fun ps s' => (∀ p ∈ ps, s'.Has (.type p.type)) ∧ s₁.Grows s') ?_ ?_
  · have hp : ∀ p ∈ (s.method m).params, s₁.Has (.type p.type) := fun p hp =>
      hg₁.has (hI.wellFormed.param hm (List.mem_map_of_mem hp))
    have hb := builds_substituteParams hsub hI₁.grows hI₁.wellFormed hI₁.memo hp
    exact .of_builds hI₁ (hb.weaken fun ps s' hg _ h => ⟨⟨h.1, hg⟩, h.2⟩)
  intro params s₂ hI₂ ⟨hp₂, hg₂⟩
  -- the copy is added, then given to the instance
  let copy : Method :=
    { s.method m with declaring := some inst, returnType, params, origin := .memberOf m, body := none }
  have hcopy : Making r key inst { s₂ with methods := s₂.methods.push copy } := by
    have hg := hg₁.trans hg₂
    refine hI₂.grow (.push_method s₂ copy) (hI₂.wellFormed.push_method ?_) hI₂.memo
    refine Method.forall_items rfl (fun t ht => ?_) (hg₂.has ht₁) hp₂
      (fun a ha => hg.has (hI.wellFormed.genericArg hm ha)) fun x hx => ?_
    · obtain rfl := Option.some.inj ht
      exact hI₂.has
    · obtain rfl := Option.some.inj hx
      exact hg.has hm
  have hnew :
      Registry.Has { s₂ with methods := s₂.methods.push copy } (.method ⟨s₂.methods.size⟩) := by
    show s₂.methods.size < (s₂.methods.push copy).size
    simp
  have hadd : (liftM (addMethod copy) : Action MethodId) s₂ =
      .ok ⟨s₂.methods.size⟩ { s₂ with methods := s₂.methods.push copy } := rfl
  refine Stays.step hadd (Stays.modifyType hcopy rfl fun x hx => ?_)
  by_cases hxm : x = .method ⟨s₂.methods.size⟩
  · rw [hxm]
    exact .inr hnew
  · left
    simp only [TypeDecl.items, List.mem_append, List.mem_map] at hx ⊢
    grind

theorem stays_populate {s : Registry} (hI : Making r key inst s) {definition : TypeId}
    (hd : r.Has (.type definition)) (hw : r.WellFormed) :
    Stays r key inst (populate sub definition inst) s fun _ _ => True := by
  have hitems : ∀ {s'}, Making r key inst s' → ∀ x ∈ (r.type definition).items, s'.Has x :=
    fun hI' x hx => hI'.grows.has (hw.of_type hd hx)
  refine Stays.step (show (get : Action Registry) s = .ok s s from rfl) ?_
  rw [hI.grows.type hd]
  refine Stays.bind (Stays.optionForM hI fun outer houter => ?_) fun _ s₁ hI₁ _ => ?_
  · refine Stays.modifyType hI rfl fun x hx => ?_
    by_cases hxo : x = .type outer
    · rw [hxo]
      exact .inr (hitems hI _ (by simp [TypeDecl.items, houter]))
    · left
      simp only [TypeDecl.items, List.mem_append, List.mem_map] at hx ⊢
      grind
  refine Stays.bind (Stays.optionForM hI₁ fun base hbase => ?_) fun _ s₂ hI₂ _ => ?_
  · exact stays_instantiateBase hsub hI₁ (hitems hI₁ _ (by simp [TypeDecl.items, hbase]))
  refine Stays.bind (Stays.optionForM hI₂ fun packing _ => ?_) fun _ s₃ hI₃ _ => ?_
  · exact Stays.modifyType hI₂ rfl fun x hx => .inl hx
  refine Stays.bind (Stays.optionForM hI₃ fun size _ => ?_) fun _ s₄ hI₄ _ => ?_
  · exact Stays.modifyType hI₃ rfl fun x hx => .inl hx
  refine Stays.bind (Stays.forM hI₄ fun a ha s' hI' => ?_) fun _ s₅ hI₅ _ => ?_
  · refine Stays.modifyType hI' rfl fun x hx => ?_
    by_cases hxa : x ∈ a.items
    · refine .inr (hitems hI' x ?_)
      simp only [TypeDecl.items, List.mem_append, List.mem_flatMap]
      exact .inr ⟨a, ha, hxa⟩
    · left
      simp only [TypeDecl.items, List.mem_append, List.mem_flatMap] at hx ⊢
      grind
  refine Stays.bind (Stays.forM hI₅ fun i hi s' hI' => ?_) fun _ s₆ hI₆ _ => ?_
  · exact stays_instantiateInterface hsub hI' (hitems hI' _ (by simp [TypeDecl.items, hi]))
  refine Stays.bind (Stays.forM hI₆ fun f hf s' hI' => ?_) fun _ s₇ hI₇ _ => ?_
  · exact stays_instantiateField hsub hI' (hitems hI' _ (by simp [TypeDecl.items, hf]))
  refine Stays.forM hI₇ fun m hm s' hI' => ?_
  exact stays_instantiateMember hsub hI' (hitems hI' _ (by simp [TypeDecl.items, hm]))

end

/-! ## substitution and instantiation -/

/-- the types that a context gives are types of the program -/
def HasContext (r : Registry) (ctx : GenericContext) : Prop :=
  ∀ t ∈ ctx.typeArgs ++ ctx.methodArgs, r.Has (.type t)

instance (r : Registry) (ctx : GenericContext) : Decidable (r.HasContext ctx) :=
  inferInstanceAs (Decidable (∀ t ∈ _, _))

theorem Grows.hasContext {r r' : Registry} (hg : r.Grows r') {ctx : GenericContext}
    (h : r.HasContext ctx) : r'.HasContext ctx :=
  fun t ht => hg.has (h t ht)

/-- `make` makes instances of types of the program, and finds them again -/
def Makes (make : TypeId → List TypeId → Action TypeId) : Prop :=
  ∀ {r : Registry} {t : TypeId} {args : List TypeId}, r.WellFormed → r.Has (.type t) →
    (∀ a ∈ args, r.Has (.type a)) → Builds (make t args) r (FoundType r.methodInstances)

theorem HasContext.argsOf {r : Registry} {ctx : GenericContext} (h : r.HasContext ctx)
    {owner : ParameterOwner} {t : TypeId} (ht : t ∈ ctx.argsOf owner) : r.Has (.type t) := by
  cases owner with
  | type => exact h t (List.mem_append_left _ ht)
  | method => exact h t (List.mem_append_right _ ht)

theorem builds_substituteWith {make : TypeId → List TypeId → Action TypeId} (hmake : Makes make)
    {ctx : GenericContext} (depth : Nat) {r : Registry} (hw : r.WellFormed)
    (hctx : r.HasContext ctx) {t : TypeId} (ht : r.Has (.type t)) :
    Builds (substituteWith make ctx depth t) r (FoundType r.methodInstances) := by
  induction depth generalizing r t with
  | zero => exact .pure hw ⟨ht, rfl⟩
  | succ depth ih =>
    -- the arguments of a form are substituted one after the other, then the instance is made
    have hargs : ∀ {d : TypeId} {args : List TypeId}, r.Has (.type d) →
        (∀ a ∈ args, r.Has (.type a)) →
        Builds (args.mapM (substituteWith make ctx depth) >>= make d) r
          (FoundType r.methodInstances) := by
      intro d args hd ha
      refine Builds.bind (Builds.mapM (R := fun a s => s.Has (.type a))
        (P := fun s => s.methodInstances = r.methodInstances) (fun _ _ _ hg h => hg.has h) hw rfl ?_)
        fun as s hg hw' h => ?_
      · intro a hmem s hg hw' hm
        have hb := ih hw' (hg.hasContext hctx) (hg.has (ha a hmem))
        rwa [hm] at hb
      · have hb := hmake hw' (hg.has hd) h.1
        rwa [h.2] at hb
    refine Builds.get ?_ fun r' hg _ => by rw [hg.isOpen hw ht, hg.type ht]
    split
    · exact .pure hw ⟨ht, rfl⟩
    · cases hf : (r.type t).form with
      | parameter index owner =>
        refine .pure hw ⟨?_, rfl⟩
        cases ha : (ctx.argsOf owner)[index]? with
        | none => exact ht
        | some a => exact hctx.argsOf (List.mem_of_getElem? ha)
      | constructed shape element =>
        refine Builds.bind (ih hw hctx (hw.element ht (by rw [hf]; rfl))) fun e s _ hw' he => ?_
        have hb := builds_construct hw' shape he.1
        rwa [he.2] at hb
      | defined kind params =>
        exact hargs ht fun a ha => hw.genericArgOf ht (by rw [hf]; exact ha)
      | instantiated kind definition args =>
        exact hargs (hw.definition ht (by rw [hf]; rfl))
          fun a ha => hw.genericArgOf ht (by rw [hf]; exact ha)

theorem Grows.instanceKey {r r' : Registry} (hg : r.Grows r') (definition : String)
    {args : List TypeId} (ha : ∀ a ∈ args, r.Has (.type a)) :
    r'.instanceKey definition args = r.instanceKey definition args := by
  simp only [Registry.instanceKey]
  rw [List.map_congr_left fun a h => hg.typeKey (ha a h)]

def instanceKeyOf (r : Registry) (definition : TypeId) (args : List TypeId) : String :=
  r.instanceKey (r.typeKey definition) args

theorem Grows.instanceKeyOf {r r' : Registry} (hg : r.Grows r') {definition : TypeId}
    (hd : r.Has (.type definition)) {args : List TypeId} (ha : ∀ a ∈ args, r.Has (.type a)) :
    r'.instanceKeyOf definition args = r.instanceKeyOf definition args := by
  rw [Registry.instanceKeyOf, Registry.instanceKeyOf, hg.typeKey hd, hg.instanceKey _ ha]

theorem existingInstance?_apply (r : Registry) (definition : TypeId) (args : List TypeId) :
    existingInstance? definition args r =
      let params := (r.type definition).form.genericArgs
      if params.length != args.length || params.isEmpty then
        .error (.typeArity (r.fullName definition) params.length args.length)
          (r.useNames [definition])
      else if params = args then .ok (some definition) r
      else .ok (r.instances.get? (r.instanceKeyOf definition args))
        (r.useNames (definition :: args)) := by
  show (if _ then _ else _ : Action (Option TypeId)) r = _
  simp only
  split
  · rfl
  · split <;> rfl

section
variable {definition : TypeId} {args : List TypeId}

theorem settled_existingInstance? {r r' : Registry} (hd : r.Has (.type definition))
    (ha : ∀ a ∈ args, r.Has (.type a)) {inst : TypeId}
    (h : existingInstance? definition args r = .ok (some inst) r') :
    Settled (existingInstance? definition args) (some inst) r := by
  intro s hg _
  rw [existingInstance?_apply] at h ⊢
  simp only [hg.type hd, hg.instanceKeyOf hd ha] at h ⊢
  split at h
  · cases h
  · split at h
    · cases h
      rename_i hc he
      rw [if_neg hc, if_pos he]
      exact ⟨s, rfl, rfl⟩
    · rename_i hc he
      simp only [EStateM.Result.ok.injEq] at h
      rw [if_neg hc, if_neg he, hg.instances _ _ h.1]
      exact ⟨_, rfl, rfl⟩

/-- looking for an instance changes nothing but the notes on names in use -/
theorem existingInstance?_ok {r r' : Registry} (hw : r.WellFormed) (hd : r.Has (.type definition))
    {found : Option TypeId} (h : existingInstance? definition args r = .ok found r') :
    r'.forget = r.forget ∧ (∀ inst, found = some inst → r.Has (.type inst)) ∧
      (found = none → r.instances.get? (r.instanceKeyOf definition args) = none ∧
        (r.type definition).form.genericArgs ≠ args) := by
  rw [existingInstance?_apply] at h
  simp only at h
  split at h
  · cases h
  · split at h
    · cases h
      exact ⟨rfl, fun inst hi => by cases hi; exact hd, fun hn => by cases hn⟩
    · rename_i he
      simp only [EStateM.Result.ok.injEq] at h
      obtain ⟨rfl, rfl⟩ := h
      exact ⟨rfl, fun inst hi => hw.instance_ hi, fun hn => ⟨hn, he⟩⟩

theorem existingInstance?_error {r r' : Registry} {e : Error}
    (h : existingInstance? definition args r = .error e r') : r'.forget = r.forget := by
  rw [existingInstance?_apply] at h
  simp only at h
  split at h
  · cases h
    rfl
  · split at h <;> cases h

end

/-- makes an instance that does not exist yet -/
def makeInstance (definition : TypeId) (args : List TypeId) : Nat → Action TypeId
  | 0 => throw (.recursionLimit maxNesting)
  | levels + 1 => nested do
    let inst ← addInstance definition args
    populate (fun u => substituteWith (instantiateAt levels) ⟨args, []⟩ (u.index + 1) u)
      definition inst
    return inst

theorem instantiateAt_eq (levels : Nat) (t : TypeId) (args : List TypeId) :
    instantiateAt levels t args =
      (get >>= fun r => existingInstance? (r.definitionOf t) args >>= fun
        | some inst => pure inst
        | none => makeInstance (r.definitionOf t) args levels) := by
  cases levels <;> rfl

theorem definition_has {r : Registry} (hw : r.WellFormed) {t : TypeId} (ht : r.Has (.type t)) :
    r.Has (.type (r.definitionOf t)) := by
  simp only [definitionOf]
  cases hd : (r.type t).form.definition? with
  | none => exact ht
  | some d => exact hw.definition ht hd

theorem settled_instantiateAt {levels : Nat} {t inst : TypeId} {args : List TypeId}
    {r : Registry} (ht : r.Has (.type t))
    (h : Settled (existingInstance? (r.definitionOf t) args) (some inst) r) :
    Settled (instantiateAt levels t args) inst r := by
  intro s hg hw
  rw [instantiateAt_eq]
  obtain ⟨s', hs', hf⟩ := h s hg hw
  refine ⟨s', ?_, hf⟩
  rw [bind_apply]
  show (existingInstance? (s.definitionOf t) args >>= _) s = _
  rw [bind_apply, hg.definitionOf ht, hs']
  rfl

theorem Grows.of_nested {r s : Registry} (hg : Grows { r with nesting := r.nesting + 1 } s) :
    r.Grows { s with nesting := s.nesting - 1 } where
  types := hg.types
  methods := hg.methods
  fields := hg.fields
  modules := hg.modules
  byName := hg.byName
  byModule := hg.byModule
  instances := hg.instances
  methodInstances := hg.methodInstances
  nesting := by
    show s.nesting - 1 = r.nesting
    rw [hg.nesting]
    rfl

/-- the end of an instantiation, which is no longer under way then -/
theorem Stays.nested {r : Registry} {key : String} {inst : TypeId} {α : Type} {act : Action α}
    {Q : α → Registry → Prop}
    (h : Stays { r with nesting := r.nesting + 1 } key inst act { r with nesting := r.nesting + 1 }
      Q) :
    match Registry.nested act r with
    | .ok a r' => ∃ s', Making { r with nesting := r.nesting + 1 } key inst s' ∧ Q a s' ∧
        r' = { s' with nesting := s'.nesting - 1 }
    | .error _ r' => r.Grows r' ∧ r'.WellFormed := by
  simp only [Stays] at h
  simp only [Registry.nested]
  cases hact : act { r with nesting := r.nesting + 1 } with
  | ok a s' =>
    rw [hact] at h
    exact ⟨s', h.1, h.2, rfl⟩
  | error e s' =>
    rw [hact] at h
    exact ⟨h.1.of_nested, h.2.with_nesting _⟩

theorem making_addInstance {r : Registry} (hw : r.WellFormed) {definition : TypeId}
    (hd : r.Has (.type definition)) {args : List TypeId} (ha : ∀ a ∈ args, r.Has (.type a))
    (hk : r.instances.get? (r.instanceKeyOf definition args) = none) :
    Making r (r.instanceKeyOf definition args) ⟨r.types.size⟩
      ((addInstance definition args).run r).2 := by
  let d := r.type definition
  let decl : TypeDecl :=
    { module := d.module, token := d.token, namespaceName := d.namespaceName, name := d.name,
      flags := d.flags, form := .instantiated (d.form.kind?.getD .reference) definition args }
  let named : TypeDecl := { decl with id := r.nextId, fullName := r.render decl }
  have hitems : ∀ x ∈ named.items, r.Has x := by
    intro x hx
    simp only [TypeDecl.items, TypeForm.items, named, decl, Option.toList_none, List.append_nil,
      List.map_nil, List.flatMap_nil, List.mem_map, List.mem_cons] at hx
    obtain ⟨a, rfl | hmem, rfl⟩ := hx
    · exact hd
    · exact ha a hmem
  have hg₁ := Grows.push_type r named
  have hw₁ := hw.push_type hitems
  have hnew : (r.pushType named).Has (.type ⟨r.types.size⟩) := by
    show r.types.size < (r.types.push named).size
    simp
  have hg₂ := hg₁.trans (Grows.insert_instance ⟨r.types.size⟩ hk)
  exact ⟨hg₂, hw₁.insert_instance hnew _, Nat.lt_irrefl _, hnew, Table.get?_insert_self _ _ _, rfl⟩

theorem makeInstance_spec {levels : Nat} (hmake : ∀ n < levels, Makes (instantiateAt n))
    {r : Registry} (hw : r.WellFormed) {definition : TypeId} (hd : r.Has (.type definition))
    {args : List TypeId} (ha : ∀ a ∈ args, r.Has (.type a))
    (hk : r.instances.get? (r.instanceKeyOf definition args) = none) :
    match makeInstance definition args levels r with
    | .ok inst r' =>
      r.Grows r' ∧ r'.WellFormed ∧ FoundType r.methodInstances inst r' ∧
        r'.instances.get? (r.instanceKeyOf definition args) = some inst
    | .error _ r' => r.Grows r' ∧ r'.WellFormed := by
  cases levels with
  | zero => exact ⟨.refl r, hw⟩
  | succ levels =>
    let s : Registry := { r with nesting := r.nesting + 1 }
    have hI : Making s (r.instanceKeyOf definition args) ⟨r.types.size⟩
        ((addInstance definition args).run s).2 :=
      making_addInstance (r := s) (hw.with_nesting _) hd ha hk
    -- what the members are made with
    have hsub : ∀ u s', s.Grows s' → s'.WellFormed → s'.Has (.type u) →
        s'.methodInstances = s.methodInstances →
        Builds (substituteWith (instantiateAt levels) ⟨args, []⟩ (u.index + 1) u) s'
          (FoundType s.methodInstances) := by
      intro u s' hg hw' hu hm
      have hctx : s'.HasContext ⟨args, []⟩ := by
        intro t ht
        rw [List.append_nil] at ht
        exact hg.has (ha t ht)
      have hb := builds_substituteWith (hmake levels (Nat.lt_succ_self _)) (u.index + 1) hw' hctx hu
      rwa [hm] at hb
    have hstay : Stays s (r.instanceKeyOf definition args) ⟨r.types.size⟩ (do
        let inst ← addInstance definition args
        populate (fun u => substituteWith (instantiateAt levels) ⟨args, []⟩ (u.index + 1) u)
          definition inst
        return inst) s fun inst _ => inst = ⟨r.types.size⟩ := by
      refine Stays.step (lift_apply (addInstance definition args) s) ?_
      exact Stays.bind (stays_populate hsub hI hd (hw.with_nesting _)) fun _ s' hI' _ => ⟨hI', rfl⟩
    have hnested := hstay.nested
    rw [makeInstance]
    split
    · rename_i inst r' hr
      rw [hr] at hnested
      obtain ⟨s', hI', rfl, rfl⟩ := hnested
      exact ⟨hI'.grows.of_nested, hI'.wellFormed.with_nesting _, ⟨hI'.has, hI'.memo⟩, hI'.known⟩
    · rename_i e r' hr
      rw [hr] at hnested
      exact hnested

theorem existingInstance?_again {r r₁ r' : Registry} {definition inst : TypeId} {args : List TypeId}
    (hd : r.Has (.type definition)) (ha : ∀ a ∈ args, r.Has (.type a))
    (hfind : existingInstance? definition args r = .ok none r₁) (hg : r.Grows r')
    (hne : (r.type definition).form.genericArgs ≠ args)
    (hknown : r'.instances.get? (r.instanceKeyOf definition args) = some inst) :
    existingInstance? definition args r' = .ok (some inst) (r'.useNames (definition :: args)) := by
  rw [existingInstance?_apply] at hfind ⊢
  simp only [hg.type hd] at hfind ⊢
  split at hfind
  · cases hfind
  · rename_i hc
    rw [if_neg hc, if_neg hne, hg.instanceKeyOf hd ha, hknown]

theorem makes_instantiateAt (levels : Nat) : Makes (instantiateAt levels) := by
  induction levels using Nat.strongRecOn with
  | _ levels ih =>
    intro r t args hw ht ha
    have hd := definition_has hw ht
    have hrun : instantiateAt levels t args r =
        (existingInstance? (r.definitionOf t) args >>= fun
          | some inst => pure inst
          | none => makeInstance (r.definitionOf t) args levels) r := by
      rw [instantiateAt_eq]
      rfl
    refine .of_run ?_
    rw [hrun, bind_apply]
    cases hfind : existingInstance? (r.definitionOf t) args r with
    | error e r' =>
      have hf := existingInstance?_error hfind
      exact ⟨.of_forget hf.symm, hw.of_forget hf.symm⟩
    | ok found r₁ =>
      obtain ⟨hf, hsome, hnone⟩ := existingInstance?_ok hw hd hfind
      have hg₁ : r.Grows r₁ := .of_forget hf.symm
      have hw₁ := hw.of_forget hf.symm
      cases found with
      | some inst =>
        have hset := settled_existingInstance? hd ha hfind
        exact ⟨hg₁, hw₁, (settled_instantiateAt ht hset).mono hg₁, hg₁.has (hsome inst rfl),
          methodInstances_of_forget hf⟩
      | none =>
        obtain ⟨hk, hne⟩ := hnone rfl
        have hm₁ : r₁.methodInstances = r.methodInstances := methodInstances_of_forget hf
        have hk₁ : r₁.instances.get? (r₁.instanceKeyOf (r.definitionOf t) args) = none := by
          rw [hg₁.instanceKeyOf hd ha, instances_of_forget hf, hk]
        have hspec := makeInstance_spec ih hw₁ (hg₁.has hd) (fun a h => hg₁.has (ha a h)) hk₁
        dsimp only
        cases hmake : makeInstance (r.definitionOf t) args levels r₁ with
        | error e r' =>
          rw [hmake] at hspec
          exact ⟨hg₁.trans hspec.1, hspec.2⟩
        | ok inst r' =>
          rw [hmake] at hspec
          obtain ⟨hg, hw', hfound, hknown⟩ := hspec
          have hg' := hg₁.trans hg
          rw [hg₁.instanceKeyOf hd ha] at hknown
          refine ⟨hg', hw', settled_instantiateAt (hg'.has ht) ?_, by rwa [hm₁] at hfound⟩
          rw [hg'.definitionOf ht]
          exact settled_existingInstance? (hg'.has hd) (fun a h => hg'.has (ha a h))
            (existingInstance?_again hd ha hfind hg' hne hknown)

theorem makes_instantiate : Makes instantiate := by
  intro r t args hw ht ha
  exact .get (makes_instantiateAt _ hw ht ha) fun r' hg _ => by rw [hg.nesting]

theorem builds_substitute {r : Registry} (hw : r.WellFormed) {ctx : GenericContext}
    (hctx : r.HasContext ctx) {t : TypeId} (ht : r.Has (.type t)) :
    Builds (substitute ctx t) r (FoundType r.methodInstances) :=
  builds_substituteWith makes_instantiate _ hw hctx ht

theorem builds_substituteAll {r : Registry} (hw : r.WellFormed) {ctx : GenericContext}
    (hctx : r.HasContext ctx) {ts : List TypeId} (hts : ∀ t ∈ ts, r.Has (.type t)) :
    Builds (ts.mapM (substitute ctx)) r fun us r' => ∀ u ∈ us, r'.Has (.type u) := by
  have hb := Builds.mapM (f := substitute ctx) (l := ts) (R := fun u s => s.Has (.type u))
    (P := fun _ => True) (fun _ _ _ hg h => hg.has h) hw trivial fun t ht s hg hw' _ =>
      (builds_substitute hw' (hg.hasContext hctx) (hg.has (hts t ht))).weaken
        fun _ _ _ _ h => ⟨h.1, trivial⟩
  exact hb.weaken fun _ _ _ _ h => h.1

end Registry

end ProgramScan

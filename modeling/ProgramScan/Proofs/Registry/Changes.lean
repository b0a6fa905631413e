import ProgramScan.Proofs.Registry.Populated
import ProgramScan.Registry.Declare

/-!
# Operations that change a program

`Registry.Changes changed act r Q` says what the operation `act` does to the orderly program `r`: it
leads to an orderly later state, in which only types of `changed` have other members.  If it succeeds,
the instances it made are populated (`Registry.Step`), and its answer satisfies `Q`; if it fails, an
instance it made can be left without members (`Registry.After`).

There is a rule for each way to put operations together, and a lemma for each operation on single
records.
-/

namespace ProgramScan

namespace Registry

variable {α β : Type} {r : Registry}

/-! ## records that change -/

theorem getElem?_of_modify {a : Array α} {i j : Nat} {f : α → α} {c : α}
    (h : (a.modify i f)[j]? = some c) : ∃ d, a[j]? = some d ∧ (c = d ∨ c = f d) := by
  rw [Array.getElem?_modify] at h
  split at h
  · obtain ⟨d, hd, rfl⟩ := Option.map_eq_some_iff.mp h
    exact ⟨d, hd, .inr rfl⟩
  · exact ⟨c, h, .inl rfl⟩

theorem mem_of_modify {a : Array α} {i : Nat} {f : α → α} {c : α} (h : c ∈ (a.modify i f).toList) :
    ∃ d ∈ a.toList, c = d ∨ c = f d := by
  obtain ⟨j, hj⟩ := List.mem_iff_getElem?.mp h
  rw [Array.getElem?_toList] at hj
  obtain ⟨d, hd, hc⟩ := getElem?_of_modify hj
  exact ⟨d, List.mem_iff_getElem?.mpr ⟨j, by rw [Array.getElem?_toList, hd]⟩, hc⟩

namespace WellFormed

variable (hw : r.WellFormed)
include hw

theorem push_module {d : Module} (ht : d.tokens = ∅) (hd : d.types = []) :
    WellFormed { r with modules := r.modules.push d } := by
  refine ⟨hw.types, hw.methods, hw.fields, hw.origins, ?_, ?_, hw.byName, hw.byModule,
    hw.instances, hw.methodInstances⟩
  · intro c hc e he x hx
    simp only [Array.toList_push, List.mem_append, List.mem_singleton] at hc
    rcases hc with hc | rfl
    · exact hw.tokens c hc e he x hx
    · rw [ht] at he
      cases he
  · intro c hc t htc
    simp only [Array.toList_push, List.mem_append, List.mem_singleton] at hc
    rcases hc with hc | rfl
    · exact hw.homes c hc t htc
    · rw [hd] at htc
      cases htc

theorem modifyModule {m : ModuleId} {f : Module → Module}
    (ht : ∀ d, ∀ e ∈ (f d).tokens.entries, e ∈ d.tokens.entries ∨ ∀ x ∈ e.2.items, r.Has x)
    (hh : ∀ d, ∀ t ∈ (f d).types, t ∈ d.types ∨ r.Has (.type t)) :
    (r.modifyModule m f).WellFormed := by
  refine ⟨hw.types, hw.methods, hw.fields, hw.origins, ?_, ?_, hw.byName, hw.byModule,
    hw.instances, hw.methodInstances⟩
  · intro c hc e he x hx
    obtain ⟨d, hd, rfl | rfl⟩ := mem_of_modify hc
    · exact hw.tokens c hd e he x hx
    · rcases ht d e he with he | hnew
      · exact hw.tokens d hd e he x hx
      · exact hnew x hx
  · intro c hc t htc
    obtain ⟨d, hd, rfl | rfl⟩ := mem_of_modify hc
    · exact hw.homes c hd t htc
    · rcases hh d t htc with htd | hnew
      · exact hw.homes d hd t htd
      · exact hnew

/-- a method can get a body -/
theorem modifyMethod {m : MethodId} {f : Method → Method}
    (hf : ∀ d, ∀ x ∈ (f d).items, x ∈ d.items ∨ r.Has x) (ho : ∀ d, (f d).origin = d.origin) :
    (r.modifyMethod m f).WellFormed := by
  have hh : ∀ x, (r.modifyMethod m f).Has x ↔ r.Has x := fun x => by
    cases x <;> simp [Registry.Has, Registry.modifyMethod]
  refine ⟨fun c hc x hx => (hh x).mpr (hw.types c hc x hx), ?_,
    fun c hc x hx => (hh x).mpr (hw.fields c hc x hx), ?_,
    fun c hc e he x hx => (hh x).mpr (hw.tokens c hc e he x hx),
    fun c hc u hu => (hh _).mpr (hw.homes c hc u hu), fun e he => (hh _).mpr (hw.byName e he),
    fun e he => (hh _).mpr (hw.byModule e he), fun e he => (hh _).mpr (hw.instances e he),
    fun e he => (hh _).mpr (hw.methodInstances e he)⟩
  · intro c hc x hx
    rw [hh x]
    obtain ⟨d, hd, rfl | rfl⟩ := mem_of_modify hc
    · exact hw.methods c hd x hx
    · exact (hf d x hx).elim (hw.methods d hd x) id
  · rintro ⟨c, i⟩ he d hd
    rw [List.mk_mem_zipIdx_iff_getElem?, Array.getElem?_toList] at he
    obtain ⟨b, hb, hc⟩ := getElem?_of_modify he
    have horigin : c.origin = b.origin := by
      rcases hc with rfl | rfl
      · rfl
      · exact ho b
    refine hw.origins (b, i) ?_ d (horigin ▸ hd)
    rw [List.mk_mem_zipIdx_iff_getElem?, Array.getElem?_toList, hb]

end WellFormed

theorem WellFormed.indexType (hw : r.WellFormed) {t : TypeId} (ht : r.Has (.type t)) :
    (r.indexType t).WellFormed := by
  have hw' := hw.modifyModule (m := (r.type t).module)
    (f := fun m => { m with types := m.types ++ [t] }) (fun _ _ he => .inl he) fun d u hu => by
      rcases List.mem_append.mp hu with hu | hu
      · exact .inl hu
      · rw [List.mem_singleton.mp hu]
        exact .inr ht
  have hnew : ∀ {κ : Type} [DecidableEq κ] (table : Table κ TypeId) (key : κ),
      (∀ e ∈ table.entries, r.Has (.type e.2)) →
        ∀ e ∈ (table.insertNew key t).entries, r.Has (.type e.2) := by
    intro κ _ table key h e he
    unfold Table.insertNew at he
    split at he
    · exact h e he
    · rcases List.mem_cons.mp he with rfl | he
      · exact ht
      · exact h e (List.mem_filter.mp he).1
  exact ⟨hw'.types, hw'.methods, hw'.fields, hw'.origins, hw'.tokens, hw'.homes,
    hnew _ _ hw.byName, hnew _ _ hw.byModule, hw'.instances, hw'.methodInstances⟩

theorem WellFormed.refreshNames (hw : r.WellFormed) : r.refreshNames.WellFormed := by
  have hh : ∀ x, r.refreshNames.Has x ↔ r.Has x := fun x => by
    cases x <;> simp [Registry.Has, Registry.refreshNames]
  refine ⟨?_, fun c hc x hx => (hh x).mpr (hw.methods c hc x hx),
    fun c hc x hx => (hh x).mpr (hw.fields c hc x hx), hw.origins,
    fun c hc e he x hx => (hh x).mpr (hw.tokens c hc e he x hx),
    fun c hc u hu => (hh _).mpr (hw.homes c hc u hu), fun e he => (hh _).mpr (hw.byName e he),
    fun e he => (hh _).mpr (hw.byModule e he), fun e he => (hh _).mpr (hw.instances e he),
    fun e he => (hh _).mpr (hw.methodInstances e he)⟩
  intro c hc x hx
  rw [hh x]
  obtain ⟨i, hi⟩ := List.mem_iff_getElem?.mp hc
  simp only [Registry.refreshNames, Array.getElem?_toList, Array.getElem?_mapIdx] at hi
  obtain ⟨d, hd, rfl⟩ := Option.map_eq_some_iff.mp hi
  refine hw.types d (List.mem_iff_getElem?.mpr ⟨i, by rw [Array.getElem?_toList, hd]⟩) x ?_
  split at hx <;> exact hx

/-! ## records that stay -/

namespace Persists

theorem modifyType (r : Registry) (t : TypeId) {f : TypeDecl → TypeDecl}
    (hid : ∀ d, (f d).identity = d.identity) (hname : ∀ d, (f d).fullName = d.fullName) :
    r.Persists (r.modifyType t f) where
  has x hx := (WellFormed.has_modifyType r t f x).mpr hx
  identity u _ := by
    rcases type_modifyType r t f u with h | ⟨-, h⟩
    · rw [h]
    · rw [h, hid]
  modules := Nat.le_refl _
  moduleName _ _ := rfl
  used _ h := h
  fullName u _ _ := by
    rw [Registry.fullName, Registry.fullName]
    rcases type_modifyType r t f u with h | ⟨-, h⟩
    · rw [h]
    · rw [h, hname]
  field _ _ := rfl
  signature _ _ := rfl
  instances _ _ h := h

theorem modifyModule (r : Registry) (m : ModuleId) {f : Module → Module}
    (hname : ∀ d, (f d).name = d.name) : r.Persists (r.modifyModule m f) where
  has x hx := by cases x <;> exact hx
  identity _ _ := rfl
  modules := Nat.le_of_eq (by simp [Registry.modifyModule])
  moduleName n hn := by
    have hd : r.modules[n.index]? = some r.modules[n.index] := Array.getElem?_eq_getElem hn
    simp only [Registry.moduleName, Registry.module, Registry.modifyModule,
      Array.getD_eq_getD_getElem?, Array.getElem?_modify, hd, Option.map_some, Option.getD_some]
    split
    · exact hname _
    · rfl
  used _ h := h
  fullName _ _ _ := rfl
  field _ _ := rfl
  signature _ _ := rfl
  instances _ _ h := h

theorem push_module (r : Registry) (d : Module) :
    r.Persists { r with modules := r.modules.push d } where
  has x hx := by cases x <;> exact hx
  identity _ _ := rfl
  modules := by
    show r.modules.size ≤ (r.modules.push d).size
    simp
  moduleName m hm := by
    have hd : (r.modules.push d)[m.index]? = some r.modules[m.index] :=
      Array.getElem?_push_lt hm
    simp only [Registry.moduleName, Registry.module, Array.getD_eq_getD_getElem?, hd,
      Array.getElem?_eq_getElem hm, Option.getD_some]
  used _ h := h
  fullName _ _ _ := rfl
  field _ _ := rfl
  signature _ _ := rfl
  instances _ _ h := h

/-- a method can get a body -/
theorem modifyMethod (r : Registry) (m : MethodId) {f : Method → Method}
    (hf : ∀ d, (f d).signature = d.signature) : r.Persists (r.modifyMethod m f) where
  has x hx := by cases x <;> simpa [Registry.Has, Registry.modifyMethod] using hx
  identity _ _ := rfl
  modules := Nat.le_refl _
  moduleName _ _ := rfl
  used _ h := h
  fullName _ _ _ := rfl
  field _ _ := rfl
  signature n hn := by
    have hd : r.methods[n.index]? = some r.methods[n.index] := Array.getElem?_eq_getElem hn
    simp only [Registry.method, Registry.modifyMethod, Array.getD_eq_getD_getElem?,
      Array.getElem?_modify, hd, Option.map_some, Option.getD_some]
    split
    · exact hf _
    · rfl
  instances _ _ h := h

/-- the names of definitions follow, unless they are in use -/
theorem refreshNames (r : Registry) : r.Persists r.refreshNames where
  has x hx := by cases x <;> simpa [Registry.Has, Registry.refreshNames] using hx
  identity t ht := by
    have hd : r.types[t.index]? = some r.types[t.index] := Array.getElem?_eq_getElem ht
    simp only [Registry.type, Registry.refreshNames, Array.getD_eq_getD_getElem?,
      Array.getElem?_mapIdx, hd, Option.map_some, Option.getD_some]
    split <;> rfl
  modules := Nat.le_refl _
  moduleName _ _ := rfl
  used _ h := h
  fullName t ht hf := by
    rcases hf with hf | hf
    · exact fullName_refreshNames r hf
    · have hd : r.types[t.index]? = some r.types[t.index] := Array.getElem?_eq_getElem ht
      simp only [Registry.type, Array.getD_eq_getD_getElem?, hd, Option.getD_some] at hf
      simp only [Registry.fullName, Registry.type, Registry.refreshNames,
        Array.getD_eq_getD_getElem?, Array.getElem?_mapIdx, hd, Option.map_some, Option.getD_some,
        hf, Bool.false_and, Bool.false_eq_true, if_false]
  field _ _ := rfl
  signature _ _ := rfl
  instances _ _ h := h

/-- the indices of names do not count -/
theorem indexType (r : Registry) (t : TypeId) : r.Persists (r.indexType t) := by
  have h := modifyModule r (r.type t).module (f := fun m => { m with types := m.types ++ [t] })
    fun _ => rfl
  exact ⟨fun x hx => by cases x <;> exact hx, h.identity, h.modules, h.moduleName, h.used, h.fullName,
    h.field, h.signature, h.instances⟩

end Persists

/-- a change of one type that leaves its lists alone -/
theorem Listed.modifyType (h : r.Listed) (hw : r.WellFormed) (t : TypeId) {f : TypeDecl → TypeDecl}
    (hid : ∀ d, (f d).identity = d.identity) (hname : ∀ d, (f d).fullName = d.fullName)
    (hlists : ∀ d, (f d).fields = d.fields ∧ (f d).methods = d.methods) :
    (r.modifyType t f).Listed :=
  h.same hw (.modifyType r t hid hname) (by simp [Registry.modifyType]) rfl fun u =>
    ⟨of_modifyType r t (g := TypeDecl.fields) (fun d => (hlists d).1) u,
      of_modifyType r t (g := TypeDecl.methods) (fun d => (hlists d).2) u⟩

theorem members_refreshNames (r : Registry) (t : TypeId) :
    (r.refreshNames.type t).members = (r.type t).members := by
  simp only [Registry.type, Registry.refreshNames, Array.getD_eq_getD_getElem?,
    Array.getElem?_mapIdx]
  cases r.types[t.index]? with
  | none => rfl
  | some d =>
    simp only [Option.map_some, Option.getD_some]
    split <;> rfl

theorem members_modifyType (r : Registry) (t : TypeId) {f : TypeDecl → TypeDecl} {u : TypeId}
    (h : u ≠ t ∨ ∀ d, (f d).members = d.members) :
    ((r.modifyType t f).type u).members = (r.type u).members := by
  rcases type_modifyType r t f u with hu | ⟨rfl, hu⟩
  · rw [hu]
  · rw [hu]
    rcases h with h | h
    · exact absurd rfl h
    · exact h _

/-! ## rules -/

/-- Run in `r`, `act` leads to an orderly later state in which only types of `changed` have other
members.  If it succeeds, its answer satisfies `Q` and the new instances are populated. -/
structure Changes (changed : List TypeId) (act : Action α) (r : Registry)
    (Q : α → Registry → Prop) : Prop where
  ok : ∀ {a r'}, act r = .ok a r' → Step changed r r' ∧ Q a r'
  error : ∀ {e r'}, act r = .error e r' → After changed r r'

namespace Changes

variable {changed : List TypeId} {Q : α → Registry → Prop} {R : β → Registry → Prop}

/-- an operation that succeeds -/
theorem of_ok {act : Action α} {a : α} {r' : Registry} (hrun : act r = .ok a r')
    (hs : Step changed r r') (ha : Q a r') : Changes changed act r Q where
  ok hr := by
    rw [hrun] at hr
    cases hr
    exact ⟨hs, ha⟩
  error hr := by
    rw [hrun] at hr
    cases hr

/-- an operation that fails -/
theorem of_error {act : Action α} {e : Error} {r' : Registry} (hrun : act r = .error e r')
    (hs : After changed r r') : Changes changed act r Q where
  ok hr := by
    rw [hrun] at hr
    cases hr
  error hr := by
    rw [hrun] at hr
    cases hr
    exact hs

theorem pure (ho : r.Orderly) {a : α} (ha : Q a r) : Changes changed (Pure.pure a) r Q :=
  of_ok rfl (.refl ho) ha

theorem throw (ho : r.Orderly) (e : Error) :
    Changes changed (MonadExcept.throw e : Action α) r Q :=
  of_error rfl (.refl ho)

theorem bind {x : Action α} {k : α → Action β} (hx : Changes changed x r Q)
    (hk : ∀ a r', Step changed r r' → Q a r' → Changes changed (k a) r' R) :
    Changes changed (x >>= k) r R where
  ok {b r'} hr := by
    obtain ⟨a, r₁, hx', hk'⟩ := bind_eq_ok_iff.mp hr
    obtain ⟨hs, ha⟩ := hx.ok hx'
    obtain ⟨hs', hb⟩ := (hk a r₁ hs ha).ok hk'
    exact ⟨hs.trans hs', hb⟩
  error {e r'} hr := by
    rw [bind_apply] at hr
    cases hx' : x r with
    | error e₁ r₁ =>
      rw [hx'] at hr
      cases hr
      exact hx.error hx'
    | ok a r₁ =>
      rw [hx'] at hr
      obtain ⟨hs, ha⟩ := hx.ok hx'
      exact hs.toAfter.trans ((hk a r₁ hs ha).error hr)

/-- what follows `get` may depend on the state -/
theorem get {k : Registry → Action α} (hk : Changes changed (k r) r Q) :
    Changes changed (MonadState.get >>= k) r Q :=
  ⟨hk.ok, hk.error⟩

theorem weaken {act : Action α} {Q' : α → Registry → Prop} (h : Changes changed act r Q)
    (hq : ∀ a r', Step changed r r' → Q a r' → Q' a r') : Changes changed act r Q' where
  ok hr := by
    obtain ⟨hs, ha⟩ := h.ok hr
    exact ⟨hs, hq _ _ hs ha⟩
  error := h.error

/-- the answer of an operation is not looked at -/
theorem drop {act : Action α} (h : Changes changed act r Q) :
    Changes changed (do let _ ← act) r fun _ _ => True :=
  h.bind fun _ _ hs _ => .pure hs.orderly trivial

/-- an operation that changes no members, among others that do -/
theorem frame {act : Action α} (h : Changes [] act r Q) :
    Changes changed act r fun a r' => Step [] r r' ∧ Q a r' where
  ok hr := by
    obtain ⟨hs, ha⟩ := h.ok hr
    exact ⟨hs.mono (List.nil_subset _), hs, ha⟩
  error hr := (h.error hr).mono (List.nil_subset _)

/-- Operations one after the other; `P` holds of those that are done. -/
theorem forM {f : α → Action Unit} {P : List α → Registry → Prop} {l : List α} (ho : r.Orderly)
    (hP : P [] r)
    (hf : ∀ done a rest, l = done ++ a :: rest → a ∈ l → ∀ r', Step changed r r' → P done r' →
      Changes changed (f a) r' fun _ r'' => P (done ++ [a]) r'') :
    Changes changed (l.forM f) r fun _ r' => P l r' := by
  -- by induction on what is left to do
  have hrest : ∀ rest done, l = done ++ rest → ∀ r', Step changed r r' → P done r' →
      Changes changed (rest.forM f) r' fun _ r'' => P l r'' := by
    intro rest
    induction rest with
    | nil =>
      intro done hl r' hs' hdone
      rw [List.append_nil] at hl
      exact pure hs'.orderly (hl ▸ hdone)
    | cons a rest ih =>
      intro done hl r' hs' hdone
      have ha : a ∈ l := by
        rw [hl]
        exact List.mem_append_right _ List.mem_cons_self
      show Changes changed (f a >>= fun _ => rest.forM f) r' _
      refine bind (hf done a rest hl ha r' hs' hdone) fun _ r'' hs'' hdone' => ?_
      exact ih (done ++ [a]) (by rw [hl, List.append_assoc]; rfl) r'' (hs'.trans hs'') hdone'
  exact hrest l [] rfl r (.refl ho) hP

/-- an operation on what there is -/
theorem optionForM {f : α → Action Unit} {P : Option α → Registry → Prop} {o : Option α}
    (ho : r.Orderly) (hP : P none r)
    (hf : ∀ a, o = some a → Changes changed (f a) r fun _ r' => P (some a) r') :
    Changes changed (o.forM f) r fun _ r' => P o r' := by
  cases o with
  | none => exact pure ho hP
  | some a => exact hf a rfl

theorem modifyType (ho : r.Orderly) {t : TypeId} {f : TypeDecl → TypeDecl} {a : α}
    {act : StateM Registry α} (hact : act.run r = (a, r.modifyType t f))
    (ha : Q a (r.modifyType t f)) (hf : ∀ d, ∀ x ∈ (f d).items, x ∈ d.items ∨ r.Has x)
    (hid : ∀ d, (f d).identity = d.identity) (hname : ∀ d, (f d).fullName = d.fullName)
    (hl : r.Listed → (r.modifyType t f).Listed)
    (hm : t ∈ changed ∨ ∀ d, (f d).members = d.members) : Changes changed (liftM act) r Q := by
  have hw : (r.modifyType t f).WellFormed := ho.wellFormed.modifyType fun ht x hx =>
    (hf (r.type t) x hx).elim (ho.wellFormed.of_type ht) id
  refine of_ok (by rw [lift_apply, hact]) ?_ ha
  refine .of_persists ho (.modifyType r t hid hname) hw (by simp [Registry.modifyType]) rfl hl ?_
  intro u _ hu
  refine members_modifyType r t ?_
  rcases hm with hm | hm
  · left
    rintro rfl
    exact hu hm
  · exact .inr hm

/-- something is set unless it was set before -/
theorem once (ho : r.Orderly) {isSet : Prop} [Decidable isSet] {s : Registry}
    {act : StateM Registry Bool} (hact : act.run r = if isSet then (false, r) else (true, s))
    (hs : Step changed r s) : Changes changed (liftM act) r fun _ _ => True := by
  by_cases h : isSet
  · rw [if_pos h] at hact
    exact of_ok (by rw [lift_apply, hact]) (.refl ho) trivial
  · rw [if_neg h] at hact
    exact of_ok (by rw [lift_apply, hact]) hs trivial

/-- one module changes, in its count of rows, the types it lists or the tokens that are bound -/
theorem modifyModule (ho : r.Orderly) {m : ModuleId} {f : Module → Module} {a : α}
    {act : StateM Registry α} (hact : act.run r = (a, r.modifyModule m f))
    (ha : Q a (r.modifyModule m f))
    (ht : ∀ d, ∀ e ∈ (f d).tokens.entries, e ∈ d.tokens.entries ∨ ∀ x ∈ e.2.items, r.Has x)
    (hh : ∀ d, (f d).types = d.types) (hname : ∀ d, (f d).name = d.name) :
    Changes changed (liftM act) r Q := by
  refine of_ok (by rw [lift_apply, hact]) ?_ ha
  exact .of_same ho (.modifyModule r m hname)
    (ho.wellFormed.modifyModule ht fun d t htd => .inl (hh d ▸ htd)) rfl rfl rfl
    (fun _ => ⟨rfl, rfl⟩) fun _ _ _ => rfl

end Changes

/-! ## operations on single records -/

section
variable {changed : List TypeId} (ho : r.Orderly)
include ho

theorem changes_useNames (ts : List TypeId) :
    Changes changed (modify (·.useNames ts)) r fun _ r' => r' = r.useNames ts :=
  .of_ok rfl (.useNames ho ts) rfl

theorem changes_addModule (name : String) :
    Changes changed (liftM (addModule name)) r fun _ _ => True := by
  cases hf : r.findModule? name with
  | some m =>
    have hrun : (addModule name).run r = (m, r) := by
      simp only [addModule, StateT.run_bind, StateT.run_get, pure_bind, hf]
      rfl
    exact .of_ok (by rw [lift_apply, hrun]) (.refl ho) trivial
  | none =>
    have hrun : (addModule name).run r =
        (⟨r.modules.size⟩, { r with modules := r.modules.push { name } }) := by
      simp only [addModule, StateT.run_bind, StateT.run_get, pure_bind, hf]
      rfl
    refine .of_ok (by rw [lift_apply, hrun]) ?_ trivial
    exact .of_same ho (.push_module r _) (ho.wellFormed.push_module rfl rfl) rfl rfl rfl
      (fun _ => ⟨rfl, rfl⟩) fun _ _ _ => rfl

/-- a definition or a parameter can be added -/
theorem step_push_type {d : TypeDecl} (hitems : ∀ x ∈ d.items, r.Has x)
    (hhome : d.module.index < r.modules.size) (hmade : d.form.isMade = false)
    (hused : d.form.isDefinition = false → ∀ u, .type u ∈ d.form.items → u ∈ r.usedNames)
    (hnone : d.fields = [] ∧ d.methods = []) :
    Step changed r (r.pushType (r.entitle d)) := by
  let named : TypeDecl := r.entitle d
  have hg : r.Grows (r.pushType named) := .push_type r named
  have hp : r.Persists (r.pushType named) := .of_grows hg fun _ h => h
  have hnew : ∀ t, ¬ r.Has (.type t) →
      ((r.pushType named).type t).form.isMade = false := by
    intro t hn
    rcases type_push_of_not_has r named hn with ht | ht
    · rw [ht]
      exact hmade
    · rw [ht]
      rfl
  have hinst : ∀ t, ¬ r.Has (.type t) → ∀ kind definition args,
      ((r.pushType named).type t).form ≠ .instantiated kind definition args := by
    intro t hn kind definition args hf
    have hno := hnew t hn
    rw [hf] at hno
    cases hno
  refine ⟨⟨hp, ?_, fun hl => ?_, fun hr => ?_, fun t ht _ => by rw [hg.type ht]⟩, ?_⟩
  · refine ho.push_type hitems hhome hused ?_
    intro c hc
    cases hf : d.form <;> simp [hf, TypeForm.definition?, TypeForm.isMade] at hc hmade
  · exact hl.push_type ho.wellFormed hnone.1 hnone.2 hp
      fun t ht kind definition args hf => absurd hf (hinst t ht kind definition args)
  · refine hr.later ho.wellFormed hp fun t hn _ hm => ?_
    rw [hnew t hn] at hm
    cases hm
  · intro t hn _ kind definition args hf
    exact absurd hf (hinst t hn kind definition args)

def withMade (r : Registry) (d : TypeDecl) (key : String) : Registry :=
  { r.pushType (r.entitle d) with instances := r.instances.insert key ⟨r.types.size⟩ }

omit ho in
theorem has_withMade (r : Registry) (d : TypeDecl) (key : String) :
    (r.withMade d key).Has (.type ⟨r.types.size⟩) := by
  show r.types.size < (r.types.push _).size
  simp

omit ho in
theorem eq_of_has_withMade {d : TypeDecl} {key : String} {t : TypeId} (hn : ¬ r.Has (.type t))
    (ht : (r.withMade d key).Has (.type t)) : t = ⟨r.types.size⟩ := by
  have hlt : t.index < (r.types.push (r.entitle d)).size := ht
  have hnot : ¬ t.index < r.types.size := hn
  rw [Array.size_push] at hlt
  cases t
  simp only [TypeId.mk.injEq]
  simp only at hlt hnot
  omega

omit ho in
theorem type_withMade (r : Registry) (d : TypeDecl) (key : String) :
    (r.withMade d key).type ⟨r.types.size⟩ = r.entitle d :=
  type_push r _

/-- A type can be made over parts whose names are in use, and remembered under its key, which is new.
An instance has an argument for each parameter, and not just the parameters. -/
theorem after_withMade {d : TypeDecl} {key : String} (hitems : ∀ x ∈ d.items, r.Has x)
    (hhome : d.module.index < r.modules.size)
    (hused : ∀ u, .type u ∈ d.form.items → u ∈ r.usedNames)
    (hdef : ∀ c, d.form.definition? = some c → r.Defines c d)
    (hnone : d.fields = [] ∧ d.methods = [])
    (hargs : ∀ kind c args, d.form = .instantiated kind c args →
      (r.type c).form.genericArgs.length = args.length ∧ (r.type c).form.genericArgs ≠ args)
    (hk : r.instances.get? key = none)
    (hmemo : ∀ s : Registry, r.Persists s → s.type ⟨r.types.size⟩ = r.entitle d →
      s.memoKey? ⟨r.types.size⟩ = some key) :
    After changed r (r.withMade d key) := by
  let named : TypeDecl := r.entitle d
  let s : Registry := r.pushType named
  have hg : r.Grows s := .push_type r named
  have hps : r.Persists s := .of_grows hg fun _ h => h
  have hos : s.Orderly := ho.push_type hitems hhome (fun _ => hused) hdef
  have hp' : s.Persists (r.withMade d key) := .of_grows (.insert_instance _ hk) fun _ h => h
  refine ⟨hps.trans hp', hos.remember (has_withMade r d key) (hmemo s hps (type_push r _)) hk,
    fun hl => ?_, fun hr => ?_, fun t ht _ => ?_⟩
  · refine (hl.push_type (d := named) ho.wellFormed hnone.1 hnone.2 hps ?_).same hos.wellFormed hp'
      rfl rfl fun _ => ⟨rfl, rfl⟩
    intro t hn kind c args hf
    rcases type_push_of_not_has r named hn with ht | ht
    · rw [ht] at hf
      have hf' : d.form = .instantiated kind c args := hf
      have hc : r.Has (.type c) := hitems _ (by simp [TypeDecl.items, hf', TypeForm.items])
      show (s.type c).form.genericArgs.length = args.length
      rw [hg.type hc, (hargs kind c args hf').1]
    · rw [ht] at hf
      cases hf
  · refine hr.later ho.wellFormed (hps.trans hp') fun t hn ht _ => ?_
    rw [eq_of_has_withMade hn ht]
    refine ⟨⟨key, Table.get?_insert_self _ _ _⟩, fun kind c args hf => ?_⟩
    rw [type_withMade] at hf
    have hf' : d.form = .instantiated kind c args := hf
    have hc : r.Has (.type c) := hitems _ (by simp [TypeDecl.items, hf', TypeForm.items])
    show (s.type c).form.genericArgs ≠ args
    rw [hg.type hc]
    exact (hargs kind c args hf').2
  · show (s.type t).members = _
    rw [hg.type ht]

theorem changes_addType {d : TypeDecl} (hitems : ∀ x ∈ d.items, r.Has x)
    (hhome : d.module.index < r.modules.size) (hdef : d.form.isDefinition ∨ d.form.isParameter)
    (hnone : d.fields = [] ∧ d.methods = []) :
    Changes changed (liftM (addType d)) r fun t s => s.Has (.type t) := by
  refine .of_ok (lift_apply _ r) (step_push_type ho hitems hhome ?_ ?_ hnone) ?_
  · cases hf : d.form <;> simp_all [TypeForm.isDefinition, TypeForm.isParameter, TypeForm.isMade]
  · intro hnd u hu
    cases hf : d.form <;> simp_all [TypeForm.isDefinition, TypeForm.isParameter, TypeForm.items]
  · show r.types.size < (r.types.push _).size
    simp

theorem changes_defineType {d : TypeDecl} (hitems : ∀ x ∈ d.items, r.Has x)
    (hhome : d.module.index < r.modules.size) (hdef : d.form.isDefinition)
    (hnone : d.fields = [] ∧ d.methods = []) :
    Changes changed (liftM (defineType d)) r fun t s => s.Has (.type t) := by
  rw [defineType, lift_bind]
  refine Changes.bind (changes_addType ho hitems hhome (.inl hdef) hnone) fun t r' hs ht => ?_
  refine .of_ok rfl ?_ ht
  exact .of_same hs.orderly (.indexType r' t) (hs.orderly.wellFormed.indexType ht) rfl rfl rfl
    (fun _ => ⟨rfl, rfl⟩) fun _ _ _ => rfl

theorem changes_reserveToken (module : ModuleId) (table : UInt8) :
    Changes changed (liftM (reserveToken module table)) r fun _ _ => True :=
  .modifyModule ho rfl trivial (fun _ _ he => .inl he) (fun _ => rfl) fun _ => rfl

theorem changes_bindToken (module : ModuleId) (token : Token) {target : TokenTarget}
    (ht : ∀ x ∈ target.items, r.Has x) :
    Changes changed (liftM (bindToken module token target)) r fun _ _ => True := by
  refine .modifyModule ho rfl trivial (fun d e he => ?_) (fun _ => rfl) fun _ => rfl
  rcases List.mem_cons.mp he with rfl | he
  · exact .inr ht
  · exact .inl (List.mem_filter.mp he).1

theorem changes_addField {d : Field} (hd : ∀ x ∈ d.items, r.Has x) :
    Changes changed (liftM (addField d)) r fun f s => s.Has (.field f) ∧ s.field f = d := by
  have hg : r.Grows { r with fields := r.fields.push d } := .push_field r d
  refine .of_ok (lift_apply _ r) ?_ ⟨?_, ?_⟩
  · exact .of_same ho (.of_grows hg fun _ h => h) (ho.wellFormed.push_field hd) rfl rfl rfl
      (fun _ => ⟨rfl, rfl⟩) fun _ _ _ => rfl
  · show r.fields.size < (r.fields.push _).size
    simp
  · show Registry.field { r with fields := r.fields.push d } ⟨r.fields.size⟩ = d
    simp [Registry.field]

theorem changes_addMethod {d : Method} (hd : ∀ x ∈ d.items, r.Has x)
    (hfree : r.Listed → d.declaring = none ∧ d.origin = .declared ∨
      ∃ c, d.origin = .instanceOf c ∧ r.Has (.method c) ∧ (r.method c).genericDefinition? = none) :
    Changes changed (liftM (addMethod d)) r fun m s => s.Has (.method m) ∧ s.method m = d := by
  have hg : r.Grows { r with methods := r.methods.push d } := .push_method r d
  have hp : r.Persists { r with methods := r.methods.push d } := .of_grows hg fun _ h => h
  refine .of_ok (lift_apply _ r) ?_ ⟨?_, ?_⟩
  · exact .of_persists ho hp (ho.wellFormed.push_method hd) rfl rfl
      (fun hl => hl.push_method ho.wellFormed hp (hfree hl)) fun _ _ _ => rfl
  · show r.methods.size < (r.methods.push _).size
    simp
  · exact method_push_next r d

theorem step_enlist {t : TypeId} (hc : t ∈ changed) (ht : r.Has (.type t)) {d : Method}
    (hitems : ∀ x ∈ d.items, r.Has x) (hd : d.declaring = some t)
    (hg : d.genericDefinition? = none)
    (hmember : r.Listed → ∀ c, d.origin = .memberOf c →
      (r.enlist t d).MemberOf t c r.nextMethod ∧
      ∀ y, (r.method y).origin = .memberOf c → (r.method y).declaring ≠ some t) :
    Step changed r (r.enlist t d) := by
  let s : Registry := { r with methods := r.methods.push d }
  have hgrows : r.Grows s := .push_method r d
  have hp : r.Persists (r.enlist t d) :=
    (Persists.of_grows hgrows fun _ h => h).trans (.modifyType s t (fun _ => rfl) fun _ => rfl)
  have hw : s.WellFormed := ho.wellFormed.push_method hitems
  refine .of_persists ho hp ?_ (by simp [Registry.enlist, Registry.modifyType]) rfl
    (fun hl => hl.enlist ho.wellFormed ht hd hg hp (hmember hl)) fun u _ hu => ?_
  · refine hw.modifyType fun hts x hx => ?_
    have hold := fun y hy => hw.of_type hts (x := y) hy
    have hnew : s.Has (.method ⟨r.methods.size⟩) := by
      show r.methods.size < (r.methods.push d).size
      simp
    simp only [TypeDecl.items, List.map_append, List.mem_append, List.map_cons, List.map_nil,
      List.mem_singleton] at hx hold
    rcases hx with (hx | hx | rfl) | hx
    · exact hold x (.inl (.inl hx))
    · exact hold x (.inl (.inr hx))
    · exact hnew
    · exact hold x (.inr hx)
  · refine members_modifyType s t (.inl ?_)
    rintro rfl
    exact hu hc

theorem changes_attachField {t : TypeId} (hc : t ∈ changed) {f : FieldId}
    (hf : r.Has (.field f)) (hdecl : (r.field f).declaring = t) :
    Changes changed (liftM (attachField t f)) r fun _ s =>
      s = r.modifyType t fun d => { d with fields := d.fields ++ [f] } := by
  refine .modifyType ho rfl rfl (fun d x hx => ?_) (fun _ => rfl) (fun _ => rfl)
    (fun hl => hl.list_field ho.wellFormed hdecl (.modifyType r t (fun _ => rfl) fun _ => rfl))
    (.inl hc)
  simp only [TypeDecl.items, List.map_append, List.mem_append] at hx ⊢
  grind

theorem changes_addInterface {t iface : TypeId} (hc : t ∈ changed) (hi : r.Has (.type iface)) :
    Changes changed (liftM (addInterface t iface)) r fun _ s =>
      s = r.modifyType t fun d => { d with interfaces := d.interfaces ++ [iface] } := by
  refine .modifyType ho rfl rfl (fun d x hx => ?_) (fun _ => rfl) (fun _ => rfl)
    (fun hl => hl.modifyType ho.wellFormed t (fun _ => rfl) (fun _ => rfl) fun _ => ⟨rfl, rfl⟩)
    (.inl hc)
  simp only [TypeDecl.items, List.map_append, List.mem_append] at hx ⊢
  grind

theorem changes_annotate (t : TypeId) {mark : Annotation} (hm : ∀ x ∈ mark.items, r.Has x) :
    Changes changed (liftM (annotate t mark)) r fun _ _ => True := by
  refine .modifyType ho rfl trivial (fun d x hx => ?_) (fun _ => rfl) (fun _ => rfl)
    (fun hl => hl.modifyType ho.wellFormed t (fun _ => rfl) (fun _ => rfl) fun _ => ⟨rfl, rfl⟩)
    (.inr fun _ => rfl)
  simp only [TypeDecl.items, List.flatMap_append, List.mem_append] at hx ⊢
  grind

theorem changes_setPacking (t : TypeId) (packing : UInt16) :
    Changes changed (liftM (setPacking t packing)) r fun _ _ => True :=
  .modifyType ho rfl trivial (fun _ _ hx => .inl hx) (fun _ => rfl) (fun _ => rfl)
    (fun hl => hl.modifyType ho.wellFormed t (fun _ => rfl) (fun _ => rfl) fun _ => ⟨rfl, rfl⟩)
    (.inr fun _ => rfl)

theorem changes_setClassSize (t : TypeId) (size : UInt32) :
    Changes changed (liftM (setClassSize t size)) r fun _ _ => True :=
  .modifyType ho rfl trivial (fun _ _ hx => .inl hx) (fun _ => rfl) (fun _ => rfl)
    (fun hl => hl.modifyType ho.wellFormed t (fun _ => rfl) (fun _ => rfl) fun _ => ⟨rfl, rfl⟩)
    (.inr fun _ => rfl)

theorem step_setBase {t base : TypeId} (hc : t ∈ changed) (hb : r.Has (.type base)) :
    Step changed r (r.modifyType t fun d => { d with base := some base }) := by
  refine .of_persists ho (.modifyType r t (fun _ => rfl) fun _ => rfl) ?_
    (by simp [Registry.modifyType]) rfl
    (fun hl => hl.modifyType ho.wellFormed t (fun _ => rfl) (fun _ => rfl) fun _ => ⟨rfl, rfl⟩) ?_
  · refine ho.wellFormed.modifyType fun ht x hx => ?_
    have hold := fun y hy => ho.wellFormed.of_type ht (x := y) hy
    simp only [TypeDecl.items, List.map_append, List.mem_append] at hx hold
    grind
  · intro u _ hu
    refine members_modifyType r t (.inl ?_)
    rintro rfl
    exact hu hc

theorem changes_setBase {t base : TypeId} (hc : t ∈ changed) (hb : r.Has (.type base)) :
    Changes changed (liftM (setBase t base)) r fun _ _ => True :=
  .once ho rfl (step_setBase ho hc hb)

theorem step_nestIn (t : TypeId) {outer : TypeId} (hb : r.Has (.type outer)) :
    Step changed r (r.nestIn t outer) := by
  refine .of_persists ho (.modifyType r t (fun _ => rfl) fun _ => rfl) ?_
    (by simp [nestIn, Registry.modifyType]) rfl
    (fun hl => hl.modifyType ho.wellFormed t (fun _ => rfl) (fun _ => rfl) fun _ => ⟨rfl, rfl⟩) ?_
  · refine ho.wellFormed.modifyType fun ht x hx => ?_
    have hold := fun y hy => ho.wellFormed.of_type ht (x := y) hy
    simp only [TypeDecl.items, List.map_append, List.mem_append] at hx hold
    grind
  · intro u _ _
    exact members_modifyType r t (.inr fun _ => rfl)

theorem changes_setEnclosing (t : TypeId) {outer : TypeId} (hb : r.Has (.type outer)) :
    Changes changed (liftM (setEnclosing t outer)) r fun _ _ => True := by
  have hs : Step changed r (r.nestIn t outer) := step_nestIn ho t hb
  refine .once ho rfl (hs.trans ?_)
  have hmembers := members_refreshNames (r.nestIn t outer)
  exact .of_same hs.orderly (.refreshNames _) hs.orderly.wellFormed.refreshNames
    (by simp [Registry.refreshNames]) rfl rfl
    (fun u => ⟨congrArg (·.2.2.1) (hmembers u), congrArg (·.2.2.2) (hmembers u)⟩)
    fun u _ _ => hmembers u

theorem changes_setBody (m : MethodId) {body : Body} (hb : ∀ t ∈ body.locals, r.Has (.type t)) :
    Changes changed (liftM (setBody m body)) r fun _ _ => True := by
  refine .once ho rfl ?_
  refine .of_same ho (.modifyMethod r m fun _ => rfl) ?_ rfl rfl (by simp [Registry.modifyMethod])
    (fun _ => ⟨rfl, rfl⟩) fun _ _ _ => rfl
  refine ho.wellFormed.modifyMethod (fun d x hx => ?_) fun _ => rfl
  simp only [Method.items, Method.paramTypes, List.map_append, List.mem_append,
    Option.toList_some, List.flatMap_singleton, List.mem_map] at hx ⊢
  grind

end

end Registry

end ProgramScan

import ProgramScan.Registry.Resolve

/-!
# Programs that grow

Looking into a program makes constructed types, instances and their members, and changes nothing that
is there.  This file says what that means:

* `Registry.Has`          an item is an element of the program;
* `Registry.WellFormed`   every item that a record mentions is an element, and methods come after
                          the methods they were made from;
* `Registry.Grows`        a later state of a program: elements, names and remembered instances stay;
* `Registry.forget`       a program without its notes on names in use, which nothing reads here.

Ids are places, so an id that occurs in a program denotes one of its elements.  `WellFormed` says so
for all of them at once, and `WellFormed.base`, `WellFormed.param` and so on read it off one record.
-/

namespace ProgramScan

/-! ## the items that records mention -/

def TypeForm.items : TypeForm → List Item
  | .defined _ params => params.map .type
  | .instantiated _ definition args => (definition :: args).map .type
  | .parameter _ _ => []
  | .constructed _ element => [.type element]

def Annotation.items : Annotation → List Item
  | .plug mark => mark.target.toList.map .type
  | .plugField replacement => replacement.type.toList.map .type
  | _ => []

def TypeDecl.items (d : TypeDecl) : List Item :=
  d.form.items ++ (d.base.toList ++ d.enclosing.toList ++ d.interfaces).map .type ++
    d.fields.map .field ++ d.methods.map .method ++ d.annotations.flatMap Annotation.items

def MethodOrigin.source? : MethodOrigin → Option MethodId
  | .declared => none
  | .instanceOf definition => some definition
  | .memberOf definition => some definition

def Method.items (d : Method) : List Item :=
  (d.declaring.toList ++ d.returnType :: d.paramTypes ++ d.genericArgs ++
      d.body.toList.flatMap (·.locals)).map .type ++
    d.origin.source?.toList.map .method

/-- what holds of the types of a method without a body, and of the method that it was made from,
holds of all it mentions -/
theorem Method.forall_items {d : Method} {P : Item → Prop} (hbody : d.body = none)
    (hdeclaring : ∀ t, d.declaring = some t → P (.type t)) (hreturn : P (.type d.returnType))
    (hparams : ∀ p ∈ d.params, P (.type p.type)) (hargs : ∀ a ∈ d.genericArgs, P (.type a))
    (hsource : ∀ m, d.origin.source? = some m → P (.method m)) : ∀ x ∈ d.items, P x := by
  intro x hx
  simp only [Method.items, Method.paramTypes, hbody, Option.toList_none, List.flatMap_nil,
    List.append_nil, List.map_append, List.map_cons, List.map_map, List.mem_append, List.mem_cons,
    List.mem_map, Option.mem_toList] at hx
  rcases hx with ((⟨t, ht, rfl⟩ | rfl | ⟨p, hp, rfl⟩) | ⟨a, ha, rfl⟩) | ⟨m, hm, rfl⟩
  · exact hdeclaring t ht
  · exact hreturn
  · exact hparams p hp
  · exact hargs a ha
  · exact hsource m hm

def Field.items (d : Field) : List Item := [.type d.declaring, .type d.type]

def TokenTarget.items : TokenTarget → List Item
  | .type t => t.toList.map .type
  | .method m => m.toList.map .method
  | .field f => f.toList.map .field
  | .string _ => []
  | .signature site => site.returnType.toList.map .type

def Resolved.items (found : Resolved) : List Item := found.target.items

namespace Registry

def Has (r : Registry) : Item → Prop
  | .type t => t.index < r.types.size
  | .method m => m.index < r.methods.size
  | .field f => f.index < r.fields.size

instance (r : Registry) (x : Item) : Decidable (r.Has x) := by
  cases x <;> exact inferInstanceAs (Decidable (_ < _))

/-- Every item that occurs in the program is an element of it. -/
structure WellFormed (r : Registry) : Prop where
  types : ∀ d ∈ r.types.toList, ∀ x ∈ d.items, r.Has x
  methods : ∀ d ∈ r.methods.toList, ∀ x ∈ d.items, r.Has x
  fields : ∀ d ∈ r.fields.toList, ∀ x ∈ d.items, r.Has x
  /-- a method comes after the method it was made from -/
  origins : ∀ e ∈ r.methods.toList.zipIdx, ∀ m ∈ e.1.origin.source?.toList, m.index < e.2
  tokens : ∀ d ∈ r.modules.toList, ∀ e ∈ d.tokens.entries, ∀ x ∈ e.2.items, r.Has x
  homes : ∀ d ∈ r.modules.toList, ∀ t ∈ d.types, r.Has (.type t)
  byName : ∀ e ∈ r.byName.entries, r.Has (.type e.2)
  byModule : ∀ e ∈ r.byModule.entries, r.Has (.type e.2)
  instances : ∀ e ∈ r.instances.entries, r.Has (.type e.2)
  methodInstances : ∀ e ∈ r.methodInstances.entries, r.Has (.method e.2)

instance (r : Registry) : Decidable r.WellFormed :=
  decidable_of_iff
    ((∀ d ∈ r.types.toList, ∀ x ∈ d.items, r.Has x) ∧
      (∀ d ∈ r.methods.toList, ∀ x ∈ d.items, r.Has x) ∧
      (∀ d ∈ r.fields.toList, ∀ x ∈ d.items, r.Has x) ∧
      (∀ e ∈ r.methods.toList.zipIdx, ∀ m ∈ e.1.origin.source?.toList, m.index < e.2) ∧
      (∀ d ∈ r.modules.toList, ∀ e ∈ d.tokens.entries, ∀ x ∈ e.2.items, r.Has x) ∧
      (∀ d ∈ r.modules.toList, ∀ t ∈ d.types, r.Has (.type t)) ∧
      (∀ e ∈ r.byName.entries, r.Has (.type e.2)) ∧
      (∀ e ∈ r.byModule.entries, r.Has (.type e.2)) ∧
      (∀ e ∈ r.instances.entries, r.Has (.type e.2)) ∧
      (∀ e ∈ r.methodInstances.entries, r.Has (.method e.2)))
    ⟨fun ⟨a, b, c, d, e, f, g, h, i, j⟩ => ⟨a, b, c, d, e, f, g, h, i, j⟩,
      fun h => ⟨h.types, h.methods, h.fields, h.origins, h.tokens, h.homes, h.byName, h.byModule,
        h.instances, h.methodInstances⟩⟩

/-- `r'` is a later state of the program `r`. -/
structure Grows (r r' : Registry) : Prop where
  types : ∀ (i : Nat) d, r.types[i]? = some d → r'.types[i]? = some d
  methods : ∀ (i : Nat) d, r.methods[i]? = some d → r'.methods[i]? = some d
  fields : ∀ (i : Nat) d, r.fields[i]? = some d → r'.fields[i]? = some d
  modules : r'.modules = r.modules
  byName : r'.byName = r.byName
  byModule : r'.byModule = r.byModule
  instances : ∀ key t, r.instances.get? key = some t → r'.instances.get? key = some t
  methodInstances :
    ∀ key m, r.methodInstances.get? key = some m → r'.methodInstances.get? key = some m
  nesting : r'.nesting = r.nesting

/-- the program without its notes on names in use -/
def forget (r : Registry) : Registry := { r with usedNames := [] }

@[simp] theorem forget_useNames (r : Registry) (ts : List TypeId) :
    (r.useNames ts).forget = r.forget := rfl

theorem useNames_useNames (r : Registry) (ts us : List TypeId) :
    (r.useNames ts).useNames us = r.useNames (ts ++ us) := by
  simp only [Registry.useNames, List.foldl_append]

theorem instances_of_forget {r r' : Registry} (h : r.forget = r'.forget) :
    r.instances = r'.instances := by
  have h' := congrArg Registry.instances h
  exact h'

theorem methodInstances_of_forget {r r' : Registry} (h : r.forget = r'.forget) :
    r.methodInstances = r'.methodInstances := by
  have h' := congrArg Registry.methodInstances h
  exact h'

/-! ## growth -/

namespace Grows

variable {r r' r'' : Registry}

theorem refl (r : Registry) : r.Grows r :=
  ⟨fun _ _ h => h, fun _ _ h => h, fun _ _ h => h, rfl, rfl, rfl, fun _ _ h => h, fun _ _ h => h, rfl⟩

theorem trans (h : r.Grows r') (h' : r'.Grows r'') : r.Grows r'' where
  types i d hd := h'.types i d (h.types i d hd)
  methods i d hd := h'.methods i d (h.methods i d hd)
  fields i d hd := h'.fields i d (h.fields i d hd)
  modules := h'.modules.trans h.modules
  byName := h'.byName.trans h.byName
  byModule := h'.byModule.trans h.byModule
  instances key t ht := h'.instances key t (h.instances key t ht)
  methodInstances key m hm := h'.methodInstances key m (h.methodInstances key m hm)
  nesting := h'.nesting.trans h.nesting

/-- notes on names in use do not count -/
theorem of_forget (h : r.forget = r'.forget) : r.Grows r' := by
  cases r
  cases r'
  simp only [forget, Registry.mk.injEq] at h
  obtain ⟨rfl, rfl, rfl, rfl, rfl, rfl, rfl, rfl, -, rfl, rfl⟩ := h
  exact ⟨fun _ _ h => h, fun _ _ h => h, fun _ _ h => h, rfl, rfl, rfl, fun _ _ h => h,
    fun _ _ h => h, rfl⟩

theorem useNames (r : Registry) (ts : List TypeId) : r.Grows (r.useNames ts) := of_forget rfl

theorem has (h : r.Grows r') {x : Item} (hx : r.Has x) : r'.Has x := by
  cases x with
  | type t =>
    have ht := h.types t.index _ (Array.getElem?_eq_getElem hx)
    exact (Array.getElem?_eq_some_iff.mp ht).1
  | method m =>
    have hm := h.methods m.index _ (Array.getElem?_eq_getElem hx)
    exact (Array.getElem?_eq_some_iff.mp hm).1
  | field f =>
    have hf := h.fields f.index _ (Array.getElem?_eq_getElem hx)
    exact (Array.getElem?_eq_some_iff.mp hf).1

theorem type (h : r.Grows r') {t : TypeId} (ht : r.Has (.type t)) : r'.type t = r.type t := by
  have hd := h.types t.index _ (Array.getElem?_eq_getElem ht)
  simp only [Registry.type, Array.getD_eq_getD_getElem?]
  rw [hd, Array.getElem?_eq_getElem ht]

theorem method (h : r.Grows r') {m : MethodId} (hm : r.Has (.method m)) :
    r'.method m = r.method m := by
  have hd := h.methods m.index _ (Array.getElem?_eq_getElem hm)
  simp only [Registry.method, Array.getD_eq_getD_getElem?]
  rw [hd, Array.getElem?_eq_getElem hm]

theorem field (h : r.Grows r') {f : FieldId} (hf : r.Has (.field f)) :
    r'.field f = r.field f := by
  have hd := h.fields f.index _ (Array.getElem?_eq_getElem hf)
  simp only [Registry.field, Array.getD_eq_getD_getElem?]
  rw [hd, Array.getElem?_eq_getElem hf]

theorem module (h : r.Grows r') (m : ModuleId) : r'.module m = r.module m := by
  simp only [Registry.module, h.modules]

theorem moduleName (h : r.Grows r') (m : ModuleId) : r'.moduleName m = r.moduleName m := by
  simp only [Registry.moduleName, h.module]

theorem find? (h : r.Grows r') (name : String) : r'.find? name = r.find? name := by
  simp only [Registry.find?, h.byName]

theorem findIn? (h : r.Grows r') (moduleName name : String) :
    r'.findIn? moduleName name = r.findIn? moduleName name := by
  simp only [Registry.findIn?, h.byModule]

end Grows

/-! ## what well-formed programs mention -/

theorem type_mem {r : Registry} {t : TypeId} (ht : r.Has (.type t)) : r.type t ∈ r.types.toList := by
  simp only [Registry.type, Array.getD_eq_getD_getElem?]
  rw [Array.getElem?_eq_getElem ht]
  exact Array.getElem_mem_toList ht

theorem method_mem {r : Registry} {m : MethodId} (hm : r.Has (.method m)) :
    r.method m ∈ r.methods.toList := by
  rw [Registry.method, Array.getD_eq_getD_getElem?, Array.getElem?_eq_getElem hm]
  exact Array.getElem_mem_toList hm

/-- places that are not taken have the default record -/
theorem type_of_not_has {r : Registry} {t : TypeId} (ht : ¬ r.Has (.type t)) :
    r.type t = default := by
  have hnone : r.types[t.index]? = none := Array.getElem?_eq_none (Nat.not_lt.mp ht)
  rw [Registry.type, Array.getD_eq_getD_getElem?, hnone, Option.getD_none]

theorem method_of_not_has {r : Registry} {m : MethodId} (hm : ¬ r.Has (.method m)) :
    r.method m = default := by
  have hnone : r.methods[m.index]? = none := Array.getElem?_eq_none (Nat.not_lt.mp hm)
  rw [Registry.method, Array.getD_eq_getD_getElem?, hnone, Option.getD_none]

namespace WellFormed

variable {r r' : Registry}

theorem of_forget (h : r.forget = r'.forget) (hw : r.WellFormed) : r'.WellFormed := by
  cases r
  cases r'
  simp only [forget, Registry.mk.injEq] at h
  obtain ⟨rfl, rfl, rfl, rfl, rfl, rfl, rfl, rfl, -, rfl, rfl⟩ := h
  exact ⟨hw.types, hw.methods, hw.fields, hw.origins, hw.tokens, hw.homes, hw.byName, hw.byModule,
    hw.instances, hw.methodInstances⟩

theorem useNames (hw : r.WellFormed) (ts : List TypeId) : (r.useNames ts).WellFormed :=
  of_forget (forget_useNames r ts).symm hw

theorem of_type (hw : r.WellFormed) {t : TypeId} (ht : r.Has (.type t)) {x : Item}
    (hx : x ∈ (r.type t).items) : r.Has x :=
  hw.types (r.type t) (type_mem ht) x hx

theorem of_method (hw : r.WellFormed) {m : MethodId} (hm : r.Has (.method m)) {x : Item}
    (hx : x ∈ (r.method m).items) : r.Has x :=
  hw.methods (r.method m) (method_mem hm) x hx

theorem of_field (hw : r.WellFormed) {f : FieldId} (hf : r.Has (.field f)) {x : Item}
    (hx : x ∈ (r.field f).items) : r.Has x := by
  refine hw.fields (r.field f) ?_ x hx
  simp only [Registry.field, Array.getD_eq_getD_getElem?]
  rw [Array.getElem?_eq_getElem hf]
  exact Array.getElem_mem_toList hf

theorem base (hw : r.WellFormed) {t b : TypeId} (ht : r.Has (.type t))
    (hb : (r.type t).base = some b) : r.Has (.type b) :=
  hw.of_type ht (by simp [TypeDecl.items, hb])

theorem interface (hw : r.WellFormed) {t i : TypeId} (ht : r.Has (.type t))
    (hi : i ∈ (r.type t).interfaces) : r.Has (.type i) :=
  hw.of_type ht (by simp [TypeDecl.items, hi])

theorem fieldOf (hw : r.WellFormed) {t : TypeId} {f : FieldId} (ht : r.Has (.type t))
    (hf : f ∈ (r.type t).fields) : r.Has (.field f) :=
  hw.of_type ht (by simp [TypeDecl.items, hf])

theorem methodOf (hw : r.WellFormed) {t : TypeId} {m : MethodId} (ht : r.Has (.type t))
    (hm : m ∈ (r.type t).methods) : r.Has (.method m) :=
  hw.of_type ht (by simp [TypeDecl.items, hm])

theorem formOf (hw : r.WellFormed) {t : TypeId} (ht : r.Has (.type t)) {x : Item}
    (hx : x ∈ (r.type t).form.items) : r.Has x :=
  hw.of_type ht (by simp [TypeDecl.items, hx])

theorem genericArgOf (hw : r.WellFormed) {t a : TypeId} (ht : r.Has (.type t))
    (ha : a ∈ (r.type t).form.genericArgs) : r.Has (.type a) := by
  refine hw.formOf ht ?_
  cases hf : (r.type t).form with
  | defined kind params => simpa [TypeForm.items, TypeForm.genericArgs, hf] using ha
  | instantiated kind definition args =>
    rw [hf] at ha
    simp only [TypeForm.genericArgs] at ha
    simp [TypeForm.items, ha]
  | parameter index owner => simp [TypeForm.genericArgs, hf] at ha
  | constructed shape element => simp [TypeForm.genericArgs, hf] at ha

theorem definition (hw : r.WellFormed) {t d : TypeId} (ht : r.Has (.type t))
    (hd : (r.type t).form.definition? = some d) : r.Has (.type d) := by
  refine hw.formOf ht ?_
  cases hf : (r.type t).form with
  | instantiated kind definition args =>
    rw [hf] at hd
    simp only [TypeForm.definition?, Option.some.injEq] at hd
    simp [TypeForm.items, hd]
  | defined kind params => simp [TypeForm.definition?, hf] at hd
  | parameter index owner => simp [TypeForm.definition?, hf] at hd
  | constructed shape element => simp [TypeForm.definition?, hf] at hd

theorem element (hw : r.WellFormed) {t e : TypeId} (ht : r.Has (.type t))
    (he : (r.type t).form.element? = some e) : r.Has (.type e) := by
  refine hw.formOf ht ?_
  cases hf : (r.type t).form with
  | constructed shape element =>
    rw [hf] at he
    simp only [TypeForm.element?, Option.some.injEq] at he
    simp [TypeForm.items, he]
  | defined kind params => simp [TypeForm.element?, hf] at he
  | parameter index owner => simp [TypeForm.element?, hf] at he
  | instantiated kind definition args => simp [TypeForm.element?, hf] at he

theorem declaring (hw : r.WellFormed) {m : MethodId} {t : TypeId} (hm : r.Has (.method m))
    (ht : (r.method m).declaring = some t) : r.Has (.type t) :=
  hw.of_method hm (by simp [Method.items, ht])

theorem returnType (hw : r.WellFormed) {m : MethodId} (hm : r.Has (.method m)) :
    r.Has (.type (r.method m).returnType) :=
  hw.of_method hm (by simp [Method.items])

theorem param (hw : r.WellFormed) {m : MethodId} {t : TypeId} (hm : r.Has (.method m))
    (ht : t ∈ (r.method m).paramTypes) : r.Has (.type t) :=
  hw.of_method hm (by simp [Method.items, ht])

theorem genericArg (hw : r.WellFormed) {m : MethodId} {t : TypeId} (hm : r.Has (.method m))
    (ht : t ∈ (r.method m).genericArgs) : r.Has (.type t) :=
  hw.of_method hm (by simp [Method.items, ht])

theorem localOf (hw : r.WellFormed) {m : MethodId} {b : Body} {t : TypeId}
    (hm : r.Has (.method m)) (hb : (r.method m).body = some b) (ht : t ∈ b.locals) :
    r.Has (.type t) :=
  hw.of_method hm (by simp [Method.items, hb, ht])

theorem source (hw : r.WellFormed) {m d : MethodId} (hm : r.Has (.method m))
    (hd : (r.method m).origin.source? = some d) : r.Has (.method d) :=
  hw.of_method hm (by simp [Method.items, hd])

theorem source_lt (hw : r.WellFormed) {m d : MethodId} (hm : r.Has (.method m))
    (hd : (r.method m).origin.source? = some d) : d.index < m.index := by
  have hg : r.methods.toList[m.index]? = some (r.method m) := by
    simp only [Registry.method, Array.getD_eq_getD_getElem?, Array.getElem?_toList]
    rw [Array.getElem?_eq_getElem hm]
    rfl
  exact hw.origins (r.method m, m.index) (List.mem_zipIdx_iff_getElem?.mpr hg) d (by simp [hd])

theorem declaringOf (hw : r.WellFormed) {f : FieldId} (hf : r.Has (.field f)) :
    r.Has (.type (r.field f).declaring) :=
  hw.of_field hf (by simp [Field.items])

theorem typeOf (hw : r.WellFormed) {f : FieldId} (hf : r.Has (.field f)) :
    r.Has (.type (r.field f).type) :=
  hw.of_field hf (by simp [Field.items])

theorem module_mem (r : Registry) (m : ModuleId) :
    r.module m ∈ r.modules.toList ∨ r.module m = default := by
  simp only [Registry.module, Array.getD_eq_getD_getElem?]
  cases h : r.modules[m.index]? with
  | none => exact .inr rfl
  | some d => exact .inl (by simpa using Array.mem_of_getElem? h)

theorem tokenTarget (hw : r.WellFormed) {m : ModuleId} {token : Token} {target : TokenTarget}
    (h : (r.module m).tokens.get? token = some target) {x : Item} (hx : x ∈ target.items) :
    r.Has x := by
  rcases module_mem r m with hm | hm
  · exact hw.tokens _ hm _ (Table.mem_entries_of_get? h) x hx
  · rw [hm] at h
    cases h

theorem home (hw : r.WellFormed) {m : ModuleId} {t : TypeId} (h : t ∈ (r.module m).types) :
    r.Has (.type t) := by
  rcases module_mem r m with hm | hm
  · exact hw.homes _ hm t h
  · rw [hm] at h
    cases h

theorem found (hw : r.WellFormed) {name : String} {t : TypeId} (h : r.find? name = some t) :
    r.Has (.type t) :=
  hw.byName _ (Table.mem_entries_of_get? h)

theorem foundIn (hw : r.WellFormed) {moduleName name : String} {t : TypeId}
    (h : r.findIn? moduleName name = some t) : r.Has (.type t) :=
  hw.byModule _ (Table.mem_entries_of_get? h)

theorem instance_ (hw : r.WellFormed) {key : String} {t : TypeId}
    (h : r.instances.get? key = some t) : r.Has (.type t) :=
  hw.instances _ (Table.mem_entries_of_get? h)

theorem methodInstance (hw : r.WellFormed) {key : String} {m : MethodId}
    (h : r.methodInstances.get? key = some m) : r.Has (.method m) :=
  hw.methodInstances _ (Table.mem_entries_of_get? h)

end WellFormed

end Registry

end ProgramScan

import ProgramScan.Proofs.Registry.Growth

/-!
# Additions to a program

A record that is added grows the program (`Registry.Grows`), and keeps it well-formed if it mentions
elements only.  The same holds for remembering an instance under a new key.  Changing a type does not
grow a program, except from a state before that type was there.
-/

namespace ProgramScan

namespace Registry

def pushType (r : Registry) (d : TypeDecl) : Registry :=
  { r with types := r.types.push d, nextId := r.nextId + 1 }

theorem Grows.push_type (r : Registry) (d : TypeDecl) : r.Grows (r.pushType d) where
  types i c hc := by
    have hi := (Array.getElem?_eq_some_iff.mp hc).1
    show (r.types.push d)[i]? = some c
    rw [Array.getElem?_push_lt hi, ← Array.getElem?_eq_getElem hi, hc]
  methods _ _ h := h
  fields _ _ h := h
  modules := rfl
  byName := rfl
  byModule := rfl
  instances _ _ h := h
  methodInstances _ _ h := h
  nesting := rfl

theorem Grows.push_method (r : Registry) (d : Method) :
    r.Grows { r with methods := r.methods.push d } where
  types _ _ h := h
  methods i c hc := by
    have hi := (Array.getElem?_eq_some_iff.mp hc).1
    show (r.methods.push d)[i]? = some c
    rw [Array.getElem?_push_lt hi, ← Array.getElem?_eq_getElem hi, hc]
  fields _ _ h := h
  modules := rfl
  byName := rfl
  byModule := rfl
  instances _ _ h := h
  methodInstances _ _ h := h
  nesting := rfl

theorem Grows.push_field (r : Registry) (d : Field) :
    r.Grows { r with fields := r.fields.push d } where
  types _ _ h := h
  methods _ _ h := h
  fields i c hc := by
    have hi := (Array.getElem?_eq_some_iff.mp hc).1
    show (r.fields.push d)[i]? = some c
    rw [Array.getElem?_push_lt hi, ← Array.getElem?_eq_getElem hi, hc]
  modules := rfl
  byName := rfl
  byModule := rfl
  instances _ _ h := h
  methodInstances _ _ h := h
  nesting := rfl

/-- remembers an instance under a new key -/
theorem Grows.insert_instance {r : Registry} {key : String} (t : TypeId)
    (hk : r.instances.get? key = none) :
    r.Grows { r with instances := r.instances.insert key t } where
  types _ _ h := h
  methods _ _ h := h
  fields _ _ h := h
  modules := rfl
  byName := rfl
  byModule := rfl
  instances key' u hu := by
    have hne : key' ≠ key := by
      rintro rfl
      rw [hk] at hu
      cases hu
    show (r.instances.insert key t).get? key' = some u
    rw [Table.get?_insert_of_ne _ _ hne, hu]
  methodInstances _ _ h := h
  nesting := rfl

theorem Grows.insert_methodInstance {r : Registry} {key : String} (m : MethodId)
    (hk : r.methodInstances.get? key = none) :
    r.Grows { r with methodInstances := r.methodInstances.insert key m } where
  types _ _ h := h
  methods _ _ h := h
  fields _ _ h := h
  modules := rfl
  byName := rfl
  byModule := rfl
  instances _ _ h := h
  methodInstances key' u hu := by
    have hne : key' ≠ key := by
      rintro rfl
      rw [hk] at hu
      cases hu
    show (r.methodInstances.insert key m).get? key' = some u
    rw [Table.get?_insert_of_ne _ _ hne, hu]
  nesting := rfl

/-- a type that came later can change -/
theorem Grows.modifyType {r s : Registry} (hg : r.Grows s) {t : TypeId} (ht : ¬ r.Has (.type t))
    (f : TypeDecl → TypeDecl) : r.Grows (s.modifyType t f) where
  types i c hc := by
    have hi := (Array.getElem?_eq_some_iff.mp hc).1
    have hne : t.index ≠ i := by
      rintro rfl
      exact ht hi
    show (s.types.modify t.index f)[i]? = some c
    rw [Array.getElem?_modify, if_neg hne, hg.types i c hc]
  methods := hg.methods
  fields := hg.fields
  modules := hg.modules
  byName := hg.byName
  byModule := hg.byModule
  instances := hg.instances
  methodInstances := hg.methodInstances
  nesting := hg.nesting

namespace WellFormed

variable {r : Registry} (hw : r.WellFormed)
include hw

theorem push_type {d : TypeDecl} (hd : ∀ x ∈ d.items, r.Has x) : (r.pushType d).WellFormed := by
  have hg := Grows.push_type r d
  refine ⟨?_, fun c hc x hx => hg.has (hw.methods c hc x hx),
    fun c hc x hx => hg.has (hw.fields c hc x hx), hw.origins,
    fun c hc e he x hx => hg.has (hw.tokens c hc e he x hx),
    fun c hc t ht => hg.has (hw.homes c hc t ht), fun e he => hg.has (hw.byName e he),
    fun e he => hg.has (hw.byModule e he), fun e he => hg.has (hw.instances e he),
    fun e he => hg.has (hw.methodInstances e he)⟩
  intro c hc x hx
  simp only [pushType, Array.toList_push, List.mem_append, List.mem_singleton] at hc
  rcases hc with hc | rfl
  · exact hg.has (hw.types c hc x hx)
  · exact hg.has (hd x hx)

theorem push_method {d : Method} (hd : ∀ x ∈ d.items, r.Has x) :
    WellFormed { r with methods := r.methods.push d } := by
  have hg := Grows.push_method r d
  refine ⟨fun c hc x hx => hg.has (hw.types c hc x hx), ?_,
    fun c hc x hx => hg.has (hw.fields c hc x hx), ?_,
    fun c hc e he x hx => hg.has (hw.tokens c hc e he x hx),
    fun c hc t ht => hg.has (hw.homes c hc t ht), fun e he => hg.has (hw.byName e he),
    fun e he => hg.has (hw.byModule e he), fun e he => hg.has (hw.instances e he),
    fun e he => hg.has (hw.methodInstances e he)⟩
  · intro c hc x hx
    simp only [Array.toList_push, List.mem_append, List.mem_singleton] at hc
    rcases hc with hc | rfl
    · exact hg.has (hw.methods c hc x hx)
    · exact hg.has (hd x hx)
  · intro e he m hm
    simp only [Array.toList_push, List.zipIdx_append, List.mem_append] at he
    rcases he with he | he
    · exact hw.origins e he m hm
    · simp only [List.zipIdx_cons, List.zipIdx_nil, List.mem_singleton, Nat.zero_add] at he
      subst he
      have hlt : m.index < r.methods.size :=
        hd (.method m) (by simp [Method.items, Option.mem_toList.mp hm])
      simpa using hlt

theorem push_field {d : Field} (hd : ∀ x ∈ d.items, r.Has x) :
    WellFormed { r with fields := r.fields.push d } := by
  have hg := Grows.push_field r d
  refine ⟨fun c hc x hx => hg.has (hw.types c hc x hx),
    fun c hc x hx => hg.has (hw.methods c hc x hx), ?_, hw.origins,
    fun c hc e he x hx => hg.has (hw.tokens c hc e he x hx),
    fun c hc t ht => hg.has (hw.homes c hc t ht), fun e he => hg.has (hw.byName e he),
    fun e he => hg.has (hw.byModule e he), fun e he => hg.has (hw.instances e he),
    fun e he => hg.has (hw.methodInstances e he)⟩
  intro c hc x hx
  simp only [Array.toList_push, List.mem_append, List.mem_singleton] at hc
  rcases hc with hc | rfl
  · exact hg.has (hw.fields c hc x hx)
  · exact hg.has (hd x hx)

theorem insert_instance {t : TypeId} (ht : r.Has (.type t)) (key : String) :
    WellFormed { r with instances := r.instances.insert key t } where
  types := hw.types
  methods := hw.methods
  fields := hw.fields
  origins := hw.origins
  tokens := hw.tokens
  homes := hw.homes
  byName := hw.byName
  byModule := hw.byModule
  instances e he := by
    rcases List.mem_cons.mp he with rfl | he
    · exact ht
    · exact hw.instances e (List.mem_filter.mp he).1
  methodInstances := hw.methodInstances

theorem insert_methodInstance {m : MethodId} (hm : r.Has (.method m)) (key : String) :
    WellFormed { r with methodInstances := r.methodInstances.insert key m } where
  types := hw.types
  methods := hw.methods
  fields := hw.fields
  origins := hw.origins
  tokens := hw.tokens
  homes := hw.homes
  byName := hw.byName
  byModule := hw.byModule
  instances := hw.instances
  methodInstances e he := by
    rcases List.mem_cons.mp he with rfl | he
    · exact hm
    · exact hw.methodInstances e (List.mem_filter.mp he).1

theorem with_nesting (n : Nat) : WellFormed { r with nesting := n } :=
  ⟨hw.types, hw.methods, hw.fields, hw.origins, hw.tokens, hw.homes, hw.byName, hw.byModule,
    hw.instances, hw.methodInstances⟩

omit hw in
theorem has_modifyType (r : Registry) (t : TypeId) (f : TypeDecl → TypeDecl) (x : Item) :
    (r.modifyType t f).Has x ↔ r.Has x := by
  cases x <;> simp [Registry.Has, Registry.modifyType]

theorem modifyType {t : TypeId} {f : TypeDecl → TypeDecl}
    (hf : r.Has (.type t) → ∀ x ∈ (f (r.type t)).items, r.Has x) : (r.modifyType t f).WellFormed := by
  have hh := has_modifyType r t f
  refine ⟨?_, fun c hc x hx => (hh x).mpr (hw.methods c hc x hx),
    fun c hc x hx => (hh x).mpr (hw.fields c hc x hx), hw.origins,
    fun c hc e he x hx => (hh x).mpr (hw.tokens c hc e he x hx),
    fun c hc u hu => (hh _).mpr (hw.homes c hc u hu), fun e he => (hh _).mpr (hw.byName e he),
    fun e he => (hh _).mpr (hw.byModule e he), fun e he => (hh _).mpr (hw.instances e he),
    fun e he => (hh _).mpr (hw.methodInstances e he)⟩
  intro c hc x hx
  rw [hh x]
  obtain ⟨i, hi⟩ := List.mem_iff_getElem?.mp hc
  simp only [Registry.modifyType, Array.getElem?_toList, Array.getElem?_modify] at hi
  split at hi
  · rename_i heq
    obtain ⟨d, hd, rfl⟩ := Option.map_eq_some_iff.mp hi
    subst heq
    have hlt := (Array.getElem?_eq_some_iff.mp hd).1
    have hdt : r.type t = d := by
      simp only [Registry.type, Array.getD_eq_getD_getElem?, hd, Option.getD_some]
    rw [← hdt] at hx
    exact hf hlt x hx
  · exact hw.types c (List.mem_iff_getElem?.mpr ⟨i, by rw [Array.getElem?_toList, hi]⟩) x hx

end WellFormed

end Registry

end ProgramScan

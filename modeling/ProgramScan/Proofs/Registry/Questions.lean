import ProgramScan.Registry.Hierarchy
import ProgramScan.Proofs.Registry.Growth

/-!
# Questions that have the same answer later

A question about elements of a program reads only records of the program, and these stay.  So it has
the same answer in every later state (`Registry.Grows`):

* names and identity keys;
* generic parameters, bodies and members;
* ancestors, interfaces and assignability;
* the search for plugs.

Two walks take a number of steps that depends on the size of the program: `ancestors` and `body?`.
Neither uses all of it, `ancestors` because it meets no type twice (`ancestorsFrom_eq`), `body?`
because methods come after the methods they were made from (`bodyWithin_eq`).
-/

namespace ProgramScan

/-! ## lists that are read alike -/

theorem any_congr_mem {α : Type} {l : List α} {p q : α → Bool} (h : ∀ a ∈ l, p a = q a) :
    l.any p = l.any q := by
  induction l with
  | nil => rfl
  | cons a l ih =>
    rw [List.any_cons, List.any_cons, h a List.mem_cons_self,
      ih fun b hb => h b (List.mem_cons_of_mem _ hb)]

theorem all_congr_mem {α : Type} {l : List α} {p q : α → Bool} (h : ∀ a ∈ l, p a = q a) :
    l.all p = l.all q := by
  induction l with
  | nil => rfl
  | cons a l ih =>
    rw [List.all_cons, List.all_cons, h a List.mem_cons_self,
      ih fun b hb => h b (List.mem_cons_of_mem _ hb)]

theorem find?_congr_mem {α : Type} {l : List α} {p q : α → Bool} (h : ∀ a ∈ l, p a = q a) :
    l.find? p = l.find? q := by
  induction l with
  | nil => rfl
  | cons a l ih =>
    rw [List.find?_cons, List.find?_cons, h a List.mem_cons_self,
      ih fun b hb => h b (List.mem_cons_of_mem _ hb)]

theorem findSome?_congr_mem {α β : Type} {l : List α} {f g : α → Option β}
    (h : ∀ a ∈ l, f a = g a) : l.findSome? f = l.findSome? g := by
  induction l with
  | nil => rfl
  | cons a l ih =>
    rw [List.findSome?_cons, List.findSome?_cons, h a List.mem_cons_self,
      ih fun b hb => h b (List.mem_cons_of_mem _ hb)]

theorem countP_lt {α : Type} {l : List α} {p q : α → Bool} (h : ∀ a ∈ l, p a = true → q a = true)
    {b : α} (hb : b ∈ l) (hq : q b = true) (hp : p b = false) : l.countP p < l.countP q := by
  induction l with
  | nil => cases hb
  | cons a l ih =>
    have hl : ∀ a ∈ l, p a = true → q a = true := fun c hc => h c (List.mem_cons_of_mem _ hc)
    have hle : l.countP p ≤ l.countP q := List.countP_mono_left hl
    have ha := h a List.mem_cons_self
    rw [List.countP_cons, List.countP_cons]
    rcases List.mem_cons.mp hb with rfl | hb
    · simp only [hp, hq, Bool.false_eq_true, if_false, if_true]
      omega
    · have hlt := ih hl hb
      by_cases hpa : p a = true
      · simp only [hpa, ha hpa, if_true]
        omega
      · simp only [hpa, Bool.false_eq_true, if_false]
        omega

namespace Registry

theorem mem_of_mem_shownParams {params : List Param} {p : Param} (h : p ∈ shownParams params) :
    p ∈ params := by
  cases params with
  | nil => exact h
  | cons q rest =>
    simp only [shownParams] at h
    split at h
    · exact List.mem_cons_of_mem _ h
    · exact h

theorem bodyWithin_succ (r : Registry) (n : Nat) (m : MethodId) :
    r.bodyWithin (n + 1) m =
      (r.method m).body.or ((r.method m).origin.source?.bind (r.bodyWithin n)) := by
  rw [bodyWithin]
  cases (r.method m).body <;> cases (r.method m).origin <;> rfl

/-- the walk to a body goes back in the order of methods, so it ends before its steps do -/
theorem bodyWithin_eq_succ {r : Registry} (hw : r.WellFormed) (n : Nat) {m : MethodId}
    (hm : r.Has (.method m)) (hn : m.index ≤ n) : r.bodyWithin n m = r.bodyWithin (n + 1) m := by
  induction n generalizing m with
  | zero =>
    rw [bodyWithin_succ]
    cases hd : (r.method m).origin.source? with
    | none => simp [bodyWithin]
    | some d =>
      have := hw.source_lt hm hd
      omega
  | succ n ih =>
    rw [bodyWithin_succ, bodyWithin_succ r (n + 1)]
    cases hd : (r.method m).origin.source? with
    | none => rfl
    | some d =>
      have := hw.source_lt hm hd
      simp only [Option.bind_some]
      rw [ih (hw.source hm hd) (by omega)]

theorem bodyWithin_eq {r : Registry} (hw : r.WellFormed) {m : MethodId} (hm : r.Has (.method m))
    {n n' : Nat} (hn : m.index ≤ n) (hle : n ≤ n') : r.bodyWithin n m = r.bodyWithin n' m := by
  induction hle with
  | refl => rfl
  | @step n' h ih => rw [ih, bodyWithin_eq_succ hw n' hm (Nat.le_trans hn h)]

theorem WellFormed.of_bodyWithin {r : Registry} (hw : r.WellFormed) {n : Nat} {m : MethodId}
    (hm : r.Has (.method m)) {b : Body} (hb : r.bodyWithin n m = some b) :
    ∃ owner, r.Has (.method owner) ∧ (r.method owner).body = some b := by
  induction n generalizing m with
  | zero => exact ⟨m, hm, hb⟩
  | succ n ih =>
    rw [bodyWithin_succ] at hb
    cases hown : (r.method m).body with
    | some own => exact ⟨m, hm, by rw [hown] at hb ⊢; exact hb⟩
    | none =>
      rw [hown, Option.none_or] at hb
      obtain ⟨d, hd, hb⟩ := Option.bind_eq_some_iff.mp hb
      exact ih (hw.source hm hd) hb

theorem WellFormed.bodyLocal {r : Registry} (hw : r.WellFormed) {m : MethodId}
    (hm : r.Has (.method m)) {b : Body} (hb : r.body? m = some b) {t : TypeId}
    (ht : t ∈ b.locals) : r.Has (.type t) := by
  obtain ⟨owner, howner, hbody⟩ := hw.of_bodyWithin hm hb
  exact hw.localOf howner hbody ht

/-! ## the walk over bases -/

def unseen (r : Registry) (seen : List TypeId) : Nat :=
  (List.range r.types.size).countP fun i => !seen.contains ⟨i⟩

theorem unseen_cons_lt {r : Registry} {seen : List TypeId} {t : TypeId} (ht : r.Has (.type t))
    (hs : seen.contains t = false) : r.unseen (t :: seen) < r.unseen seen := by
  refine countP_lt (b := t.index) ?_ (List.mem_range.mpr ht) ?_ ?_
  · intro i _ hi
    simp only [List.contains_cons, Bool.not_eq_true', Bool.or_eq_false_iff] at hi
    simp only [hi.2, Bool.not_false]
  · simp only [hs, Bool.not_false]
  · simp

/-- the walk over bases ends before its steps do, because it meets no type twice -/
theorem ancestorsFrom_eq_succ {r : Registry} (hw : r.WellFormed) (n : Nat) (seen : List TypeId)
    {t : TypeId} (ht : r.Has (.type t)) (hn : r.unseen seen ≤ n) :
    r.ancestorsFrom n seen t = r.ancestorsFrom (n + 1) seen t := by
  induction n generalizing seen t with
  | zero =>
    rw [ancestorsFrom, ancestorsFrom]
    cases hb : (r.type t).base with
    | none => rfl
    | some base =>
      cases hs : seen.contains base with
      | true => simp only [hs, if_true]
      | false =>
        have := unseen_cons_lt (hw.base ht hb) hs
        omega
  | succ n ih =>
    rw [ancestorsFrom, ancestorsFrom]
    cases hb : (r.type t).base with
    | none => rfl
    | some base =>
      cases hs : seen.contains base with
      | true => simp only [hs, if_true]
      | false =>
        have := unseen_cons_lt (hw.base ht hb) hs
        simp only
        rw [ih (base :: seen) (hw.base ht hb) (by omega)]

theorem ancestorsFrom_eq {r : Registry} (hw : r.WellFormed) {seen : List TypeId} {t : TypeId}
    (ht : r.Has (.type t)) {n n' : Nat} (hn : r.unseen seen ≤ n) (hle : n ≤ n') :
    r.ancestorsFrom n seen t = r.ancestorsFrom n' seen t := by
  induction hle with
  | refl => rfl
  | @step n' h ih => rw [ih, ancestorsFrom_eq_succ hw n' seen ht (Nat.le_trans hn h)]

theorem WellFormed.of_ancestorsFrom {r : Registry} (hw : r.WellFormed) {n : Nat}
    {seen : List TypeId} {t a : TypeId} (ht : r.Has (.type t))
    (ha : a ∈ r.ancestorsFrom n seen t) : r.Has (.type a) := by
  induction n generalizing seen t with
  | zero => cases ha
  | succ n ih =>
    rw [ancestorsFrom] at ha
    cases hb : (r.type t).base with
    | none => simp [hb] at ha
    | some base =>
      simp only [hb] at ha
      split at ha
      · cases ha
      · rcases List.mem_cons.mp ha with rfl | ha
        · exact hw.base ht hb
        · exact ih (hw.base ht hb) ha

namespace Grows

variable {r r' : Registry} (hg : r.Grows r') (hw : r.WellFormed)
include hg

/-! ## names -/

theorem fullName {t : TypeId} (ht : r.Has (.type t)) : r'.fullName t = r.fullName t := by
  simp only [Registry.fullName, hg.type ht]

theorem nameList {ts : List TypeId} (hts : ∀ t ∈ ts, r.Has (.type t)) :
    r'.nameList ts = r.nameList ts := by
  simp only [Registry.nameList]
  rw [List.map_congr_left fun t ht => hg.fullName (hts t ht)]

theorem typeKey {t : TypeId} (ht : r.Has (.type t)) : r'.typeKey t = r.typeKey t := by
  simp only [Registry.typeKey, hg.fullName ht, hg.type ht, hg.moduleName]

theorem sameType {a b : TypeId} (ha : r.Has (.type a)) (hb : r.Has (.type b)) :
    r'.sameType a b = r.sameType a b := by
  simp only [Registry.sameType, hg.typeKey ha, hg.typeKey hb]

theorem sameTypes {as bs : List TypeId} (has : ∀ a ∈ as, r.Has (.type a))
    (hbs : ∀ b ∈ bs, r.Has (.type b)) : r'.sameTypes as bs = r.sameTypes as bs := by
  simp only [Registry.sameTypes]
  congr 1
  refine all_congr_mem fun p hp => ?_
  exact hg.sameType (has p.1 (List.of_mem_zip hp).1) (hbs p.2 (List.of_mem_zip hp).2)

include hw

theorem methodName {m : MethodId} (hm : r.Has (.method m)) : r'.methodName m = r.methodName m := by
  have hparams : ∀ t ∈ (shownParams (r.method m).params).map (·.type), r.Has (.type t) := by
    intro t ht
    obtain ⟨p, hp, rfl⟩ := List.mem_map.mp ht
    exact hw.param hm (List.mem_map_of_mem (mem_of_mem_shownParams hp))
  have hargs : r'.nameList (r.method m).genericArgs = r.nameList (r.method m).genericArgs :=
    hg.nameList fun t ht => hw.genericArg hm ht
  simp only [Registry.methodName, hg.method hm, hg.fullName (hw.returnType hm), hargs,
    hg.nameList hparams]
  cases hd : (r.method m).declaring with
  | none => rfl
  | some t => simp only [hg.fullName (hw.declaring hm hd)]

theorem methodModuleName {m : MethodId} (hm : r.Has (.method m)) :
    r'.methodModuleName m = r.methodModuleName m := by
  simp only [Registry.methodModuleName, hg.method hm]
  cases hd : (r.method m).declaring with
  | none => rfl
  | some t => simp only [hg.type (hw.declaring hm hd), hg.moduleName]

theorem methodKey {m : MethodId} (hm : r.Has (.method m)) : r'.methodKey m = r.methodKey m := by
  simp only [Registry.methodKey, hg.methodName hw hm, hg.methodModuleName hw hm]

theorem sameMethod {a b : MethodId} (ha : r.Has (.method a)) (hb : r.Has (.method b)) :
    r'.sameMethod a b = r.sameMethod a b := by
  simp only [Registry.sameMethod, hg.methodKey hw ha, hg.methodKey hw hb]

theorem fieldName {f : FieldId} (hf : r.Has (.field f)) : r'.fieldName f = r.fieldName f := by
  simp only [Registry.fieldName, hg.field hf, hg.fullName (hw.typeOf hf),
    hg.fullName (hw.declaringOf hf)]

theorem fieldKey {f : FieldId} (hf : r.Has (.field f)) : r'.fieldKey f = r.fieldKey f := by
  simp only [Registry.fieldKey, hg.field hf, hg.fieldName hw hf, hg.type (hw.declaringOf hf),
    hg.moduleName]

theorem itemKey {x : Item} (hx : r.Has x) : r'.itemKey x = r.itemKey x := by
  cases x with
  | type t => exact hg.typeKey hx
  | method m => exact hg.methodKey hw hx
  | field f => exact hg.fieldKey hw hx

theorem returnsValue {m : MethodId} (hm : r.Has (.method m)) :
    r'.returnsValue m = r.returnsValue m := by
  simp only [Registry.returnsValue, hg.method hm, hg.fullName (hw.returnType hm)]

omit hw

theorem siteReturnsValue {site : CallSite} (hs : ∀ t, site.returnType = some t → r.Has (.type t)) :
    r'.siteReturnsValue site = r.siteReturnsValue site := by
  simp only [Registry.siteReturnsValue]
  cases ht : site.returnType with
  | none => rfl
  | some t => simp only [Option.any_some, hg.fullName (hs t ht)]

include hw

/-! ## generic parameters, bodies and members -/

theorem isOpenWithin (depth : Nat) {t : TypeId} (ht : r.Has (.type t)) :
    r'.isOpenWithin depth t = r.isOpenWithin depth t := by
  induction depth generalizing t with
  | zero => rfl
  | succ depth ih =>
    simp only [Registry.isOpenWithin, hg.type ht]
    cases hf : (r.type t).form with
    | defined kind params => rfl
    | parameter index owner => rfl
    | constructed shape element => exact ih (hw.element ht (by rw [hf]; rfl))
    | instantiated kind definition args =>
      exact any_congr_mem fun a ha => ih (hw.genericArgOf ht (by rw [hf]; exact ha))

theorem isOpen {t : TypeId} (ht : r.Has (.type t)) : r'.isOpen t = r.isOpen t :=
  hg.isOpenWithin hw _ ht

omit hw in
theorem definitionOf {t : TypeId} (ht : r.Has (.type t)) : r'.definitionOf t = r.definitionOf t := by
  simp only [Registry.definitionOf, hg.type ht]

theorem declaringArgs {m : MethodId} (hm : r.Has (.method m)) :
    r'.declaringArgs m = r.declaringArgs m := by
  simp only [Registry.declaringArgs, hg.method hm]
  cases hd : (r.method m).declaring with
  | none => rfl
  | some t => simp only [hg.type (hw.declaring hm hd)]

theorem contextOf {m : MethodId} (hm : r.Has (.method m)) : r'.contextOf m = r.contextOf m := by
  simp only [Registry.contextOf, hg.declaringArgs hw hm, hg.method hm]

theorem fieldNamed? {t : TypeId} (ht : r.Has (.type t)) (name : String) :
    r'.fieldNamed? t name = r.fieldNamed? t name := by
  simp only [Registry.fieldNamed?, hg.type ht]
  refine find?_congr_mem fun f hf => ?_
  rw [hg.field (hw.fieldOf ht hf)]

theorem methodsNamed {t : TypeId} (ht : r.Has (.type t)) (name : String) :
    r'.methodsNamed t name = r.methodsNamed t name := by
  simp only [Registry.methodsNamed, hg.type ht]
  refine List.filter_congr fun m hm => ?_
  rw [hg.method (hw.methodOf ht hm)]

omit hw in
theorem stemsFrom {root m : MethodId} (hm : r.Has (.method m)) :
    r'.stemsFrom root m = r.stemsFrom root m := by
  simp only [Registry.stemsFrom, hg.method hm]

theorem bodyWithin (n : Nat) {m : MethodId} (hm : r.Has (.method m)) :
    r'.bodyWithin n m = r.bodyWithin n m := by
  induction n generalizing m with
  | zero => simp only [Registry.bodyWithin, hg.method hm]
  | succ n ih =>
    rw [bodyWithin_succ, bodyWithin_succ, hg.method hm]
    cases hd : (r.method m).origin.source? with
    | none => rfl
    | some d =>
      simp only [Option.bind_some]
      rw [ih (hw.source hm hd)]

omit hw in
theorem methods_size : r.methods.size ≤ r'.methods.size := by
  rcases Nat.eq_zero_or_pos r.methods.size with h | h
  · omega
  · have hlast : r.Has (.method ⟨r.methods.size - 1⟩) := by
      show r.methods.size - 1 < r.methods.size
      omega
    have : r.methods.size - 1 < r'.methods.size := hg.has hlast
    omega

omit hw in
theorem types_size : r.types.size ≤ r'.types.size := by
  rcases Nat.eq_zero_or_pos r.types.size with h | h
  · omega
  · have hlast : r.Has (.type ⟨r.types.size - 1⟩) := by
      show r.types.size - 1 < r.types.size
      omega
    have : r.types.size - 1 < r'.types.size := hg.has hlast
    omega

theorem body? {m : MethodId} (hm : r.Has (.method m)) : r'.body? m = r.body? m := by
  rw [Registry.body?, Registry.body?, hg.bodyWithin hw _ hm]
  exact (bodyWithin_eq hw hm (Nat.le_of_lt hm) hg.methods_size).symm

/-! ## inheritance -/

theorem ancestorsFrom (n : Nat) (seen : List TypeId) {t : TypeId} (ht : r.Has (.type t)) :
    r'.ancestorsFrom n seen t = r.ancestorsFrom n seen t := by
  induction n generalizing seen t with
  | zero => rfl
  | succ n ih =>
    rw [Registry.ancestorsFrom, Registry.ancestorsFrom, hg.type ht]
    cases hb : (r.type t).base with
    | none => rfl
    | some base =>
      simp only
      rw [ih _ (hw.base ht hb)]

theorem ancestors {t : TypeId} (ht : r.Has (.type t)) : r'.ancestors t = r.ancestors t := by
  have hn : r.unseen [] ≤ r.types.size := by
    have := List.countP_le_length (p := fun i => !([] : List TypeId).contains ⟨i⟩)
      (l := List.range r.types.size)
    rwa [List.length_range] at this
  rw [Registry.ancestors, Registry.ancestors, hg.ancestorsFrom hw _ _ ht]
  exact (ancestorsFrom_eq hw ht hn hg.types_size).symm

theorem isSubclassOf {t a : TypeId} (ht : r.Has (.type t)) (ha : r.Has (.type a)) :
    r'.isSubclassOf t a = r.isSubclassOf t a := by
  rw [Registry.isSubclassOf, Registry.isSubclassOf, hg.ancestors hw ht]
  exact any_congr_mem fun b hb => hg.sameType (hw.of_ancestorsFrom ht hb) ha

theorem interfaceWalk {iface : TypeId} (hi : r.Has (.type iface)) (n : Nat) {pending : List TypeId}
    (hp : ∀ t ∈ pending, r.Has (.type t)) :
    r'.interfaceWalk iface n pending = r.interfaceWalk iface n pending := by
  induction n generalizing pending with
  | zero => rfl
  | succ n ih =>
    cases pending with
    | nil => rfl
    | cons c pending =>
      have hc := hp c List.mem_cons_self
      rw [Registry.interfaceWalk, Registry.interfaceWalk, hg.sameType hc hi, hg.type hc, ih]
      intro t ht
      rcases List.mem_append.mp ht with ht | ht
      · exact hw.interface hc (List.mem_reverse.mp ht)
      · exact hp t (List.mem_cons_of_mem _ ht)

theorem declaredInterfaces {t : TypeId} (ht : r.Has (.type t)) :
    r'.declaredInterfaces t = r.declaredInterfaces t := by
  rw [Registry.declaredInterfaces, Registry.declaredInterfaces, hg.ancestors hw ht]
  congr 1
  rw [List.flatMap_def, List.flatMap_def]
  congr 1
  refine List.map_congr_left fun u hu => ?_
  rcases List.mem_cons.mp hu with rfl | hu
  · rw [hg.type ht]
  · rw [hg.type (hw.of_ancestorsFrom ht hu)]

theorem implements {t iface : TypeId} (ht : r.Has (.type t)) (hi : r.Has (.type iface)) :
    r'.implements t iface = r.implements t iface := by
  rw [Registry.implements, Registry.implements, hg.declaredInterfaces hw ht]
  refine hg.interfaceWalk hw hi _ fun u hu => ?_
  simp only [Registry.declaredInterfaces, List.mem_reverse, List.mem_flatMap] at hu
  obtain ⟨v, hv, hu⟩ := hu
  rcases List.mem_cons.mp hv with rfl | hv
  · exact hw.interface ht hu
  · exact hw.interface (hw.of_ancestorsFrom ht hv) hu

theorem isAssignable {target source : TypeId} (ht : r.Has (.type target))
    (hs : r.Has (.type source)) : r'.isAssignable target source = r.isAssignable target source := by
  simp only [Registry.isAssignable, hg.sameType ht hs, hg.isSubclassOf hw hs ht, hg.type ht,
    hg.implements hw hs ht]

theorem methodsCalled {t : TypeId} (ht : r.Has (.type t)) (name : String) (isStatic : Bool) :
    r'.methodsCalled t name isStatic = r.methodsCalled t name isStatic := by
  simp only [Registry.methodsCalled, hg.type ht]
  refine List.filter_congr fun m hm => ?_
  rw [hg.method (hw.methodOf ht hm)]

theorem findMethod? {t : TypeId} (ht : r.Has (.type t)) (name : String) (isStatic : Bool)
    {params : List TypeId} (hp : ∀ p ∈ params, r.Has (.type p)) :
    r'.findMethod? t name isStatic params = r.findMethod? t name isStatic params := by
  simp only [Registry.findMethod?, hg.methodsCalled hw ht]
  refine find?_congr_mem fun m hm => ?_
  have hm : r.Has (.method m) := hw.methodOf ht (List.mem_filter.mp hm).1
  rw [hg.method hm]
  exact hg.sameTypes (fun p h => hw.param hm h) hp

end Grows

end Registry

end ProgramScan

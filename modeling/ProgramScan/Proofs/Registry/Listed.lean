import ProgramScan.Proofs.Registry.Lasting

/-!
# What types list

A type lists the fields and methods that it declares, and it lists each of its methods once.  Members
of an instance belong to members of its definition, at most one to each.  Instances of methods are in
no list.

* `Registry.MemberOf`   a method is the member of an instance for a method of the definition;
* `Registry.Listed`     all of this, for a whole program;
* `Listed.later`        it stays while lists and methods do;
* `Listed.enlist`       a type can get a method, `Listed.push_method` a method can stay apart, and
  `Listed.list_field`   a type can list a field that it declares.
-/

namespace ProgramScan

namespace Registry

variable {r r' : Registry}

/-! ## records that are added -/

theorem method_push (r : Registry) (d : Method) (m : MethodId) :
    Registry.method { r with methods := r.methods.push d } m =
      if m.index = r.methods.size then d else r.method m := by
  simp only [method, Array.getD_eq_getD_getElem?, Array.getElem?_push]
  split
  · rfl
  · rfl

/-- a new method keeps the records of the methods that were there -/
theorem method_push_of_has (r : Registry) (d : Method) {m : MethodId} (hm : r.Has (.method m)) :
    Registry.method { r with methods := r.methods.push d } m = r.method m := by
  rw [method_push, if_neg (Nat.ne_of_lt hm)]

theorem has_of_declaring {m : MethodId} {t : TypeId} (h : (r.method m).declaring = some t) :
    r.Has (.method m) := by
  by_contra hm
  rw [method_of_not_has hm] at h
  cases h

/-- an instance is an element -/
theorem has_of_genericDefinition? {x d : MethodId}
    (h : (r.method x).genericDefinition? = some d) : r.Has (.method x) := by
  by_contra hx
  rw [method_of_not_has hx] at h
  cases h

theorem source?_of_genericDefinition? {q f : MethodId}
    (h : (r.method q).genericDefinition? = some f) : (r.method q).origin.source? = some f := by
  unfold Method.genericDefinition? at h
  unfold MethodOrigin.source?
  cases ho : (r.method q).origin <;> simp_all

theorem source?_of_memberDefinition? {q f : MethodId}
    (h : (r.method q).memberDefinition? = some f) : (r.method q).origin.source? = some f := by
  unfold Method.memberDefinition? at h
  unfold MethodOrigin.source?
  cases ho : (r.method q).origin <;> simp_all

/-- a type that lists something is an element -/
theorem has_of_listed {t : TypeId} (h : (r.type t).fields ≠ [] ∨ (r.type t).methods ≠ []) :
    r.Has (.type t) := by
  by_contra ht
  rw [type_of_not_has ht] at h
  rcases h with h | h <;> exact h rfl

/-! ## members of instances -/

/-- `x` is the member of the instance `t` that belongs to the method `c` of the definition. -/
structure MemberOf (r : Registry) (t : TypeId) (c x : MethodId) : Prop where
  declared : (r.method c).origin = .declared
  copied : ∃ kind definition args, (r.type t).form = .instantiated kind definition args ∧
    (r.method c).declaring = some definition ∧ r.MethodBecomes t args c x

theorem MethodBecomes.declaring {t : TypeId} {args : List TypeId} {c x : MethodId}
    (h : r.MethodBecomes t args c x) : (r.method x).declaring = some t := by
  obtain ⟨_, _, -, -, hx⟩ := h
  exact congrArg Method.declaring hx

theorem MethodBecomes.origin {t : TypeId} {args : List TypeId} {c x : MethodId}
    (h : r.MethodBecomes t args c x) : (r.method x).origin = .memberOf c := by
  obtain ⟨_, _, -, -, hx⟩ := h
  exact congrArg Method.origin hx

theorem MemberOf.declaring {t : TypeId} {c x : MethodId} (h : r.MemberOf t c x) :
    (r.method x).declaring = some t := by
  obtain ⟨_, _, _, -, -, hx⟩ := h.copied
  exact hx.declaring

theorem MemberOf.mono (hw : r.WellFormed) (hp : r.Persists r') {t : TypeId} {c x : MethodId}
    (h : r.MemberOf t c x) : r'.MemberOf t c x := by
  obtain ⟨kind, definition, args, hf, hc, hx⟩ := h.copied
  have hhx := has_of_declaring hx.declaring
  have hhc := has_of_declaring hc
  have hsig := hp.signature c hhc
  refine ⟨(congrArg Method.origin hsig).trans h.declared, kind, definition, args, ?_, ?_, ?_⟩
  · rw [hp.form (hw.declaring hhx hx.declaring), hf]
  · exact (congrArg Method.declaring hsig).trans hc
  · exact hx.mono hp hhc hhx

/-! ## lists in order -/

/-- Types list the fields and methods that they declare.  Members of an instance belong to different
members of its definition, and an instance has as many arguments as its definition has parameters. -/
structure Listed (r : Registry) : Prop where
  fields : ∀ t, ∀ f ∈ (r.type t).fields, (r.field f).declaring = t
  methods : ∀ t x, x ∈ (r.type t).methods ↔
    (r.method x).declaring = some t ∧ (r.method x).genericDefinition? = none
  nodup : ∀ t, (r.type t).methods.Nodup
  members : ∀ x c, (r.method x).origin = .memberOf c → ∃ t, r.MemberOf t c x
  single : ∀ x y c, (r.method x).origin = .memberOf c → (r.method y).origin = .memberOf c →
    (r.method x).declaring = (r.method y).declaring → x = y
  /-- instances of methods are made from methods that are no instances -/
  generics : ∀ x d, (r.method x).genericDefinition? = some d →
    (r.method d).genericDefinition? = none
  arity : ∀ t kind definition args, (r.type t).form = .instantiated kind definition args →
    (r.type definition).form.genericArgs.length = args.length

namespace Listed

/-- types that are no instances list methods that are members of no instance and instances of no
method -/
theorem origin (h : r.Listed) {t : TypeId} {x : MethodId} (hx : x ∈ (r.type t).methods)
    (hdef : (r.type t).form.definition? = none) : (r.method x).origin = .declared := by
  obtain ⟨hdecl, hgeneric⟩ := (h.methods t x).mp hx
  cases horigin : (r.method x).origin with
  | declared => rfl
  | instanceOf c =>
    rw [Method.genericDefinition?, horigin] at hgeneric
    cases hgeneric
  | memberOf c =>
    obtain ⟨u, hu⟩ := h.members x c horigin
    have hdecl' := hu.declaring
    rw [hdecl] at hdecl'
    cases hdecl'
    obtain ⟨_, _, _, hf, -⟩ := hu.copied
    rw [hf] at hdef
    cases hdef

/-- Lists stay in order while they stay as they are and no method is added. -/
theorem later (h : r.Listed) (hw : r.WellFormed) (hp : r.Persists r')
    (hsize : r'.methods.size = r.methods.size)
    (hfields : ∀ t, ∀ f ∈ (r'.type t).fields, (r'.field f).declaring = t)
    (hmethods : ∀ t, (r'.type t).methods = (r.type t).methods)
    (hnew : ∀ t, ¬ r.Has (.type t) → ∀ kind definition args,
      (r'.type t).form = .instantiated kind definition args →
      (r'.type definition).form.genericArgs.length = args.length) : r'.Listed := by
  have hsig : ∀ x, (r'.method x).signature = (r.method x).signature := by
    intro x
    by_cases hx : r.Has (.method x)
    · exact hp.signature x hx
    · have hx' : ¬ r'.Has (.method x) := by
        show ¬ x.index < r'.methods.size
        rw [hsize]
        exact hx
      rw [method_of_not_has hx, method_of_not_has hx']
  have horigin : ∀ x, (r'.method x).origin = (r.method x).origin := by
    intro x
    have hx := congrArg Method.origin (hsig x)
    exact hx
  have hdeclaring : ∀ x, (r'.method x).declaring = (r.method x).declaring := by
    intro x
    have hx := congrArg Method.declaring (hsig x)
    exact hx
  have hgeneric : ∀ x, (r'.method x).genericDefinition? = (r.method x).genericDefinition? := by
    intro x
    have hx := congrArg Method.genericDefinition? (hsig x)
    exact hx
  refine ⟨hfields, fun t x => ?_, fun t => ?_, fun x c hx => ?_, fun x y c hx hy hxy => ?_,
    fun x d hx => ?_, fun t kind definition args hf => ?_⟩
  · rw [hmethods, h.methods t x, hdeclaring, hgeneric]
  · rw [hmethods]
    exact h.nodup t
  · rw [horigin] at hx
    obtain ⟨t, ht⟩ := h.members x c hx
    exact ⟨t, ht.mono hw hp⟩
  · rw [horigin] at hx hy
    rw [hdeclaring, hdeclaring] at hxy
    exact h.single x y c hx hy hxy
  · rw [hgeneric] at hx ⊢
    exact h.generics x d hx
  · by_cases ht : r.Has (.type t)
    · rw [hp.form ht] at hf
      rw [hp.form (hw.definition ht (by rw [hf]; rfl)), h.arity t kind definition args hf]
    · exact hnew t ht kind definition args hf

/-- fields that were listed stay with their types -/
theorem fields_later (h : r.Listed) (hw : r.WellFormed) (hp : r.Persists r') {t : TypeId}
    {f : FieldId} (hf : f ∈ (r.type t).fields) : (r'.field f).declaring = t := by
  have ht : r.Has (.type t) := has_of_listed (.inl (List.ne_nil_of_mem hf))
  rw [hp.field f (hw.fieldOf ht hf), h.fields t f hf]

end Listed

theorem not_instantiated_of_size (hsize : r'.types.size = r.types.size) {t : TypeId}
    (ht : ¬ r.Has (.type t)) {kind : TypeKind} {definition : TypeId} {args : List TypeId} :
    (r'.type t).form ≠ .instantiated kind definition args := by
  have ht' : ¬ r'.Has (.type t) := by
    show ¬ t.index < r'.types.size
    rwa [hsize]
  rw [type_of_not_has ht']
  exact TypeForm.noConfusion

theorem Listed.same (h : r.Listed) (hw : r.WellFormed) (hp : r.Persists r')
    (htypes : r'.types.size = r.types.size) (hsize : r'.methods.size = r.methods.size)
    (hlists : ∀ t, (r'.type t).fields = (r.type t).fields ∧
      (r'.type t).methods = (r.type t).methods) : r'.Listed := by
  refine h.later hw hp hsize (fun t f hf => h.fields_later hw hp ?_) (fun t => (hlists t).2)
    fun t ht kind definition args hf => absurd hf (not_instantiated_of_size htypes ht)
  rwa [(hlists t).1] at hf

/-- a type at a place that was free is the new one, or the place is still free -/
theorem type_push_of_not_has (r : Registry) (d : TypeDecl) {t : TypeId} (ht : ¬ r.Has (.type t)) :
    (r.pushType d).type t = d ∨ (r.pushType d).type t = default := by
  simp only [type, pushType, Array.getD_eq_getD_getElem?, Array.getElem?_push]
  split
  · exact .inl rfl
  · right
    rw [Array.getElem?_eq_none (Nat.le_of_not_lt ht)]
    rfl

/-- a type can be added that lists nothing -/
theorem Listed.push_type (h : r.Listed) (hw : r.WellFormed) {d : TypeDecl} (hf : d.fields = [])
    (hm : d.methods = []) (hp : r.Persists (r.pushType d))
    (hnew : ∀ t, ¬ r.Has (.type t) → ∀ kind definition args,
      ((r.pushType d).type t).form = .instantiated kind definition args →
      ((r.pushType d).type definition).form.genericArgs.length = args.length) :
    (r.pushType d).Listed := by
  have hlists : ∀ t, ((r.pushType d).type t).fields = (r.type t).fields ∧
      ((r.pushType d).type t).methods = (r.type t).methods := by
    intro t
    by_cases ht : r.Has (.type t)
    · rw [(Grows.push_type r d).type ht]
      exact ⟨rfl, rfl⟩
    · rw [type_of_not_has ht]
      rcases type_push_of_not_has r d ht with hd | hd
      · rw [hd]
        exact ⟨hf, hm⟩
      · rw [hd]
        exact ⟨rfl, rfl⟩
  refine h.later hw hp rfl (fun t f hmem => h.fields_later hw hp ?_) (fun t => (hlists t).2) hnew
  rwa [(hlists t).1] at hmem

/-! ## records that change -/

/-- a type is as before, or it is the one that was changed -/
theorem type_modifyType (r : Registry) (t : TypeId) (f : TypeDecl → TypeDecl) (u : TypeId) :
    (r.modifyType t f).type u = r.type u ∨
      u = t ∧ (r.modifyType t f).type u = f (r.type u) := by
  simp only [Registry.type, Registry.modifyType, Array.getD_eq_getD_getElem?, Array.getElem?_modify]
  by_cases h : t.index = u.index
  · rw [if_pos h]
    cases hu : r.types[u.index]? with
    | none => exact .inl rfl
    | some d =>
      right
      refine ⟨?_, rfl⟩
      cases t
      cases u
      cases h
      rfl
  · rw [if_neg h]
    exact .inl rfl

theorem type_modifyType_self (r : Registry) {t : TypeId} (ht : r.Has (.type t))
    (f : TypeDecl → TypeDecl) : (r.modifyType t f).type t = f (r.type t) := by
  have hd : r.types[t.index]? = some r.types[t.index] := Array.getElem?_eq_getElem ht
  simp only [Registry.type, Registry.modifyType, Array.getD_eq_getD_getElem?, Array.getElem?_modify,
    hd, if_true, Option.map_some, Option.getD_some]

/-- what a change of one type leaves as it is -/
theorem of_modifyType {α : Type} (r : Registry) (t : TypeId) {f : TypeDecl → TypeDecl} {g : TypeDecl → α}
    (hg : ∀ d, g (f d) = g d) (u : TypeId) : g ((r.modifyType t f).type u) = g (r.type u) := by
  rcases type_modifyType r t f u with hu | ⟨-, hu⟩
  · rw [hu]
  · rw [hu, hg]

theorem Listed.list_field (h : r.Listed) (hw : r.WellFormed) {t : TypeId} {f : FieldId}
    (hf : (r.field f).declaring = t)
    (hp : r.Persists (r.modifyType t fun d => { d with fields := d.fields ++ [f] })) :
    (r.modifyType t fun d => { d with fields := d.fields ++ [f] }).Listed := by
  refine h.later hw hp rfl (fun u g hg => ?_)
    (of_modifyType r t (f := fun d => { d with fields := d.fields ++ [f] }) (g := TypeDecl.methods)
      fun _ => rfl)
    fun u hu kind definition args hform =>
      absurd hform (not_instantiated_of_size (by simp [Registry.modifyType]) hu)
  show (r.field g).declaring = u
  rcases type_modifyType r t (fun d => { d with fields := d.fields ++ [f] }) u with hsame | ⟨rfl, hsame⟩
  · rw [hsame] at hg
    exact h.fields u g hg
  · rw [hsame] at hg
    rcases List.mem_append.mp hg with hg | hg
    · exact h.fields u g hg
    · rw [List.mem_singleton.mp hg, hf]

/-! ## methods that are added -/

/-- `r` with a method that the type `t` lists -/
def enlist (r : Registry) (t : TypeId) (d : Method) : Registry :=
  Registry.modifyType { r with methods := r.methods.push d } t fun u =>
    { u with methods := u.methods ++ [⟨r.methods.size⟩] }

def nextMethod (r : Registry) : MethodId := ⟨r.methods.size⟩

theorem method_push_next (r : Registry) (d : Method) :
    Registry.method { r with methods := r.methods.push d } r.nextMethod = d := by
  rw [method_push]
  exact if_pos rfl

theorem method_push_of_ne (r : Registry) (d : Method) {m : MethodId} (hm : m ≠ r.nextMethod) :
    Registry.method { r with methods := r.methods.push d } m = r.method m := by
  rw [method_push, if_neg]
  intro h
  cases m
  exact hm (congrArg MethodId.mk h)

theorem not_has_nextMethod (r : Registry) : ¬ r.Has (.method r.nextMethod) := Nat.lt_irrefl _

theorem ne_nextMethod {m : MethodId} (hm : r.Has (.method m)) : m ≠ r.nextMethod := by
  rintro rfl
  exact r.not_has_nextMethod hm

theorem methods_enlist (r : Registry) {t : TypeId} (ht : r.Has (.type t)) (d : Method) (u : TypeId) :
    ((r.enlist t d).type u).methods = (r.type u).methods ++ if u = t then [r.nextMethod] else [] := by
  by_cases h : u = t
  · subst h
    rw [if_pos rfl, enlist, type_modifyType_self _ (by exact ht)]
    rfl
  · rw [if_neg h, List.append_nil]
    rcases type_modifyType { r with methods := r.methods.push d } t
      (fun c => { c with methods := c.methods ++ [r.nextMethod] }) u with hu | ⟨hut, -⟩
    · exact congrArg TypeDecl.methods hu
    · exact absurd hut h

theorem fields_enlist (r : Registry) (t : TypeId) (d : Method) (u : TypeId) :
    ((r.enlist t d).type u).fields = (r.type u).fields :=
  of_modifyType { r with methods := r.methods.push d } t
    (f := fun c => { c with methods := c.methods ++ [r.nextMethod] }) (g := TypeDecl.fields)
    (fun _ => rfl) u

theorem form_enlist (r : Registry) (t : TypeId) (d : Method) (u : TypeId) :
    ((r.enlist t d).type u).form = (r.type u).form :=
  of_modifyType { r with methods := r.methods.push d } t
    (f := fun c => { c with methods := c.methods ++ [r.nextMethod] }) (g := TypeDecl.form)
    (fun _ => rfl) u

section
variable (h : r.Listed) (hw : r.WellFormed) {d : Method}
include h hw

/-- A method can be added that is in the given lists, if it is the first one for the member of the
definition that it belongs to. -/
theorem Listed.push (hp : r.Persists r')
    (hmethod : ∀ x, r'.method x = Registry.method { r with methods := r.methods.push d } x)
    (hfields : ∀ t, ∀ f ∈ (r'.type t).fields, (r'.field f).declaring = t)
    (hform : ∀ t, (r'.type t).form = (r.type t).form)
    (hlists : ∀ t, (r'.type t).methods = (r.type t).methods ++
      if d.declaring = some t ∧ d.genericDefinition? = none then [r.nextMethod] else [])
    (hmember : ∀ c, d.origin = .memberOf c → (∃ t, r'.MemberOf t c r.nextMethod) ∧
      ∀ y, (r.method y).origin = .memberOf c → (r.method y).declaring ≠ d.declaring)
    (hgeneric : ∀ c, d.genericDefinition? = some c →
      r.Has (.method c) ∧ (r.method c).genericDefinition? = none) :
    r'.Listed := by
  have hnew : r'.method r.nextMethod = d := (hmethod _).trans (method_push_next r d)
  have hold : ∀ {x}, x ≠ r.nextMethod → r'.method x = r.method x := fun hx =>
    (hmethod _).trans (method_push_of_ne r d hx)
  refine ⟨hfields, fun t x => ?_, fun t => ?_, fun x c hx => ?_, fun x y c hx hy hxy => ?_,
    fun x c hx => ?_, fun t kind definition args hf => ?_⟩
  · rw [hlists, List.mem_append, h.methods t x]
    by_cases hx : x = r.nextMethod
    · subst hx
      rw [hnew, method_of_not_has r.not_has_nextMethod]
      constructor
      · rintro (⟨hnone, -⟩ | hin)
        · cases hnone
        · split at hin
          · assumption
          · cases hin
      · intro hd
        rw [if_pos hd]
        exact .inr (List.mem_singleton.mpr rfl)
    · rw [hold hx]
      refine or_iff_left ?_
      split
      · rwa [List.mem_singleton]
      · exact List.not_mem_nil
  · rw [hlists]
    split
    · refine List.nodup_append.mpr ⟨h.nodup t, List.pairwise_singleton _ _, fun x hx y hy => ?_⟩
      rw [List.mem_singleton.mp hy]
      exact ne_nextMethod (has_of_declaring ((h.methods t x).mp hx).1)
    · rw [List.append_nil]
      exact h.nodup t
  · by_cases hxn : x = r.nextMethod
    · subst hxn
      rw [hnew] at hx
      exact (hmember c hx).1
    · rw [hold hxn] at hx
      obtain ⟨t, ht⟩ := h.members x c hx
      exact ⟨t, ht.mono hw hp⟩
  · by_cases hxn : x = r.nextMethod
    · by_cases hyn : y = r.nextMethod
      · rw [hxn, hyn]
      · subst hxn
        rw [hnew] at hx hxy
        rw [hold hyn] at hy hxy
        exact absurd hxy.symm ((hmember c hx).2 y hy)
    · by_cases hyn : y = r.nextMethod
      · subst hyn
        rw [hnew] at hy hxy
        rw [hold hxn] at hx hxy
        exact absurd hxy ((hmember c hy).2 x hx)
      · rw [hold hxn] at hx hxy
        rw [hold hyn] at hy hxy
        exact h.single x y c hx hy hxy
  · obtain ⟨hhas, hnone⟩ : r.Has (.method c) ∧ (r.method c).genericDefinition? = none := by
      by_cases hxn : x = r.nextMethod
      · subst hxn
        rw [hnew] at hx
        exact hgeneric c hx
      · rw [hold hxn] at hx
        exact ⟨hw.genericDefinition (has_of_genericDefinition? hx) hx, h.generics x c hx⟩
    rw [hold (ne_nextMethod hhas), hnone]
  · rw [hform] at hf ⊢
    exact h.arity t kind definition args hf

theorem Listed.push_method (hp : r.Persists { r with methods := r.methods.push d })
    (hfree : d.declaring = none ∧ d.origin = .declared ∨ ∃ c, d.origin = .instanceOf c ∧
      r.Has (.method c) ∧ (r.method c).genericDefinition? = none) :
    Listed { r with methods := r.methods.push d } := by
  have hunlisted : ∀ t, ¬ (d.declaring = some t ∧ d.genericDefinition? = none) := by
    rintro t ⟨hd, hg⟩
    rcases hfree with ⟨hnone, -⟩ | ⟨c, hc, -⟩
    · rw [hnone] at hd
      cases hd
    · rw [Method.genericDefinition?, hc] at hg
      cases hg
  refine h.push hw hp (fun _ => rfl) h.fields (fun _ => rfl) (fun t => ?_) (fun c hc => ?_) fun c hc => ?_
  · rw [if_neg (hunlisted t), List.append_nil]
    rfl
  · rcases hfree with ⟨-, ho⟩ | ⟨_, ho, -⟩ <;> rw [ho] at hc <;> cases hc
  · rcases hfree with ⟨-, ho⟩ | ⟨c', ho, hhas, hg⟩
    · rw [Method.genericDefinition?, ho] at hc
      cases hc
    · rw [Method.genericDefinition?, ho] at hc
      cases hc
      exact ⟨hhas, hg⟩

/-- A type can get a method that it declares.  If it is the member for a method of the definition, it
must be the first one. -/
theorem Listed.enlist {t : TypeId} (ht : r.Has (.type t)) (hd : d.declaring = some t)
    (hg : d.genericDefinition? = none) (hp : r.Persists (r.enlist t d))
    (hmember : ∀ c, d.origin = .memberOf c → (r.enlist t d).MemberOf t c r.nextMethod ∧
      ∀ y, (r.method y).origin = .memberOf c → (r.method y).declaring ≠ some t) :
    (r.enlist t d).Listed := by
  refine h.push hw hp (fun _ => rfl) (fun u f hf => ?_) (fun u => ?_) (fun u => ?_) (fun c hc => ?_)
    fun c hc => ?_
  · refine h.fields_later hw hp ?_
    rwa [fields_enlist] at hf
  · exact form_enlist r t d u
  · rw [methods_enlist r ht, hd]
    simp only [Option.some.injEq, hg, and_true, eq_comm]
  · obtain ⟨hm, hfirst⟩ := hmember c hc
    rw [hd]
    exact ⟨⟨t, hm⟩, hfirst⟩
  · rw [hg] at hc
    cases hc

end

end Registry

end ProgramScan

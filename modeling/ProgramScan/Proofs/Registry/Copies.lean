import ProgramScan.Proofs.Registry.MethodInstances

/-!
# Methods that are copies of others

A member of a generic instance is a copy of a member of the definition, and an instance of a generic
method is a copy of that method.  A copy has the name, the access, the modifiers and the annotations of
the method that it comes from.  An instance of a method is remembered under the key of the method and
the keys of the arguments; the names in it are in use then, so it can be found under the same key later.

* `Method.traits`            what a copy has from the method that it comes from;
* `Registry.Copying`         copies have these traits, and definitions list methods that are no copies;
* `Registry.Signed`          instances of methods have the signatures of their definitions, substituted;
* `Registry.MethodMemo`      what is remembered as an instance of a method is one with its key;
* `Registry.Coherent`        a program in order, of which all this holds;
* `Coherent.apply`           an edit keeps it so, also if it fails;
* `Built.coherent`           it holds of every program that was built;
* `Coherent.instanceKey_eq`  what is found for a method and arguments is an instance with the key that
                             they have.
-/

namespace ProgramScan

def Method.traits (d : Method) : Method :=
  { d with
    declaring := none, returnType := ⟨0⟩, params := [], genericArgs := [], origin := .declared,
    body := none }

theorem Method.traits_of_signature {d d' : Method} (h : d'.signature = d.signature) :
    d'.traits = d.traits := by
  show d'.signature.traits = d.signature.traits
  rw [h]

namespace Registry

variable {r r' : Registry} {I : Registry → Prop}

/-! ## copies -/

/-- Types list their own methods, definitions list methods that are no copies, and copies have the
traits of the methods that they come from. -/
structure Copying (r : Registry) : Prop where
  owned : r.Owned
  alike : ∀ x d, (r.method x).origin.source? = some d →
    r.Has (.method d) ∧ (r.method x).traits = (r.method d).traits
  declared : ∀ t, (r.type t).form.definition? = none → ∀ m ∈ (r.type t).methods,
    (r.method m).origin = .declared

theorem Copying.quiet (h : r.Copying) (hq : Quiet r r') : r'.Copying := by
  refine ⟨h.owned.quiet hq, fun x d hx => ?_, fun t ht m hmem => ?_⟩
  · rw [hq.method] at hx ⊢
    obtain ⟨hd, htraits⟩ := h.alike x d hx
    refine ⟨?_, htraits⟩
    show d.index < r'.methods.size
    rw [hq.methods]
    exact hd
  · rw [hq.listed] at hmem
    rw [hq.method]
    have hhas : r.Has (.type t) := by
      by_contra hnot
      rw [type_of_not_has hnot] at hmem
      cases hmem
    exact h.declared t ((hq.forms t hhas).2 ▸ ht) m hmem

theorem Copying.push_method (h : r.Copying) {d : Method}
    (hd : ∀ c, d.origin.source? = some c → r.Has (.method c) ∧ d.traits = (r.method c).traits) :
    Copying { r with methods := r.methods.push d } := by
  refine ⟨h.owned.push_method d, fun x c hx => ?_, fun t ht m hmem => ?_⟩
  · have hsource : r.Has (.method c) ∧
        (Registry.method { r with methods := r.methods.push d } x).traits =
          (r.method c).traits := by
      rw [method_push] at hx ⊢
      split at hx
      · rename_i hnew
        rw [if_pos hnew]
        exact hd c hx
      · rename_i hold
        rw [if_neg hold]
        exact h.alike x c hx
    rw [method_push_of_has r d hsource.1]
    exact ⟨has_push_method r d hsource.1, hsource.2⟩
  · have hown := h.owned t m hmem
    rw [method_push_of_has r d (has_of_declaring hown.1)]
    exact h.declared t ht m hmem

theorem Copying.list (h : r.Copying) {t : TypeId} {m : MethodId}
    (hd : (r.method m).declaring = some t) (hg : (r.method m).genericDefinition? = none)
    (ht : r.IsInstance t ∨ (r.method m).origin = .declared) : (r.listIn t m).Copying := by
  refine ⟨h.owned.list hd hg, h.alike, fun u hu c hmem => ?_⟩
  show (r.method c).origin = .declared
  rcases type_modifyType r t (fun d => { d with methods := d.methods ++ [m] }) u with heq | ⟨rfl, heq⟩
  · rw [listIn, heq] at hu hmem
    exact h.declared u hu c hmem
  · rw [listIn, heq] at hu hmem
    rcases List.mem_append.mp hmem with hc | hc
    · exact h.declared u hu c hc
    · rw [List.mem_singleton.mp hc]
      refine ht.resolve_left fun hinst => ?_
      rw [IsInstance, show (r.type u).form.definition? = none from hu] at hinst
      cases hinst

theorem kept_copying : Kept Copying where
  owned h := h.owned
  quiet h hq := h.quiet hq
  declare h hd := h.push_method fun c hc => by
    rw [hd] at hc
    cases hc
  list h hd ho := h.list hd (genericDefinition?_of_declared ho) (.inr ho)
  copy {r inst m returnType params} h hm hinst := by
    have hnew := method_push r (memberRecord (r.method m) m inst returnType params)
      ⟨r.methods.size⟩
    rw [if_pos rfl] at hnew
    have hpush := h.push_method (d := memberRecord (r.method m) m inst returnType params)
      fun c hc => by
        cases hc
        exact ⟨hm, rfl⟩
    exact hpush.list (by rw [hnew]; rfl) (by rw [hnew]; rfl) (.inl hinst)
  body {r m body} h := by
    have hsame := signature_modifyMethod r m body
    refine ⟨h.owned.body m body, fun x d hx => ?_, fun t ht c hmem => ?_⟩
    · obtain ⟨hd, htraits⟩ := h.alike x d ((congrArg (·.origin.source?) (hsame x)).symm.trans hx)
      refine ⟨((Retains.body r m body).signatures d hd).1, ?_⟩
      rw [Method.traits_of_signature (hsame x), Method.traits_of_signature (hsame d), htraits]
    · exact (congrArg Method.origin (hsame c)).trans (h.declared t ht c hmem)

theorem Kept.and_methodInstances (hI : Kept I) (base : Registry) :
    Kept fun s => I s ∧ s.methodInstances = base.methodInstances where
  owned h := hI.owned h.1
  quiet h hq := ⟨hI.quiet h.1 hq, hq.methodInstances.trans h.2⟩
  declare h hd := ⟨hI.declare h.1 hd, h.2⟩
  list h hd ho := ⟨hI.list h.1 hd ho, h.2⟩
  copy h hm hinst := ⟨hI.copy h.1 hm hinst, h.2⟩
  body h := ⟨hI.body h.1, h.2⟩

/-! ## making an instance of a method -/

theorem instanceRecord_congr {d : MethodId} (h : (r'.method d).signature = (r.method d).signature)
    (args : List TypeId) (returnType : TypeId) (params : List Param) :
    r'.instanceRecord d args returnType params = r.instanceRecord d args returnType params := by
  simp only [Method.signature, Method.mk.injEq] at h
  simp [instanceRecord, h]

def withInstance (r : Registry) (key : String) (d : MethodId) (args : List TypeId)
    (returnType : TypeId) (params : List Param) : Registry :=
  { r with
    methods := r.methods.push (r.instanceRecord d args returnType params)
    methodInstances := r.methodInstances.insert key ⟨r.methods.size⟩ }

theorem method_withInstance (r : Registry) (key : String) (d : MethodId) (args : List TypeId)
    (returnType : TypeId) (params : List Param) :
    (r.withInstance key d args returnType params).method ⟨r.methods.size⟩ =
      r.instanceRecord d args returnType params := by
  have hnew := method_push r (r.instanceRecord d args returnType params) ⟨r.methods.size⟩
  rw [if_pos rfl] at hnew
  exact hnew

theorem Copying.withInstance (h : r.Copying) {d : MethodId} (hd : r.Has (.method d)) (key : String)
    (args : List TypeId) (returnType : TypeId) (params : List Param) :
    (r.withInstance key d args returnType params).Copying := by
  have hpush := h.push_method (d := r.instanceRecord d args returnType params) fun c hc => by
    cases hc
    exact ⟨hd, rfl⟩
  exact ⟨hpush.owned, hpush.alike, hpush.declared⟩

section
variable {d : MethodId} {args : List TypeId}

variable (args) in
/-- What is kept while an instance of a method is made holds up to where it is added. -/
theorem makeMethodInstance_ends (hI : Kept I) {noted : Registry} (h : I noted)
    (hr : r.Retains noted) (hd : r.Has (.method d)) :
    (∀ x r', makeMethodInstance r d args noted = .ok x r' → ∃ s returnType params,
      I s ∧ s.Has (.method d) ∧ x = ⟨s.methods.size⟩ ∧
      r' = s.withInstance (r.methodInstanceKey d args) d args returnType params) ∧
    ∀ e r', makeMethodInstance r d args noted = .error e r' → I r' := by
  have hJ := hI.and_retains r
  have hreturn := keeps_substitute hJ ⟨r.declaringArgs d, args⟩ (r.method d).returnType
  have hparams := keeps_substituteParams (keeps_substitute hJ ⟨r.declaringArgs d, args⟩)
    (r.method d).params
  refine ⟨fun x r' hrun => ?_, fun e r' hrun => ?_⟩
  · obtain ⟨returnType, s₁, h₁, hrun⟩ := bind_eq_ok_iff.mp hrun
    obtain ⟨params, s₂, h₂, hrun⟩ := bind_eq_ok_iff.mp hrun
    obtain ⟨hI₁, -⟩ := hreturn.ok ⟨h, hr⟩ h₁
    obtain ⟨⟨hI₂, hr₂⟩, -⟩ := hparams.ok hI₁ h₂
    obtain ⟨hd₂, hsame⟩ := hr₂.signatures d hd
    refine ⟨s₂, returnType, params, hI₂, hd₂, ?_⟩
    rw [withInstance, instanceRecord_congr hsame]
    cases hrun
    exact ⟨rfl, rfl⟩
  · rcases bind_eq_error_iff.mp hrun with h₁ | ⟨returnType, s₁, h₁, hrun⟩
    · exact (hreturn.error ⟨h, hr⟩ h₁).1
    obtain ⟨hI₁, -⟩ := hreturn.ok ⟨h, hr⟩ h₁
    rcases bind_eq_error_iff.mp hrun with h₂ | ⟨params, s₂, h₂, hrun⟩
    · exact (hparams.error hI₁ h₂).1
    · cases hrun

end

/-! ## signatures of instances of methods -/

/-- An instance of a method has the signature of its definition, with the arguments of the declaring type
and those of the instance for the parameters. -/
def Signed (r : Registry) : Prop :=
  ∀ x d, (r.method x).genericDefinition? = some d →
    r.SignatureBecomes ⟨r.declaringArgs d, (r.method x).genericArgs⟩ (r.method d) (r.method x)

theorem Persists.genericArgs (hp : r.Persists r') {m : MethodId} (hm : r.Has (.method m)) :
    (r'.method m).genericArgs = (r.method m).genericArgs := by
  have hargs := congrArg Method.genericArgs (hp.signature m hm)
  exact hargs

theorem Persists.declaringArgs (hp : r.Persists r') (hw : r.WellFormed) {m : MethodId}
    (hm : r.Has (.method m)) : r'.declaringArgs m = r.declaringArgs m := by
  have hdeclaring := congrArg Method.declaring (hp.signature m hm)
  change (r'.method m).declaring = (r.method m).declaring at hdeclaring
  simp only [Registry.declaringArgs, hdeclaring]
  cases hd : (r.method m).declaring with
  | none => rfl
  | some t => simp only [hp.form (hw.declaring hm hd)]

/-- instances that are there keep their signatures -/
theorem Signed.later (h : r.Signed) (hw : r.WellFormed) (hp : r.Persists r')
    (hnew : ∀ x d, r.methods.size ≤ x.index → (r'.method x).genericDefinition? = some d →
      r'.SignatureBecomes ⟨r'.declaringArgs d, (r'.method x).genericArgs⟩ (r'.method d)
        (r'.method x)) : r'.Signed := by
  intro x d hx
  by_cases hhas : r.Has (.method x)
  · have hdef := (congrArg Method.genericDefinition? (hp.signature x hhas)).symm.trans hx
    change (r.method x).genericDefinition? = some d at hdef
    have hd := hw.genericDefinition hhas hdef
    rw [hp.declaringArgs hw hd, hp.genericArgs hhas]
    exact (h x d hdef).mono hp hd hhas
  · exact hnew x d (Nat.not_lt.mp hhas) hx

section
variable {n : Nat} {m : MethodId} {args : List TypeId}

/-- a new instance of a method is the one that was asked for, and has the signature that it should -/
theorem signed_instantiateMethod (ho : r.Orderly) (hm : r.Has (.method m))
    (ha : ∀ a ∈ args, r.Has (.type a)) (h : Belonging n r) :
    (∀ x r', instantiateMethod m args r = .ok x r' → ∀ y d, n ≤ y.index →
      (r'.method y).genericDefinition? = some d →
      r'.SignatureBecomes ⟨r'.declaringArgs d, (r'.method y).genericArgs⟩ (r'.method d)
        (r'.method y)) ∧
    ∀ e r', instantiateMethod m args r = .error e r' → Belonging n r' := by
  let d := r.methodDefinitionOf m
  let noted := (r.useNames (r.methodUses d)).useNames args
  have hw := ho.wellFormed
  have hd : r.Has (.method d) := hw.methodDefinitionOf hm
  have hs : Step [] r noted := (Step.useNames ho _).trans (Step.useNames (ho.useNames _) _)
  have hquiet : Quiet r noted := (Quiet.useNames r _).trans (.useNames _ _)
  have hnoted : Belonging n noted := h.quiet hquiet
  have hnone : ∀ {s : Registry}, Belonging n s → ∀ y c, n ≤ y.index →
      (s.method y).genericDefinition? ≠ some c := by
    intro s hs y c hy hc
    rw [hs.declared y hy] at hc
    cases hc
  obtain ⟨e, happly⟩ | ⟨-, ⟨inst, -, happly⟩ | ⟨-, happly⟩⟩ := instantiateMethod_cases r m args
  · rw [happly]
    refine ⟨fun _ _ hrun => (by cases hrun), fun _ _ hrun => ?_⟩
    cases hrun
    exact h.quiet (.useNames r _)
  · rw [happly]
    refine ⟨fun _ _ hrun y c hy hc => ?_, fun _ _ hrun => (by cases hrun)⟩
    cases hrun
    exact absurd hc (hnone hnoted y c hy)
  · rw [happly]
    obtain ⟨hok, herror⟩ := makeMethodInstance_ends (r := r) (d := d) args (kept_belonging n) hnoted
      (.of_quiet hquiet) hd
    have hmake := changes_makeMethodInstance ho hd ha (genericDefinition_methodDefinitionOf hm) hs
    refine ⟨fun x r' hrun y c hy hc => ?_, herror⟩
    obtain ⟨hstep, -, hsignature⟩ := hmake.ok hrun
    have hp := hs.persists.trans hstep.persists
    obtain ⟨s, returnType, params, hbelongs, hds, rfl, rfl⟩ := hok x r' hrun
    -- no other method is new and an instance
    have hrecord := method_withInstance s (r.methodInstanceKey d args) d args returnType params
    have hlast : y = ⟨s.methods.size⟩ := by
      by_contra hne
      have hold : (s.withInstance (r.methodInstanceKey d args) d args returnType params).method y =
          s.method y := method_push_of_ne s (s.instanceRecord d args returnType params) hne
      rw [hold] at hc
      exact hnone hbelongs y c hy hc
    subst hlast
    rw [hrecord] at hc
    obtain rfl : d = c := Option.some.inj hc
    have hargs : (Registry.method (s.withInstance (r.methodInstanceKey d args) d args returnType
        params) ⟨s.methods.size⟩).genericArgs = args := by
      rw [hrecord]
      rfl
    rw [hp.declaringArgs hw hd, hargs]
    show SignatureBecomes _ _ (Registry.method _ d).signature _
    rw [hp.signature d hd]
    exact hsignature

end

/-- edits keep the signatures of instances -/
theorem Signed.apply (h : r.Signed) (ho : r.Orderly) (hown : r.Owned) {e : Edit}
    (he : e.Fits r) : (e.apply r).Signed := by
  refine h.later ho.wellFormed (ho.apply he).persists ?_
  by_cases hm : ∃ m args, e = .instantiateMethod m args
  · obtain ⟨m, args, rfl⟩ := hm
    have hitems := he.1
    simp only [Edit.items, List.forall_mem_cons, List.forall_mem_map] at hitems
    obtain ⟨hok, herror⟩ := signed_instantiateMethod ho hitems.1 hitems.2 hown.belonging
    obtain ⟨x, hx⟩ | ⟨err, hx⟩ := Edit.instantiateMethod_apply m args r
    · exact hok x _ hx
    · intro y c hy hc
      rw [(herror _ _ hx).declared y hy] at hc
      cases hc
  · intro y c hy hc
    rw [(belonging_apply (fun m args heq => hm ⟨m, args, heq⟩) hown.belonging).declared y hy] at hc
    cases hc

/-! ## keys of methods -/

/-- the types that the name of a method with the record `d` shows -/
def methodUsesOf (d : Method) : List TypeId :=
  (if d.isConstructor then [] else [d.returnType]) ++ d.declaring.toList ++
    (if d.isGenericInstance then d.genericArgs else []) ++ (shownParams d.params).map (·.type)

def methodKeyOf (r : Registry) (d : Method) : String :=
  "M:" ++ (match d.declaring with
    | some t => r.moduleName (r.type t).module
    | none => "") ++ ":" ++
  ((if d.isConstructor then "System.Void" else r.fullName d.returnType) ++ "  " ++
    (match d.declaring with
      | some t => r.fullName t
      | none => "dynamic_method") ++ "." ++ d.name ++
    (if d.isGenericInstance && !d.genericArgs.isEmpty then "<" ++ r.nameList d.genericArgs ++ ">"
      else "") ++
    "(" ++ r.nameList ((shownParams d.params).map (·.type)) ++ ")")

theorem methodUses_eq (r : Registry) (m : MethodId) :
    r.methodUses m = methodUsesOf (r.method m).signature := rfl

theorem methodUses_useNames (r : Registry) (ts : List TypeId) (m : MethodId) :
    (r.useNames ts).methodUses m = r.methodUses m := rfl

theorem methodKey_eq (r : Registry) (m : MethodId) :
    r.methodKey m = r.methodKeyOf (r.method m).signature := rfl

section
variable (ho : r.Orderly) (hp : r.Persists r')
include ho hp

omit ho in
theorem Persists.methodUses {m : MethodId} (hm : r.Has (.method m)) :
    r'.methodUses m = r.methodUses m := by
  rw [methodUses_eq, methodUses_eq, hp.signature m hm]

/-- the key of a method stays as long as the names in it do -/
theorem Orderly.methodKey {m : MethodId} (hm : r.Has (.method m))
    (hf : ∀ t ∈ r.methodUses m, r.NameFixed t) : r'.methodKey m = r.methodKey m := by
  have hw := ho.wellFormed
  have hname : ∀ t ∈ r.methodUses m, r.Has (.type t) → r'.fullName t = r.fullName t :=
    fun t ht hhas => hp.fullName t hhas (hf t ht)
  simp only [methodUses_eq, methodUsesOf, List.mem_append] at hname
  rw [methodKey_eq, methodKey_eq, hp.signature m hm]
  -- the record is the same now, and each name in the key is that of a type in use
  let d := (r.method m).signature
  have hmodule : (match d.declaring with
      | some t => r'.moduleName (r'.type t).module
      | none => "") = (match d.declaring with
      | some t => r.moduleName (r.type t).module
      | none => "") := by
    cases hd : d.declaring with
    | none => rfl
    | some t =>
      have ht : r.Has (.type t) := hw.declaring hm hd
      simp only [hp.home ht, hp.moduleName _ (ho.placed t ht).home]
  have hresult : (if d.isConstructor then "System.Void" else r'.fullName d.returnType) =
      (if d.isConstructor then "System.Void" else r.fullName d.returnType) := by
    split
    · rfl
    · rename_i hc
      exact hname _ (.inl (.inl (.inl (by simp [d, hc])))) (hw.returnType hm)
  have howner : (match d.declaring with
      | some t => r'.fullName t
      | none => "dynamic_method") = (match d.declaring with
      | some t => r.fullName t
      | none => "dynamic_method") := by
    cases hd : d.declaring with
    | none => rfl
    | some t => exact hname t (.inl (.inl (.inr (by simp [d, hd])))) (hw.declaring hm hd)
  have hargs : (if d.isGenericInstance && !d.genericArgs.isEmpty then
        "<" ++ r'.nameList d.genericArgs ++ ">" else "") =
      (if d.isGenericInstance && !d.genericArgs.isEmpty then
        "<" ++ r.nameList d.genericArgs ++ ">" else "") := by
    split
    · rename_i hi
      have hi : d.isGenericInstance = true := (Bool.and_eq_true_iff.mp hi).1
      have hlist : d.genericArgs.map r'.fullName = d.genericArgs.map r.fullName :=
        List.map_congr_left fun t ht =>
          hname t (.inl (.inr (by simp [d, hi, ht]))) (hw.genericArg hm ht)
      simp only [nameList, hlist]
    · rfl
  have hshown : r'.nameList ((shownParams d.params).map (·.type)) =
      r.nameList ((shownParams d.params).map (·.type)) := by
    refine congrArg (String.intercalate ", ") (List.map_congr_left fun t ht => hname t (.inr ht) ?_)
    obtain ⟨p, hmem, rfl⟩ := List.mem_map.mp ht
    exact hw.param hm (List.mem_map_of_mem (mem_of_mem_shownParams hmem))
  unfold methodKeyOf
  rw [hmodule, hresult, howner, hargs, hshown]

theorem Orderly.methodInstanceKey {d : MethodId} {args : List TypeId} (hd : r.Has (.method d))
    (ha : ∀ a ∈ args, r.Has (.type a)) (hused : ∀ t ∈ r.methodUses d ++ args, t ∈ r.usedNames) :
    r'.methodInstanceKey d args = r.methodInstanceKey d args := by
  have hkey := ho.methodKey hp hd fun t ht => .inl (hused t (List.mem_append_left _ ht))
  have hargs : args.map r'.typeKey = args.map r.typeKey := List.map_congr_left fun a h =>
    ho.typeKey hp (ha a h) (.inl (hused a (List.mem_append_right _ h)))
  simp only [Registry.methodInstanceKey, Registry.instanceKey, hkey, hargs]

end

/-! ## instances of methods that are remembered -/

/-- `x` is an instance of a method with this key, and the names in the key are in use. -/
def FiledUnder (r : Registry) (key : String) (x : MethodId) : Prop :=
  ∃ d, (r.method x).genericDefinition? = some d ∧
    key = r.methodInstanceKey d (r.method x).genericArgs ∧
    ∀ t ∈ r.methodUses d ++ (r.method x).genericArgs, t ∈ r.usedNames

theorem FiledUnder.persists (ho : r.Orderly) (hp : r.Persists r') {key : String} {x : MethodId}
    (h : r.FiledUnder key x) : r'.FiledUnder key x := by
  obtain ⟨d, hdef, hkey, hused⟩ := h
  have hx := has_of_genericDefinition? hdef
  have hd := ho.wellFormed.genericDefinition hx hdef
  have hsame := hp.signature x hx
  have hdef' := congrArg Method.genericDefinition? hsame
  have hargs := hp.genericArgs hx
  refine ⟨d, hdef'.trans hdef, ?_, fun t ht => hp.used (hused t ?_)⟩
  · rw [hargs, ho.methodInstanceKey hp hd (fun a ha => ho.wellFormed.genericArg hx ha) hused, hkey]
  · rwa [hargs, hp.methodUses hd] at ht

/-- What is remembered as an instance of a method is one, under its key. -/
def MethodMemo (r : Registry) : Prop :=
  ∀ key x, r.methodInstances.get? key = some x → r.FiledUnder key x

theorem MethodMemo.persists (h : r.MethodMemo) (ho : r.Orderly) (hp : r.Persists r')
    (hsame : r'.methodInstances = r.methodInstances) : r'.MethodMemo :=
  fun key x hk => (h key x (hsame ▸ hk)).persists ho hp

theorem memo_withInstance {key : String} {d : MethodId} {args : List TypeId} {returnType : TypeId}
    {params : List Param}
    (hold : ∀ k x, r.methodInstances.get? k = some x →
      (r.withInstance key d args returnType params).FiledUnder k x)
    (hkey : key = (r.withInstance key d args returnType params).methodInstanceKey d args)
    (hused : ∀ t ∈ (r.withInstance key d args returnType params).methodUses d ++ args,
      t ∈ (r.withInstance key d args returnType params).usedNames) :
    (r.withInstance key d args returnType params).MethodMemo := by
  have hrecord := method_withInstance r key d args returnType params
  intro k x hk
  change (r.methodInstances.insert key ⟨r.methods.size⟩).get? k = some x at hk
  by_cases hnew : k = key
  · rw [hnew, Table.get?_insert_self] at hk
    rw [← Option.some.inj hk, hnew]
    refine ⟨d, by rw [hrecord]; rfl, ?_, ?_⟩
    · rw [hrecord]
      exact hkey
    · rw [hrecord]
      exact hused
  · rw [Table.get?_insert_of_ne _ _ hnew] at hk
    exact hold k x hk

/-! ## programs in order -/

/-- An orderly program in which copies are like the methods that they come from, and instances of
methods are found under their keys. -/
structure Coherent (r : Registry) : Prop where
  orderly : r.Orderly
  listed : r.Listed
  patterned : r.Patterned
  copying : r.Copying
  memo : r.MethodMemo
  signed : r.Signed

namespace Coherent

variable (h : r.Coherent)
include h

theorem wellFormed : r.WellFormed := h.orderly.wellFormed

/-- What `instantiateMethod` answers is remembered under the key that was asked for; copies and
remembered instances stay in order, also if it fails. -/
theorem ends_instantiateMethod {m : MethodId} {args : List TypeId} (hm : r.Has (.method m))
    (ha : ∀ a ∈ args, r.Has (.type a)) :
    (∀ x r', instantiateMethod m args r = .ok x r' → (r'.Copying ∧ r'.MethodMemo) ∧
      r'.methodInstances.get? (r.methodInstanceKey (r.methodDefinitionOf m) args) = some x) ∧
    ∀ e r', instantiateMethod m args r = .error e r' → r'.Copying ∧ r'.MethodMemo := by
  let d := r.methodDefinitionOf m
  let noted := (r.useNames (r.methodUses d)).useNames args
  have hd : r.Has (.method d) := h.wellFormed.methodDefinitionOf hm
  have ho := h.orderly
  have hs : Step [] r noted := (Step.useNames ho _).trans (Step.useNames (ho.useNames _) _)
  have hkeeps : ∀ {s : Registry}, r.Persists s → s.Copying ∧ s.methodInstances = r.methodInstances →
      s.Copying ∧ s.MethodMemo := fun hp hI => ⟨hI.1, h.memo.persists ho hp hI.2⟩
  have hquiet : Quiet r noted := (Quiet.useNames r _).trans (.useNames _ _)
  have hnoted : noted.Copying := h.copying.quiet hquiet
  obtain ⟨e, happly⟩ | ⟨-, ⟨inst, hknown, happly⟩ | ⟨-, happly⟩⟩ := instantiateMethod_cases r m args
  · rw [happly]
    refine ⟨fun _ _ hrun => (by cases hrun), fun _ _ hrun => ?_⟩
    cases hrun
    exact hkeeps (.useNames r _) ⟨h.copying.quiet (.useNames r _), rfl⟩
  · rw [happly]
    refine ⟨fun _ _ hrun => ?_, fun _ _ hrun => (by cases hrun)⟩
    cases hrun
    exact ⟨hkeeps hs.persists ⟨hnoted, hquiet.methodInstances⟩, hknown⟩
  · rw [happly]
    obtain ⟨hok, herror⟩ := makeMethodInstance_ends (r := r) (d := d) args
      (kept_copying.and_methodInstances r) ⟨hnoted, hquiet.methodInstances⟩ (.of_quiet hquiet) hd
    have hmake := changes_makeMethodInstance ho hd ha (genericDefinition_methodDefinitionOf hm) hs
    refine ⟨fun x r' hrun => ?_, fun e r' hrun =>
      hkeeps (hs.persists.trans (hmake.error hrun).persists) (herror e r' hrun)⟩
    have hp := (hmake.ok hrun).1.persists
    obtain ⟨s, returnType, params, ⟨hcopying, hmemo⟩, hds, rfl, rfl⟩ := hok x r' hrun
    -- the names in the key were noted before the instance was made
    have hused : ∀ t ∈ noted.methodUses d ++ args, t ∈ noted.usedNames := by
      rw [methodUses_useNames, methodUses_useNames]
      intro t ht
      rcases List.mem_append.mp ht with ht | ht
      · exact usedNames_subset_useNames _ _ (mem_usedNames_useNames r _ ht)
      · exact mem_usedNames_useNames _ _ ht
    have hkey := hs.orderly.methodInstanceKey hp (hs.persists.has _ hd)
      (fun a hmem => hs.persists.has _ (ha a hmem)) hused
    have hg : r.Grows noted := (Grows.useNames r _).trans (.useNames _ _)
    rw [hg.methodInstanceKey h.wellFormed hd ha] at hkey
    refine ⟨⟨hcopying.withInstance hds _ _ _ _, memo_withInstance (fun key y hk => ?_) hkey.symm ?_⟩,
      Table.get?_insert_self _ _ _⟩
    · exact (h.memo key y (hmemo ▸ hk)).persists ho (hs.persists.trans hp)
    · intro t ht
      rw [hp.methodUses (hs.persists.has _ hd)] at ht
      exact hp.used (hused t ht)

/-- **An edit keeps a program in order**, also if it fails. -/
theorem apply {e : Edit} (he : e.Fits r) : (e.apply r).Coherent := by
  have hafter := h.orderly.apply he
  obtain ⟨-, hpatterned⟩ := h.orderly.owned_and_patterned_apply h.copying.owned h.patterned he
  suffices hends : (e.apply r).Copying ∧ (e.apply r).MethodMemo from
    ⟨hafter.orderly, hafter.listed h.listed, hpatterned, hends.1, hends.2,
      h.signed.apply h.orderly h.copying.owned he⟩
  by_cases hm : ∃ m args, e = .instantiateMethod m args
  · obtain ⟨m, args, rfl⟩ := hm
    have hitems := he.1
    simp only [Edit.items, List.forall_mem_cons, List.forall_mem_map] at hitems
    obtain ⟨hok, herror⟩ := h.ends_instantiateMethod hitems.1 hitems.2
    obtain ⟨x, hx⟩ | ⟨err, hx⟩ := Edit.instantiateMethod_apply m args r
    · exact (hok x _ hx).1
    · exact herror _ _ hx
  · have hkeeps := keeps_edit (kept_copying.and_methodInstances r)
      fun m args heq => hm ⟨m, args, heq⟩
    have hends : (e.apply r).Copying ∧ (e.apply r).methodInstances = r.methodInstances := by
      obtain hrun | ⟨err, hrun⟩ := e.action_apply r
      · exact (hkeeps.ok ⟨h.copying, rfl⟩ hrun).1
      · exact hkeeps.error ⟨h.copying, rfl⟩ hrun
    exact ⟨hends.1, h.memo.persists h.orderly hafter.persists hends.2⟩

theorem useNames (ts : List TypeId) : (r.useNames ts).Coherent where
  orderly := h.orderly.useNames ts
  listed := (Step.useNames h.orderly ts : Step [] r (r.useNames ts)).listed h.listed
  patterned x d hx :=
    (h.patterned x d hx).persists h.orderly (.useNames r ts)
  copying := h.copying.quiet (.useNames r ts)
  memo := h.memo.persists h.orderly (.useNames r ts) rfl
  signed x d hx :=
    have hhas := has_of_genericDefinition? hx
    (h.signed x d hx).mono (.useNames r ts) (h.wellFormed.genericDefinition hhas hx) hhas

theorem of_edit {e : Edit} (he : e.Fits r) :
    (∀ {a}, e.action r = .ok a r' → r'.Coherent) ∧
      ∀ {err}, e.action r = .error err r' → r'.Coherent := by
  have hdone := h.apply he
  rw [Edit.apply] at hdone
  refine ⟨fun hrun => ?_, fun hrun => ?_⟩
  · rwa [hrun] at hdone
  · rwa [hrun] at hdone

/-- **What is found for a method and arguments** is an instance of a method, with the key that they
have. -/
theorem instanceKey_eq {m x : MethodId} {args : List TypeId} (hm : r.Has (.method m))
    (ha : ∀ a ∈ args, r.Has (.type a)) (hset : Settled (instantiateMethod m args) x r) :
    ∃ d, r.MethodInstance d (r.method x).genericArgs x ∧
      r.methodInstanceKey d (r.method x).genericArgs =
        r.methodInstanceKey (r.methodDefinitionOf m) args := by
  obtain ⟨s, hrun, hforget⟩ := hset.run h.wellFormed
  have hknown := ((h.ends_instantiateMethod hm ha).1 x s hrun).2
  rw [methodInstances_of_forget hforget] at hknown
  obtain ⟨d, hdef, hkey, -⟩ := h.memo _ x hknown
  exact ⟨d, h.patterned x d hdef, hkey.symm⟩

end Coherent

/-- **Programs are in order**, however they were built. -/
theorem Built.coherent (h : Built r) : r.Coherent := by
  induction h with
  | core =>
    refine ⟨orderly_core, listed_core, Built.core.patterned,
      ⟨Built.core.owned, fun x d hx => ?_, fun t _ m hm => ?_⟩, fun key x hk => ?_, fun x d hx => ?_⟩
    · rw [method_of_not_has (not_has_method_core x)] at hx
      cases hx
    · rw [methods_core] at hm
      cases hm
    · have hempty : Registry.core.methodInstances.entries.isEmpty = true := by decide +kernel
      rw [Table.get?, List.isEmpty_iff.mp hempty] at hk
      cases hk
    · exact absurd (has_of_genericDefinition? hx) (not_has_method_core x)
  | edit _ he ih => exact ih.apply he

end Registry

end ProgramScan

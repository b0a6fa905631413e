import ProgramScan.Instruction.Decode
import ProgramScan.Plug.Manager

/-!
# How operations fail

Some causes of failure belong to a scan and its generator alone: native code that nothing replaces,
plugs that are missing or were not reached, numbers of types that were not reached, a generator that
refuses a call and a budget that ran out.  No operation on the program and none on the plugs fails
for one of them (`Error.OfProgram`).

* `Raises E act`              the operation fails only with errors in `E`;
* `raises_decode`             decoding fails with errors of the program;
* `raises_resolveByIndex`     looking for a plug does;
* `raises_findImplementors`, `raises_checkPlugs`   filing and checking plug types do.

`Raises` has a rule for each way to put operations together; the lemmas below follow the
definitions by these rules.
-/

namespace ProgramScan

/-- the cause is one of operations on the program or on plugs, not of a scan or a generator -/
def Error.OfProgram : Error → Prop
  | .nativeCodeNeedsPlug _ | .plugRequired _ | .plugNotQueued _ _ | .typeNotQueued _ |
    .generatorRefused _ | .scanUnfinished => False
  | _ => True

variable {σ α β : Type}

/-- the operation fails only with errors in `E` -/
def Raises (E : Error → Prop) (act : EStateM Error σ α) : Prop :=
  ∀ s e s', act s = .error e s' → E e

def ErrorIn (E : Error → Prop) (x : Except Error α) : Prop := ∀ e, x = .error e → E e

section
variable {E : Error → Prop}

/-! ## rules -/

namespace Raises

theorem weaken {E' : Error → Prop} {act : EStateM Error σ α} (h : Raises E act)
    (he : ∀ e, E e → E' e) : Raises E' act :=
  fun s e s' hr => he e (h s e s' hr)

theorem pure (a : α) : Raises E (Pure.pure a : EStateM Error σ α) := by
  intro s e s' h
  cases h

theorem throw {e : Error} (he : E e) : Raises E (MonadExcept.throw e : EStateM Error σ α) := by
  intro s e' s' h
  cases h
  exact he

theorem bind {x : EStateM Error σ α} {k : α → EStateM Error σ β} (hx : Raises E x)
    (hk : ∀ a, Raises E (k a)) : Raises E (x >>= k) := by
  intro s e s' h
  change EStateM.bind x k s = _ at h
  rw [EStateM.bind] at h
  cases hr : x s with
  | ok a s₁ =>
    rw [hr] at h
    exact hk a s₁ e s' h
  | error e₁ s₁ =>
    rw [hr] at h
    cases h
    exact hx s e _ hr

theorem get {k : σ → EStateM Error σ α} (hk : ∀ s, Raises E (k s)) :
    Raises E (MonadState.get >>= k) :=
  fun s e s' h => hk s s e s' h

theorem modify (f : σ → σ) : Raises E (modify f : EStateM Error σ Unit) := by
  intro s e s' h
  cases h

theorem lift (x : StateM σ α) : Raises E (liftM x : EStateM Error σ α) := by
  intro s e s' h
  cases h

theorem ofExcept {x : Except Error α} (hx : ErrorIn E x) :
    Raises E (MonadExcept.ofExcept x : EStateM Error σ α) := by
  cases x with
  | ok a => exact pure a
  | error e => exact throw (hx e rfl)

theorem mapM_of_mem {f : α → EStateM Error σ β} {l : List α} (hf : ∀ a ∈ l, Raises E (f a)) :
    Raises E (l.mapM f) := by
  induction l with
  | nil => exact pure _
  | cons a l ih =>
    rw [List.mapM_cons]
    have hl := ih fun b hb => hf b (List.mem_cons_of_mem a hb)
    exact (hf a List.mem_cons_self).bind fun b => hl.bind fun bs => pure _

theorem mapM {f : α → EStateM Error σ β} (hf : ∀ a, Raises E (f a)) (l : List α) :
    Raises E (l.mapM f) := mapM_of_mem fun a _ => hf a

theorem forM {f : α → EStateM Error σ Unit} (hf : ∀ a, Raises E (f a)) (l : List α) :
    Raises E (l.forM f) := by
  induction l with
  | nil => exact pure _
  | cons a l ih => exact (hf a).bind fun _ => ih

theorem optionForM {f : α → EStateM Error σ Unit} (hf : ∀ a, Raises E (f a)) (o : Option α) :
    Raises E (o.forM f) := by
  cases o with
  | none => exact pure _
  | some a => exact hf a

theorem foldlM {f : β → α → EStateM Error σ β} (hf : ∀ b a, Raises E (f b a)) (b : β)
    (l : List α) : Raises E (l.foldlM f b) := by
  induction l generalizing b with
  | nil => exact pure b
  | cons a l ih =>
    rw [List.foldlM_cons]
    exact (hf b a).bind ih

end Raises

namespace ErrorIn

theorem ok (a : α) : ErrorIn E (.ok a : Except Error α) := by
  intro e h
  cases h

theorem error {e : Error} (he : E e) : ErrorIn E (.error e : Except Error α) := by
  intro e' h
  cases h
  exact he

theorem bind {x : Except Error α} {k : α → Except Error β} (hx : ErrorIn E x)
    (hk : ∀ a, ErrorIn E (k a)) : ErrorIn E (x >>= k) := by
  cases x with
  | ok a => exact hk a
  | error e => exact error (hx e rfl)

theorem map {x : Except Error α} (hx : ErrorIn E x) (f : α → β) : ErrorIn E (x.map f) := by
  cases x with
  | ok a => exact ok (f a)
  | error e => exact error (hx e rfl)

theorem mapM {f : α → Except Error β} (hf : ∀ a, ErrorIn E (f a)) (l : List α) :
    ErrorIn E (l.mapM f) := by
  induction l with
  | nil => exact ok _
  | cons a l ih =>
    rw [List.mapM_cons]
    exact (hf a).bind fun b => ih.bind fun bs => ok _

theorem foldlM {f : β → α → Except Error β} (hf : ∀ b a, ErrorIn E (f b a)) (b : β)
    (l : List α) : ErrorIn E (l.foldlM f b) := by
  induction l generalizing b with
  | nil => exact ok b
  | cons a l ih =>
    rw [List.foldlM_cons]
    exact (hf b a).bind ih

end ErrorIn

end

open Error (OfProgram)

namespace Registry

open Raises

/-! ## instances -/

theorem raises_substituteWith {make : TypeId → List TypeId → Action TypeId}
    (hmake : ∀ t args, Raises OfProgram (make t args)) (ctx : GenericContext) (depth : Nat)
    (t : TypeId) :
    Raises OfProgram (substituteWith make ctx depth t) := by
  induction depth generalizing t with
  | zero => exact pure t
  | succ depth ih =>
    refine get fun r => ?_
    split
    · exact pure t
    · split
      · exact pure _
      · exact (ih _).bind fun _ => lift _
      · exact (Raises.mapM ih _).bind fun _ => hmake _ _
      · exact (Raises.mapM ih _).bind fun _ => hmake _ _

section
variable {sub : TypeId → Action TypeId} (hsub : ∀ t, Raises OfProgram (sub t))
include hsub

theorem raises_substituteParams (params : List Param) :
    Raises OfProgram (substituteParams sub params) :=
  Raises.mapM (fun _ => (hsub _).bind fun _ => pure _) params

theorem raises_instantiateMember (inst : TypeId) (m : MethodId) :
    Raises OfProgram (instantiateMember sub inst m) := by
  refine get fun r => ?_
  refine (hsub _).bind fun _ => ?_
  refine (raises_substituteParams hsub _).bind fun _ => ?_
  exact (lift _).bind fun _ => lift _

theorem raises_populate (definition inst : TypeId) :
    Raises OfProgram (populate sub definition inst) := by
  refine get fun r => ?_
  refine (optionForM (fun _ => modify _) _).bind fun _ => ?_
  refine (optionForM (fun _ => (hsub _).bind fun _ => (lift _).bind fun _ => pure _) _).bind
    fun _ => ?_
  refine (optionForM (fun _ => lift _) _).bind fun _ => ?_
  refine (optionForM (fun _ => lift _) _).bind fun _ => ?_
  refine (Raises.forM (fun _ => lift _) _).bind fun _ => ?_
  refine (Raises.forM (fun _ => (hsub _).bind fun _ => lift _) _).bind fun _ => ?_
  refine (Raises.forM (fun _ => get fun _ => (hsub _).bind fun _ =>
    (lift _).bind fun _ => lift _) _).bind fun _ => ?_
  exact Raises.forM (raises_instantiateMember hsub inst) _

end

theorem raises_existingInstance? (definition : TypeId) (args : List TypeId) :
    Raises OfProgram (existingInstance? definition args) := by
  refine get fun r => ?_
  dsimp only
  split
  · exact (modify _).bind fun _ => throw trivial
  · split
    · exact pure _
    · exact (modify _).bind fun _ => pure _

theorem raises_nested {act : Action α} (h : Raises OfProgram act) :
    Raises OfProgram (nested act) := by
  intro r e r' hr
  rw [nested] at hr
  split at hr
  · cases hr
  · cases hr
    rename_i hact
    exact h _ e _ hact

theorem raises_instantiateAt (levels : Nat) (t : TypeId) (args : List TypeId) :
    Raises OfProgram (instantiateAt levels t args) := by
  induction levels generalizing t args with
  | zero =>
    refine get fun r => (raises_existingInstance? _ _).bind fun found => ?_
    cases found with
    | some inst => exact pure inst
    | none => exact throw trivial
  | succ levels ih =>
    refine get fun r => (raises_existingInstance? _ _).bind fun found => ?_
    cases found with
    | some inst => exact pure inst
    | none =>
      refine raises_nested ((lift _).bind fun inst => ?_)
      exact (raises_populate (fun u => raises_substituteWith ih _ _ u) _ _).bind fun _ => pure _

theorem raises_instantiate (t : TypeId) (args : List TypeId) :
    Raises OfProgram (instantiate t args) :=
  get fun _ => raises_instantiateAt _ _ _

theorem raises_substitute (ctx : GenericContext) (t : TypeId) :
    Raises OfProgram (substitute ctx t) :=
  raises_substituteWith raises_instantiate ctx _ t

theorem raises_instantiateMethod (m : MethodId) (args : List TypeId) :
    Raises OfProgram (instantiateMethod m args) := by
  refine get fun r => (modify _).bind fun _ => ?_
  dsimp only
  split
  · exact throw trivial
  · refine (modify _).bind fun _ => ?_
    split
    · exact pure _
    · refine (raises_substitute _ _).bind fun _ => ?_
      refine (raises_substituteParams (raises_substitute _) _).bind fun _ => ?_
      exact (lift _).bind fun _ => (modify _).bind fun _ => pure _

/-! ## tokens -/

theorem raises_correspondingMethod (owner : TypeId) (m : MethodId) :
    Raises OfProgram (correspondingMethod owner m) := by
  refine get fun r => ?_
  dsimp only
  split
  · exact pure _
  · exact (modify _).bind fun _ => throw trivial

theorem raises_rehome (ctx : GenericContext) (m : MethodId) : Raises OfProgram (rehome ctx m) := by
  refine get fun r => ?_
  split
  · exact pure m
  · split
    · exact pure m
    · refine (raises_substitute _ _).bind fun owner => ?_
      split
      · exact pure m
      · exact raises_correspondingMethod _ _

theorem raises_substituteMethod (ctx : GenericContext) (m : MethodId) :
    Raises OfProgram (substituteMethod ctx m) := by
  refine get fun r => ?_
  split
  · exact raises_rehome ctx m
  · refine (raises_rehome _ _).bind fun target => ?_
    exact (Raises.mapM (raises_substitute ctx) _).bind fun _ => raises_instantiateMethod _ _

theorem raises_substituteField (ctx : GenericContext) (f : FieldId) :
    Raises OfProgram (substituteField ctx f) := by
  refine get fun r => ?_
  dsimp only
  split
  · exact pure f
  · refine (raises_substitute _ _).bind fun owner => get fun r' => ?_
    split
    · exact pure _
    · exact (modify _).bind fun _ => throw trivial

theorem raises_resolveToken (module : ModuleId) (token : Token) (ctx : GenericContext) :
    Raises OfProgram (resolveToken module token ctx) := by
  refine get fun r => ?_
  split
  · exact throw trivial
  · exact throw trivial
  · exact throw trivial
  · exact throw trivial
  · exact (raises_substitute _ _).bind fun _ => pure _
  · exact (raises_substituteMethod _ _).bind fun _ => pure _
  · exact (raises_substituteField _ _).bind fun _ => pure _
  · exact pure _
  · exact pure _

/-! ## replacement bodies -/

theorem raises_wellKnown (name : String) : Raises OfProgram (wellKnown name) := by
  refine get fun r => ?_
  split
  · exact pure _
  · exact throw trivial

theorem raises_facadeReplacement (m : MethodId) : Raises OfProgram (facadeReplacement m) := by
  refine get fun r => ?_
  split
  · exact throw trivial
  · refine (modify _).bind fun _ => ?_
    split
    · exact pure _
    · split
      · exact pure _
      · exact pure _
    · exact throw trivial

theorem raises_byReferenceReplacement (m : MethodId) (declaring : TypeId) :
    Raises OfProgram (byReferenceReplacement m declaring) := by
  refine get fun r => ?_
  split
  · exact throw trivial
  · split
    · exact lift _
    · split
      · exact lift _
      · exact throw trivial

theorem raises_typeHandleReplacement : Raises OfProgram typeHandleReplacement := by
  refine (raises_wellKnown _).bind fun _ => (raises_wellKnown _).bind fun _ => ?_
  refine (raises_wellKnown _).bind fun _ => get fun r => (lift _).bind fun found => ?_
  split
  · exact throw trivial
  · split
    · exact throw trivial
    · refine (lift _).bind fun found => ?_
      split
      · exact throw trivial
      · exact pure _

theorem raises_bitwiseReplacement (m : MethodId) : Raises OfProgram (bitwiseReplacement m) := by
  refine get fun r => ?_
  split
  · exact throw trivial
  · exact (modify _).bind fun _ => lift _

theorem raises_replacement? (m : MethodId) : Raises OfProgram (replacement? m) := by
  refine get fun r => ?_
  dsimp only
  split
  · exact pure _
  · split
    · exact raises_facadeReplacement m
    · split
      · exact (raises_byReferenceReplacement _ _).bind fun _ => pure _
      · split
        · exact (lift _).bind fun _ => pure _
        · split
          · exact raises_typeHandleReplacement.bind fun _ => pure _
          · split
            · exact (lift _).bind fun _ => pure _
            · split
              · exact (raises_bitwiseReplacement m).bind fun _ => pure _
              · exact pure _

/-! ## decoding -/

theorem raises_branchTarget (ctx : DecodeContext) (offset : Nat) (target : Int) :
    Raises OfProgram (branchTarget ctx offset target) := by
  rw [branchTarget]
  split
  · exact pure _
  · exact get fun _ => throw trivial

theorem errorIn_unsigned (width : Nat) (rd : Reader) :
    ErrorIn OfProgram (rd.unsigned width) := by
  refine ErrorIn.map ?_ _
  rw [Reader.take]
  split
  · exact .ok _
  · exact .error trivial

theorem raises_readUnsigned (width : Nat) (rd : Reader) :
    Raises OfProgram (readUnsigned width rd) :=
  ofExcept (errorIn_unsigned width rd)

theorem raises_readSigned (width : Nat) (rd : Reader) : Raises OfProgram (readSigned width rd) :=
  ofExcept ((errorIn_unsigned width rd).map _)

theorem raises_readBranch (ctx : DecodeContext) (offset width : Nat) (rd : Reader) :
    Raises OfProgram (readBranch ctx offset width rd) :=
  (raises_readSigned width rd).bind fun _ => (raises_branchTarget _ _ _).bind fun _ => pure _

theorem raises_readTargets (ctx : DecodeContext) (offset tableEnd count : Nat) (rd : Reader) :
    Raises OfProgram (readTargets ctx offset tableEnd count rd) := by
  induction count generalizing rd with
  | zero => exact pure _
  | succ count ih =>
    refine (raises_readSigned 4 rd).bind fun _ => (raises_branchTarget _ _ _).bind fun _ => ?_
    exact (ih _).bind fun _ => pure _

theorem raises_readSwitch (ctx : DecodeContext) (offset : Nat) (rd : Reader) :
    Raises OfProgram (readSwitch ctx offset rd) :=
  (raises_readUnsigned 4 rd).bind fun _ => (raises_readTargets _ _ _ _ _).bind fun _ => pure _

theorem raises_readToken (ctx : DecodeContext) (op : Opcode) (rd : Reader) :
    Raises OfProgram (readToken ctx op rd) := by
  refine (raises_readUnsigned 4 rd).bind fun _ => (raises_resolveToken _ _ _).bind fun _ => ?_
  split
  · exact pure _
  · exact get fun _ => throw trivial

theorem raises_readOperand (ctx : DecodeContext) (offset : Nat) (op : Opcode) (rd : Reader) :
    Raises OfProgram (readOperand ctx offset op rd) := by
  have hsigned : ∀ (width : Nat) (f : Int × Reader → Operand × Reader),
      Raises OfProgram (readSigned width rd >>= fun x => Pure.pure (f x)) :=
    fun width f => (raises_readSigned width rd).bind fun _ => pure _
  have hunsigned : ∀ (width : Nat) (f : Nat × Reader → Operand × Reader),
      Raises OfProgram (readUnsigned width rd >>= fun x => Pure.pure (f x)) :=
    fun width f => (raises_readUnsigned width rd).bind fun _ => pure _
  rw [readOperand]
  cases op.operand with
  | none => exact pure _
  | shortBranch => exact raises_readBranch _ _ _ _
  | branch => exact raises_readBranch _ _ _ _
  | shortInt => exact hsigned 1 _
  | byte => exact hunsigned 1 _
  | int => exact hsigned 4 _
  | int64 => exact hsigned 8 _
  | shortFloat => exact hunsigned 4 _
  | float => exact hunsigned 8 _
  | shortVar => exact hunsigned 1 _
  | var => exact hunsigned 2 _
  | switch => exact raises_readSwitch _ _ _
  | _ => exact raises_readToken _ _ _

theorem errorIn_readOpcode (rd : Reader) : ErrorIn OfProgram (Opcode.read rd).1 := by
  have hbyte : ∀ (rd : Reader) e, Opcode.nextByte rd = .error e → e.OfProgram := by
    intro rd e h
    rw [Opcode.nextByte] at h
    split at h <;> cases h
    trivial
  rw [Opcode.read]
  split
  · rename_i h
    exact .error (hbyte _ _ h)
  · split
    · split
      · rename_i h
        exact .error (hbyte _ _ h)
      · split
        · exact .ok _
        · exact .error trivial
    · split
      · exact .ok _
      · exact .error trivial

theorem raises_decodeFrom (ctx : DecodeContext) (regions : List Region) (count : Nat)
    (rd : Reader) : Raises OfProgram (decodeFrom ctx regions count rd) := by
  induction count generalizing rd with
  | zero => exact pure _
  | succ count ih =>
    rw [decodeFrom]
    split
    · refine bind ?_ fun _ => (ih _).bind fun _ => pure _
      refine (ofExcept (errorIn_readOpcode rd)).bind fun _ => ?_
      exact (raises_readOperand _ _ _ _).bind fun _ => pure _
    · exact pure _

theorem raises_decodeAs (m : MethodId) (module : ModuleId) (body : Body) :
    Raises OfProgram (decodeAs m module body) :=
  get fun _ => (raises_decodeFrom _ _ _ _).bind fun _ => lift _

theorem raises_decode (m : MethodId) : Raises OfProgram (decode m) := by
  refine (raises_replacement? m).bind fun found => ?_
  split
  · exact pure _
  · exact raises_decodeAs _ _ _
  · refine get fun r => ?_
    split
    · exact pure _
    · exact throw trivial
    · exact raises_decodeAs _ _ _

/-! ## plugs -/

theorem errorIn_targetParamType (r : Registry) (p : Param) :
    ErrorIn OfProgram (r.targetParamType p) := by
  rw [targetParamType]
  split
  · exact .ok _
  · split
    · exact .ok _
    · exact .error trivial

theorem errorIn_signatureTarget? (r : Registry) (target : TypeId) (candidate : MethodId) :
    ErrorIn OfProgram (r.signatureTarget? target candidate) := by
  refine ErrorIn.bind ?_ fun _ => ErrorIn.bind ?_ fun _ => .ok _
  · rw [instanceTypes]
    split
    · exact .ok _
    · exact .ok _
    · exact (ErrorIn.mapM r.errorIn_targetParamType _).map _
  · rw [staticTypes]
    split
    · exact (r.errorIn_targetParamType _).map _
    · exact .ok _

theorem errorIn_standsFor (r : Registry) (target : TypeId) (m candidate : MethodId) :
    ErrorIn OfProgram (r.standsFor target m candidate) := by
  rw [standsFor]
  split
  · exact .ok _
  · split
    · exact .ok _
    · exact (r.errorIn_signatureTarget? _ _).bind fun _ => .ok _

theorem errorIn_findStandIn (r : Registry) (target : TypeId) (m : MethodId)
    (candidates : List MethodId) : ErrorIn OfProgram (r.findStandIn target m candidates) := by
  induction candidates with
  | nil => exact .ok _
  | cons candidate rest ih =>
    refine (r.errorIn_standsFor _ _ _).bind fun found => ?_
    split
    · exact .ok _
    · exact ih

theorem errorIn_findPlug (r : Registry) (target : TypeId) (m : MethodId)
    (args plugs : List TypeId) : ErrorIn OfProgram (r.findPlug target m args plugs) := by
  induction plugs with
  | nil => exact .ok _
  | cons plug rest ih =>
    rw [findPlug]
    split
    · exact .ok _
    · refine (r.errorIn_findStandIn target m _).bind fun found => ?_
      split
      · exact .ok _
      · exact ih

theorem raises_resolveAmong (target : TypeId) (plugs : List TypeId) (m : MethodId)
    (params : List TypeId) : Raises OfProgram (resolveAmong target plugs m params) := by
  refine get fun r => (modify _).bind fun _ => ?_
  refine (ofExcept (r.errorIn_findPlug _ _ _ _)).bind fun found => ?_
  split
  · exact pure _
  · dsimp only
    split
    · exact pure _
    · split
      · exact (raises_instantiateMethod _ _).bind fun _ => pure _
      · exact pure _

theorem raises_resolveIn (target : TypeId) (plugs : List TypeId) (m : MethodId) :
    Raises OfProgram (resolveIn target plugs m) :=
  get fun _ => raises_resolveAmong _ _ _ _

end Registry

open Raises

namespace PlugManager

theorem raises_resolveInheritedAmong (declaring : TypeId) (m : MethodId) (rows : List PlugRow) :
    Raises OfProgram (resolveInheritedAmong declaring m rows) := by
  induction rows with
  | nil => exact pure _
  | cons row rest ih =>
    refine bind ?_ fun found => ?_
    · refine get fun r => (modify _).bind fun _ => ?_
      split
      · exact Registry.raises_resolveIn _ _ _
      · exact pure _
    · split
      · exact pure _
      · exact ih

theorem raises_closePlug (declaring : TypeId) (m openPlug : MethodId) :
    Raises OfProgram (closePlug declaring m openPlug) := by
  refine get fun r => ?_
  split
  · exact pure _
  · split
    · refine (Registry.raises_instantiate _ _).bind fun closed => ?_
      refine (Registry.raises_correspondingMethod _ _).bind fun plug => get fun r' => ?_
      split
      · exact (Registry.raises_instantiateMethod _ _).bind fun _ => pure _
      · exact pure _
    · exact pure _

theorem raises_findOpenPlug (bucket : PlugBucket) (definition : TypeId) (openMethod : MethodId)
    (params : List TypeId) :
    Raises OfProgram (findOpenPlug bucket definition openMethod params) := by
  refine get fun r => ?_
  split
  · exact pure _
  · exact Registry.raises_resolveAmong _ _ _ _

theorem raises_resolveGeneric (index : PlugIndex) (declaring definition : TypeId)
    (m : MethodId) : Raises OfProgram (resolveGeneric index declaring definition m) := by
  refine get fun r => ?_
  split
  · exact pure _
  · refine (raises_findOpenPlug _ _ _ _).bind fun found => ?_
    split
    · exact raises_closePlug _ _ _
    · refine (raises_findOpenPlug _ _ _ _).bind fun found => ?_
      split
      · exact raises_closePlug _ _ _
      · exact pure _

theorem raises_resolveByIndex (index : PlugIndex) (m : MethodId) :
    Raises OfProgram (resolveByIndex index m) := by
  refine get fun r => ?_
  split
  · exact pure _
  · refine bind ?_ fun found => ?_
    · refine get fun r => ?_
      split
      · exact pure _
      · exact Registry.raises_resolveIn _ _ _
    · split
      · exact pure _
      · refine (raises_resolveInheritedAmong _ _ _).bind fun found => ?_
        split
        · exact pure _
        · refine get fun r' => ?_
          split
          · exact raises_resolveGeneric _ _ _ _
          · exact pure _

end PlugManager

theorem PlugIndex.raises_findImplementors (r : Registry) (modules : List ModuleId) :
    Raises OfProgram (PlugIndex.findImplementors r modules) := by
  refine forM (fun entry => ?_) _
  obtain ⟨plug, mark⟩ := entry
  show Raises OfProgram (fileMark r plug mark)
  rw [fileMark]
  split
  · exact modify _
  · rename_i e he
    split
    · exact pure _
    · have htarget : e.OfProgram := by
        rw [targetOf] at he
        split at he
        · cases he
        · cases he
          trivial
        · split at he <;> cases he
          trivial
      exact throw htarget

theorem Registry.raises_checkPlugs (r : Registry) (index : PlugIndex) :
    Raises OfProgram (r.checkPlugs index) := by
  refine foldlM (fun fields entry => ?_) _ _
  obtain ⟨target, plug⟩ := entry
  refine (modify _).bind fun _ => ofExcept ?_
  refine ErrorIn.foldlM (fun fields replacement => ?_) _ _
  rw [FieldPlugs.insert]
  split
  · exact .error trivial
  · exact .ok _

end ProgramScan

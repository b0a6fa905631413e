import ProgramScan.Proofs.Instruction.Settled
import ProgramScan.Proofs.Plug.Settled
import ProgramScan.Proofs.Registry.Building

/-!
# Decoding is stable

A program grows while clients ask for constructed types, instances, members of instances, decoded
code and plugs, and some of what they ask fails halfway.

* `Request`                   what a client can ask, `Request.apply` the program afterwards;
* `Request.grows_apply`       one request, whatever becomes of it, only adds to the program;
* `Request.grows_applyAll`    so does a sequence of requests;
* `Registry.decode_stable`    what was decoded once is decoded again, after any requests.
-/

namespace ProgramScan

namespace Registry

/-- the program after an action, also after one that failed -/
def after {α : Type} (act : Action α) (r : Registry) : Registry :=
  match act r with
  | .ok _ r' => r'
  | .error _ r' => r'

/-- an action that only adds has done no more when it fails -/
theorem Builds.after {α : Type} {act : Action α} {r : Registry} {Q : α → Registry → Prop}
    (h : Builds act r Q) : r.Grows (after act r) ∧ (after act r).WellFormed := by
  unfold Registry.after
  split
  · rename_i hr
    exact ⟨(h.ok hr).1, (h.ok hr).2.1⟩
  · rename_i hr
    exact h.error hr

end Registry

inductive Request
  | readNames (ts : List TypeId)
  | construct (shape : Shape) (element : TypeId)
  | instantiate (t : TypeId) (args : List TypeId)
  | instantiateMethod (m : MethodId) (args : List TypeId)
  | substitute (ctx : GenericContext) (t : TypeId)
  | substituteMethod (ctx : GenericContext) (m : MethodId)
  | substituteField (ctx : GenericContext) (f : FieldId)
  | correspondingMethod (owner : TypeId) (m : MethodId)
  | resolveToken (module : ModuleId) (token : Token) (ctx : GenericContext)
  | decode (m : MethodId)
  | resolvePlug (manager : PlugManager) (m : MethodId)

namespace Request

variable {r : Registry}

def items : Request → List Item
  | readNames ts => ts.map .type
  | construct _ element => [.type element]
  | instantiate t args => .type t :: args.map .type
  | instantiateMethod m args => .method m :: args.map .type
  | substitute ctx t => .type t :: (ctx.typeArgs ++ ctx.methodArgs).map .type
  | substituteMethod ctx m => .method m :: (ctx.typeArgs ++ ctx.methodArgs).map .type
  | substituteField ctx f => .field f :: (ctx.typeArgs ++ ctx.methodArgs).map .type
  | correspondingMethod owner m => [.type owner, .method m]
  | resolveToken _ _ ctx => (ctx.typeArgs ++ ctx.methodArgs).map .type
  | decode m => [.method m]
  | resolvePlug _ m => [.method m]

def index? : Request → Option PlugIndex
  | resolvePlug manager _ => some manager.index
  | _ => none

def Fits (q : Request) (r : Registry) : Prop :=
  (∀ x ∈ q.items, r.Has x) ∧ ∀ index ∈ q.index?, r.HasIndex index

/-- the program after a request, also after one that failed -/
def apply (q : Request) (r : Registry) : Registry :=
  match q with
  | readNames ts => r.useNames ts
  | construct shape element => Registry.after (liftM (Registry.construct shape element)) r
  | instantiate t args => Registry.after (Registry.instantiate t args) r
  | instantiateMethod m args => Registry.after (Registry.instantiateMethod m args) r
  | substitute ctx t => Registry.after (Registry.substitute ctx t) r
  | substituteMethod ctx m => Registry.after (Registry.substituteMethod ctx m) r
  | substituteField ctx f => Registry.after (Registry.substituteField ctx f) r
  | correspondingMethod owner m => Registry.after (Registry.correspondingMethod owner m) r
  | resolveToken module token ctx => Registry.after (Registry.resolveToken module token ctx) r
  | decode m => Registry.after (Registry.decode m) r
  | resolvePlug manager m => Registry.after (manager.resolvePlug m) r

def applyAll (qs : List Request) (r : Registry) : Registry := qs.foldl (fun r q => q.apply r) r

/-- each request is about elements of the program it is applied to -/
def FitAll : List Request → Registry → Prop
  | [], _ => True
  | q :: qs, r => q.Fits r ∧ FitAll qs (q.apply r)

/-- **One request** only adds to the program, also if it fails. -/
theorem grows_apply (hw : r.WellFormed) {q : Request} (hq : q.Fits r) :
    r.Grows (q.apply r) ∧ (q.apply r).WellFormed := by
  obtain ⟨hitems, hindex⟩ := hq
  cases q <;> simp only [items, List.forall_mem_cons, List.forall_mem_map] at hitems
  case readNames ts => exact ⟨.useNames r ts, hw.useNames ts⟩
  case construct shape element => exact (Registry.builds_construct hw shape hitems.1).after
  case instantiate t args => exact (Registry.makes_instantiate hw hitems.1 hitems.2).after
  case instantiateMethod m args =>
    exact (Registry.builds_instantiateMethod hw hitems.1 hitems.2).after
  case substitute ctx t => exact (Registry.builds_substitute hw hitems.2 hitems.1).after
  case substituteMethod ctx m =>
    exact (Registry.builds_substituteMethod hw hitems.2 hitems.1).after
  case substituteField ctx f => exact (Registry.builds_substituteField hw hitems.2 hitems.1).after
  case correspondingMethod owner m =>
    exact (Registry.builds_correspondingMethod hw hitems.1 hitems.2.1).after
  case resolveToken module token ctx =>
    exact (Registry.builds_resolveToken hw hitems module token).after
  case decode m => exact (Registry.builds_decode hw hitems.1).after
  case resolvePlug manager m =>
    exact (Registry.builds_resolvePlug hw (hindex _ rfl) hitems.1).after

/-- **A sequence of requests** only adds to the program, whatever becomes of them. -/
theorem grows_applyAll (hw : r.WellFormed) {qs : List Request} (hqs : FitAll qs r) :
    r.Grows (applyAll qs r) ∧ (applyAll qs r).WellFormed := by
  induction qs generalizing r with
  | nil => exact ⟨.refl r, hw⟩
  | cons q qs ih =>
    obtain ⟨hg, hw'⟩ := grows_apply hw hqs.1
    obtain ⟨hg', hw''⟩ := ih hw' hqs.2
    exact ⟨hg.trans hg', hw''⟩

theorem Fits.mono {r' : Registry} {q : Request} (h : q.Fits r) (hg : r.Grows r') : q.Fits r' :=
  ⟨fun x hx => hg.has (h.1 x hx), fun index hi => hg.hasIndex (h.2 index hi)⟩

/-- requests about elements that are there, whatever the other requests make -/
theorem fitAll_of_fits (hw : r.WellFormed) {qs : List Request} (hqs : ∀ q ∈ qs, q.Fits r) :
    FitAll qs r := by
  induction qs generalizing r with
  | nil => trivial
  | cons q qs ih =>
    have hq := hqs q List.mem_cons_self
    obtain ⟨hg, hw'⟩ := grows_apply hw hq
    exact ⟨hq, ih hw' fun q' hq' => (hqs q' (List.mem_cons_of_mem _ hq')).mono hg⟩

end Request

namespace Registry

/-- every list agrees with itself, place by place -/
theorem all_zip_self {α : Type} {p : α × α → Bool} (hp : ∀ a, p (a, a) = true) (l : List α) :
    (l.zip l).all p = true := by
  induction l with
  | nil => rfl
  | cons a l ih => rw [List.zip_cons_cons, List.all_cons, hp, ih, Bool.and_self]

theorem sameKnowns_self (r : Registry) (ts : List (Option TypeId)) : r.sameKnowns ts ts = true := by
  rw [sameKnowns, beq_self_eq_true, Bool.true_and]
  refine all_zip_self (fun t => ?_) ts
  cases t <;> simp [sameKnown, sameType]

theorem same_self (r : Registry) (i : Instruction) : i.same r i = true := by
  have hoperand : i.operand.same r i.operand = true := by
    cases i.operand <;> simp [Operand.same]
  simp [Instruction.same, hoperand, StackEffect.same, sameKnowns_self]

theorem sameAll_self (r : Registry) (code : List Instruction) :
    Instruction.sameAll r code code = true := by
  rw [Instruction.sameAll, beq_self_eq_true, Bool.true_and]
  exact all_zip_self (same_self r) code

/-- **Decoding is stable.**  A method that was decoded is decoded again, after any requests, to the
same instructions.  Nothing more is made for it, and all elements that there were, those that the
instructions name among them, keep their identities. -/
theorem decode_stable {r r' : Registry} (hw : r.WellFormed) {m : MethodId} (hm : r.Has (.method m))
    {code : List Instruction} (hcode : decode m r = .ok code r') {qs : List Request}
    (hqs : Request.FitAll qs r') :
    ∃ r'', decode m (Request.applyAll qs r') = .ok code r'' ∧
      r''.forget = (Request.applyAll qs r').forget ∧
      Instruction.sameAll r'' code code = true ∧ r'.HasCode code ∧
      ∀ x, r'.Has x → r''.Has x ∧ r''.itemKey x = r'.itemKey x := by
  obtain ⟨-, hw', hsettled, hnames⟩ := (builds_decode hw hm).ok hcode
  obtain ⟨hg, hw''⟩ := Request.grows_applyAll hw' hqs
  obtain ⟨r'', hr, hf⟩ := hsettled _ hg hw''
  have hg' : r'.Grows r'' := hg.trans (.of_forget hf.symm)
  exact ⟨r'', hr, hf, sameAll_self r'' code, hnames, fun x hx => ⟨hg'.has hx, hg'.itemKey hw' hx⟩⟩

/-! ## a program to decode -/

theorem types_of_forget {r r' : Registry} (h : r.forget = r'.forget) : r.types = r'.types := by
  have h' := congrArg Registry.types h
  exact h'

/-- `Program.Main` takes a list of `Program`.  It loads the address of this argument, and makes an
array of such lists. -/
def declareLists : Action MethodId := do
  let module ← addModule "Program"
  let program ← declareType { module, namespaceName := "", name := "Program" }
  let list ← declareType { module, namespaceName := "", name := "List", generic := ["T"] }
  let closed ← instantiate list [program]
  let token ← tokenFor module (.type (some closed))
  let code := [0x0F, 0x00, 0x26, 0x16, 0x8D] ++ token.bytes ++ [0x26, 0x2A]
  let design : MethodDesign :=
    { module, name := "Main", declaring := some program
      params := [{ name := "list", type := closed }], body := some { code } }
  declareMethod (design.withOptions { isStatic := true })

def lists : Registry := after declareLists core

/-- what a client asks after `Main` was decoded: a pointer, an instance with too few arguments, a
list of lists, the code of `Main` and its plug -/
def listRequests : List Request :=
  [.construct .pointer ⟨20⟩, .instantiate ⟨22⟩ [], .instantiate ⟨22⟩ [⟨22⟩], .decode ⟨0⟩,
    .resolvePlug {} ⟨0⟩]

theorem fits_listRequests : ∀ q ∈ listRequests, q.Fits lists := by
  have hitems : ∀ q ∈ listRequests, ∀ x ∈ q.items, lists.Has x := by decide +kernel
  refine fun q hq => ⟨hitems q hq, fun index hi kind => ?_⟩
  simp only [listRequests, List.mem_cons, List.not_mem_nil, or_false] at hq
  rcases hq with rfl | rfl | rfl | rfl | rfl <;> cases hi
  cases kind <;> simp [HasRows, PlugIndex.bucket]

/-- decoding `Main` makes two types; the requests make two more, and decoding `Main` again none -/
theorem decode_stable_lists : ∃ code r' r'', decode ⟨0⟩ lists = .ok code r' ∧
    decode ⟨0⟩ (Request.applyAll listRequests r') = .ok code r'' ∧
    r'.types.size = lists.types.size + 2 ∧ r''.types.size = lists.types.size + 4 := by
  obtain ⟨hw, hm, heval⟩ : lists.WellFormed ∧ lists.Has (.method ⟨0⟩) ∧
      answersWith (decode ⟨0⟩) lists (fun _ r' =>
        decide (r'.types.size = lists.types.size + 2 ∧
          (Request.applyAll listRequests r').types.size = lists.types.size + 4)) = true := by
    decide +kernel
  obtain ⟨code, r', hcode, hP⟩ := exists_of_answersWith heval
  obtain ⟨hfirst, hlater⟩ := of_decide_eq_true hP
  obtain ⟨hg, hw', -⟩ := (builds_decode hw hm).ok hcode
  have hfits := Request.fitAll_of_fits hw' fun q hq => (fits_listRequests q hq).mono hg
  obtain ⟨r'', hr, hforget, -⟩ := decode_stable hw hm hcode hfits
  exact ⟨code, r', r'', hcode, hr, hfirst, by rw [types_of_forget hforget, hlater]⟩

end Registry

end ProgramScan

import ProgramScan.Proofs.Failures
import ProgramScan.Proofs.Registry.Settled
import ProgramScan.Scan.Execute

/-!
# What a scan leaves alone before it emits

Up to the first emission a scan hands nothing to the generator and numbers no type, whether it
succeeds or fails, and labels and numbers of methods that were handed out stay:

* `Run.Untouched`       a later state with the same generator and the same numbers of types;
* `Scan.Leaves E act`   the operation ends in such a state, and fails only with errors in `E`.

There is one lemma for each operation.  Looking for plugs, decoding and making instances fail as
operations on the program do (`Error.OfProgram`).  `scanCode`, and what calls it, can also fail for
want of native code, but not because something was not reached (`Error.NotUnqueued`); checking plugs
is the other way round (`Error.NotNative`).
-/

namespace ProgramScan

namespace Error

def NotNative (e : Error) : Prop := ∀ n, e ≠ .nativeCodeNeedsPlug n

structure NotUnqueued (e : Error) : Prop where
  plug : ∀ m p, e ≠ .plugNotQueued m p
  type : ∀ t, e ≠ .typeNotQueued t

theorem OfProgram.notNative {e : Error} (h : e.OfProgram) : e.NotNative := by
  rintro n rfl
  exact h

theorem OfProgram.notUnqueued {e : Error} (h : e.OfProgram) : e.NotUnqueued := by
  refine ⟨?_, ?_⟩
  · rintro m p rfl
    exact h
  · rintro t rfl
    exact h

end Error

namespace Run

/-- A later state in which nothing was emitted and no type was numbered. -/
structure Untouched (run run' : Run) : Prop where
  generator : run'.generator = run.generator
  types : run'.scanner.uids.types = run.scanner.uids.types
  typeCount : run'.scanner.uids.typeCount = run.scanner.uids.typeCount
  labels : ∀ key label, run.scanner.labels.labels.get? key = some label →
    run'.scanner.labels.labels.get? key = some label
  numbers : ∀ key n, run.scanner.uids.methods.get? key = some n →
    run'.scanner.uids.methods.get? key = some n

/-- a later state with the same generator, numbers and labels -/
theorem Untouched.of_eq {run run' : Run} (hg : run'.generator = run.generator)
    (hu : run'.scanner.uids = run.scanner.uids) (hl : run'.scanner.labels = run.scanner.labels) :
    run.Untouched run' := by
  refine ⟨hg, by rw [hu], by rw [hu], fun key label h => ?_, fun key n h => ?_⟩
  · rw [hl, h]
  · rw [hu, h]

theorem Untouched.refl (run : Run) : run.Untouched run := .of_eq rfl rfl rfl

theorem Untouched.trans {run run' run'' : Run} (h : run.Untouched run')
    (h' : run'.Untouched run'') : run.Untouched run'' :=
  ⟨h'.generator.trans h.generator, h'.types.trans h.types, h'.typeCount.trans h.typeCount,
    fun key label hl => h'.labels key label (h.labels key label hl),
    fun key n hn => h'.numbers key n (h.numbers key n hn)⟩

end Run

namespace Scan

variable {α β : Type} {E : Error → Prop}

/-- the operation emits nothing and numbers no type; if it fails, the error is in `E` -/
def Leaves (E : Error → Prop) (act : Scan α) : Prop :=
  ∀ run, match act run with
    | .ok _ run' => run.Untouched run'
    | .error e run' => run.Untouched run' ∧ E e

/-! ## rules -/

namespace Leaves

theorem ok {act : Scan α} (h : Leaves E act) {run run' : Run} {a : α} (hr : act run = .ok a run') :
    run.Untouched run' := by
  have := h run
  rw [hr] at this
  exact this

theorem error {act : Scan α} (h : Leaves E act) {run run' : Run} {e : Error}
    (hr : act run = .error e run') : run.Untouched run' ∧ E e := by
  have := h run
  rw [hr] at this
  exact this

theorem of_run {act : Scan α} (hok : ∀ run a run', act run = .ok a run' → run.Untouched run')
    (herr : ∀ run e run', act run = .error e run' → run.Untouched run' ∧ E e) : Leaves E act := by
  intro run
  cases hr : act run with
  | ok a run' => exact hok run a run' hr
  | error e run' => exact herr run e run' hr

theorem pure (a : α) : Leaves E (Pure.pure a : Scan α) := fun run => .refl run

theorem throw {e : Error} (he : E e) : Leaves E (MonadExcept.throw e : Scan α) :=
  fun run => ⟨.refl run, he⟩

theorem bind {x : Scan α} {k : α → Scan β} (hx : Leaves E x) (hk : ∀ a, Leaves E (k a)) :
    Leaves E (x >>= k) := by
  intro run
  rw [Registry.bind_apply]
  cases hr : x run with
  | error e run' => exact hx.error hr
  | ok a run₁ =>
    dsimp only
    cases hr' : k a run₁ with
    | ok b run₂ => exact (hx.ok hr).trans ((hk a).ok hr')
    | error e run₂ =>
      obtain ⟨hu, he⟩ := (hk a).error hr'
      exact ⟨(hx.ok hr).trans hu, he⟩

theorem get {k : Run → Scan α} (hk : ∀ run, Leaves E (k run)) :
    Leaves E (MonadState.get >>= k) :=
  fun run => hk run run

theorem registry {k : Registry → Scan α} (hk : ∀ r, Leaves E (k r)) :
    Leaves E (Scan.registry >>= k) :=
  fun run => hk run.registry run

theorem modifyGet {f : Run → α × Run} (hf : ∀ run : Run, run.Untouched (f run).2) :
    Leaves E (modifyGet f : Scan α) :=
  fun run => hf run

theorem modify {f : Run → Run} (hf : ∀ run : Run, run.Untouched (f run)) :
    Leaves E (modify f : Scan Unit) :=
  fun run => hf run

theorem mapM {f : α → Scan β} (hf : ∀ a, Leaves E (f a)) (l : List α) : Leaves E (l.mapM f) := by
  induction l with
  | nil => exact pure _
  | cons a l ih =>
    rw [List.mapM_cons]
    exact (hf a).bind fun b => ih.bind fun bs => pure _

theorem forM {f : α → Scan Unit} (hf : ∀ a, Leaves E (f a)) (l : List α) : Leaves E (l.forM f) := by
  induction l with
  | nil => exact pure _
  | cons a l ih => exact (hf a).bind fun _ => ih

theorem optionForM {f : α → Scan Unit} (hf : ∀ a, Leaves E (f a)) (o : Option α) :
    Leaves E (o.forM f) := by
  cases o with
  | none => exact pure _
  | some a => exact hf a

theorem weaken {act : Scan α} {E' : Error → Prop} (h : Leaves E act) (he : ∀ e, E e → E' e) :
    Leaves E' act :=
  of_run (fun _ _ _ hr => h.ok hr) fun _ e _ hr => (h.error hr).imp id (he e)

/-- forgets which errors there are -/
theorem anyway {act : Scan α} (h : Leaves E act) : Leaves (fun _ => True) act :=
  h.weaken fun _ _ => trivial

theorem raises {act : Scan α} (h : Leaves E act) : Raises E act :=
  fun _ _ _ hr => (h.error hr).2

theorem notNative {act : Scan α} (h : Leaves Error.OfProgram act) : Leaves Error.NotNative act :=
  h.weaken fun _ he => he.notNative

theorem notUnqueued {act : Scan α} (h : Leaves Error.OfProgram act) :
    Leaves Error.NotUnqueued act :=
  h.weaken fun _ he => he.notUnqueued

end Leaves

/-! ## operations -/

theorem leaves_onRegistry {x : Action α} (hx : Raises E x) : Leaves E (onRegistry x) := by
  intro run
  simp only [onRegistry]
  cases hr : x run.registry with
  | ok a r => exact Run.Untouched.of_eq rfl rfl rfl
  | error e r => exact ⟨.of_eq rfl rfl rfl, hx _ e _ hr⟩

theorem leaves_onPlugs {x : EStateM Error PlugManager α} (hx : Raises E x) :
    Leaves E (onPlugs x) := by
  intro run
  simp only [onPlugs]
  cases hr : x run.scanner.plugs with
  | ok a plugs => exact Run.Untouched.of_eq rfl rfl rfl
  | error e plugs => exact ⟨.of_eq rfl rfl rfl, hx _ e _ hr⟩

theorem leaves_enter (phase : Phase) : Leaves E (enter phase) :=
  .modify fun _ => .of_eq rfl rfl rfl

theorem leaves_reading (uses : Run → List TypeId) : Leaves E (reading uses) :=
  .modify fun _ => .of_eq rfl rfl rfl

theorem leaves_identify (item : Item) : Leaves E (identify item) := leaves_reading _

theorem leaves_enqueue (item : Item) (reason : Reason) (source : Option String) :
    Leaves E (enqueue item reason source) :=
  (leaves_identify item).bind fun _ => .modify fun _ => .of_eq rfl rfl rfl

theorem leaves_follow (source : String) (references : List Reference) :
    Leaves E (follow source references) :=
  .forM (fun _ => leaves_enqueue _ _ _) references

theorem leaves_dequeue : Leaves E dequeue := by
  refine .modifyGet fun run => ?_
  split
  · exact .refl run
  · exact .of_eq rfl rfl rfl

theorem leaves_methodUid (m : MethodId) : Leaves E (methodUid m) := by
  refine (leaves_reading _).bind fun _ => .modifyGet fun run => ?_
  have h := run.scanner.uids.types_methodUid run.registry m
  have hnumbers := run.scanner.uids.get?_methodUid run.registry m
  exact ⟨rfl, h.1, h.2, fun _ _ hl => hl, hnumbers.2⟩

theorem leaves_methodLabel (m : MethodId) : Leaves E (methodLabel m) := by
  refine (leaves_identify _).bind fun _ => .modifyGet fun run => ?_
  have h := run.scanner.labels.get?_methodLabel run.registry m
  exact ⟨rfl, rfl, rfl, h.2, fun _ _ hn => hn⟩

theorem leaves_markUsed (m : ModuleId) : Leaves E (markUsed m) := by
  refine .modify fun run => ?_
  simp only [Run.modifyScanner]
  split
  · exact .refl run
  · exact .of_eq rfl rfl rfl

theorem leaves_resolvePlug (m : MethodId) : Leaves Error.OfProgram (resolvePlug m) := by
  refine Leaves.get fun run => Leaves.bind (leaves_onRegistry ?_) fun _ => ?_
  · refine Raises.get fun r => (Raises.modify _).bind fun _ => ?_
    dsimp only
    split
    · exact .pure _
    · exact (PlugManager.raises_resolveByIndex _ _).bind fun _ => .pure _
  · exact Leaves.bind (.modify fun _ => .of_eq rfl rfl rfl) fun _ => .pure _

/-! ## code -/

theorem leaves_stampOperand (operand : Operand) : Leaves E (stampOperand operand) := by
  cases operand with
  | method m uid =>
    refine (leaves_identify _).bind fun _ => .get fun run => ?_
    exact (leaves_methodUid _).bind fun _ => .pure _
  | _ => exact .pure _

theorem leaves_stamp (code : List Instruction) : Leaves E (stamp code) :=
  .mapM (fun i => (leaves_stampOperand i.operand).bind fun _ => .pure _) code

theorem leaves_decodeStamped (m : MethodId) : Leaves Error.OfProgram (decodeStamped m) :=
  (leaves_onRegistry (Registry.raises_decode m)).bind leaves_stamp

theorem leaves_scanCode (m : MethodId) : Leaves Error.NotUnqueued (scanCode m) := by
  refine .registry fun r => ?_
  split
  · exact .throw ⟨(fun m p h => by cases h), fun t h => by cases h⟩
  · split
    · refine (leaves_decodeStamped m).notUnqueued.bind fun _ => ?_
      exact .registry fun _ => leaves_follow _ _
    · exact .pure _

/-! ## looking into elements -/

theorem leaves_scanPlug (plug : MethodId) : Leaves Error.NotUnqueued (scanPlug plug) := by
  refine (leaves_identify _).bind fun _ => .registry fun r => ?_
  exact (leaves_follow _ _).bind fun _ => leaves_scanCode plug

theorem leaves_scanMethod (m : MethodId) : Leaves Error.NotUnqueued (scanMethod m) := by
  refine .registry fun r => (leaves_follow _ _).bind fun _ => ?_
  split
  · exact leaves_scanCode m
  · refine (leaves_resolvePlug m).notUnqueued.bind fun answer => ?_
    cases answer with
    | none => exact leaves_scanCode m
    | some plug =>
      refine (leaves_scanPlug plug).bind fun _ => ?_
      split
      · exact leaves_enqueue _ _ _
      · exact .pure _

theorem leaves_enqueueHelpers (source : String) (element : TypeId) :
    Leaves Error.OfProgram (enqueueHelpers source element) := by
  refine .get fun run => ?_
  split
  · exact .pure _
  · refine .forM (fun m => ?_) _
    refine (leaves_onRegistry (Registry.raises_instantiateMethod m _)).bind fun _ => ?_
    exact leaves_enqueue _ _ _

theorem leaves_scanType (t : TypeId) : Leaves Error.OfProgram (scanType t) := by
  refine .registry fun r => (leaves_follow _ _).bind fun _ => ?_
  refine (Leaves.optionForM (leaves_enqueueHelpers _) _).bind fun _ => .registry fun r => ?_
  exact (leaves_follow _ _).bind fun _ => leaves_markUsed _

theorem leaves_scanItem (item : Item) : Leaves Error.NotUnqueued (scanItem item) := by
  cases item with
  | method m => exact leaves_scanMethod m
  | type t => exact (leaves_scanType t).notUnqueued
  | field f => exact .pure _

theorem leaves_drain (budget : Nat) : Leaves Error.NotUnqueued (drain budget) := by
  induction budget with
  | zero =>
    refine .get fun run => ?_
    split
    · exact .throw ⟨(fun m p h => by cases h), fun t h => by cases h⟩
    · exact .pure _
  | succ budget ih =>
    refine leaves_dequeue.bind fun entry => ?_
    cases entry with
    | none => exact .pure _
    | some entry => exact (leaves_scanItem entry.item).bind fun _ => ih

theorem leaves_drainQueue : Leaves Error.NotUnqueued drainQueue :=
  (leaves_enter _).bind fun _ => .get fun _ => leaves_drain _

/-! ## plugs -/

theorem leaves_indexPlugs : Leaves Error.OfProgram indexPlugs := by
  refine .get fun run => ?_
  split
  · refine (leaves_enter _).bind fun _ => (leaves_reading _).bind fun _ => ?_
    refine (leaves_onPlugs fun p e p' hr => ?_).bind fun _ => (leaves_reading _).bind fun _ => ?_
    · rw [PlugManager.findImplementors] at hr
      split at hr
      · cases hr
      · rename_i hf
        cases hr
        exact PlugIndex.raises_findImplementors _ _ _ e _ hf
    refine (leaves_onPlugs fun p e p' hr => ?_).bind fun _ => ?_
    · rw [PlugManager.scanFound] at hr
      split at hr
      · cases hr
      · rename_i hf
        cases hr
        exact Registry.raises_checkPlugs _ _ _ e _ hf
    exact .modify fun _ => .of_eq rfl rfl rfl
  · exact .pure _

theorem leaves_checkedPlug (m : MethodId) : Leaves Error.NotNative (checkedPlug m) := by
  refine (leaves_resolvePlug m).notNative.bind fun plug => .get fun run => ?_
  dsimp only
  split
  · exact .pure _
  · split
    · refine (leaves_identify _).bind fun _ => ?_
      split
      · exact .pure _
      · exact .throw fun n h => by cases h
    · split
      · exact .throw fun n h => by cases h
      · exact .pure _

theorem leaves_checkPlugs (items : List Item) : Leaves Error.NotNative (checkPlugs items) := by
  refine .mapM (fun item => ?_) items
  cases item with
  | method m => exact (leaves_checkedPlug m).bind fun _ => .pure _
  | type t => exact .pure _
  | field f => exact .pure _

theorem leaves_newRecord (m : MethodId) (place uid : Nat) (kind : EmissionKind) :
    Leaves E (newRecord m place uid kind) :=
  (leaves_methodLabel m).bind fun _ => .pure _

end Scan

end ProgramScan

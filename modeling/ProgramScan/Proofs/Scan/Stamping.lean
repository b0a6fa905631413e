import ProgramScan.Proofs.Scan.Queueing
import ProgramScan.Proofs.Scan.Emitted
import ProgramScan.Proofs.Scan.Stages

/-!
# Calls in emitted code

Code is decoded again when it is emitted, and its tokens can be bound to other methods than those the
queue holds.  Stamping replaces them: in the bodies that a successful scan emits, a call names the
method that entered the queue first under its identity, with the number that the scan has for it
(`Scan.execute_stamps`).  Calls of one method are therefore the same in all bodies:

* `Scan.CallStamped`            what stamping makes of a call, which stays so (`CallStamped.after`);
* `Scan.emitting_stampedCalls`  code that is decoded and stamped has such calls only;
* `Scan.Stamping`               an operation of the last phase emits such code only, with one lemma for
                                each operation;
* `Scan.execute_stamps`         what this means for a scan that succeeds.

Bodies of inline plugs are stamped as well, but can call methods that are not in the queue.
-/

namespace ProgramScan

open Registry (Settled)

namespace Run

variable {run run' : Run}

/-- nothing enters the queue in the last phase -/
theorem After.entries (h : run.After run') :
    run'.scanner.queue.entries = run.scanner.queue.entries := by
  obtain ⟨new, hnew, hadded⟩ := h.step.added
  cases new with
  | nil => rw [← List.append_nil run.scanner.queue.entries, ← hnew]; rfl
  | cons e new =>
    exact (hadded e List.mem_cons_self _ (.refl _) h.step.sound.wellFormed).elim

theorem Reached.exists_canonicalMethod {m : MethodId} (hs : run.Sound)
    (h : run.Reached (.method m)) :
    ∃ c, run.scanner.queue.canonicalMethod? run.registry m = some c := by
  obtain ⟨e, hmem, hkey⟩ := List.mem_map.mp h.2
  have hfound : (run.scanner.queue.entries.find? (·.key == run.registry.methodKey m)).isSome :=
    List.find?_isSome.mpr ⟨e, hmem, by simpa [Registry.itemKey] using hkey⟩
  obtain ⟨e', he'⟩ := Option.isSome_iff_exists.mp hfound
  have hkey' : e'.key = run.registry.methodKey m := by simpa using List.find?_some he'
  obtain ⟨-, hitem⟩ := hs.entries e' (List.mem_of_find?_eq_some he')
  obtain ⟨c, hc⟩ := Registry.exists_method_of_itemKey (hitem.symm.trans hkey')
  exact ⟨c, by rw [WorkQueue.canonicalMethod?, he', Option.bind_some, hc]; rfl⟩

end Run

namespace Scan

variable {α β : Type} {run run' : Run}

/-! ## calls -/

/-- A call that names the method of the queue, if there is one, and has its number. -/
structure CallStamped (run : Run) (m : MethodId) (uid : Option Nat) : Prop where
  has : run.registry.Has (.method m)
  canonical : ∀ c, run.scanner.queue.canonicalMethod? run.registry m = some c → c = m
  numbered : ∃ n, uid = some n ∧ HasUid run m n

def CallsStamped (run : Run) (code : List Instruction) : Prop :=
  ∀ i ∈ code, ∀ m uid, i.operand = .method m uid → CallStamped run m uid

theorem CallStamped.after {m : MethodId} {uid : Option Nat} (h : CallStamped run m uid)
    (hs : run.Sound) (ha : run.After run') : CallStamped run' m uid := by
  have hkey := ha.grows.methodKey hs.wellFormed h.has
  obtain ⟨n, hn, hstored⟩ := h.numbered
  refine ⟨ha.grows.has h.has, fun c hc => h.canonical c ?_, n, hn, ?_⟩
  · rwa [WorkQueue.canonicalMethod?, ha.entries, hkey] at hc
  · rw [HasUid, hkey]
    exact ha.numbers _ _ hstored

theorem CallsStamped.after {code : List Instruction} (h : CallsStamped run code) (hs : run.Sound)
    (ha : run.After run') : CallsStamped run' code :=
  fun i hi m uid ho => (h i hi m uid ho).after hs ha

/-- what is said of failures here: nothing -/
abbrev Whatever : Error → Run → List Emission → Prop := fun _ _ _ => True

/-- an operation that emits nothing -/
theorem Emitting.silent {F : Error → Prop} {P : α → Run → Prop} {x : Scan α}
    (hx : Steps Nothing [] x run P) (hl : Leaves F x) :
    Emitting x run (fun a run' new => new = [] ∧ P a run') Whatever := by
  rw [Emitting]
  cases hr : x run with
  | ok a run' =>
    obtain ⟨hstep, hp⟩ := hx.ok hr
    exact ⟨[], .of_step hstep (hl.ok hr), rfl, hp⟩
  | error e run' => exact fun _ => ⟨[], .of_step (hx.error hr) (hl.error hr).1, trivial⟩

theorem emitting_stampOperand (hs : run.Sound) {operand : Operand}
    (ho : ∀ x ∈ operand.items, run.registry.Has x) :
    Emitting (stampOperand operand) run (fun stamped run' new => new = [] ∧
      ∀ m uid, stamped = .method m uid → CallStamped run' m uid) Whatever := by
  cases operand with
  | method m uid =>
    refine .quietly (steps_identify hs _) (leaves_identify _) fun _ run₁ hem₁ _ => .get ?_
    have hs₁ := hem₁.after.sound
    have hm : run₁.registry.Has (.method m) :=
      hem₁.after.grows.has (ho _ (List.mem_singleton.mpr rfl))
    let queue := run₁.scanner.queue
    let target := (queue.canonicalMethod? run₁.registry m).getD m
    have htarget : run₁.registry.Has (.method target) ∧
        ∀ c, queue.canonicalMethod? run₁.registry target = some c → c = target := by
      cases hc : queue.canonicalMethod? run₁.registry m with
      | none =>
        have heq : target = m := by simp only [target, hc, Option.getD_none]
        rw [heq]
        exact ⟨hm, fun c hc' => by cases hc.symm.trans hc'⟩
      | some first =>
        have heq : target = first := by simp only [target, hc, Option.getD_some]
        obtain ⟨hmem, hkey⟩ := hs₁.canonicalMethod hc
        rw [heq]
        refine ⟨(hs₁.item hmem).1, fun c hc' => ?_⟩
        -- the identity of the target is that of `m`, so the queue holds the same under it
        rw [WorkQueue.canonicalMethod?, hkey] at hc'
        exact Option.some.inj (hc'.symm.trans hc)
    refine .quietly (steps_methodUid hs₁ target) (leaves_methodUid _) fun n run₂ hem₂ hn => ?_
    refine .pure hem₂.after.sound ⟨rfl, fun m' uid' hstamped => ?_⟩
    cases hstamped
    have hkey := hem₂.after.grows.methodKey hs₁.wellFormed htarget.1
    refine ⟨hem₂.after.grows.has htarget.1, fun c hc => htarget.2 c ?_, n, rfl, hn⟩
    rwa [WorkQueue.canonicalMethod?, hem₂.after.entries, hkey] at hc
  | _ => exact .pure hs ⟨rfl, fun _ _ h => by cases h⟩

theorem emitting_stamp (hs : run.Sound) {code : List Instruction} (hc : run.registry.HasCode code) :
    Emitting (stamp code) run (fun stamped run' new => new = [] ∧ CallsStamped run' stamped)
      Whatever := by
  rw [stamp]
  induction code generalizing run with
  | nil => exact .pure hs ⟨rfl, fun _ h => by cases h⟩
  | cons i code ih =>
    rw [List.mapM_cons]
    refine .bind (Q := fun j run' new => new = [] ∧
      ∀ m uid, j.operand = .method m uid → CallStamped run' m uid) ?_ ?_
    · refine .bind (emitting_stampOperand hs (hc i List.mem_cons_self)) ?_
      rintro operand run₁ _ hem₁ ⟨rfl, hcall⟩
      exact .pure hem₁.after.sound ⟨rfl, hcall⟩
    · rintro j run₁ _ hem₁ ⟨rfl, hj⟩
      have hs₁ := hem₁.after.sound
      have hrest : run₁.registry.HasCode code := fun k hk x hx =>
        hem₁.after.grows.has (hc k (List.mem_cons_of_mem _ hk) x hx)
      refine .bind (ih hs₁ hrest) ?_
      rintro js run₂ _ hem₂ ⟨rfl, hjs⟩
      refine .pure hem₂.after.sound ⟨rfl, fun k hk m uid ho => ?_⟩
      rcases List.mem_cons.mp hk with rfl | hk
      · exact (hj m uid ho).after hs₁ hem₂.after
      · exact hjs k hk m uid ho

theorem emitting_stampedCalls (hs : run.Sound) {m : MethodId} (hm : run.registry.Has (.method m)) :
    Emitting (decodeStamped m) run (fun code run' new => new = [] ∧ CallsStamped run' code)
      Whatever := by
  have hdecode : Steps Nothing [] (onRegistry (Registry.decode m)) run _ :=
    steps_onRegistry hs (Registry.builds_decode hs.wellFormed hm)
  refine .bind (.silent hdecode (leaves_onRegistry (Registry.raises_decode m))) ?_
  rintro code run₁ _ hem₁ ⟨rfl, -, hcode⟩
  exact emitting_stamp hem₁.after.sound hcode

/-! ## the last phase -/

/-- The calls of an emitted body are stamped, and the body of a wildcard is not one to be expanded in
place. -/
def BodyStamped (run : Run) : Emission → Prop
  | .body record code =>
    CallsStamped run code ∧ (record.isWildcard = true → record.isInline = false)
  | _ => True

theorem BodyStamped.after {em : Emission} (h : BodyStamped run em) (hs : run.Sound)
    (ha : run.After run') : BodyStamped run' em := by
  cases em with
  | body record code => exact ⟨h.1.after hs ha, h.2⟩
  | _ => trivial

/-- the operation emits stamped bodies only -/
def Stamping (act : Scan α) (run : Run) : Prop :=
  Emitting act run (fun _ run' new => ∀ em ∈ new, BodyStamped run' em) Whatever

namespace Stamping

theorem pure (hs : run.Sound) (a : α) : Stamping (Pure.pure a) run :=
  Emitting.pure hs fun _ h => by cases h

/-- bodies that were emitted stay stamped -/
theorem bind {x : Scan α} {k : α → Scan β} (hx : Stamping x run)
    (hk : ∀ a run', run.After run' → Stamping (k a) run') : Stamping (x >>= k) run := by
  refine Emitting.bind hx fun a run₁ new hem hnew => ?_
  refine (hk a run₁ hem.after).weaken (fun _ run₂ more hem' hmore em h => ?_) fun _ _ _ _ h => h
  rcases List.mem_append.mp h with h | h
  · exact (hnew em h).after hem.after.sound hem'.after
  · exact hmore em h

theorem quietly {P : α → Run → Prop} {x : Scan α} {k : α → Scan β}
    (hx : Steps Nothing [] x run P) (hl : Leaves (fun _ => False) x)
    (hk : ∀ a run', run.After run' → P a run' → Stamping (k a) run') : Stamping (x >>= k) run :=
  Emitting.quietly hx hl fun a run' hem hp => hk a run' hem.after hp

theorem decoded (hs : run.Sound) {m : MethodId} (hm : run.registry.Has (.method m))
    {k : List Instruction → Scan β}
    (hk : ∀ code run', run.After run' → CallsStamped run' code → Stamping (k code) run') :
    Stamping (decodeStamped m >>= k) run := by
  refine Emitting.bind (emitting_stampedCalls hs hm) ?_
  rintro code run' _ hem ⟨rfl, hcalls⟩
  exact hk code run' hem.after hcalls

theorem emit (hs : run.Sound) {em : Emission} (h : BodyStamped run em) :
    Stamping (Scan.emit em) run := by
  refine (emitting_emit hs em).weaken (fun _ run' new hem hnew em' hem' => ?_) fun _ _ _ _ h => h
  rw [hnew] at hem'
  rw [List.mem_singleton.mp hem']
  exact h.after hs hem.after

end Stamping

/-- A record that no plug was entered into. -/
structure PlainRecord (m : MethodId) (record : MethodRecord) : Prop where
  method : record.method = m
  isWildcard : record.isWildcard = false
  isInline : record.isInline = false

theorem steps_plainRecord (hs : run.Sound) (m : MethodId) (place uid : Nat) (kind : EmissionKind) :
    Steps Nothing [] (newRecord m place uid kind) run fun record _ => PlainRecord m record :=
  Steps.bind (steps_methodLabel hs m) fun _ _ hstep _ => .pure hstep.sound ⟨rfl, rfl, rfl⟩

section
variable {m p : MethodId} (hs : run.Sound)
include hs

theorem stamping_assembleNormal (hm : run.registry.Has (.method m)) (place uid : Nat) :
    Stamping (assembleNormal place uid m) run := by
  refine Emitting.registry ?_
  dsimp only
  split
  · refine Stamping.quietly (steps_plainRecord hs m place uid .normal) (leaves_newRecord _ _ _ _)
      fun record run₁ ha₁ hrec => ?_
    refine .decoded ha₁.sound (ha₁.grows.has hm) fun code run₂ ha₂ hcalls => ?_
    exact .emit ha₂.sound ⟨hcalls, fun _ => hrec.isInline⟩
  · exact Stamping.pure hs _

variable {record plug : MethodRecord} (hp : PlainRecord p plug)
  (hhas : run.registry.Has (.method p))
include hp hhas

theorem stamping_forwardInline : Stamping (forwardInline record plug) run := by
  refine Stamping.quietly (steps_methodLabel hs _) (leaves_methodLabel _) fun label run₁ ha₁ _ => ?_
  have hmethod : run₁.registry.Has (.method (plug.forPlugged record.method label).method) := by
    rw [MethodRecord.forPlugged, hp.method]
    exact ha₁.grows.has hhas
  refine .decoded ha₁.sound hmethod fun code run₂ ha₂ hcalls => ?_
  refine .bind (.emit ha₂.sound ⟨hcalls, fun hw => ?_⟩) fun _ run₃ ha₃ => .emit ha₃.sound trivial
  cases hp.isWildcard.symm.trans hw

theorem stamping_forwardWithOptions (options : PlugOptions) :
    Stamping (forwardWithOptions record plug options) run := by
  rw [forwardWithOptions]
  dsimp only
  split
  · refine Stamping.quietly (steps_methodLabel hs _) (leaves_methodLabel _)
      fun label run₁ ha₁ _ => ?_
    have hmethod : run₁.registry.Has (.method plug.method) := by
      rw [hp.method]
      exact ha₁.grows.has hhas
    refine .decoded ha₁.sound hmethod fun code run₂ ha₂ hcalls => ?_
    split
    · exact .bind (.emit ha₂.sound ⟨hcalls, fun _ => hp.isInline⟩) fun _ run₃ ha₃ =>
        .emit ha₃.sound trivial
    · exact .emit ha₂.sound trivial
  · exact .emit hs trivial

omit hp in
theorem stamping_assemblePlugged (place uid : Nat) :
    Stamping (assemblePlugged place uid m p) run := by
  refine Stamping.quietly (steps_identify hs _) (leaves_identify _) fun _ run₁ ha₁ _ => ?_
  refine Emitting.get ?_
  refine Stamping.quietly (steps_methodUid ha₁.sound p) (leaves_methodUid _) fun _ run₂ ha₂ _ => ?_
  refine .quietly (steps_plainRecord ha₂.sound m place uid .needsPlug) (leaves_newRecord _ _ _ _)
    fun record run₃ ha₃ _ => ?_
  have hhas₃ := ((ha₁.trans ha₂).trans ha₃).grows.has hhas
  dsimp only
  split
  · refine .quietly (steps_plainRecord ha₃.sound p _ _ .plug) (leaves_newRecord _ _ _ _)
      fun plug run₄ ha₄ hplug => ?_
    exact stamping_forwardInline ha₄.sound hplug (ha₄.grows.has hhas₃)
  · refine .quietly (steps_plainRecord ha₃.sound p _ _ .plug) (leaves_newRecord _ _ _ _)
      fun plug run₄ ha₄ hplug => ?_
    split
    · exact stamping_forwardWithOptions ha₄.sound hplug (ha₄.grows.has hhas₃) _
    · exact .emit ha₄.sound trivial

end

theorem stamping_assembleItem (hs : run.Sound) (place : Nat) {entry : Item × Option MethodId}
    (hentry : Checked run entry) : Stamping (assembleItem place entry) run := by
  obtain ⟨item, answer⟩ := entry
  cases item with
  | type t => exact .pure hs _
  | field f => exact .emit hs trivial
  | method m =>
    have hm : run.registry.Has (.method m) := (hs.item hentry.mem).1
    have hans : Answered run m answer := hentry.answered m rfl
    refine Emitting.registry ?_
    split
    · refine Stamping.quietly (steps_methodUid hs m) (leaves_methodUid _) fun uid run₁ ha₁ _ => ?_
      cases answer with
      | none => exact stamping_assembleNormal ha₁.sound (ha₁.grows.has hm) place uid
      | some p =>
        exact stamping_assemblePlugged ha₁.sound (ha₁.grows.has (hans.2 p rfl).has) place uid
    · exact Stamping.pure hs _

/-- **All bodies are stamped.** -/
theorem stamping_assembleItems (hs : run.Sound) (place : Nat)
    {entries : List (Item × Option MethodId)} (hentries : ∀ e ∈ entries, Checked run e) :
    Stamping (assembleItems place entries) run := by
  induction entries generalizing run place with
  | nil => exact .pure hs _
  | cons entry rest ih =>
    refine .bind (stamping_assembleItem hs place (hentries entry List.mem_cons_self))
      fun _ run₁ ha => ih ha.sound (place + 1) fun e he => ?_
    exact ha.checked hs (hentries e (List.mem_cons_of_mem _ he))

/-! ## whole scans -/

/-- all bodies that a successful scan emits are stamped -/
theorem execute_stamped {r : Registry} (hw : r.WellFormed) {entry : MethodId}
    (hentry : r.Has (.method entry)) {config : ScanConfig} {generator : Generator}
    (hrun : execute entry (.fresh r config generator) = .ok () run) :
    run.Sound ∧ ∃ emitted, run.generator.emissions = generator.emissions ++ emitted ∧
      ∀ em ∈ emitted, BodyStamped run em := by
  rw [execute_eq] at hrun
  obtain ⟨entries, run₁, hprepare, hfinish⟩ := Registry.bind_eq_ok_iff.mp hrun
  have hready := ready_fresh hw hentry hprepare
  obtain ⟨_, run₂, hassemble, hclose⟩ := Registry.bind_eq_ok_iff.mp hfinish
  obtain ⟨new, hem, hnew⟩ := (stamping_assembleItems hready.sound 0 hready.checked).ok hassemble
  obtain ⟨htypes, hcount⟩ := hready.unnumbered rfl hem
  have hclosed := close_spec hem.after.sound htypes hcount entry
  rw [hclose] at hclosed
  obtain ⟨methods, -, hemissions⟩ := hclosed.emissions
  refine ⟨hclosed.after.sound,
    new ++ [.tables run₂.scanner.queue.types.zipIdx methods, .entry (some entry) []], ?_, ?_⟩
  · rw [hemissions, hem.generator, hready.untouched.generator, List.append_assoc]
    rfl
  · intro em hmem
    rcases List.mem_append.mp hmem with hmem | hmem
    · exact (hnew em hmem).after hem.after.sound hclosed.after
    · rcases List.mem_pair.mp hmem with rfl | rfl <;> trivial

/-- A body of a method or of a wildcard is among the emissions and calls `m` with the number `uid`. -/
def EmittedCall (emissions : List Emission) (m : MethodId) (uid : Option Nat) : Prop :=
  ∃ record code i, .body record code ∈ emissions ∧
    (record.kind = .normal ∨ record.isWildcard = true) ∧ i ∈ code ∧ i.operand = .method m uid

/-- a number that was handed out is handed out again -/
theorem methodUid_of_hasUid {m : MethodId} {n : Nat} (h : HasUid run m n) :
    ∃ run', methodUid m run = .ok n run' := by
  let named := run.useNames (run.scanner.uids.methodUidUses run.registry m)
  obtain ⟨hanswer, hstays⟩ := named.scanner.uids.get?_methodUid named.registry m
  have hkey : named.registry.methodKey m = run.registry.methodKey m := rfl
  have hnumber : (named.scanner.uids.methodUid named.registry m).1 = n := by
    rw [hkey] at hanswer
    exact Option.some.inj (hanswer.symm.trans (hstays _ _ h))
  exact ⟨_, congrArg (EStateM.Result.ok · _) hnumber⟩

/-- **Calls name the methods of the queue, with their numbers.**  After a successful scan with a new
scanner, a call in the body of a method or of a wildcard names the method that stands in the queue
under its identity, and has the number that is handed out for it.  Two such calls with the same
identity are the same, in whichever bodies they stand. -/
theorem execute_stamps {r : Registry} (hw : r.WellFormed) {entry : MethodId}
    (hentry : r.Has (.method entry)) (config : ScanConfig) (generator : Generator) {run : Run}
    (hrun : execute entry (.fresh r config generator) = .ok () run) :
    ∃ emitted, run.generator.emissions = generator.emissions ++ emitted ∧
      (∀ m uid, EmittedCall emitted m uid →
        .method m ∈ run.scanner.queue.items ∧
        run.scanner.queue.canonicalMethod? run.registry m = some m ∧
        ∃ n run', uid = some n ∧ methodUid m run = .ok n run') ∧
      ∀ m uid m' uid', EmittedCall emitted m uid → EmittedCall emitted m' uid' →
        run.registry.methodKey m = run.registry.methodKey m' → m = m' ∧ uid = uid' := by
  obtain ⟨hs, emitted, hemitted, hstamped⟩ := execute_stamped hw hentry hrun
  obtain ⟨emitted', hemitted', hreached⟩ := execute_emits_reached hw hentry config generator hrun
  obtain rfl := List.append_cancel_left (hemitted'.symm.trans hemitted)
  have hcall : ∀ m uid, EmittedCall emitted' m uid →
      run.scanner.queue.canonicalMethod? run.registry m = some m ∧ CallStamped run m uid := by
    rintro m uid ⟨record, code, i, hbody, hkind, hi, ho⟩
    obtain ⟨hcalls, hwildcard⟩ : CallsStamped run code ∧ _ := hstamped _ hbody
    obtain ⟨hinline, hnames⟩ := hreached record code hbody
    have hcall := hcalls i hi m uid ho
    have hown : record.isInline = false := by
      rcases hkind with hnormal | hw
      · rw [← Bool.not_eq_true]
        intro hi
        cases hnormal.symm.trans (hinline hi).1
      · exact hwildcard hw
    have hm : run.registry.Names code (.method m) :=
      .method hi (by rw [Instruction.method?, ho])
    obtain ⟨c, hc⟩ := (hnames hown _ hm).exists_canonicalMethod hs
    exact ⟨hcall.canonical c hc ▸ hc, hcall⟩
  refine ⟨emitted', hemitted, fun m uid h => ?_, fun m uid m' uid' h h' hkey => ?_⟩
  · obtain ⟨hc, hstamped⟩ := hcall m uid h
    obtain ⟨n, hn, hnumber⟩ := hstamped.numbered
    obtain ⟨run', hrun'⟩ := methodUid_of_hasUid hnumber
    exact ⟨(hs.canonicalMethod hc).1, hc, n, run', hn, hrun'⟩
  · obtain ⟨hc, hstamped⟩ := hcall m uid h
    obtain ⟨hc', hstamped'⟩ := hcall m' uid' h'
    rw [WorkQueue.canonicalMethod?, hkey] at hc
    obtain rfl : m = m' := Option.some.inj (hc.symm.trans hc')
    obtain ⟨n, rfl, hn⟩ := hstamped.numbered
    obtain ⟨n', rfl, hn'⟩ := hstamped'.numbered
    exact ⟨rfl, hn.symm.trans hn'⟩

def declareTwins : Action MethodId := do
  let module ← Registry.addModule "Program"
  let program ← Registry.declareType { module, namespaceName := "", name := "Program" }
  let first ← declareStatic module program "Helper" (some { code := [0x2A] }) []
  let second ← declareStatic module program "Helper" (some { code := [0x2A] }) []
  let call ← callTo module first
  let again ← callTo module second
  declareStatic module program "Main" (some { code := call.code.dropLast ++ again.code }) []

def emittedCalls (emissions : List Emission) : List (MethodId × Option Nat) :=
  emissions.flatMap fun em => em.body?.toList.flatMap fun body =>
    body.2.filterMap fun i =>
      match i.operand with
      | .method m uid => some (m, uid)
      | _ => none

/-- `Main` names both methods, and the emitted body calls the first twice. -/
theorem execute_stamps_twins : ∃ run,
    execute ⟨2⟩ (.fresh (onCore declareTwins) {} {}) = .ok () run ∧
    emittedCalls run.generator.emissions = [(⟨0⟩, some 0), (⟨0⟩, some 0)] ∧
    ∃ emitted, run.generator.emissions = [] ++ emitted ∧
      (∀ m uid, EmittedCall emitted m uid →
        .method m ∈ run.scanner.queue.items ∧
        run.scanner.queue.canonicalMethod? run.registry m = some m ∧
        ∃ n run', uid = some n ∧ methodUid m run = .ok n run') ∧
      ∀ m uid m' uid', EmittedCall emitted m uid → EmittedCall emitted m' uid' →
        run.registry.methodKey m = run.registry.methodKey m' → m = m' ∧ uid = uid' := by
  obtain ⟨hw, hmain, heval⟩ : (onCore declareTwins).WellFormed ∧
      (onCore declareTwins).Has (.method ⟨2⟩) ∧
      succeedsWith (execute ⟨2⟩) (.fresh (onCore declareTwins) {} {}) (fun run =>
        decide (emittedCalls run.generator.emissions = [(⟨0⟩, some 0), (⟨0⟩, some 0)])) = true := by
    decide +kernel
  obtain ⟨run, hrun, hcalls⟩ := exists_of_succeedsWith heval
  exact ⟨run, hrun, of_decide_eq_true hcalls, execute_stamps hw hmain {} {} hrun⟩

end Scan

end ProgramScan

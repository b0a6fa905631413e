import ProgramScan.Proofs.Keeping
import ProgramScan.Proofs.Scan.Stages

/-!
# Scans that stay within a part of the program

What a scan does to a run is made of few parts: it decodes methods, looks for their plugs, puts
elements into the queue and takes them out.  The rest is bookkeeping.  An invariant of runs that
survives these parts survives the scan, and if they lead to elements of a part of the program only,
no other element enters the queue.

* `Scan.Indifferent I`   `I` does not depend on the bookkeeping;
* `Scan.Confines I P`    looking into elements in `P` keeps `I` and leads to elements in `P`;
* `Scan.Outputs I P`     emitting elements in `P` keeps `I`.

From `Confines` it follows that the first stage of a scan keeps `I` (`keeps_prepare`), from `Outputs`
that the second does (`keeps_finish`), and from both that every call of a scanner does (`keeps_scan`).
Each call is what comes before its loop, the loop, and what comes after (`Call.scan_eq`).
-/

namespace ProgramScan

/-- The runs differ at most in the names in use, the numbers that were handed out, the phase, the
modules in use and the generator. -/
structure Run.Alike (run run' : Run) : Prop where
  registry : run'.registry.forget = run.registry.forget
  config : run'.scanner.config = run.scanner.config
  plugs : run'.scanner.plugs = run.scanner.plugs
  queue : run'.scanner.queue = run.scanner.queue
  labels : run'.scanner.labels = run.scanner.labels

theorem Run.Alike.refl (run : Run) : run.Alike run := ⟨rfl, rfl, rfl, rfl, rfl⟩

namespace Scan

variable {I : Run → Prop} {P : Item → Prop} {α : Type}

/-- the invariant does not depend on the bookkeeping of a scan -/
def Indifferent (I : Run → Prop) : Prop := ∀ run run', run.Alike run' → I run → I run'

def Queues (I : Run → Prop) (P : Item → Prop) : Prop :=
  ∀ run, I run → ∀ x ∈ run.scanner.queue.items, P x

/-! ## bookkeeping -/

theorem keeps_registry {Q : α → Prop} {k : Registry → Scan α}
    (hk : ∀ run, I run → Keeps I (k run.registry) Q) : Keeps I (registry >>= k) Q where
  ok {run _ _} hi hr := (hk run hi).ok hi hr
  error {run _ _} hi hr := (hk run hi).error hi hr

theorem keeps_onRegistry {Q : α → Prop} {x : Action α}
    (hok : ∀ run a r, I run → x run.registry = .ok a r → I { run with registry := r } ∧ Q a)
    (herror : ∀ run e r, I run → x run.registry = .error e r → I { run with registry := r }) :
    Keeps I (onRegistry x) Q where
  ok {run a run'} hi hr := by
    rw [onRegistry] at hr
    split at hr
    · rename_i hx
      cases hr
      exact hok run a _ hi hx
    · cases hr
  error {run e run'} hi hr := by
    rw [onRegistry] at hr
    split at hr
    · cases hr
    · rename_i hx
      cases hr
      exact herror run e _ hi hx

theorem keeps_onPlugs {Q : α → Prop} {x : EStateM Error PlugManager α}
    (hok : ∀ run a plugs, I run → x run.scanner.plugs = .ok a plugs →
      I (run.modifyScanner fun s => { s with plugs }) ∧ Q a)
    (herror : ∀ run e plugs, I run → x run.scanner.plugs = .error e plugs →
      I (run.modifyScanner fun s => { s with plugs })) : Keeps I (onPlugs x) Q where
  ok {run a run'} hi hr := by
    rw [onPlugs] at hr
    split at hr
    · rename_i hx
      cases hr
      exact hok run a _ hi hx
    · cases hr
  error {run e run'} hi hr := by
    rw [onPlugs] at hr
    split at hr
    · cases hr
    · rename_i hx
      cases hr
      exact herror run e _ hi hx

section
variable (hI : Indifferent I)
include hI

theorem keeps_enter (phase : Phase) : Keeps I (enter phase) fun _ => True :=
  .modify fun run => hI run _ ⟨rfl, rfl, rfl, rfl, rfl⟩

theorem keeps_reading (uses : Run → List TypeId) : Keeps I (reading uses) fun _ => True :=
  .modify fun run => hI run _ ⟨rfl, rfl, rfl, rfl, rfl⟩

theorem keeps_identify (item : Item) : Keeps I (identify item) fun _ => True := keeps_reading hI _

theorem keeps_methodUid (m : MethodId) : Keeps I (methodUid m) fun _ => True :=
  (keeps_reading hI _).bind fun _ _ => .modifyGet fun run h =>
    ⟨hI run _ ⟨rfl, rfl, rfl, rfl, rfl⟩ h, trivial⟩

theorem keeps_typeUid (t : TypeId) : Keeps I (typeUid t) fun _ => True := by
  refine (keeps_identify hI _).bind fun _ _ => .get fun run h => ?_
  refine Keeps.bind (Q := fun _ => True) (.ofExcept fun _ _ => trivial) fun found _ => ?_
  refine Keeps.bind (Q := fun _ => True) ?_ fun _ _ => .pure trivial
  -- the numbers are put into the run that was read
  constructor
  · intro s u s' _ hr
    cases hr
    exact ⟨hI run _ ⟨rfl, rfl, rfl, rfl, rfl⟩ h, trivial⟩
  · intro s e s' _ hr
    cases hr

theorem keeps_markUsed (m : ModuleId) : Keeps I (markUsed m) fun _ => True := by
  refine .modify fun run => hI run _ ?_
  simp only [Run.modifyScanner]
  split
  · exact .refl run
  · exact ⟨rfl, rfl, rfl, rfl, rfl⟩

theorem keeps_emitWith {make : Scan Emission} (hmake : Keeps I make fun _ => True) :
    Keeps I (emitWith make) fun _ => True := by
  refine .get fun run _ => Keeps.bind (Q := fun _ => True) ?_ fun _ _ => ?_
  · exact .modify fun run => hI run _ ⟨rfl, rfl, rfl, rfl, rfl⟩
  · split
    · exact .throw _
    · exact hmake.bind fun _ _ => .modify fun run => hI run _ ⟨rfl, rfl, rfl, rfl, rfl⟩

theorem keeps_emit (e : Emission) : Keeps I (emit e) fun _ => True :=
  keeps_emitWith hI (.pure trivial)

theorem keeps_methodTables : Keeps I methodTables fun _ => True := by
  refine .get fun run _ => Keeps.bind (Q := fun _ => True) ?_ fun _ _ => ?_
  · exact (Keeps.mapM (R := fun _ => True) fun t _ =>
      (keeps_typeUid hI t).bind fun _ _ => .pure trivial).plain
  · refine Keeps.bind (Q := fun _ => True) ?_ fun _ _ => .pure trivial
    exact (Keeps.mapM (R := fun _ => True) fun m _ =>
      (keeps_methodUid hI m).bind fun _ _ => .pure trivial).plain

end

/-! ## code -/

section
variable (hI : Indifferent I) (hq : Queues I P)
include hI hq

/-- the method that a stamped operand names is the one that was named, or stands in the queue -/
theorem keeps_stampOperand {operand : Operand} (ho : ∀ x ∈ operand.items, P x) :
    Keeps I (stampOperand operand) fun stamped => ∀ x ∈ stamped.items, P x := by
  cases operand with
  | method m uid =>
    refine (keeps_identify hI _).bind fun _ _ => .get fun run h => ?_
    refine (keeps_methodUid hI _).bind fun n _ => .pure fun x hx => ?_
    rw [List.mem_singleton.mp hx]
    cases hc : run.scanner.queue.canonicalMethod? run.registry m with
    | none => exact ho _ List.mem_cons_self
    | some target =>
      obtain ⟨e, he, -, hitem⟩ := WorkQueue.exists_of_canonicalMethod? hc
      exact hq run h (.method target) (List.mem_map.mpr ⟨e, he, hitem⟩)
  | _ => exact .pure ho

theorem keeps_stamp {code : List Instruction} (hc : NamesOnly P code) :
    Keeps I (stamp code) (NamesOnly P) :=
  .mapM fun i hi => (keeps_stampOperand hI hq (hc i hi)).bind fun _ h => .pure h

theorem keeps_decodeStamped {m : MethodId}
    (hdecode : Keeps I (onRegistry (Registry.decode m)) (NamesOnly P)) :
    Keeps I (decodeStamped m) (NamesOnly P) :=
  hdecode.bind fun _ hc => keeps_stamp hI hq hc

end

/-! ## looking into elements -/

/-- the invariant does not depend on how far the scan has looked into the queue -/
def Advances (I : Run → Prop) : Prop := ∀ run taken, I run →
  I (run.modifyScanner fun s => { s with queue := { s.queue with taken } })

/-- Looking into elements in `P` keeps `I`, and leads to elements in `P` only. -/
structure Confines (I : Run → Prop) (P : Item → Prop) : Prop where
  indifferent : Indifferent I
  queues : Queues I P
  push : ∀ run item reason source, I run → P item →
    I (run.modifyScanner fun s => { s with queue := s.queue.push run.registry item reason source })
  index : Keeps I indexPlugs fun _ => True
  decode : ∀ m, P (.method m) → Keeps I (onRegistry (Registry.decode m)) (NamesOnly P)
  plug : ∀ m, P (.method m) → Keeps I (resolvePlug m) fun answer => ∀ p ∈ answer, P (.method p)
  helper : ∀ m element,
    Keeps I (onRegistry (Registry.instantiateMethod m [element])) fun made => P (.method made)
  signature : ∀ run m asPlug, I run → P (.method m) →
    ∀ ref ∈ run.registry.signatureReferences m asPlug, P ref.item
  fieldUse : ∀ run f, I run → P (.field f) → ∀ ref ∈ run.registry.fieldReferences f, P ref.item
  base : ∀ run t, I run → P (.type t) → ∀ ref ∈ run.registry.baseReferences t, P ref.item
  members : ∀ run t, I run → P (.type t) → ∀ ref ∈ run.registry.memberReferences t, P ref.item

section
variable (h : Confines I P)
include h

theorem Confines.codeReferences {run : Run} (hi : I run) {code : List Instruction}
    (hc : NamesOnly P code) : ∀ ref ∈ run.registry.codeReferences code, P ref.item := by
  intro ref href
  obtain ⟨i, hmem, href⟩ := List.mem_flatMap.mp href
  have ho := hc i hmem
  cases hop : i.operand with
  | method m uid =>
    rw [hop] at href ho
    rw [List.mem_singleton.mp href]
    exact ho _ List.mem_cons_self
  | type t =>
    rw [hop] at href ho
    rw [List.mem_singleton.mp href]
    exact ho _ List.mem_cons_self
  | field f =>
    rw [hop] at href ho
    exact h.fieldUse run f hi (ho _ List.mem_cons_self) ref href
  | token item =>
    rw [hop] at href ho
    cases item with
    | field f => exact h.fieldUse run f hi (ho _ List.mem_cons_self) ref href
    | method m =>
      rw [List.mem_singleton.mp href]
      exact ho _ List.mem_cons_self
    | type t =>
      rw [List.mem_singleton.mp href]
      exact ho _ List.mem_cons_self
  | _ =>
    rw [hop] at href
    cases href

theorem keeps_enqueue {item : Item} (hitem : P item) (reason : Reason) (source : Option String) :
    Keeps I (enqueue item reason source) fun _ => True :=
  (keeps_identify h.indifferent item).bind fun _ _ =>
    .modify fun run hi => h.push run item reason source hi hitem

theorem keeps_follow {source : String} {references : List Reference}
    (hrefs : ∀ ref ∈ references, P ref.item) : Keeps I (follow source references) fun _ => True :=
  .forM fun ref href => keeps_enqueue h (hrefs ref href) _ _

section
variable {m : MethodId} (hm : P (.method m))
include hm

theorem keeps_scanCode : Keeps I (scanCode m) fun _ => True := by
  refine keeps_registry fun run _ => ?_
  split
  · exact .throw _
  · split
    · refine (keeps_decodeStamped h.indifferent h.queues (h.decode m hm)).bind fun code hc => ?_
      exact keeps_registry fun run hi => keeps_follow h (h.codeReferences hi hc)
    · exact .pure trivial

theorem keeps_scanPlug : Keeps I (scanPlug m) fun _ => True := by
  refine (keeps_identify h.indifferent _).bind fun _ _ => keeps_registry fun run hi => ?_
  exact (keeps_follow h (h.signature run m true hi hm)).bind fun _ _ => keeps_scanCode h hm

theorem keeps_scanMethod : Keeps I (scanMethod m) fun _ => True := by
  refine keeps_registry fun run hi => (keeps_follow h (h.signature run m false hi hm)).bind fun _ _ => ?_
  split
  · exact keeps_scanCode h hm
  · refine (h.plug m hm).bind fun answer hp => ?_
    cases answer with
    | none => exact keeps_scanCode h hm
    | some plug =>
      have hplug := hp plug rfl
      refine (keeps_scanPlug h hplug).bind fun _ _ => ?_
      split
      · exact keeps_enqueue h hplug _ _
      · exact .pure trivial

end

theorem keeps_enqueueHelpers (source : String) (element : TypeId) :
    Keeps I (enqueueHelpers source element) fun _ => True := by
  refine .get fun run _ => ?_
  split
  · exact .pure trivial
  · exact .forM fun m _ => (h.helper m element).bind fun made hmade => keeps_enqueue h hmade _ _

theorem keeps_scanType {t : TypeId} (ht : P (.type t)) : Keeps I (scanType t) fun _ => True := by
  refine keeps_registry fun run hi => (keeps_follow h (h.base run t hi ht)).bind fun _ _ => ?_
  refine (Keeps.optionForM fun _ _ => keeps_enqueueHelpers h _ _).bind fun _ _ => ?_
  refine keeps_registry fun run' hi' => (keeps_follow h (h.members run' t hi' ht)).bind fun _ _ => ?_
  exact keeps_markUsed h.indifferent _

/-- **Looking into an element** of `P` keeps the invariant. -/
theorem keeps_scanItem {item : Item} (hitem : P item) : Keeps I (scanItem item) fun _ => True := by
  cases item with
  | method m => exact keeps_scanMethod h hitem
  | type t => exact keeps_scanType h hitem
  | field f => exact .pure trivial

section
variable (hadv : Advances I)
include hadv

/-- the element that is taken out of the queue is in `P` -/
theorem keeps_dequeue : Keeps I dequeue fun next => ∀ entry ∈ next, P entry.item := by
  refine .modifyGet fun run hi => ?_
  cases hpop : run.scanner.queue.pop with
  | none => exact ⟨hi, by simp⟩
  | some next =>
    obtain ⟨entry, hentry, rfl⟩ := Option.map_eq_some_iff.mp hpop
    refine ⟨hadv run _ hi, fun e he => ?_⟩
    cases he
    exact h.queues run hi _ (List.mem_map_of_mem (List.mem_of_getElem? hentry))

theorem keeps_drain (budget : Nat) : Keeps I (drain budget) fun _ => True := by
  induction budget with
  | zero =>
    refine .get fun run _ => ?_
    split
    · exact .throw _
    · exact .pure trivial
  | succ budget ih =>
    refine (keeps_dequeue h hadv).bind fun next hnext => ?_
    cases next with
    | none => exact .pure trivial
    | some entry => exact (keeps_scanItem h (hnext entry rfl)).bind fun _ _ => ih

theorem keeps_drainQueue : Keeps I drainQueue fun _ => True :=
  (keeps_enter h.indifferent _).bind fun _ _ => .get fun _ _ => keeps_drain h hadv _

end

/-! ## plugs of what was reached -/

def EntryIn (P : Item → Prop) (entry : Item × Option MethodId) : Prop :=
  P entry.1 ∧ ∀ m p, entry = (.method m, some p) → P (.method p)

theorem keeps_checkedPlug {m : MethodId} (hm : P (.method m)) :
    Keeps I (checkedPlug m) fun answer => ∀ p ∈ answer, P (.method p) := by
  refine (h.plug m hm).bind fun answer hp => .get fun run _ => ?_
  dsimp only
  split
  · exact .pure hp
  · split
    · refine (keeps_identify h.indifferent _).bind fun _ _ => ?_
      split
      · exact .pure hp
      · exact .throw _
    · split
      · exact .throw _
      · exact .pure (by simp)

theorem keeps_checkPlugs {items : List Item} (hitems : ∀ x ∈ items, P x) :
    Keeps I (checkPlugs items) fun entries => ∀ e ∈ entries, EntryIn P e := by
  refine .mapM fun item hitem => ?_
  have hP := hitems item hitem
  cases item with
  | method m =>
    refine (keeps_checkedPlug h hP).bind fun answer hp => .pure ⟨hP, fun k p heq => ?_⟩
    cases heq
    exact hp p rfl
  | type t => exact .pure ⟨hP, by simp⟩
  | field f => exact .pure ⟨hP, by simp⟩

/-- **The first stage of a scan** keeps the invariant, and finds plugs in `P`. -/
theorem keeps_prepare (hadv : Advances I) {entry : MethodId} (hentry : P (.method entry)) :
    Keeps I (prepare entry) fun entries => ∀ e ∈ entries, EntryIn P e := by
  refine Keeps.bind (Q := fun _ => True) ?_ fun _ _ => ?_
  · refine h.index.bind fun _ _ => (keeps_enqueue h hentry _ _).bind fun _ _ => ?_
    exact (keeps_drainQueue h hadv).bind fun _ _ => keeps_enter h.indifferent _
  · exact .get fun run hi => keeps_checkPlugs h (h.queues run hi)

end

/-! ## emitting elements -/

/-- Emitting elements in `P` keeps `I`. -/
structure Outputs (I : Run → Prop) (P : Item → Prop) : Prop where
  indifferent : Indifferent I
  decode : ∀ m, P (.method m) → Keeps I (onRegistry (Registry.decode m)) fun _ => True
  label : ∀ m, P (.method m) → Keeps I (methodLabel m) fun _ => True

section
variable (h : Outputs I P)
include h

theorem keeps_standIn {record plug : MethodRecord} {code : List Instruction} :
    Keeps I (do
        emit (.body plug code)
        emit (.forward record plug)) fun _ => True :=
  (keeps_emit h.indifferent _).bind fun _ _ => keeps_emit h.indifferent _

section
variable {m : MethodId} (hm : P (.method m))
include hm

theorem Outputs.decodeStamped : Keeps I (Scan.decodeStamped m) fun _ => True := by
  refine Keeps.bind (h.decode m hm) fun code _ => ?_
  have hany : NamesOnly (fun _ => True) code := fun _ _ _ _ => trivial
  exact (keeps_stamp h.indifferent (fun _ _ _ _ => trivial) hany).plain

theorem keeps_newRecord (place uid : Nat) (kind : EmissionKind) :
    Keeps I (newRecord m place uid kind) fun record => record.method = m :=
  (h.label m hm).bind fun _ _ => .pure rfl

theorem keeps_assembleNormal (place uid : Nat) :
    Keeps I (assembleNormal place uid m) fun _ => True := by
  refine keeps_registry fun run _ => ?_
  dsimp only
  split
  · refine (keeps_newRecord h hm _ _ _).bind fun record _ => ?_
    exact (h.decodeStamped hm).bind fun _ _ => keeps_emit h.indifferent _
  · exact .pure trivial

variable {p : MethodId} (hp : P (.method p)) {record plug : MethodRecord}
  (hrecord : record.method = m) (hplug : plug.method = p)
include hp hrecord hplug

theorem keeps_forwardWithOptions (options : PlugOptions) :
    Keeps I (forwardWithOptions record plug options) fun _ => True := by
  subst hrecord hplug
  unfold forwardWithOptions
  dsimp only
  split
  · refine (h.label _ hm).bind fun label _ => (h.decodeStamped hp).bind fun code _ => ?_
    split
    · exact keeps_standIn h
    · exact keeps_emit h.indifferent _
  · exact keeps_emit h.indifferent _

theorem keeps_forwardInline : Keeps I (forwardInline record plug) fun _ => True := by
  subst hrecord hplug
  refine (h.label _ hm).bind fun label _ => (h.decodeStamped hp).bind fun code _ => ?_
  exact keeps_standIn h

omit hrecord hplug in
theorem keeps_assemblePlugged (place uid : Nat) :
    Keeps I (assemblePlugged place uid m p) fun _ => True := by
  refine (keeps_identify h.indifferent _).bind fun _ _ => .get fun run _ => ?_
  refine (keeps_methodUid h.indifferent _).bind fun plugUid _ => ?_
  refine (keeps_newRecord h hm _ _ _).bind fun record hrecord => ?_
  dsimp only
  split
  · exact (keeps_newRecord h hp _ _ _).bind fun plug hplug =>
      keeps_forwardInline h hm hp hrecord hplug
  · refine (keeps_newRecord h hp _ _ _).bind fun plug hplug => ?_
    split
    · exact keeps_forwardWithOptions h hm hp hrecord hplug _
    · exact keeps_emit h.indifferent _

end

theorem keeps_assembleItem {entry : Item × Option MethodId} (hentry : EntryIn P entry)
    (place : Nat) : Keeps I (assembleItem place entry) fun _ => True := by
  obtain ⟨item, plug⟩ := entry
  obtain ⟨hitem, hplug⟩ := hentry
  cases item with
  | type t => exact .pure trivial
  | field f => exact keeps_emit h.indifferent _
  | method m =>
    refine keeps_registry fun run _ => ?_
    split
    · refine (keeps_methodUid h.indifferent _).bind fun uid _ => ?_
      cases plug with
      | none => exact keeps_assembleNormal h hitem _ _
      | some p => exact keeps_assemblePlugged h hitem (hplug m p rfl) _ _
    · exact .pure trivial

theorem keeps_assembleItems {entries : List (Item × Option MethodId)}
    (hentries : ∀ e ∈ entries, EntryIn P e) (place : Nat) :
    Keeps I (assembleItems place entries) fun _ => True := by
  induction entries generalizing place with
  | nil => exact .pure trivial
  | cons entry entries ih =>
    refine (keeps_assembleItem h (hentries entry List.mem_cons_self) place).bind fun _ _ => ?_
    exact ih (fun e he => hentries e (List.mem_cons_of_mem _ he)) _

/-- **The second stage of a scan** keeps the invariant. -/
theorem keeps_finish {entries : List (Item × Option MethodId)}
    (hentries : ∀ e ∈ entries, EntryIn P e) (entry : MethodId) :
    Keeps I (finish entry entries) fun _ => True := by
  refine (keeps_assembleItems h hentries 0).bind fun _ _ => ?_
  refine (keeps_emitWith h.indifferent (keeps_methodTables h.indifferent)).bind fun _ _ => ?_
  exact (keeps_emit h.indifferent _).bind fun _ _ => keeps_enter h.indifferent _

end

/-! ## whole scans -/

inductive Call
  | execute (entry : MethodId)
  | boot (entries : List MethodId) (included : List Item)

namespace Call

def scan : Call → Scan Unit
  | .execute entry => Scan.execute entry
  | .boot entries included => Scan.boot entries included

def items : Call → List Item
  | .execute entry => [.method entry]
  | .boot entries included => entries.map Item.method ++ included

/-- what a call does before it looks into the queue -/
def approach : Call → Scan Unit
  | .execute entry => do
    indexPlugs
    enqueue (.method entry) .entryPoint none
    enter .draining
  | .boot entries included => do
    entries.forM enqueueBootEntry
    included.forM fun item => enqueue item .forceInclude none
    indexPlugs
    let config := (← get).scanner.config
    config.explicitEntries.forM fun m => enqueue (.method m) .explicitEntry none
    config.earlyFields.forM fun f => emit (.field f)
    enter .draining

/-- what a call does after it looked into the queue -/
def conclude : Call → Scan Unit
  | .execute entry => do
    assemble
    emit (.entry (some entry) [])
    enter .done
  | .boot entries _ => do
    assemble
    emit (.entry none entries)
    enter .done

theorem scan_eq (call : Call) :
    call.scan =
      call.approach >>= fun _ => get >>= fun run => drain run.scanner.config.budget >>= fun _ =>
        call.conclude := by
  cases call with
  | execute entry => simp only [scan, approach, conclude, Scan.execute, drainQueue, bind_assoc]
  | boot entries included => simp only [scan, approach, conclude, Scan.boot, drainQueue, bind_assoc]

end Call

section
variable (h : Confines I P)
include h

theorem keeps_enqueueBootEntry {entry : MethodId} (hentry : P (.method entry)) :
    Keeps I (enqueueBootEntry entry) fun _ => True := by
  refine keeps_registry fun run hi => ?_
  split
  · rename_i declaring hdeclaring
    have htype : P (.type declaring) := by
      refine h.signature run entry false hi hentry ⟨.type declaring, .declaringType⟩ ?_
      simp [Registry.signatureReferences, hdeclaring]
    exact (keeps_enqueue h htype _ _).bind fun _ _ => keeps_enqueue h hentry _ _
  · exact keeps_enqueue h hentry _ _

section
variable (hexplicit : ∀ run, I run → ∀ m ∈ run.scanner.config.explicitEntries, P (.method m))
  {call : Call} (hcall : ∀ x ∈ call.items, P x)
include hexplicit hcall

/-- **The start of a call** keeps the invariant. -/
theorem keeps_approach : Keeps I call.approach fun _ => True := by
  cases call with
  | execute entry =>
    refine h.index.bind fun _ _ => ?_
    exact (keeps_enqueue h (hcall _ List.mem_cons_self) _ _).bind fun _ _ =>
      keeps_enter h.indifferent _
  | boot entries included =>
    have hentries : ∀ m ∈ entries, P (.method m) := fun m hm =>
      hcall _ (List.mem_append_left _ (List.mem_map_of_mem hm))
    have hincluded : ∀ x ∈ included, P x := fun x hx => hcall x (List.mem_append_right _ hx)
    refine (Keeps.forM fun m hm => keeps_enqueueBootEntry h (hentries m hm)).bind fun _ _ => ?_
    refine (Keeps.forM fun x hx => keeps_enqueue h (hincluded x hx) _ _).bind fun _ _ => ?_
    refine h.index.bind fun _ _ => .get fun run hi => ?_
    refine (Keeps.forM fun m hm => keeps_enqueue h (hexplicit run hi m hm) _ _).bind fun _ _ => ?_
    refine (Keeps.forM fun f _ => keeps_emit h.indifferent _).bind fun _ _ => ?_
    exact keeps_enter h.indifferent _

end

variable (hout : Outputs I P)
include hout

theorem keeps_assemble : Keeps I assemble fun _ => True := by
  refine (keeps_enter h.indifferent _).bind fun _ _ => .get fun run hi => ?_
  refine (keeps_checkPlugs h (h.queues run hi)).bind fun entries he => ?_
  refine (keeps_assembleItems hout he 0).bind fun _ _ => ?_
  exact keeps_emitWith h.indifferent (keeps_methodTables h.indifferent)

/-- **The end of a call** keeps the invariant. -/
theorem keeps_conclude (call : Call) : Keeps I call.conclude fun _ => True := by
  cases call with
  | execute entry =>
    exact (keeps_assemble h hout).bind fun _ _ =>
      (keeps_emit h.indifferent _).bind fun _ _ => keeps_enter h.indifferent _
  | boot entries included =>
    exact (keeps_assemble h hout).bind fun _ _ =>
      (keeps_emit h.indifferent _).bind fun _ _ => keeps_enter h.indifferent _

/-- **Every call** keeps the invariant. -/
theorem keeps_scan (hadv : Advances I)
    (hexplicit : ∀ run, I run → ∀ m ∈ run.scanner.config.explicitEntries, P (.method m))
    {call : Call} (hcall : ∀ x ∈ call.items, P x) : Keeps I call.scan fun _ => True := by
  rw [call.scan_eq]
  refine (keeps_approach h hexplicit hcall).bind fun _ _ => .get fun run _ => ?_
  exact (keeps_drain h hadv _).bind fun _ _ => keeps_conclude h hout call

end

/-! ## the rest of the scanner -/

/-- An invariant that depends neither on the program nor on plugs, and that the queue can grow under,
is kept by whatever a scan looks into. -/
theorem confines_of_frame (hI : Indifferent I)
    (hregistry : ∀ run registry, I run → I { run with registry })
    (hplugs : ∀ run plugs plugsIndexed, I run →
      I (run.modifyScanner fun s => { s with plugs, plugsIndexed }))
    (hpush : ∀ run item reason source, I run →
      I (run.modifyScanner fun s =>
        { s with queue := s.queue.push run.registry item reason source })) :
    Confines I fun _ => True := by
  have honRegistry : ∀ {α : Type} (x : Action α), Keeps I (onRegistry x) fun _ => True :=
    fun x => keeps_onRegistry (fun run _ r h _ => ⟨hregistry run r h, trivial⟩)
      fun run _ r h _ => hregistry run r h
  have honPlugs : ∀ {α : Type} (x : EStateM Error PlugManager α),
      Keeps I (onPlugs x) fun _ => True :=
    fun x => keeps_onPlugs (fun run _ plugs h _ => ⟨hplugs run plugs _ h, trivial⟩)
      fun run _ plugs h _ => hplugs run plugs _ h
  refine ⟨hI, fun _ _ _ _ => trivial, fun run item reason source h _ => hpush run item reason source h,
    ?_, fun m _ => (honRegistry _).weaken fun _ _ _ _ _ _ => trivial, ?_, fun _ _ => honRegistry _,
    fun _ _ _ _ _ _ _ => trivial, fun _ _ _ _ _ _ => trivial, fun _ _ _ _ _ _ => trivial,
    fun _ _ _ _ _ _ => trivial⟩
  · refine .get fun run _ => ?_
    split
    · refine (keeps_enter hI _).bind fun _ _ => (keeps_reading hI _).bind fun _ _ => ?_
      refine (honPlugs _).bind fun _ _ => (keeps_reading hI _).bind fun _ _ => ?_
      exact (honPlugs _).bind fun _ _ => .modify fun run h => hplugs run _ _ h
    · exact .pure trivial
  · intro m _
    refine .get fun run _ => (honRegistry _).bind fun found _ => ?_
    exact Keeps.bind (Q := fun _ => True) (.modify fun run h => hplugs run _ _ h)
      fun _ _ => .pure fun _ _ => trivial

end Scan

end ProgramScan

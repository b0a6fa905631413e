import ProgramScan.Proofs.Scan.Feeding
import ProgramScan.Proofs.Scan.Stages

/-!
# Native code

A method that needs native code can only be compiled through a plug.  A scan that succeeds found one
for each such method, and the plug needs no native code itself; a scan that fails for want of native
code names a method of the queue that has no plug, or the plug of one, that needs it
(`Scan.execute_replaces_native`).

* `Scan.Blames act run F`   if the operation fails for want of native code, it names what `F` says;
* `Scan.WantsNative`        what `scanCode` names;
* `Scan.Unreplaced`         what the whole scan names.

Only `scanCode` fails this way, so the lemmas go from there up to whole scans.
-/

namespace ProgramScan

namespace Scan

open Run

variable {α β : Type} {S : Item → Registry → Prop} {lost roots : List Item} {run : Run}

/-- if the operation fails for want of native code, `F` holds of the name it gives -/
def Blames (act : Scan α) (run : Run) (F : String → Run → Prop) : Prop :=
  ∀ n run', act run = .error (.nativeCodeNeedsPlug n) run' → F n run'

namespace Blames

variable {F G : String → Run → Prop}

theorem nobody {act : Scan α} (h : Raises Error.NotNative act) : Blames act run F :=
  fun n run' hr => absurd rfl (h run _ run' hr n)

theorem of_leaves {act : Scan α} (h : Leaves Error.OfProgram act) : Blames act run F :=
  nobody h.notNative.raises

theorem throw {e : Error} (h : ∀ n, e = .nativeCodeNeedsPlug n → F n run) :
    Blames (MonadExcept.throw e : Scan α) run F := by
  intro n run' hr
  cases hr
  exact h n rfl

theorem bind {x : Scan α} {k : α → Scan β} (hx : Blames x run F)
    (hk : ∀ a run', x run = .ok a run' → Blames (k a) run' F) : Blames (x >>= k) run F := by
  intro n run' hr
  rw [Registry.bind_apply] at hr
  cases hr₁ : x run with
  | error e run₁ =>
    rw [hr₁] at hr
    cases hr
    exact hx n run' hr₁
  | ok a run₁ =>
    rw [hr₁] at hr
    exact hk a run₁ hr₁ n run' hr

theorem registry {k : Registry → Scan α} (hk : Blames (k run.registry) run F) :
    Blames (Scan.registry >>= k) run F := hk

/-- after an operation that does not ask for native code -/
theorem after {Q : α → Run → Prop} {x : Scan α} {k : α → Scan β}
    (hx : Leaves Error.OfProgram x) (hsteps : Steps S lost x run Q)
    (hk : ∀ a run', run.Step S lost run' → Q a run' → Blames (k a) run' F) :
    Blames (x >>= k) run F := by
  refine bind (of_leaves hx) fun a run' hr => ?_
  obtain ⟨hstep, hq⟩ := hsteps.ok hr
  exact hk a run' hstep hq

theorem stepping {Q : α → Run → Prop} {act : Scan α} (h : Blames act run F)
    (hsteps : Steps S lost act run Q) (hF : ∀ n run', run.Step S lost run' → F n run' → G n run') :
    Blames act run G :=
  fun n run' hr => hF n run' (hsteps.error hr) (h n run' hr)

end Blames

/-! ## code -/

/-- `m` needs native code and is called `n` -/
def WantsNative (m : MethodId) (n : String) (run : Run) : Prop :=
  (run.registry.method m).needsNativeCode = true ∧ n = run.registry.methodName m

theorem blames_scanCode (m : MethodId) : Blames (scanCode m) run (WantsNative m) := by
  refine .registry ?_
  by_cases hn : (run.registry.method m).needsNativeCode = true
  · rw [if_pos hn]
    refine .throw fun n he => ?_
    injection he with hname
    exact ⟨hn, hname.symm⟩
  · rw [if_neg hn]
    refine .of_leaves ?_
    split
    · exact (leaves_decodeStamped m).bind fun _ => .registry fun _ => leaves_follow _ _
    · exact .pure _

theorem blames_scanPlug (p : MethodId) : Blames (scanPlug p) run (WantsNative p) := by
  refine .bind (.of_leaves (leaves_identify _)) fun _ run₁ _ => .registry ?_
  exact .bind (.of_leaves (leaves_follow _ _)) fun _ run₂ _ => blames_scanCode p

/-! ## elements -/

/-- `m` has no plug, or has one, and what is compiled in its place needs native code -/
def Unreplaced (m : MethodId) (n : String) (run : Run) : Prop :=
  ∃ answer, Answered run m answer ∧ WantsNative (answer.getD m) n run

section
variable {m : MethodId} (hs : run.Sound)
include hs

theorem blames_unplugged (hm : run.registry.Has (.method m)) (hans : Answered run m none) :
    Blames (scanCode m) run (Unreplaced m) := by
  have hsteps : Steps Anything [] (scanCode m) run _ :=
    steps_scanCode hs hm fun _ _ _ _ _ _ _ _ => trivial
  exact (blames_scanCode m).stepping hsteps fun n run' hstep hn => ⟨none, hans.step hstep, hn⟩

theorem blames_plugged {p : MethodId} (hans : Answered run m (some p)) :
    Blames (scanPlug p) run (Unreplaced m) := by
  have hsteps : Steps Anything [] (scanPlug p) run _ :=
    steps_scanPlug hs (hans.2 p rfl).has (fun _ _ _ _ _ => trivial) (fun _ _ _ _ => trivial)
      fun _ _ _ _ _ _ _ _ => trivial
  exact (blames_scanPlug p).stepping hsteps fun n run' hstep hn => ⟨some p, hans.step hstep, hn⟩

theorem blames_scanMethod (hm : .method m ∈ run.scanner.queue.items) :
    Blames (scanMethod m) run (Unreplaced m) := by
  have hhas := (hs.item hm).1
  have hsig : Steps Anything [] (follow (run.registry.methodName m)
      (run.registry.signatureReferences m false)) run _ :=
    steps_signature hs hhas _ false (fun _ _ _ _ _ => trivial) (fun _ _ _ _ _ _ => trivial)
      fun _ _ _ _ => trivial
  refine .registry ?_
  refine .after (leaves_follow _ _) hsig fun _ run₁ hstep₁ _ => ?_
  have hhas₁ := hstep₁.grows.has hhas
  split
  · rename_i hd
    rw [← hstep₁.grows.method hhas] at hd
    exact blames_unplugged hstep₁.sound hhas₁ (answered_dynamic hhas₁ hd)
  · have hresolve : Steps Anything [] (resolvePlug m) run₁ _ :=
      steps_resolvePlug hstep₁.sound (hstep₁.items hm)
    refine .after (leaves_resolvePlug m) hresolve fun answer run₂ hstep₂ hans => ?_
    cases answer with
    | none => exact blames_unplugged hstep₂.sound (hstep₂.grows.has hhas₁) hans
    | some p =>
      refine .bind (blames_plugged hstep₂.sound hans) fun _ run₃ _ => .of_leaves ?_
      split
      · exact leaves_enqueue _ _ _
      · exact .pure _

end

/-- `n` is the name of code that is missing for a method of the queue -/
def Missing (n : String) (run : Run) : Prop :=
  ∃ m, .method m ∈ run.scanner.queue.items ∧ Unreplaced m n run

theorem blames_scanItem (hs : run.Sound) {x : Item} (hx : x ∈ run.scanner.queue.items) :
    Blames (scanItem x) run Missing := by
  cases x with
  | method m =>
    have hsteps : Steps _ [] (scanMethod m) run _ := steps_scanMethod hs hx
    exact (blames_scanMethod hs hx).stepping hsteps fun n run' hstep hn => ⟨m, hstep.items hx, hn⟩
  | type t => exact .of_leaves (leaves_scanType t)
  | field f => exact .of_leaves (.pure _)

/-! ## whole scans -/

-- induction on the budget: the elements looked into before keep the queue sound
theorem blames_drain (budget : Nat) (h : run.Progress roots lost) :
    Blames (drain budget) run Missing := by
  induction budget generalizing run with
  | zero =>
    intro n run' hr
    rw [drain_zero_apply] at hr
    split at hr <;> cases hr
  | succ budget ih =>
    intro n run' hr
    rw [drain_succ_apply] at hr
    cases he : run.scanner.queue.entries[run.scanner.queue.taken]? with
    | none =>
      rw [he] at hr
      cases hr
    | some entry =>
      have hs : (run.withTaken (run.scanner.queue.taken + 1)).Sound := h.sound.withTaken _
      have hitem := blames_scanItem hs
        (show entry.item ∈ run.scanner.queue.items from
          List.mem_map_of_mem (List.mem_of_getElem? he))
      simp only [he] at hr
      refine hitem.bind (k := fun _ => drain budget) ?_ n run' hr
      intro _ run₁ hr₁
      have hlook := progress_look h he
      rw [hr₁] at hlook
      exact ih hlook.2

variable {start : Run}

/-- plugs are those of the types that the plug modules declared when the scan began -/
def PlugsFiled (start run : Run) : Prop :=
  PlugIndex.findImplementors start.registry start.scanner.config.plugModules
    start.scanner.plugs.index = .ok () run.scanner.plugs.index

theorem blames_explore {entry : MethodId} (h : start.Between [.method entry] [])
    (hentry : start.registry.Has (.method entry)) (hnew : start.scanner.plugsIndexed = false) :
    Blames (explore entry) start fun n run => PlugsFiled start run ∧ Missing n run := by
  refine .bind (.of_leaves leaves_indexPlugs) fun _ run₁ hr₁ => ?_
  have h₁ := (ends_indexPlugs h).ok hr₁
  refine .bind (.of_leaves (leaves_enqueue _ _ _)) fun _ run₂ hr₂ => ?_
  have h₂ := ((ends_enqueue h₁ (by simp) (h₁.onward.grows.has hentry) .entryPoint).ok hr₂).1
  refine .bind (fun n run' hr => ?_) fun _ run₃ _ => .of_leaves (leaves_enter _)
  have hprogress := (h₂.withPhase .draining).progress
  have hdrain : drain run₂.scanner.config.budget (run₂.withPhase .draining) =
      .error (.nativeCodeNeedsPlug n) run' := hr
  refine ⟨?_, blames_drain _ hprogress n run' hdrain⟩
  have hindex := progress_drain run₂.scanner.config.budget hprogress
  rw [hdrain] at hindex
  rw [PlugsFiled, show run'.scanner.plugs.index = run₂.scanner.plugs.index from hindex.1.index]
  exact h₂.filed hnew

/-! ## emitting -/

theorem raises_emitWith {E : Error → Prop} (hE : ∀ call, E (.generatorRefused call))
    {make : Scan Emission} (h : Raises E make) : Raises E (emitWith make) := by
  refine .get fun run => (Raises.modify _).bind fun _ => ?_
  split
  · exact .throw (hE _)
  · exact h.bind fun _ => .modify _

theorem notNative_typeUid (t : TypeId) : Raises Error.NotNative (typeUid t) := by
  refine (leaves_identify _).raises.bind fun _ => .get fun run => ?_
  refine Raises.bind (.ofExcept ?_) fun _ => Raises.bind (.modify _) fun _ => .pure _
  rw [Uids.typeUid]
  split
  · split <;> exact .ok _
  · exact .error fun n h => by cases h

theorem notNative_methodTables : Raises Error.NotNative methodTables := by
  refine .get fun run => ?_
  refine Raises.bind (.mapM (fun t => (notNative_typeUid t).bind fun _ => .pure _) _) fun _ => ?_
  refine Raises.bind (.mapM (fun m => ?_) _) fun _ => .pure _
  exact (leaves_methodUid m).raises.bind fun _ => .pure _

theorem notNative_finish (entry : MethodId) (entries : List (Item × Option MethodId)) :
    Raises Error.NotNative (finish entry entries) := by
  have hrefused : ∀ call, Error.NotNative (.generatorRefused call) := fun _ _ h => by cases h
  have hitems := (feeds_assembleItems 0 entries).raises.weaken fun _ he => he.notNative
  refine hitems.bind fun _ => (raises_emitWith hrefused notNative_methodTables).bind fun _ => ?_
  exact (raises_emitWith hrefused (.pure _)).bind fun _ => (leaves_enter _).raises

theorem blames_execute {entry : MethodId} (h : start.Between [.method entry] [])
    (hentry : start.registry.Has (.method entry)) (hnew : start.scanner.plugsIndexed = false) :
    Blames (execute entry) start fun n run => PlugsFiled start run ∧ Missing n run := by
  rw [execute_eq]
  refine .bind (.bind (blames_explore h hentry hnew) fun _ run₁ _ => ?_) fun entries run₂ _ => ?_
  · exact .nobody (Raises.get fun run => (leaves_checkPlugs _).raises)
  · exact .nobody (notNative_finish entry entries)

/-! ## what is replaced -/

theorem exists_managed_plug {m : MethodId} (h : run.Explored (.method m))
    (hn : (run.registry.method m).needsNativeCode = true) :
    ∃ p, Answered run m (some p) ∧ run.registry.IsPlug p ∧
      (run.registry.method p).needsNativeCode = false := by
  obtain ⟨answer, hans, hmanaged⟩ := h.managed m rfl
  cases answer with
  | some p => exact ⟨p, hans, hans.2 p rfl, hmanaged.managed⟩
  | none =>
    have hm : (run.registry.method m).needsNativeCode = false := hmanaged.managed
    rw [hm] at hn
    cases hn

/-- a method that is emitted as its own body has no plug -/
theorem IsBlock.not_answered (hs : run.Sound) {x : Item} {block : List Emission}
    (h : IsBlock run x block) {record : MethodRecord} {code : List Instruction}
    (hmem : .body record code ∈ block) (hk : record.kind = .normal) (p : MethodId) :
    ¬ Answered run record.method (some p) := by
  intro hp
  cases h with
  | own hm hw hr hl hc =>
    cases List.mem_singleton.mp hmem
    rw [hr.method] at hp
    cases hp.unique hs hm.answered
  | standIn hm he hr hp' hc =>
    rcases List.mem_cons.mp hmem with heq | hmem
    · cases heq
      rw [hp'.kind] at hk
      cases hk
    · cases List.mem_singleton.mp hmem
  | forward hm hi hw hr hp' hl => cases List.mem_singleton.mp hmem
  | noCode hm hi hw hr hp' hc => cases List.mem_singleton.mp hmem
  | field f => cases List.mem_singleton.mp hmem
  | _ => cases hmem

/-- **Native code is replaced.**  If a scan with a new scanner succeeds, every method of the queue
that needs native code has an enabled plug that needs none, every one that cannot be compiled
without plug and is not inline has one, and a method with a plug is not emitted as its own body.  If
the scan fails for want of native code, it names a method of the queue that has no plug, or the plug
of one, that needs it. -/
theorem execute_replaces_native {r : Registry} (hw : r.WellFormed) {entry : MethodId}
    (hentry : r.Has (.method entry)) (config : ScanConfig) (generator : Generator) :
    (∀ run, execute entry (.fresh r config generator) = .ok () run →
      PlugIndex.findImplementors r config.plugModules {} = .ok () run.scanner.plugs.index ∧
      (∀ m, .method m ∈ run.scanner.queue.items →
        (run.registry.method m).needsNativeCode = true →
          ∃ p, Answered run m (some p) ∧ run.registry.IsPlug p ∧
            (run.registry.method p).needsNativeCode = false) ∧
      (∀ m, .method m ∈ run.scanner.queue.items → (run.registry.method m).isInline = false →
        requiresPlug (run.registry.method m) = true →
          ∃ p, Answered run m (some p) ∧ run.registry.IsPlug p) ∧
      ∃ new, run.generator.emissions = generator.emissions ++ new ∧
        ∀ record code, .body record code ∈ new → record.kind = .normal →
          ∀ p, ¬ Answered run record.method (some p)) ∧
    ∀ n run, execute entry (.fresh r config generator) = .error (.nativeCodeNeedsPlug n) run →
      PlugIndex.findImplementors r config.plugModules {} = .ok () run.scanner.plugs.index ∧
      ∃ m answer, .method m ∈ run.scanner.queue.items ∧ Answered run m answer ∧
        (run.registry.method (answer.getD m)).needsNativeCode = true ∧
        n = run.registry.methodName (answer.getD m) := by
  refine ⟨fun run hrun => ?_, fun n run hrun => ?_⟩
  · have hfin := finished_of_execute hw hentry hrun
    refine ⟨hfin.index, fun m hm => exists_managed_plug (hfin.complete _ hm (by simp)), ?_, ?_⟩
    · intro m hm hi hreq
      obtain ⟨answer, hc⟩ := hfin.checked _ hm
      have hsome := hc.required m rfl hi hreq
      cases answer with
      | some p => exact ⟨p, hc.answered m rfl, (hc.answered m rfl).2 p rfl⟩
      | none => exact absurd rfl hsome
    · obtain ⟨blocks, methods, hblocks, -, hemissions⟩ := hfin.emissions
      refine ⟨_, hemissions, fun record code hmem hk => ?_⟩
      have hflat : .body record code ∈ blocks.flatten := by simpa using hmem
      obtain ⟨x, -, block, -, hblock, hmem⟩ := exists_item_of_mem_flatten hblocks hflat
      exact hblock.not_answered hfin.sound hmem hk
  · have hblank := blank_fresh hw config generator
    obtain ⟨hfiled, m, hm, answer, hans, hn, hname⟩ :=
      blames_execute (hblank.between [.method entry] []) hentry rfl n run hrun
    exact ⟨hfiled, m, answer, hm, hans, hn, hname⟩

/-- `Native` is replaced by its plug; without plug modules the scan fails and names it -/
theorem execute_replaces_native_calls :
    (∃ run p, execute ⟨2⟩ (.fresh (calls []) { plugModules := [⟨2⟩] } {}) = .ok () run ∧
      (run.registry.method ⟨1⟩).needsNativeCode = true ∧ Answered run ⟨1⟩ (some p) ∧
      (run.registry.method p).needsNativeCode = false) ∧
    ∃ n run, execute ⟨2⟩ (.fresh (calls []) {} {}) = .error (.nativeCodeNeedsPlug n) run ∧
      ∃ m answer, .method m ∈ run.scanner.queue.items ∧ Answered run m answer ∧
        n = run.registry.methodName (answer.getD m) := by
  obtain ⟨hw, hmain⟩ := wellFormed_calls
  refine ⟨?_, ?_⟩
  · obtain ⟨run, hrun, hP⟩ := exists_of_succeedsWith
      (show succeedsWith (execute ⟨2⟩) (.fresh (calls []) { plugModules := [⟨2⟩] } {})
        (fun run => decide (.method ⟨1⟩ ∈ run.scanner.queue.items) &&
          (run.registry.method ⟨1⟩).needsNativeCode) = true by decide +kernel)
    simp only [Bool.and_eq_true, decide_eq_true_eq] at hP
    obtain ⟨-, hnative, -⟩ :=
      (execute_replaces_native hw hmain { plugModules := [⟨2⟩] } {}).1 run hrun
    obtain ⟨p, hp, -, hn⟩ := hnative ⟨1⟩ hP.1 hP.2
    exact ⟨run, p, hrun, hP.2, hp, hn⟩
  · obtain ⟨e, run, hrun, hP⟩ := exists_of_failsWith
      (show failsWith (execute ⟨2⟩) (.fresh (calls []) {} {})
        (fun e _ => e matches .nativeCodeNeedsPlug _) = true by decide +kernel)
    cases e with
    | nativeCodeNeedsPlug n =>
      obtain ⟨-, m, answer, hm, hans, -, hname⟩ :=
        (execute_replaces_native hw hmain {} {}).2 n run hrun
      exact ⟨n, run, hrun, m, answer, hm, hans, hname⟩
    | _ => cases hP

end Scan

end ProgramScan

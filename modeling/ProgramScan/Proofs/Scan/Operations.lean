import ProgramScan.Proofs.Scan.Steps

/-!
# The operations of a scan

One lemma for each operation that a scan is made of, saying which step it takes and what holds
afterwards:

* `steps_onRegistry`     an action on the program;
* `steps_enqueue`, `steps_follow`   additions to the queue;
* `steps_resolvePlug`    the plug of an element of the queue is the one that the index gives;
* `steps_decodeStamped`  decoded code, whose calls name elements of the queue where it has them;
* `steps_emitWith`       emissions.
-/

namespace ProgramScan

open Registry (Grows Settled HasPlug Builds)

namespace Scan

variable {S : Item → Registry → Prop} {lost : List Item} {run : Run}

/-! ## operations that leave the queue alone -/

theorem quiet_useNames (hs : run.Sound) (ts : List TypeId) : run.Quiet (run.useNames ts) :=
  ⟨.useNames _ _, hs.wellFormed.useNames _, rfl, rfl, rfl, rfl, rfl, rfl⟩

theorem steps_reading (hs : run.Sound) (uses : Run → List TypeId) :
    Steps S lost (reading uses) run fun _ _ => True :=
  .of_quiet hs rfl (quiet_useNames hs (uses run)) trivial

theorem steps_identify (hs : run.Sound) (item : Item) :
    Steps S lost (identify item) run fun _ _ => True :=
  steps_reading hs _

theorem steps_onRegistry (hs : run.Sound) {α : Type} {x : Action α} {Q : α → Registry → Prop}
    (hx : Builds x run.registry Q) :
    Steps S lost (onRegistry x) run fun a run' => Settled x a run'.registry ∧ Q a run'.registry := by
  simp only [Steps, onRegistry]
  cases h : x run.registry with
  | ok a r =>
    obtain ⟨hg, hw, hset, hq⟩ := hx.ok h
    exact ⟨.of_quiet hs ⟨hg, hw, rfl, rfl, rfl, rfl, rfl, rfl⟩, hset, hq⟩
  | error e r =>
    obtain ⟨hg, hw⟩ := hx.error h
    exact .of_quiet hs ⟨hg, hw, rfl, rfl, rfl, rfl, rfl, rfl⟩

def HasUid (run : Run) (m : MethodId) (n : Nat) : Prop :=
  run.scanner.uids.methods.get? (run.registry.methodKey m) = some n

theorem steps_methodUid (hs : run.Sound) (m : MethodId) :
    Steps S lost (methodUid m) run fun n run' => HasUid run' m n := by
  refine Steps.bind (steps_reading hs _) fun _ run' hstep _ => ?_
  refine .of_quiet hstep.sound rfl
    ⟨.refl _, hstep.sound.wellFormed, rfl, rfl, rfl, rfl, rfl, rfl⟩ ?_
  exact (run'.scanner.uids.get?_methodUid run'.registry m).1

def Labelled (run : Run) (m : MethodId) (label : String) : Prop :=
  run.scanner.labels.labels.get? (run.registry.methodKey m) = some label

theorem steps_methodLabel (hs : run.Sound) (m : MethodId) :
    Steps S lost (methodLabel m) run fun label run' => Labelled run' m label := by
  refine Steps.bind (steps_identify hs _) fun _ run' hstep _ => ?_
  refine .of_quiet hstep.sound rfl
    ⟨.refl _, hstep.sound.wellFormed, rfl, rfl, rfl, rfl, rfl, rfl⟩ ?_
  exact (run'.scanner.labels.get?_methodLabel run'.registry m).1

theorem steps_typeUid (hs : run.Sound) (t : TypeId) :
    Steps S lost (typeUid t) run fun _ _ => True := by
  refine Steps.bind (steps_identify hs _) fun _ run' hstep _ => ?_
  refine Steps.get ?_
  cases run'.scanner.uids.typeUid run'.registry run'.scanner.queue t with
  | error e => exact Steps.throw hstep.sound e
  | ok found =>
    exact .of_quiet hstep.sound rfl
      ⟨.refl _, hstep.sound.wellFormed, rfl, rfl, rfl, rfl, rfl, rfl⟩ trivial

theorem steps_markUsed (hs : run.Sound) (m : ModuleId) :
    Steps S lost (markUsed m) run fun _ _ => True := by
  refine .of_quiet hs rfl ?_ trivial
  simp only [Run.modifyScanner]
  split
  · exact .refl hs.wellFormed
  · exact ⟨.refl _, hs.wellFormed, rfl, rfl, rfl, rfl, rfl, rfl⟩

/-! ## additions to the queue -/

/-- an element can enter the queue: it is there already, or there is a reason for it -/
def CanEnter (S : Item → Registry → Prop) (run : Run) (y : Item) : Prop :=
  run.registry.Has y ∧
    (run.Reached y ∨ ∀ r, run.registry.Grows r → r.WellFormed → S y r)

theorem CanEnter.step {run' : Run} {y : Item} (h : CanEnter S run y) (hs : run.Sound)
    (hstep : run.Step S lost run') : CanEnter S run' y := by
  refine ⟨hstep.grows.has h.1, ?_⟩
  rcases h.2 with hr | hS
  · exact .inl (hstep.reached hs hr)
  · exact .inr fun r hg hw => hS r (hstep.grows.trans hg) hw

theorem steps_push (hs : run.Sound) {item : Item} (hi : CanEnter S run item) (reason : Reason)
    (source : Option String) :
    Steps S lost (modify fun run : Run => run.modifyScanner fun s =>
        { s with queue := s.queue.push run.registry item reason source }) run
      fun _ run' => run'.Reached item := by
  show run.Step S lost (run.modifyScanner _) ∧ Run.Reached (run.modifyScanner _) item
  by_cases hk : run.scanner.queue.hasKey (run.registry.itemKey item) = true
  · -- only the count of requests changes
    have hpush : run.scanner.queue.push run.registry item reason source =
        { run.scanner.queue with alreadyPresent := run.scanner.queue.alreadyPresent + 1 } := by
      simp only [WorkQueue.push, hk, if_true]
    have hsound : Run.Sound (run.modifyScanner fun s =>
        { s with queue := s.queue.push run.registry item reason source }) := by
      refine ⟨hs.wellFormed, hs.index, ?_, ?_, ?_⟩ <;> simp only [Run.modifyScanner, hpush]
      · exact hs.entries
      · exact hs.distinct
      · exact hs.answers
    refine ⟨⟨.refl _, hsound, rfl, rfl, rfl, rfl, ?_, ⟨[], ?_, by simp⟩, ⟨[], ?_, by simp⟩⟩, hi.1, ?_⟩
    · simp only [Run.modifyScanner, hpush]
    · simp only [Run.modifyScanner, hpush, List.append_nil]
    · simp only [Run.modifyScanner, List.append_nil]
    · simp only [Run.modifyScanner, hpush]
      exact (WorkQueue.hasKey_iff _ _).mp hk
  · have hpush : run.scanner.queue.push run.registry item reason source =
        { run.scanner.queue with
          entries := run.scanner.queue.entries ++
            [⟨run.registry.itemKey item, item, reason, source⟩] } := by
      simp only [WorkQueue.push, hk, Bool.false_eq_true, if_false]
    have hkeys := WorkQueue.keys_nodup_push run.scanner.queue run.registry item reason source
      hs.distinct
    have hsound : Run.Sound (run.modifyScanner fun s =>
        { s with queue := s.queue.push run.registry item reason source }) := by
      refine ⟨hs.wellFormed, hs.index, ?_, hkeys, ?_⟩ <;> simp only [Run.modifyScanner, hpush]
      · intro e he
        rcases List.mem_append.mp he with he | he
        · exact hs.entries e he
        · rw [List.mem_singleton.mp he]
          exact ⟨hi.1, rfl⟩
      · intro key answer ha
        obtain ⟨m, hm, hrest⟩ := hs.answers key answer ha
        refine ⟨m, ?_, hrest⟩
        obtain ⟨e, he, hem⟩ := List.mem_map.mp hm
        exact List.mem_map.mpr ⟨e, List.mem_append_left _ he, hem⟩
    have hreason : ∀ r, run.registry.Grows r → r.WellFormed → S item r := by
      rcases hi.2 with hr | hS
      · exact absurd ((WorkQueue.hasKey_iff _ _).mpr hr.2) hk
      · exact hS
    refine ⟨⟨.refl _, hsound, rfl, rfl, rfl, rfl, ?_,
      ⟨[⟨run.registry.itemKey item, item, reason, source⟩], ?_, ?_⟩, ⟨[], ?_, by simp⟩⟩, hi.1, ?_⟩
    · simp only [Run.modifyScanner, hpush]
    · simp only [Run.modifyScanner, hpush]
    · intro e he
      rw [List.mem_singleton.mp he]
      exact hreason
    · simp only [Run.modifyScanner, List.append_nil]
    · simp only [Run.modifyScanner, hpush, WorkQueue.keys, List.map_append]
      exact List.mem_append_right _ (List.mem_singleton.mpr rfl)

theorem steps_enqueue (hs : run.Sound) {item : Item} (hi : CanEnter S run item) (reason : Reason)
    (source : Option String) :
    Steps S lost (enqueue item reason source) run fun _ run' => run'.Reached item := by
  refine Steps.bind (steps_identify hs item) fun _ run' hstep _ => ?_
  exact steps_push hstep.sound (hi.step hs hstep) reason source

theorem steps_follow (hs : run.Sound) (source : String) {references : List Reference}
    (hr : ∀ ref ∈ references, CanEnter S run ref.item) :
    Steps S lost (follow source references) run
      fun _ run' => ∀ ref ∈ references, run'.Reached ref.item := by
  rw [follow]
  refine Steps.weaken (Steps.forM hs (fun run' => ∀ ref ∈ references, CanEnter S run' ref.item)
    (fun ref run' => run'.Reached ref.item) hr ?_ ?_) fun _ _ _ hq => hq.2
  · intro ref href run' hs' hcan
    refine (steps_enqueue hs' (hcan ref href) ref.reason (some source)).weaken ?_
    exact fun _ run'' hstep hreach => ⟨fun ref' h => (hcan ref' h).step hs' hstep, hreach⟩
  · exact fun ref run' run'' hs' hstep hreach => hstep.reached hs' hreach

/-! ## plugs -/

/-- the answer is the one that the index gives, from now on -/
def Answered (run : Run) (m : MethodId) (answer : Option MethodId) : Prop :=
  Settled (PlugManager.resolveByIndex run.scanner.plugs.index m) answer run.registry ∧
    HasPlug answer run.registry

theorem Answered.step {run' : Run} {m : MethodId} {answer : Option MethodId}
    (h : Answered run m answer) (hstep : run.Step S lost run') : Answered run' m answer := by
  refine ⟨?_, h.2.mono hstep.grows⟩
  rw [hstep.index]
  exact h.1.mono hstep.grows

def remember (run : Run) (key : String) (answer : Option MethodId) : Run :=
  run.modifyScanner fun s =>
    { s with plugs := { s.plugs with resolved := s.plugs.resolved.insert key answer } }

theorem resolvePlug_apply (run : Run) (m : MethodId) :
    resolvePlug m run =
      let r := run.registry
      let noted := r.useNames (r.methodUses m)
      match run.scanner.plugs.resolved.get? (r.methodKey m) with
      | some answer => .ok answer { run with registry := noted }
      | none =>
        match PlugManager.resolveByIndex run.scanner.plugs.index m noted with
        | .ok answer registry =>
          .ok answer (remember { run with registry } (r.methodKey m) answer)
        | .error e registry => .error e { run with registry } := by
  have hresolve : PlugManager.resolvePlug run.scanner.plugs m run.registry =
      match run.scanner.plugs.resolved.get? (run.registry.methodKey m) with
      | some answer =>
        .ok (answer, run.scanner.plugs) (run.registry.useNames (run.registry.methodUses m))
      | none =>
        match PlugManager.resolveByIndex run.scanner.plugs.index m
            (run.registry.useNames (run.registry.methodUses m)) with
        | .ok answer r =>
          .ok (answer, { run.scanner.plugs with
            resolved := run.scanner.plugs.resolved.insert (run.registry.methodKey m) answer }) r
        | .error e r => .error e r := by
    show (match run.scanner.plugs.resolved.get? (run.registry.methodKey m) with
      | some answer => _
      | none => _ : Action (Option MethodId × PlugManager)) _ = _
    cases run.scanner.plugs.resolved.get? (run.registry.methodKey m) with
    | some answer => rfl
    | none =>
      dsimp only
      rw [Registry.bind_apply]
      cases PlugManager.resolveByIndex run.scanner.plugs.index m
        (run.registry.useNames (run.registry.methodUses m)) <;> rfl
  show (onRegistry (run.scanner.plugs.resolvePlug m) >>= _ : Scan (Option MethodId)) run = _
  rw [Registry.bind_apply]
  simp only [onRegistry, hresolve]
  cases run.scanner.plugs.resolved.get? (run.registry.methodKey m) with
  | some answer => rfl
  | none =>
    dsimp only
    cases PlugManager.resolveByIndex run.scanner.plugs.index m
      (run.registry.useNames (run.registry.methodUses m)) <;> rfl

/-- the plug of an element of the queue is the one that the index gives -/
theorem steps_resolvePlug (hs : run.Sound) {m : MethodId}
    (hm : .method m ∈ run.scanner.queue.items) :
    Steps S lost (resolvePlug m) run fun answer run' => Answered run' m answer := by
  have hhas := (hs.item hm).1
  have hwn := hs.wellFormed.useNames (run.registry.methodUses m)
  have hgn := Grows.useNames run.registry (run.registry.methodUses m)
  simp only [Steps, resolvePlug_apply]
  cases hmemo : run.scanner.plugs.resolved.get? (run.registry.methodKey m) with
  | some answer =>
    -- the answer was remembered for an element of the same identity, which is `m` itself
    obtain ⟨m', hm', hk, hset, hp⟩ := hs.answers _ _ hmemo
    have heq : Item.method m' = .method m := hs.item_inj hm' hm hk
    cases heq
    exact ⟨.of_quiet hs ⟨hgn, hwn, rfl, rfl, rfl, rfl, rfl, rfl⟩, hset.mono hgn, hp.mono hgn⟩
  | none =>
    have hb := Registry.builds_resolveByIndex hwn (hgn.hasIndex hs.index) (hgn.has hhas)
    dsimp only
    cases hr : PlugManager.resolveByIndex run.scanner.plugs.index m
        (run.registry.useNames (run.registry.methodUses m)) with
    | error e r =>
      obtain ⟨hg, hw⟩ := hb.error hr
      exact .of_quiet hs ⟨hgn.trans hg, hw, rfl, rfl, rfl, rfl, rfl, rfl⟩
    | ok answer r =>
      obtain ⟨hg, hw, hset, hp⟩ := hb.ok hr
      have hgr := hgn.trans hg
      have hquiet : run.Quiet { run with registry := r } :=
        ⟨hgr, hw, rfl, rfl, rfl, rfl, rfl, rfl⟩
      have hs' := hs.quiet hquiet
      have hsound : (remember { run with registry := r } (run.registry.methodKey m) answer).Sound := by
        refine ⟨hs'.wellFormed, hs'.index, hs'.entries, hs'.distinct, ?_⟩
        intro key found hfound
        by_cases hkey : key = run.registry.methodKey m
        · subst hkey
          have hans : answer = found := by
            simpa [remember, Run.modifyScanner] using hfound
          subst hans
          exact ⟨m, hm, hgr.methodKey hs.wellFormed hhas, hset, hp⟩
        · refine hs'.answers key found ?_
          simpa [remember, Run.modifyScanner, Table.get?_insert_of_ne _ _ hkey] using hfound
      refine ⟨⟨hgr, hsound, rfl, rfl, rfl, rfl, rfl, ⟨[], ?_, by simp⟩, ⟨[], ?_, by simp⟩⟩, hset, hp⟩
      · simp [remember, Run.modifyScanner]
      · simp [remember, Run.modifyScanner]

/-! ## code -/

/-- an operand and what it is stamped to: a call names the element of the queue of the same identity,
if there is one -/
def StampOf (run : Run) (operand : Operand) (stamped : Operand) : Prop :=
  match operand with
  | .method m _ => ∃ target uid, stamped = .method target uid ∧
      run.registry.Has (.method target) ∧
      run.registry.methodKey target = run.registry.methodKey m ∧
      (target = m ∨ .method target ∈ run.scanner.queue.items)
  | _ => stamped = operand

theorem StampOf.step {run' : Run} {operand stamped : Operand} (h : StampOf run operand stamped)
    (hs : run.Sound) (ho : ∀ x ∈ operand.items, run.registry.Has x) (hstep : run.Step S lost run') :
    StampOf run' operand stamped := by
  cases operand with
  | method m uid =>
    obtain ⟨target, uid', rfl, hhas, hkey, hmem⟩ := h
    have hm : run.registry.Has (.method m) := ho _ (List.mem_singleton.mpr rfl)
    refine ⟨target, uid', rfl, hstep.grows.has hhas, ?_, ?_⟩
    · rw [hstep.grows.methodKey hs.wellFormed hhas, hstep.grows.methodKey hs.wellFormed hm, hkey]
    · rcases hmem with rfl | hmem
      · exact .inl rfl
      · exact .inr (hstep.items hmem)
  | _ => exact h

theorem steps_stampOperand (hs : run.Sound) {operand : Operand}
    (ho : ∀ x ∈ operand.items, run.registry.Has x) :
    Steps S lost (stampOperand operand) run fun stamped run' => StampOf run' operand stamped := by
  cases operand with
  | method m uid =>
    refine Steps.bind (steps_identify hs _) fun _ run₁ hstep₁ _ => ?_
    refine Steps.get ?_
    have hs₁ := hstep₁.sound
    have hm : run₁.registry.Has (.method m) :=
      hstep₁.grows.has (ho _ (List.mem_singleton.mpr rfl))
    let target := (run₁.scanner.queue.canonicalMethod? run₁.registry m).getD m
    have hstamp : ∀ uid', StampOf run₁ (.method m uid) (.method target uid') := by
      intro uid'
      refine ⟨target, uid', rfl, ?_⟩
      simp only [target]
      cases hc : run₁.scanner.queue.canonicalMethod? run₁.registry m with
      | none => exact ⟨hm, rfl, .inl rfl⟩
      | some found =>
        obtain ⟨hmem, hkey⟩ := hs₁.canonicalMethod hc
        exact ⟨(hs₁.item hmem).1, hkey, .inr hmem⟩
    refine Steps.bind (steps_methodUid hs₁ target) fun uid' run₂ hstep₂ _ => ?_
    refine Steps.pure hstep₂.sound ?_
    refine (hstamp (some uid')).step hs₁ ?_ hstep₂
    intro x hx
    rw [List.mem_singleton.mp hx]
    exact hm
  | _ => exact Steps.pure hs rfl

theorem steps_stamp (hs : run.Sound) {code : List Instruction} (hc : run.registry.HasCode code) :
    Steps S lost (stamp code) run fun stamped run' =>
      List.Forall₂ (fun i j => StampOf run' i.operand j.operand) code stamped := by
  rw [stamp]
  induction code generalizing run with
  | nil => exact Steps.pure hs .nil
  | cons i code ih =>
    rw [List.mapM_cons]
    have hi := hc i List.mem_cons_self
    refine Steps.bind (Q := fun j run' => StampOf run' i.operand j.operand) ?_ ?_
    · refine Steps.bind (steps_stampOperand hs hi) fun o run₁ hstep₁ ho => ?_
      exact Steps.pure hstep₁.sound ho
    · intro j run₁ hstep₁ hj
      have hc₁ : run₁.registry.HasCode code :=
        fun k hk x hx => hstep₁.grows.has (hc k (List.mem_cons_of_mem _ hk) x hx)
      refine Steps.bind (ih hstep₁.sound hc₁) fun js run₂ hstep₂ hjs => ?_
      refine Steps.pure hstep₂.sound (.cons (hj.step hstep₁.sound ?_ hstep₂) hjs)
      exact fun x hx => hstep₁.grows.has (hi x hx)

/-- `stamped` is the code of `m` with its calls stamped -/
def StampedCode (run : Run) (m : MethodId) (stamped : List Instruction) : Prop :=
  ∃ code, Settled (Registry.decode m) code run.registry ∧ run.registry.HasCode code ∧
    List.Forall₂ (fun i j => StampOf run i.operand j.operand) code stamped

theorem steps_decodeStamped (hs : run.Sound) {m : MethodId} (hm : run.registry.Has (.method m)) :
    Steps S lost (decodeStamped m) run fun stamped run' => StampedCode run' m stamped := by
  refine Steps.bind (steps_onRegistry hs (Registry.builds_decode hs.wellFormed hm)) ?_
  intro code run₁ hstep₁ ⟨hset, hc⟩
  refine (steps_stamp hstep₁.sound hc).weaken fun stamped run₂ hstep₂ hst => ?_
  exact ⟨code, hset.mono hstep₂.grows, hstep₂.grows.hasCode hc, hst⟩

section
variable {code stamped : List Instruction}
  (hst : List.Forall₂ (fun i j => StampOf run i.operand j.operand) code stamped)
include hst

theorem exists_of_mem_stamped {j : Instruction} (hj : j ∈ stamped) :
    ∃ i ∈ code, StampOf run i.operand j.operand := by
  induction hst with
  | nil => cases hj
  | cons h _ ih =>
    rcases List.mem_cons.mp hj with rfl | hj
    · exact ⟨_, List.mem_cons_self, h⟩
    · obtain ⟨i, hi, h⟩ := ih hj
      exact ⟨i, List.mem_cons_of_mem _ hi, h⟩

theorem exists_of_mem_code {i : Instruction} (hi : i ∈ code) :
    ∃ j ∈ stamped, StampOf run i.operand j.operand := by
  induction hst with
  | nil => cases hi
  | cons h _ ih =>
    rcases List.mem_cons.mp hi with rfl | hi
    · exact ⟨_, List.mem_cons_self, h⟩
    · obtain ⟨j, hj, h⟩ := ih hi
      exact ⟨j, List.mem_cons_of_mem _ hj, h⟩

end

theorem StampOf.eq_or {i j : Instruction} (h : StampOf run i.operand j.operand) :
    j.operand = i.operand ∨ ∃ m target uid uid', i.operand = .method m uid ∧
      j.operand = .method target uid' ∧ run.registry.Has (.method target) ∧
      run.registry.methodKey target = run.registry.methodKey m ∧
      (target = m ∨ .method target ∈ run.scanner.queue.items) := by
  cases ho : i.operand with
  | method m uid =>
    rw [ho] at h
    obtain ⟨target, uid', hj, hrest⟩ := h
    exact .inr ⟨m, target, uid, uid', rfl, hj, hrest⟩
  | _ =>
    rw [ho] at h
    exact .inl h

theorem names_of_operand_eq {r : Registry} {i j : Instruction} (h : j.operand = i.operand)
    {y : Item} : r.Names [j] y ↔ r.Names [i] y := by
  rw [← Registry.mem_operandReferences, ← Registry.mem_operandReferences, h]

theorem names_call {r : Registry} {i : Instruction} {m : MethodId} {uid : Option Nat}
    (h : i.operand = .method m uid) {y : Item} : r.Names [i] y ↔ y = .method m := by
  rw [← Registry.mem_operandReferences, h]
  simp [Registry.operandReferences, eq_comm]

section
variable {code stamped : List Instruction}
  (hst : List.Forall₂ (fun i j => StampOf run i.operand j.operand) code stamped)
include hst

theorem hasCode_stamped (hc : run.registry.HasCode code) : run.registry.HasCode stamped := by
  intro j hj x hx
  obtain ⟨i, hi, h⟩ := exists_of_mem_stamped hst hj
  rcases h.eq_or with heq | ⟨m, target, uid, uid', -, hjo, hhas, -⟩
  · exact hc i hi x (heq ▸ hx)
  · rw [hjo] at hx
    rw [List.mem_singleton.mp hx]
    exact hhas

theorem names_of_stamped {y : Item} (hy : run.registry.Names stamped y) :
    run.registry.Names code y ∨ y ∈ run.scanner.queue.items := by
  obtain ⟨j, hj, hy⟩ := Registry.names_iff.mp hy
  obtain ⟨i, hi, h⟩ := exists_of_mem_stamped hst hj
  rcases h.eq_or with heq | ⟨m, target, uid, uid', hio, hjo, -, -, hmem⟩
  · exact .inl (Registry.names_iff.mpr ⟨i, hi, (names_of_operand_eq heq).mp hy⟩)
  · rw [(names_call hjo).mp hy]
    rcases hmem with rfl | hmem
    · exact .inl (Registry.names_iff.mpr ⟨i, hi, (names_call hio).mpr rfl⟩)
    · exact .inr hmem

theorem stamped_of_names {y : Item} (hy : run.registry.Names code y) :
    ∃ z, run.registry.Names stamped z ∧ run.registry.itemKey z = run.registry.itemKey y := by
  obtain ⟨i, hi, hy⟩ := Registry.names_iff.mp hy
  obtain ⟨j, hj, h⟩ := exists_of_mem_code hst hi
  rcases h.eq_or with heq | ⟨m, target, uid, uid', hio, hjo, -, hkey, -⟩
  · exact ⟨y, Registry.names_iff.mpr ⟨j, hj, (names_of_operand_eq heq).mpr hy⟩, rfl⟩
  · rw [(names_call hio).mp hy]
    exact ⟨.method target, Registry.names_iff.mpr ⟨j, hj, (names_call hjo).mpr rfl⟩, hkey⟩

end

/-! ## emissions -/

theorem quiet_counted (hs : run.Sound) (g : Generator) (hg : g.emissions = run.generator.emissions) :
    run.Step S lost { run with generator := g } :=
  ⟨.refl _, ⟨hs.wellFormed, hs.index, hs.entries, hs.distinct, hs.answers⟩, rfl, rfl, rfl, rfl, rfl,
    ⟨[], by simp, by simp⟩, ⟨[], by simp [hg], by simp⟩⟩

theorem steps_emitWith (hs : run.Sound) {make : Scan Emission}
    (hm : ∀ run', run.Step S lost run' → Steps S lost make run' fun em run'' => em.Reached lost run'') :
    Steps S lost (emitWith make) run fun _ _ => True := by
  refine Steps.get ?_
  have hcount : run.Step S lost { run with generator := run.generator.counted } :=
    quiet_counted hs _ rfl
  refine Steps.bind (Q := fun _ run' => run' = { run with generator := run.generator.counted })
    ⟨hcount, rfl⟩ fun _ run₁ hstep₁ _ => ?_
  split
  · exact Steps.throw hstep₁.sound _
  · refine Steps.bind (hm run₁ hstep₁) fun em run₂ hstep₂ hem => ?_
    have hs₂ := hstep₂.sound
    refine ⟨⟨.refl _, ⟨hs₂.wellFormed, hs₂.index, hs₂.entries, hs₂.distinct, hs₂.answers⟩, rfl, rfl,
      rfl, rfl, rfl, ⟨[], by simp, by simp⟩, ⟨[em], rfl, ?_⟩⟩, trivial⟩
    intro e he
    rw [List.mem_singleton.mp he]
    exact hem.mono (.refl _) fun _ hy => hy

theorem steps_emit (hs : run.Sound) {em : Emission} (he : em.Reached lost run) :
    Steps S lost (emit em) run fun _ _ => True :=
  steps_emitWith hs fun _ hstep => Steps.pure hstep.sound (hstep.emission hs he)

end Scan

end ProgramScan

import Mathlib.Data.Fintype.Card
import Mathlib.Data.Set.Finite.Basic
import Mathlib.Logic.Relation
import ProgramScan.Proofs.Scan.Queueing
import ProgramScan.Proofs.Scan.Stages

/-!
# Where forwards lead

A replaced method is emitted as a forward to the label of its plug.  The plug may be replaced too,
so a forward may lead to another one; the label is grounded if this ends at a body
(`Scan.Grounded`).  Forwards of a successful scan are grounded, or lead to a dead end
(`Scan.execute_forwards_grounded`):

* a wildcard without code stands in for a method, and no body is emitted for it;
* the plug shares its identity with a method that was reached before it and is not emitted;
* plugs stand in for each other in a circle.
-/

namespace ProgramScan

open Relation (ReflTransGen TransGen)

namespace Scan

open Run

variable {run : Run}

/-! ## labels -/

/-- A label that a body has, or that forwards lead on from to a body. -/
inductive Grounded (emissions : List Emission) : String → Prop
  | body {record : MethodRecord} {code : List Instruction}
    (h : .body record code ∈ emissions) : Grounded emissions record.label
  | forward {record plug : MethodRecord} (h : .forward record plug ∈ emissions)
    (hp : Grounded emissions plug.label) : Grounded emissions record.label

theorem Grounded.mono {emissions more : List Emission} (hsub : ∀ em ∈ emissions, em ∈ more)
    {label : String} (h : Grounded emissions label) : Grounded more label := by
  induction h with
  | body h => exact .body (hsub _ h)
  | forward h _ ih => exact .forward (hsub _ h) ih

theorem Labelled.eq {m p : MethodId} {label label' : String} (h : Labelled run m label)
    (h' : Labelled run p label') (hkey : run.registry.methodKey m = run.registry.methodKey p) :
    label = label' := by
  rw [Labelled, hkey] at h
  exact Option.some.inj (h.symm.trans h')

/-! ## methods -/

/-- `m` is emitted as a forward to the label of its plug `p`. -/
structure ForwardsTo (run : Run) (m p : MethodId) : Prop where
  compiled : Compiled run m (some p)
  isInline : (run.registry.method p).isInline = false
  wildcard : isWildcard (run.registry.method p) = false

/-- `y` is the method of the queue that has the identity of the plug to which `m` is forwarded. -/
structure Leads (run : Run) (m y : MethodId) : Prop where
  mem : .method y ∈ run.scanner.queue.items
  plug : ∃ p, ForwardsTo run m p ∧ run.registry.methodKey y = run.registry.methodKey p

/-- Why the plug of `m` has no body. -/
inductive DeadEnd (run : Run) (m : MethodId) : Prop
  | noCode {p : MethodId} (hm : Compiled run m (some p))
    (hi : (run.registry.method p).isInline = false)
    (hw : isWildcard (run.registry.method p) = true) (hc : StampedCode run p [])
  | shadowed {p y : MethodId} (hp : ForwardsTo run m p) (hy : .method y ∈ run.scanner.queue.items)
    (hkey : run.registry.methodKey y = run.registry.methodKey p) (hne : y ≠ p)
    (hempty : IsBlock run (.method y) [])
  | circle (h : TransGen (Leads run) m m)

theorem ForwardsTo.exists_leads {m p : MethodId} (h : ForwardsTo run m p) (hs : run.Sound)
    (hc : run.Complete []) (hm : .method m ∈ run.scanner.queue.items) :
    ∃ y, .method y ∈ run.scanner.queue.items ∧
      run.registry.methodKey y = run.registry.methodKey p := by
  obtain ⟨-, hkey⟩ :=
    reached_answer hs (hc _ hm (by simp)) h.compiled.answered h.compiled.isInline
  rw [hs.keys_eq] at hkey
  obtain ⟨x, hx, hxkey⟩ := List.mem_map.mp hkey
  obtain ⟨y, rfl⟩ := Registry.exists_method_of_itemKey hxkey
  exact ⟨y, hx, hxkey⟩

theorem mem_of_mem_forwards {g : Generator} {record plug : MethodRecord}
    (h : (record, plug) ∈ g.forwards) : .forward record plug ∈ g.emissions := by
  obtain ⟨em, hmem, hem⟩ := List.mem_filterMap.mp h
  cases em with
  | forward record' plug' =>
    cases hem
    exact hmem
  | _ => cases hem

/-! ## one forward -/

section
variable (hs : run.Sound) (hc : run.Complete []) {blocks : List (List Emission)}
  (hb : List.Forall₂ (IsBlock run) run.scanner.queue.items blocks)
include hs hc hb

/-- a forward to a plug with a body of its own leads to that body, to another forward or to a method
that is not emitted -/
theorem ForwardsTo.step {m p : MethodId} (h : ForwardsTo run m p)
    (hm : .method m ∈ run.scanner.queue.items) {label : String} (hl : Labelled run p label) :
    Grounded blocks.flatten label ∨ DeadEnd run m ∨
      ∃ record plug, .forward record plug ∈ blocks.flatten ∧ Leads run m record.method ∧
        record.label = label := by
  obtain ⟨y, hy, hkey⟩ := h.exists_leads hs hc hm
  have hleads : Leads run m y := ⟨hy, p, h, hkey⟩
  obtain ⟨block, hmem, hblock⟩ := exists_block_of_mem hb hy
  have hnext : ∀ {record plug}, Replaced run y record → .forward record plug ∈ block →
      ∃ record plug, .forward record plug ∈ blocks.flatten ∧ Leads run m record.method ∧
        record.label = label := by
    intro record plug hr hin
    refine ⟨record, plug, List.mem_flatten_of_mem hmem hin, ?_, hr.label.eq hl hkey⟩
    rw [hr.isRecord.method]
    exact hleads
  cases hblock with
  | inline hi =>
    refine .inr (.inl (.shadowed h hy hkey ?_ (.inline hi)))
    rintro rfl
    rw [h.isInline] at hi
    cases hi
  | wildcard hm' hw =>
    refine .inr (.inl (.shadowed h hy hkey ?_ (.wildcard hm' hw)))
    rintro rfl
    rw [h.wildcard] at hw
    cases hw
  | own hm' hw hr hl' hcode =>
    refine .inl ?_
    rw [← hl'.eq hl hkey]
    exact .body (List.mem_flatten_of_mem hmem List.mem_cons_self)
  | forward hm' hi hw hr hp hl' => exact .inr (.inr (hnext hr List.mem_cons_self))
  | noCode hm' hi hw hr hp hcode => exact .inr (.inr (hnext hr List.mem_cons_self))
  | standIn hm' he hr hp hcode =>
    exact .inr (.inr (hnext hr (List.mem_cons_of_mem _ List.mem_cons_self)))

/-- **One forward** leads to a body, to a dead end or to another forward. -/
theorem forward_step {record plug : MethodRecord} (hmem : .forward record plug ∈ blocks.flatten) :
    Grounded blocks.flatten plug.label ∨ DeadEnd run record.method ∨
      ∃ record' plug', .forward record' plug' ∈ blocks.flatten ∧
        Leads run record.method record'.method ∧ record'.label = plug.label := by
  obtain ⟨x, hx, block, hblocks, hblock, hmem⟩ := exists_item_of_mem_flatten hb hmem
  cases hblock with
  | forward hm hi hw hr hp hl =>
    cases List.mem_singleton.mp hmem
    rw [hr.isRecord.method]
    exact ForwardsTo.step hs hc hb ⟨hm, hi, hw⟩ hx hl
  | noCode hm hi hw hr hp hcode =>
    cases List.mem_singleton.mp hmem
    rw [hr.isRecord.method]
    exact .inr (.inl (.noCode hm hi hw hcode))
  | standIn hm he hr hp hcode =>
    rcases List.mem_cons.mp hmem with heq | hmem
    · cases heq
    · cases List.mem_singleton.mp hmem
      exact .inl (.body (List.mem_flatten_of_mem hblocks List.mem_cons_self))
  | own hm hw hr hl hcode => cases List.mem_singleton.mp hmem
  | field f => cases List.mem_singleton.mp hmem
  | _ => cases hmem

/-! ## chains of forwards -/

-- along the chain from `m`, which ends since `m` is accessible
theorem grounded_of_acc {m : MethodId} (hacc : Acc (fun y x => Leads run x y) m)
    (hend : ∀ y, ReflTransGen (Leads run) m y → ¬ DeadEnd run y) {record plug : MethodRecord}
    (hmem : .forward record plug ∈ blocks.flatten) (hm : record.method = m) :
    Grounded blocks.flatten plug.label := by
  induction hacc generalizing record plug with
  | intro m _ ih =>
    obtain hbody | hdead | ⟨record', plug', hmem', hleads, hlabel⟩ := forward_step hs hc hb hmem
    · exact hbody
    · rw [hm] at hdead
      exact absurd hdead (hend m .refl)
    · rw [hm] at hleads
      have hrest := ih record'.method hleads (fun y hy => hend y (hy.head hleads)) hmem' rfl
      rw [← hlabel]
      exact .forward hmem' hrest

end

/-- a relation into a finite list ends where it does not go round in a circle -/
theorem acc_of_no_circle {α : Type} {R : α → α → Prop} (targets : List α)
    (hR : ∀ x y, R x y → y ∈ targets) {a : α} (h : ∀ x, ReflTransGen R a x → ¬ TransGen R x x) :
    Acc (fun y x => R x y) a := by
  -- circles elsewhere do not matter: the closure is well-founded on what `a` leads to
  let Reach := { x // ReflTransGen R a x }
  have hfinite : Finite Reach := by
    refine ((List.finite_toSet (a :: targets)).subset fun x hx => ?_).to_subtype
    rcases hx.cases_tail with rfl | ⟨y, -, hy⟩
    · exact List.mem_cons_self
    · exact List.mem_cons_of_mem _ (hR y x hy)
  let Later : Reach → Reach → Prop := fun y x => TransGen R x.1 y.1
  have htrans : IsTrans Reach Later := ⟨fun _ _ _ hxy hyz => hyz.trans hxy⟩
  have hirrefl : Std.Irrefl Later := ⟨fun x => h x.1 x.2⟩
  have hwf : WellFounded Later := Finite.wellFounded_of_trans_of_irrefl Later
  have hall : ∀ x : Reach, Acc (fun y x => R x y) x.1 := by
    intro x
    induction x using hwf.induction with
    | _ x ih => exact ⟨_, fun y hy => ih ⟨y, x.2.tail hy⟩ (.single hy)⟩
  exact hall ⟨a, .refl⟩

/-- **Forwards are grounded or lead to a dead end**: in the emissions of a successful scan with a new
scanner, the label that a forward names is that of a body, or forwards lead on from it to a body,
unless the chain of plugs comes to a dead end. -/
theorem execute_forwards_grounded {r : Registry} (hw : r.WellFormed) {entry : MethodId}
    (hentry : r.Has (.method entry)) (config : ScanConfig) (generator : Generator)
    (hrun : execute entry (.fresh r config generator) = .ok () run) :
    PlugIndex.findImplementors r config.plugModules {} = .ok () run.scanner.plugs.index ∧
      ∃ new, run.generator.emissions = generator.emissions ++ new ∧
        ∀ record plug, .forward record plug ∈ new →
          Grounded new plug.label ∨
            ∃ m, ReflTransGen (Leads run) record.method m ∧ DeadEnd run m := by
  have hfin := finished_of_execute hw hentry hrun
  obtain ⟨blocks, methods, hblocks, -, hemissions⟩ := hfin.emissions
  refine ⟨hfin.index, _, hemissions, fun record plug hmem => ?_⟩
  have hflat : .forward record plug ∈ blocks.flatten := by simpa using hmem
  by_cases hend : ∃ m, ReflTransGen (Leads run) record.method m ∧ DeadEnd run m
  · exact .inr hend
  · have hno : ∀ m, ReflTransGen (Leads run) record.method m → ¬ DeadEnd run m :=
      fun m hm hd => hend ⟨m, hm, hd⟩
    have hacc : Acc (fun y x => Leads run x y) record.method :=
      acc_of_no_circle run.scanner.queue.methods
        (fun x y hxy => mem_methods_iff.mpr hxy.mem)
        fun m hm hcircle => hno m hm (.circle hcircle)
    have hgrounded := grounded_of_acc hfin.sound hfin.complete hblocks hacc hno hflat rfl
    exact .inl (hgrounded.mono fun em hem => List.mem_append_left _ hem)

/-- `Native` is forwarded to its plug, which has a body -/
theorem execute_forwards_grounded_calls : ∃ run record plug,
    execute ⟨2⟩ (.fresh (calls []) { plugModules := [⟨2⟩] } {}) = .ok () run ∧
    .forward record plug ∈ run.generator.emissions ∧ record.method = ⟨1⟩ ∧ plug.method = ⟨3⟩ ∧
    (Grounded run.generator.emissions plug.label ∨
      ∃ m, ReflTransGen (Leads run) ⟨1⟩ m ∧ DeadEnd run m) := by
  obtain ⟨run, hrun, hP⟩ := exists_of_succeedsWith
    (show succeedsWith (execute ⟨2⟩) (.fresh (calls []) { plugModules := [⟨2⟩] } {})
      (fun run => run.generator.forwards.any fun f =>
        f.1.method = ⟨1⟩ && f.2.method = ⟨3⟩) = true by decide +kernel)
  simp only [List.any_eq_true, Bool.and_eq_true, decide_eq_true_eq] at hP
  obtain ⟨⟨record, plug⟩, hmem, hm, hp⟩ := hP
  have hforward := mem_of_mem_forwards hmem
  obtain ⟨-, new, hnew, hgrounded⟩ := execute_forwards_grounded wellFormed_calls.1
    wellFormed_calls.2 { plugModules := [⟨2⟩] } {} hrun
  rw [show new = run.generator.emissions from hnew.symm] at hgrounded
  have hone := hgrounded record plug hforward
  rw [hm] at hone
  exact ⟨run, record, plug, hrun, hforward, hm, hp, hone⟩

/-! ## dead ends -/

/-- no body has the label, and forwards from it lead back to it -/
def dangles (emissions : List Emission) (label : String) : Bool :=
  emissions.all fun
    | .body record _ => record.label ≠ label
    | .forward record plug => record.label ≠ label || plug.label = label
    | _ => true

theorem not_grounded_of_dangles {emissions : List Emission} {label : String}
    (h : dangles emissions label = true) : ¬ Grounded emissions label := by
  rw [dangles, List.all_eq_true] at h
  intro hg
  induction hg with
  | body hmem => simpa using h _ hmem
  | forward hmem _ ih =>
    have hback := h _ hmem
    simp only [ne_eq, not_true_eq_false, decide_false, Bool.false_or, decide_eq_true_eq] at hback
    rw [hback] at ih
    exact ih h

/-- a wildcard without code stands in for `Native`; an assembler is to emit it -/
def codeless : Registry :=
  onCore (declareReplaced [.plugMethod { wildcard := true, assembler := some "NativeAsm" }] [])

/-- `Program` stands in for itself -/
def selfPlugged : Registry := onCore do
  let module ← Registry.addModule "Program"
  let program ← Registry.declareType
    { module, namespaceName := "", name := "Program",
      annotations := [.plug { name := some "Program" }] }
  declareStatic module program "Main" (some { code := [0x2A] }) []

/-- `Main` calls the inline method `Impl.Run` of module `Plugs`, then `Program.Run`, whose plug is
another `Impl.Run` -/
def twins : Registry := onCore do
  let module ← Registry.addModule "Program"
  let program ← Registry.declareType { module, namespaceName := "", name := "Program" }
  let run ← declareStatic module program "Run" (some { code := [0x2A] }) []
  let plugs ← Registry.addModule "Plugs"
  let impl ← Registry.declareType
    { module := plugs, namespaceName := "", name := "Impl",
      annotations := [.plug { target := some program }] }
  let _ ← declareStatic plugs impl "Run" (some { code := [0x2A] }) []
  let twin ← declareStatic plugs impl "Run" (some { code := [0x2A] }) [.inline]
  let first ← callTo module twin
  let second ← callTo module run
  declareStatic module program "Main" (some { code := first.code.dropLast ++ second.code }) []

/-- a scan of a new scanner succeeds and emits a forward to a label that is not grounded -/
def EmitsDangling (r : Registry) (entry : MethodId) (config : ScanConfig) : Prop :=
  r.WellFormed ∧ r.Has (.method entry) ∧ ∃ run record plug,
    execute entry (.fresh r config {}) = .ok () run ∧
    .forward record plug ∈ run.generator.emissions ∧
    ¬ Grounded run.generator.emissions plug.label

theorem emitsDangling_of {r : Registry} {entry : MethodId} {config : ScanConfig}
    (h : r.WellFormed ∧ r.Has (.method entry) ∧
      succeedsWith (execute entry) (.fresh r config {}) (fun run =>
        run.generator.forwards.any fun f => dangles run.generator.emissions f.2.label) = true) :
    EmitsDangling r entry config := by
  obtain ⟨hw, hentry, h⟩ := h
  obtain ⟨run, hrun, hP⟩ := exists_of_succeedsWith h
  obtain ⟨⟨record, plug⟩, hmem, hdangles⟩ := List.any_eq_true.mp hP
  exact ⟨hw, hentry, run, record, plug, hrun, mem_of_mem_forwards hmem,
    not_grounded_of_dangles hdangles⟩

/-- each dead end is met -/
theorem exists_dangling :
    EmitsDangling codeless ⟨1⟩ { plugModules := [⟨2⟩] } ∧
    EmitsDangling selfPlugged ⟨0⟩ { plugModules := [⟨1⟩] } ∧
    EmitsDangling twins ⟨3⟩ { plugModules := [⟨2⟩] } := by
  refine ⟨?_, ?_, ?_⟩
  · exact emitsDangling_of (by decide +kernel)
  · exact emitsDangling_of (by decide +kernel)
  · exact emitsDangling_of (by decide +kernel)

end Scan

end ProgramScan

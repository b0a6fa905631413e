import Mathlib.Data.Set.Card
import ProgramScan.Proofs.Scan.Histories
import ProgramScan.Proofs.Scan.Monomorphic

/-!
# The loop of a scan ends

A scan takes elements out of its queue until none is left, and puts others into it on the way.  In a
program without generic elements only those enter that the program held before, each identity once, so
the loop takes at most as many elements as these have identities.

* `Registry.identities`       the identity keys of what a program holds;
* `Scan.Pops run n out`       the loop, without a limit: from `run` it takes `n` elements and ends in `out`;
* `Scan.exists_pops`          it ends;
* `Scan.Pops.le`              the number of elements that it takes;
* `Scan.Session`              scanners after any calls;
* `Scan.loop_terminates`      both, for the loop of every call.
-/

namespace ProgramScan

namespace Registry

variable {r : Registry}

def identities (r : Registry) : Set String := {key | ∃ x, r.Holds x ∧ r.itemKey x = key}

/-- a program has finitely many elements -/
theorem finite_has (r : Registry) : {x | r.Has x}.Finite := by
  have htypes := (Set.finite_lt_nat r.types.size).image fun i => Item.type ⟨i⟩
  have hmethods := (Set.finite_lt_nat r.methods.size).image fun i => Item.method ⟨i⟩
  have hfields := (Set.finite_lt_nat r.fields.size).image fun i => Item.field ⟨i⟩
  refine ((htypes.union hmethods).union hfields).subset fun x hx => ?_
  cases x with
  | type t => exact .inl (.inl ⟨t.index, hx, rfl⟩)
  | method m => exact .inl (.inr ⟨m.index, hx, rfl⟩)
  | field f => exact .inr ⟨f.index, hx, rfl⟩

theorem finite_identities (hw : r.WellFormed) : r.identities.Finite := by
  refine (r.finite_has.image r.itemKey).subset ?_
  rintro key ⟨x, hx, hkey⟩
  exact ⟨x, hx.has hw, hkey⟩

end Registry

namespace Run

variable {r : Registry} {run : Run}

theorem StaysIn.size_le (h : run.StaysIn r) (hw : r.WellFormed) :
    run.scanner.queue.size ≤ r.identities.ncard := by
  have hsub : (run.scanner.queue.keys.toFinset : Set String) ⊆ r.identities := by
    intro key hkey
    rw [Finset.mem_coe, List.mem_toFinset] at hkey
    obtain ⟨e, he, rfl⟩ := List.mem_map.mp hkey
    obtain ⟨hholds, hkey⟩ := h.entries e he
    exact ⟨e.item, hholds, hkey.symm⟩
  calc run.scanner.queue.size
      = run.scanner.queue.keys.length := (List.length_map _).symm
    _ = run.scanner.queue.keys.toFinset.card := (List.toFinset_card_of_nodup h.distinct).symm
    _ = (run.scanner.queue.keys.toFinset : Set String).ncard := (Set.ncard_coe_finset _).symm
    _ ≤ r.identities.ncard := Set.ncard_le_ncard hsub (Registry.finite_identities hw)

end Run

namespace Scan

variable {r : Registry} {run run' run₁ : Run} {entry : QueueEntry} {n : Nat}
  {out : EStateM.Result Error Run Unit}

/-! ## the loop -/

/-- From `run`, the loop takes `n` elements out of the queue, looks into them, and ends in `out`. -/
inductive Pops : Run → Nat → EStateM.Result Error Run Unit → Prop
  | empty {run run' : Run} (hnext : dequeue run = .ok none run') : Pops run 0 (.ok () run')
  | failed {run run₁ run' : Run} {entry : QueueEntry} {e : Error}
    (hnext : dequeue run = .ok (some entry) run₁) (hlook : scanItem entry.item run₁ = .error e run') :
    Pops run 1 (.error e run')
  | looked {run run₁ run₂ : Run} {entry : QueueEntry} {n : Nat} {out : EStateM.Result Error Run Unit}
    (hnext : dequeue run = .ok (some entry) run₁) (hlook : scanItem entry.item run₁ = .ok () run₂)
    (hrest : Pops run₂ n out) : Pops run (n + 1) out

theorem pending_eq_zero_of_dequeue (h : dequeue run = .ok none run') :
    run' = run ∧ run.scanner.queue.pending = 0 := by
  rw [dequeue_apply] at h
  split at h
  · rename_i hnone
    cases h
    exact ⟨rfl, Nat.sub_eq_zero_of_le (List.getElem?_eq_none_iff.mp hnone)⟩
  · cases h

theorem of_dequeue (h : dequeue run = .ok (some entry) run₁) :
    run.scanner.queue.taken < run.scanner.queue.size ∧
      entry ∈ run.scanner.queue.entries ∧ run₁ = run.withTaken (run.scanner.queue.taken + 1) := by
  rw [dequeue_apply] at h
  split at h
  · cases h
  · rename_i hentry
    cases h
    exact ⟨(List.getElem?_eq_some_iff.mp hentry).1, List.mem_of_getElem? hentry, rfl⟩

/-- when the loop ends without failure, the queue is empty -/
theorem Pops.pending (h : Pops run n out) (hout : out = .ok () run') :
    run'.scanner.queue.pending = 0 := by
  induction h with
  | empty hnext =>
    cases hout
    obtain ⟨rfl, hpending⟩ := pending_eq_zero_of_dequeue hnext
    exact hpending
  | failed hnext hlook => cases hout
  | looked hnext hlook hrest ih => exact ih hout

/-- a limit that is not reached makes no difference -/
theorem Pops.drain (h : Pops run n out) {budget : Nat} (hn : n ≤ budget) :
    Scan.drain budget run = out := by
  induction h generalizing budget with
  | empty hnext =>
    obtain ⟨rfl, hpending⟩ := pending_eq_zero_of_dequeue hnext
    cases budget with
    | zero => rw [drain_zero_apply, if_neg (not_not_intro hpending)]
    | succ budget => rw [Scan.drain, Registry.bind_apply, hnext]; rfl
  | failed hnext hlook =>
    obtain ⟨budget, rfl⟩ := Nat.exists_eq_add_of_le' hn
    rw [Scan.drain, Registry.bind_apply, hnext]
    dsimp only
    rw [Registry.bind_apply, hlook]
  | looked hnext hlook hrest ih =>
    obtain ⟨budget, rfl⟩ := Nat.exists_eq_add_of_le' (Nat.le_of_add_left_le hn)
    rw [Scan.drain, Registry.bind_apply, hnext]
    dsimp only
    rw [Registry.bind_apply, hlook]
    exact ih (Nat.le_of_add_le_add_right hn)

/-! ## how often it goes round -/

/-- looking into an element takes nothing out of the queue -/
theorem confines_taken (k : Nat) :
    Confines (fun run => run.scanner.queue.taken = k) fun _ => True := by
  refine confines_of_frame (fun _ _ h hk => ?_) (fun _ _ h => h) (fun _ _ _ h => h) ?_
  · rw [h.queue]
    exact hk
  · intro run item reason source hk
    simp only [Run.modifyScanner, WorkQueue.push]
    split
    · exact hk
    · exact hk

section
variable (hw : r.WellFormed) (hmono : r.Monomorphic)
include hw

theorem staysIn_dequeue (hi : run.StaysIn r) (hnext : dequeue run = .ok (some entry) run₁) :
    run₁.StaysIn r ∧ r.Holds entry.item ∧
      run₁.scanner.queue.taken = run.scanner.queue.taken + 1 ∧
      run.scanner.queue.taken < r.identities.ncard := by
  obtain ⟨hlt, hmem, rfl⟩ := of_dequeue hnext
  exact ⟨advances_staysIn run _ hi, (hi.entries entry hmem).1, rfl,
    Nat.lt_of_lt_of_le hlt (hi.size_le hw)⟩

include hmono

theorem staysIn_look {x : Item} (hi : run.StaysIn r) (hx : r.Holds x)
    (hlook : scanItem x run = .ok () run') :
    run'.StaysIn r ∧ run'.scanner.queue.taken = run.scanner.queue.taken :=
  ⟨((keeps_scanItem (confines_staysIn hw hmono) hx).ok hi hlook).1,
    ((keeps_scanItem (confines_taken _) trivial).ok rfl hlook).1⟩

/-- the loop goes round at most once for every identity that was not taken yet -/
theorem Pops.le (h : Pops run n out) (hi : run.StaysIn r) :
    n ≤ r.identities.ncard - run.scanner.queue.taken := by
  induction h with
  | empty hnext => exact Nat.zero_le _
  | failed hnext hlook =>
    obtain ⟨-, -, -, hlt⟩ := staysIn_dequeue hw hi hnext
    omega
  | looked hnext hlook hrest ih =>
    obtain ⟨hi₁, hx, htaken₁, hlt⟩ := staysIn_dequeue hw hi hnext
    obtain ⟨hi₂, htaken₂⟩ := staysIn_look hw hmono hi₁ hx hlook
    have hrest := ih hi₂
    omega

/-- **The loop ends.** -/
theorem exists_pops (hi : run.StaysIn r) : ∃ n out, Pops run n out := by
  -- the identities that were not taken yet get fewer
  induction hleft : r.identities.ncard - run.scanner.queue.taken using Nat.strong_induction_on
    generalizing run with
  | _ left ih =>
    cases hnext : dequeue run with
    | error e run₁ =>
      rw [dequeue_apply] at hnext
      split at hnext <;> cases hnext
    | ok next run₁ =>
      cases next with
      | none => exact ⟨0, _, .empty hnext⟩
      | some entry =>
        obtain ⟨hi₁, hx, htaken₁, hlt⟩ := staysIn_dequeue hw hi hnext
        cases hlook : scanItem entry.item run₁ with
        | error e run₂ => exact ⟨1, _, .failed hnext hlook⟩
        | ok u run₂ =>
          obtain ⟨hi₂, htaken₂⟩ := staysIn_look hw hmono hi₁ hx hlook
          obtain ⟨n, out, hrest⟩ := ih _ (by omega) hi₂ rfl
          exact ⟨n + 1, out, .looked hnext hlook hrest⟩

end

/-! ## calls of a scanner -/

/-- A scanner for `r` after calls that name elements of the program, as its configuration does.  Each may
feed a generator of its own, and may fail. -/
inductive Session (r : Registry) : Run → Prop
  | start {config : ScanConfig} (hconfig : ∀ m ∈ config.explicitEntries, r.Has (.method m))
    (generator : Generator) : Session r (.fresh r config generator)
  | succeeded {run run' : Run} (h : Session r run) {call : Call}
    (hcall : ∀ x ∈ call.items, run.registry.Holds x) (generator : Generator)
    (hrun : call.scan (run.feeding generator) = .ok () run') : Session r run'
  | failed {run run' : Run} (h : Session r run) {call : Call}
    (hcall : ∀ x ∈ call.items, run.registry.Holds x) (generator : Generator) {e : Error}
    (hrun : call.scan (run.feeding generator) = .error e run') : Session r run'

theorem staysIn_fresh (hw : r.WellFormed) {config : ScanConfig}
    (hconfig : ∀ m ∈ config.explicitEntries, r.Has (.method m)) (generator : Generator) :
    (Run.fresh r config generator).StaysIn r where
  broadens := ⟨.refl r, hw⟩
  config := hconfig
  plugs := ⟨(Run.blank_fresh hw config generator).index, fun _ _ h => by cases h⟩
  entries _ he := by cases he
  distinct := List.nodup_nil

theorem staysIn_feeding (hi : run.StaysIn r) (generator : Generator) :
    (run.feeding generator).StaysIn r :=
  ⟨hi.broadens, hi.config, hi.plugs, hi.entries, hi.distinct⟩

theorem keeps_call (hw : r.WellFormed) (hmono : r.Monomorphic) {call : Call}
    (hcall : ∀ x ∈ call.items, r.Holds x) : Keeps (Run.StaysIn r) call.scan fun _ => True :=
  keeps_scan (confines_staysIn hw hmono) (outputs_staysIn hw hmono) advances_staysIn
    (fun _ hi m hm => hi.config m hm) hcall

/-- what holds after every sequence of calls -/
theorem Session.staysIn (hw : r.WellFormed) (hmono : r.Monomorphic) (h : Session r run) :
    run.StaysIn run.registry ∧ run.registry.Monomorphic := by
  induction h with
  | start hconfig generator => exact ⟨staysIn_fresh hw hconfig generator, hmono⟩
  | succeeded _ hcall generator hrun ih =>
    obtain ⟨hi, hm⟩ := ih
    obtain ⟨hi', -⟩ := (keeps_call hi.broadens.wellFormed hm hcall).ok
      (staysIn_feeding hi generator) hrun
    exact ⟨hi'.rebase hi.broadens.wellFormed, hi'.broadens.widens.monomorphic hm⟩
  | failed _ hcall generator hrun ih =>
    obtain ⟨hi, hm⟩ := ih
    have hi' := (keeps_call hi.broadens.wellFormed hm hcall).error
      (staysIn_feeding hi generator) hrun
    exact ⟨hi'.rebase hi.broadens.wellFormed, hi'.broadens.widens.monomorphic hm⟩

/-- **The loop of every call ends**, with an empty queue or a failure, and takes no more elements than
the program holds identities when the call is made.  With at least that limit it is the loop that
runs. -/
theorem loop_terminates (hw : r.WellFormed) (hmono : r.Monomorphic) (h : Session r run) {call : Call}
    (hcall : ∀ x ∈ call.items, run.registry.Holds x) (generator : Generator)
    (hstart : call.approach (run.feeding generator) = .ok () run₁) :
    (∃ n out, Pops run₁ n out) ∧
      ∀ n out, Pops run₁ n out → n ≤ run.registry.identities.ncard ∧
        (∀ run₂, out = .ok () run₂ → run₂.scanner.queue.pending = 0) ∧
        ∀ budget, n ≤ budget → drain budget run₁ = out := by
  obtain ⟨hi, hm⟩ := h.staysIn hw hmono
  have hw' := hi.broadens.wellFormed
  have happroach := keeps_approach (confines_staysIn hw' hm) (fun _ hi m hm => hi.config m hm) hcall
  obtain ⟨hi₁, -⟩ := happroach.ok (staysIn_feeding hi generator) hstart
  refine ⟨exists_pops hw' hm hi₁, fun n out hpops => ⟨?_, fun run₂ => hpops.pending, ?_⟩⟩
  · exact (Pops.le hw' hm hpops hi₁).trans (Nat.sub_le _ _)
  · exact fun budget hn => hpops.drain hn

/-- `Main` calls `Native`, and the plug of that calls `Helper`. -/
theorem loop_terminates_calls : ∃ run n out,
    (Call.execute ⟨2⟩).approach (.fresh (calls []) { plugModules := [⟨2⟩] } {}) = .ok () run ∧
      Pops run n out ∧ 0 < n ∧ n ≤ (calls []).identities.ncard ∧
      ∀ run', out = .ok () run' → run'.scanner.queue.pending = 0 := by
  obtain ⟨hw, hmain⟩ := wellFormed_calls
  have hmono : (calls []).Monomorphic :=
    Registry.monomorphic_of_forall (by decide +kernel) (by decide +kernel)
  obtain ⟨run, hstart, hpending⟩ := exists_of_succeedsWith
    (show succeedsWith (Call.execute ⟨2⟩).approach (.fresh (calls []) { plugModules := [⟨2⟩] } {})
      (fun run => run.scanner.queue.pending == 1) = true by decide +kernel)
  have hcall : ∀ x ∈ (Call.execute ⟨2⟩).items, (calls []).Holds x := by
    intro x hx
    rw [List.mem_singleton.mp hx]
    exact hmain
  obtain ⟨⟨n, out, hpops⟩, hall⟩ :=
    loop_terminates hw hmono (.start (by simp) {}) hcall {} hstart
  obtain ⟨hle, hempty, hdrain⟩ := hall n out hpops
  refine ⟨run, n, out, hstart, hpops, Nat.pos_of_ne_zero fun hn => ?_, hle, hempty⟩
  -- the entry is waiting when the loop starts
  have hfail := hdrain 0 (Nat.le_of_eq hn)
  rw [drain_zero_apply, beq_iff_eq.mp hpending, if_pos Nat.one_ne_zero] at hfail
  subst hn
  cases hpops with
  | empty hnext => cases hfail

end Scan

end ProgramScan

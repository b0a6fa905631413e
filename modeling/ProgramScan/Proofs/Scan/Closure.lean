import Mathlib.Logic.Relation
import ProgramScan.Proofs.Registry.Building
import ProgramScan.Proofs.Scan.Calls

/-!
# What a scan reaches

A successful scan with a fresh scanner reaches the least set of elements that holds the entry and
what its elements refer to (`Scan.execute_isClosure`).  The program is well-formed, as every program
is that was built (`Registry.Built.wellFormed`).  Elements of one identity count as one; a program
whose elements all have identities of their own is scanned exactly along chains of references
(`Registry.IsClosure.mem_iff`).
-/

namespace ProgramScan

open Registry (Grows)
open Relation (ReflTransGen)

namespace Registry

/-- `items` is the least set of elements that holds `entry` and what its elements refer to.  Elements
are compared by identity. -/
structure IsClosure (r : Registry) (refers : Item → Item → Prop) (entry : Item)
    (items : List Item) : Prop where
  elements : ∀ x ∈ items, r.Has x
  distinct : (items.map r.itemKey).Nodup
  root : r.itemKey entry ∈ items.map r.itemKey
  closed : ∀ x ∈ items, ∀ y, refers x y → r.Has y ∧ r.itemKey y ∈ items.map r.itemKey
  least : ∀ T : Item → Prop, T entry → (∀ x y, T x → refers x y → T y) → ∀ x ∈ items, T x

/-- elements have identities of their own -/
def TellsApart (r : Registry) : Prop :=
  ∀ x y, r.Has x → r.Has y → r.itemKey x = r.itemKey y → x = y

/-- the closure holds what chains of references lead to -/
theorem IsClosure.mem_iff {r : Registry} {refers : Item → Item → Prop} {entry : Item}
    {items : List Item} (h : r.IsClosure refers entry items) (hr : r.TellsApart)
    (hentry : r.Has entry) {y : Item} : y ∈ items ↔ ReflTransGen refers entry y := by
  have hmem : ∀ z, r.Has z → r.itemKey z ∈ items.map r.itemKey → z ∈ items := by
    intro z hz hkey
    obtain ⟨x, hx, hk⟩ := List.mem_map.mp hkey
    rw [← hr x z (h.elements x hx) hz hk]
    exact hx
  constructor
  · exact h.least (ReflTransGen refers entry) .refl (fun _ _ hx hxy => hx.tail hxy) y
  · intro hy
    induction hy with
    | refl => exact hmem entry hentry h.root
    | tail _ hxy ih =>
      obtain ⟨hhas, hkey⟩ := h.closed _ ih _ hxy
      exact hmem _ hhas hkey

end Registry

namespace Run

def fresh (r : Registry) (config : ScanConfig) (generator : Generator) : Run :=
  { registry := r, scanner := { config }, generator }

theorem blank_fresh {r : Registry} (hw : r.WellFormed) (config : ScanConfig)
    (generator : Generator) : (fresh r config generator).Blank :=
  ⟨hw, fun kind => by cases kind <;> simp [Registry.HasRows, fresh, PlugIndex.bucket], rfl, rfl,
    fun _ => rfl⟩

theorem Sound.keys_eq {run : Run} (h : run.Sound) :
    run.scanner.queue.keys = run.scanner.queue.items.map run.registry.itemKey := by
  rw [WorkQueue.keys, WorkQueue.items, List.map_map]
  exact List.map_congr_left fun e he => (h.entries e he).2

end Run

namespace Scan

open Run

/-- a call that lost nothing reaches the closure of its roots -/
theorem Succeeded.isClosure {start run : Run} {entry : Item}
    (h : Succeeded start entry [entry] [] run) :
    run.registry.IsClosure
      (run.registry.Refers run.scanner.plugs.index run.scanner.config.arrayHelper) entry
      run.scanner.queue.items := by
  have hs := h.within.progress.sound
  have hkeys := hs.keys_eq
  refine ⟨fun x hx => (hs.item hx).1, ?_, ?_, ?_, ?_⟩
  · rw [← hkeys]
    exact hs.distinct
  · rw [← hkeys]
    exact h.reached.2
  · intro x hx y hy
    rw [← hkeys]
    exact (h.complete x hx (by simp)).closed _ (.refl _) hs.wellFormed y hy
  · intro T hT hclosed
    refine h.within.progress.rooted _ (.refl _) hs.wellFormed T (fun x hx => ?_) hclosed
    rw [List.mem_singleton.mp hx]
    exact hT

/-- **A successful scan reaches the closure of its entry.**  Plugs are those that the modules of the
configuration declare; references are those of the program as the scan leaves it, with the instances
that were made on the way. -/
theorem execute_isClosure {r : Registry} (hw : r.WellFormed) {entry : MethodId}
    (hentry : r.Has (.method entry)) (config : ScanConfig) (generator : Generator) {run : Run}
    (hrun : execute entry (.fresh r config generator) = .ok () run) :
    ∃ index, PlugIndex.findImplementors r config.plugModules {} = .ok () index ∧
      r.Grows run.registry ∧
      run.registry.IsClosure (run.registry.Refers index config.arrayHelper) (.method entry)
        run.scanner.queue.items ∧
      (run.registry.TellsApart → ∀ y, y ∈ run.scanner.queue.items ↔
        ReflTransGen (run.registry.Refers index config.arrayHelper) (.method entry) y) := by
  have hends := ends_execute ((blank_fresh hw config generator).between [.method entry] [])
    hentry (by simp)
  simp only [Ends, hrun] at hends
  have hclosure := hends.isClosure
  rw [show run.scanner.config = config from hends.within.onward.config] at hclosure
  refine ⟨_, hends.within.filed rfl, hends.within.onward.grows, hclosure, fun hr y => ?_⟩
  exact hclosure.mem_iff hr (hends.within.onward.grows.has hentry)

/-! ## a program to scan -/

def declareStatic (module : ModuleId) (t : TypeId) (name : String) (body : Option Body)
    (marks : List Annotation) : Action MethodId :=
  let design : MethodDesign :=
    { module, name, declaring := some t, annotations := marks, body }
  Registry.declareMethod (design.withOptions { isStatic := true, internalCall := body.isNone })

def callTo (module : ModuleId) (m : MethodId) : Action Body := do
  let token ← Registry.tokenFor module (.method (some m))
  return { code := 0x28 :: token.bytes ++ [0x2A] }

/-- `Program.Main` calls `Program.Native`, which needs native code.  `Impl.Native` of module `Plugs`
stands in for it, is annotated with `marks` and calls `Program.Helper`. -/
def declareCalls (marks : List Annotation) : Action MethodId := do
  let module ← Registry.addModule "Program"
  let program ← Registry.declareType { module, namespaceName := "", name := "Program" }
  let helper ← declareStatic module program "Helper" (some { code := [0x2A] }) []
  let native ← declareStatic module program "Native" none []
  let main ← declareStatic module program "Main" (some (← callTo module native)) []
  let plugs ← Registry.addModule "Plugs"
  let impl ← Registry.declareType
    { module := plugs, namespaceName := "", name := "Impl",
      annotations := [.plug { target := some program }] }
  let _ ← declareStatic plugs impl "Native" (some (← callTo plugs helper)) marks
  return main

def calls (marks : List Annotation) : Registry :=
  match declareCalls marks Registry.core with
  | .ok _ r => r
  | .error _ r => r

theorem wellFormed_calls : (calls []).WellFormed ∧ (calls []).Has (.method ⟨2⟩) := by
  decide +kernel

/-- `Program.Main` calls `Program.Native`, which needs native code.  `Impl.Native` of module `Plugs`
stands in for it, is annotated with `marks` and has the given code. -/
def declareReplaced (marks : List Annotation) (code : List UInt8) : Action MethodId := do
  let module ← Registry.addModule "Program"
  let program ← Registry.declareType { module, namespaceName := "", name := "Program" }
  let native ← declareStatic module program "Native" none []
  let main ← declareStatic module program "Main" (some (← callTo module native)) []
  let plugs ← Registry.addModule "Plugs"
  let impl ← Registry.declareType
    { module := plugs, namespaceName := "", name := "Impl",
      annotations := [.plug { target := some program }] }
  let _ ← declareStatic plugs impl "Native" (some { code }) marks
  return main

def onCore (declare : Action MethodId) : Registry :=
  match declare Registry.core with
  | .ok _ r => r
  | .error _ r => r

def itemsAfter? (act : Scan Unit) (run : Run) : Option (List Item) :=
  match act run with
  | .ok _ run' => some run'.scanner.queue.items
  | .error _ _ => none

theorem exists_of_itemsAfter? {act : Scan Unit} {run : Run} {items : List Item}
    (h : itemsAfter? act run = some items) :
    ∃ run', act run = .ok () run' ∧ run'.scanner.queue.items = items := by
  rw [itemsAfter?] at h
  cases hr : act run with
  | ok u run' =>
    rw [hr] at h
    exact ⟨run', rfl, by simpa using h⟩
  | error e run' =>
    rw [hr] at h
    cases h

def succeedsWith (act : Scan Unit) (run : Run) (P : Run → Bool) : Bool :=
  match act run with
  | .ok _ run' => P run'
  | .error _ _ => false

theorem exists_of_succeedsWith {act : Scan Unit} {run : Run} {P : Run → Bool}
    (h : succeedsWith act run P = true) : ∃ run', act run = .ok () run' ∧ P run' = true := by
  rw [succeedsWith] at h
  cases hr : act run with
  | ok u run' =>
    rw [hr] at h
    exact ⟨run', rfl, h⟩
  | error e run' =>
    rw [hr] at h
    cases h

def failsWith (act : Scan Unit) (run : Run) (P : Error → Run → Bool) : Bool :=
  match act run with
  | .ok _ _ => false
  | .error e run' => P e run'

theorem exists_of_failsWith {act : Scan Unit} {run : Run} {P : Error → Run → Bool}
    (h : failsWith act run P = true) : ∃ e run', act run = .error e run' ∧ P e run' = true := by
  rw [failsWith] at h
  cases hr : act run with
  | ok u run' =>
    rw [hr] at h
    cases h
  | error e run' =>
    rw [hr] at h
    exact ⟨e, run', rfl, h⟩

/-- `Main` leads to its type, the base of that, the result type, `Native`, its plug and what the plug
calls -/
theorem execute_isClosure_calls : ∃ run index,
    execute ⟨2⟩ (.fresh (calls []) { plugModules := [⟨2⟩] } {}) = .ok () run ∧
    PlugIndex.findImplementors (calls []) [⟨2⟩] {} = .ok () index ∧
    run.scanner.queue.items = [.method ⟨2⟩, .type ⟨20⟩, .type ⟨5⟩, .method ⟨1⟩, .type ⟨0⟩,
      .type ⟨1⟩, .method ⟨0⟩, .method ⟨3⟩, .type ⟨21⟩] ∧
    run.registry.IsClosure (run.registry.Refers index "System.SZArrayHelper") (.method ⟨2⟩)
      run.scanner.queue.items := by
  obtain ⟨run, hrun, hitems⟩ := exists_of_itemsAfter?
    (show itemsAfter? (execute ⟨2⟩) (.fresh (calls []) { plugModules := [⟨2⟩] } {}) =
      some [.method ⟨2⟩, .type ⟨20⟩, .type ⟨5⟩, .method ⟨1⟩, .type ⟨0⟩, .type ⟨1⟩, .method ⟨0⟩,
        .method ⟨3⟩, .type ⟨21⟩] by decide +kernel)
  obtain ⟨index, hindex, -, hclosure, -⟩ := execute_isClosure wellFormed_calls.1 wellFormed_calls.2
    { plugModules := [⟨2⟩] } {} hrun
  exact ⟨run, index, hrun, hindex, hitems, hclosure⟩

end Scan

end ProgramScan

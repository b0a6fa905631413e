import ProgramScan.Proofs.Scan.Stages

/-!
# Fields of the queue and their types

A field is not looked into.  It enters the queue because code names it, and only if it is static; a
type leads to the types of its instance fields and to no others.  So the two never meet: that a
field is in the queue does not bring its type there.

* `Run.Traced`           every element of the queue is a root, or an element of the queue refers to
                         it; each step of a scan keeps this, so a whole call does
                         (`Scan.traced_execute`);
* `Scan.execute_fields`  what a successful scan reaches of a field of the queue, and of the fields of
                         a type of the queue.
-/

namespace ProgramScan

open Registry (Grows)

namespace Registry

/-- only types have identities of types -/
theorem exists_type_of_itemKey {r r' : Registry} {x : Item} {t : TypeId}
    (h : r.itemKey x = r'.typeKey t) : ∃ u, x = .type u := by
  have hhead := congrArg (fun s => s.toList.head?) h
  cases x with
  | type u => exact ⟨u, rfl⟩
  | method m => simp [itemKey, typeKey, methodKey] at hhead
  | field f => simp [itemKey, typeKey, fieldKey] at hhead

theorem Refers.of_field {r : Registry} {index : PlugIndex} {helper : String} {x : Item} {f : FieldId}
    (h : r.Refers index helper x (.field f)) :
    (r.field f).isStatic = true ∧ r.Refers index helper x (.type (r.field f).declaring) := by
  cases h with
  | plugCode hp hi hc hy =>
    cases hy with
    | staticField hi' hf hs => exact ⟨hs, .plugCode hp hi hc (.owner hi' hf)⟩
  | code hp hi hc hy =>
    cases hy with
    | staticField hi' hf hs => exact ⟨hs, .code hp hi hc (.owner hi' hf)⟩

end Registry

namespace Run

/-- every element of the queue is a root, or an element of the queue refers to it -/
def Traced (run : Run) (roots : List Item) : Prop :=
  ∀ r, run.registry.Grows r → r.WellFormed → ∀ y ∈ run.scanner.queue.items,
    y ∈ roots ∨ ∃ x ∈ run.scanner.queue.items, run.ReferredBy x y r

variable {run run' : Run} {S : Item → Registry → Prop} {roots lost : List Item}

theorem Blank.traced (h : run.Blank) (roots : List Item) : run.Traced roots := by
  intro r _ _ y hy
  simp [WorkQueue.items, h.entries] at hy

theorem Traced.withTaken (h : run.Traced roots) (n : Nat) : (run.withTaken n).Traced roots := h

theorem Traced.withPhase (h : run.Traced roots) (phase : Phase) :
    (run.withPhase phase).Traced roots := h

theorem Traced.step (h : run.Traced roots) (hstep : Step S lost run run')
    (hS : ∀ y r, run'.registry.Grows r → S y r →
      y ∈ roots ∨ ∃ x ∈ run.scanner.queue.items, run.ReferredBy x y r) : run'.Traced roots := by
  intro r hg hw y hy
  have hold : y ∈ roots ∨ ∃ x ∈ run.scanner.queue.items, run.ReferredBy x y r := by
    obtain ⟨new, hnew, hadded⟩ := hstep.added
    obtain ⟨e, he, rfl⟩ := List.mem_map.mp hy
    rw [hnew] at he
    rcases List.mem_append.mp he with he | he
    · exact h r (hstep.grows.trans hg) hw e.item (List.mem_map_of_mem he)
    · exact hS e.item r hg (hadded e he r hg hw)
  refine hold.imp id fun ⟨x, hx, hxy⟩ => ⟨x, hstep.items hx, ?_⟩
  rw [hstep.referredBy]
  exact hxy

theorem Traced.idle (h : run.Traced roots) (hstep : Step Nothing lost run run') :
    run'.Traced roots :=
  h.step hstep fun _ _ _ => False.elim

end Run

namespace Scan

open Run

variable {run run' start : Run} {roots lost : List Item}

/-- draining the queue adds only what its elements refer to -/
theorem traced_drain (budget : Nat) (h : run.Progress roots lost) (ht : run.Traced roots)
    (hr : drain budget run = .ok () run') : run'.Traced roots := by
  induction budget generalizing run with
  | zero =>
    rw [drain_zero_apply] at hr
    split at hr
    · cases hr
    · cases hr
      exact ht
  | succ budget ih =>
    rw [drain_succ_apply] at hr
    cases he : run.scanner.queue.entries[run.scanner.queue.taken]? with
    | none =>
      rw [he] at hr
      cases hr
      exact ht
    | some entry =>
      rw [he] at hr
      obtain ⟨_, run₁, hr₁, hr⟩ := Registry.bind_eq_ok_iff.mp hr
      have hprogress := progress_look h he
      rw [hr₁] at hprogress
      have hmem : entry.item ∈ run.scanner.queue.items :=
        List.mem_map_of_mem (List.mem_of_getElem? he)
      have hs := h.sound.withTaken (run.scanner.queue.taken + 1)
      have hlook : Steps (run.ReferredBy entry.item) [] (scanItem entry.item)
          (run.withTaken (run.scanner.queue.taken + 1)) fun _ run' => run'.Explored entry.item :=
        steps_scanItem hs hmem
      refine ih hprogress.2 ((ht.withTaken _).step (hlook.ok hr₁).1 fun y r _ hy => ?_) hr
      exact .inr ⟨entry.item, hmem, hy⟩

/-- **A call of a new scanner** fills the queue along references that start in the queue. -/
theorem traced_execute (h : start.Blank) (hn : start.scanner.plugsIndexed = false)
    {entry : MethodId} (hentry : start.registry.Has (.method entry))
    (hr : execute entry start = .ok () run) : run.Traced [.method entry] := by
  obtain ⟨_, run₁, hr₁, hr⟩ := Registry.bind_eq_ok_iff.mp hr
  obtain ⟨_, run₂, hr₂, hr⟩ := Registry.bind_eq_ok_iff.mp hr
  obtain ⟨_, run₃, hr₃, hr⟩ := Registry.bind_eq_ok_iff.mp hr
  obtain ⟨_, run₄, hr₄, hr⟩ := Registry.bind_eq_ok_iff.mp hr
  obtain ⟨_, run₅, hr₅, hr⟩ := Registry.bind_eq_ok_iff.mp hr
  obtain ⟨_, run₆, hp, hr₄⟩ := Registry.bind_eq_ok_iff.mp hr₄
  cases hp
  cases hr
  have hblank := filed_indexPlugs h hn
  rw [hr₁] at hblank
  have h₁ := (ends_indexPlugs (h.between [.method entry] [])).ok hr₁
  have hhas := h₁.onward.grows.has hentry
  have henqueue : Steps (fun y _ => y ∈ [Item.method entry]) []
      (enqueue (.method entry) .entryPoint none) run₁ fun _ run' => run'.Reached (.method entry) :=
    steps_enqueue h₁.progress.sound ⟨hhas, .inr fun _ _ _ => List.mem_singleton.mpr rfl⟩ _ none
  have ht₂ : run₂.Traced [.method entry] :=
    (hblank.1.blank.traced _).step (henqueue.ok hr₂).1 fun _ _ _ => .inl
  have h₂ := ((ends_enqueue h₁ (List.mem_singleton.mpr rfl) hhas .entryPoint).ok hr₂).1
  have ht₃ : run₃.Traced [.method entry] :=
    traced_drain _ (h₂.withPhase .draining).progress (ht₂.withPhase _) hr₃
  obtain ⟨h₃, -, hc₃⟩ := (ends_drainQueue h₂).ok hr₃
  have hassemble := (steps_assembleQueue (hc₃.withPhase .finalizing)
    (h₃.withPhase .finalizing).progress.sound).ok hr₄
  have ht₄ : run₄.Traced [.method entry] := (ht₃.withPhase _).idle hassemble.1
  have hemit : Steps Nothing [] (emit (.entry (some entry) [])) run₄ fun _ _ => True :=
    steps_emit hassemble.1.sound trivial
  exact (ht₄.idle (hemit.ok hr₅).1).withPhase .done

/-- **What a scan reaches of fields.**  After a successful call of a new scanner, a field of the queue
is static and its declaring type was reached.  Its own type was reached just if an element of the
queue refers to this type; the field does not bring it.  The types of the instance fields of a type
of the queue were all reached. -/
theorem execute_fields {r : Registry} (hw : r.WellFormed) {entry : MethodId}
    (hentry : r.Has (.method entry)) (config : ScanConfig) (generator : Generator) {run : Run}
    (hrun : execute entry (.fresh r config generator) = .ok () run) :
    ∃ index, PlugIndex.findImplementors r config.plugModules {} = .ok () index ∧
      (∀ f, .field f ∈ run.scanner.queue.items →
        (run.registry.field f).isStatic = true ∧
        run.Reached (.type (run.registry.field f).declaring) ∧
        (run.Reached (.type (run.registry.field f).type) ↔
          ∃ x ∈ run.scanner.queue.items, ∃ t,
            run.registry.Refers index config.arrayHelper x (.type t) ∧
              run.registry.typeKey t = run.registry.typeKey (run.registry.field f).type)) ∧
      ∀ t, .type t ∈ run.scanner.queue.items → ∀ f ∈ (run.registry.type t).fields,
        (run.registry.field f).isStatic = false → run.Reached (.type (run.registry.field f).type) := by
  have hblank := blank_fresh hw config generator
  have htraced : run.Traced [.method entry] := traced_execute hblank rfl hentry hrun
  have hends := (ends_execute (hblank.between [.method entry] []) hentry
    (List.mem_singleton.mpr rfl)).ok hrun
  have hs := hends.within.progress.sound
  have hconfig : run.scanner.config = config := hends.within.onward.config
  have hreached : ∀ x ∈ run.scanner.queue.items, ∀ y,
      run.registry.Refers run.scanner.plugs.index config.arrayHelper x y → run.Reached y := by
    intro x hx y hxy
    rw [← hconfig] at hxy
    exact (hends.complete x hx (by simp)).closed _ (.refl _) hs.wellFormed y hxy
  -- no field and no type is a root, so an element of the queue refers to it
  have hsource : ∀ y ∈ run.scanner.queue.items, y ≠ .method entry →
      ∃ x ∈ run.scanner.queue.items,
        run.registry.Refers run.scanner.plugs.index config.arrayHelper x y := by
    intro y hy hne
    have hy := htraced _ (.refl _) hs.wellFormed y hy
    simp only [List.mem_singleton, ReferredBy, hconfig] at hy
    exact hy.resolve_left hne
  refine ⟨_, hends.within.filed rfl, fun f hf => ?_, fun t ht f hf hstatic => ?_⟩
  · obtain ⟨x, hx, hxf⟩ := hsource _ hf (by simp)
    obtain ⟨hstatic, howner⟩ := hxf.of_field
    refine ⟨hstatic, hreached x hx _ howner, fun htype => ?_, ?_⟩
    · have hkey := htype.2
      rw [hs.keys_eq] at hkey
      obtain ⟨z, hz, hzkey⟩ := List.mem_map.mp hkey
      obtain ⟨u, rfl⟩ := Registry.exists_type_of_itemKey hzkey
      obtain ⟨w, hwmem, hwu⟩ := hsource _ hz (by simp)
      exact ⟨w, hwmem, u, hwu, hzkey⟩
    · rintro ⟨w, hwmem, u, hwu, hkey⟩
      refine ⟨hs.wellFormed.typeOf (hs.item hf).1, ?_⟩
      have hu := (hreached w hwmem _ hwu).2
      rwa [Registry.itemKey, hkey] at hu
  · exact hreached _ ht _ (.fieldType hf hstatic)

/-- `Program.Main` reads the static fields `Program.Single` of type `Program` and `Program.Count` of
a type that nothing else mentions -/
def declareReads : Action MethodId := do
  let module ← Registry.addModule "Program"
  let program ← Registry.declareType { module, namespaceName := "", name := "Program" }
  let single ← Registry.declareField module program "Single" program FieldFlags.isStatic []
  let count ← Registry.declareField module program "Count" (← Registry.wellKnown "System.Int64")
    FieldFlags.isStatic []
  let first ← Registry.tokenFor module (.field (some single))
  let second ← Registry.tokenFor module (.field (some count))
  let code := 0x7E :: first.bytes ++ [0x26] ++ 0x7E :: second.bytes ++ [0x26, 0x2A]
  declareStatic module program "Main" (some { code }) []

/-- both fields that `Main` reads are in the queue; of their types, `Program` was reached, as `Main`
refers to it -/
theorem execute_fields_reads : ∃ run index,
    execute ⟨0⟩ (.fresh (onCore declareReads) {} {}) = .ok () run ∧
    .field ⟨0⟩ ∈ run.scanner.queue.items ∧ .field ⟨1⟩ ∈ run.scanner.queue.items ∧
    run.Reached (.type (run.registry.field ⟨0⟩).type) ∧
    ∃ x ∈ run.scanner.queue.items, ∃ t,
      run.registry.Refers index "System.SZArrayHelper" x (.type t) ∧
        run.registry.typeKey t = run.registry.typeKey (run.registry.field ⟨0⟩).type := by
  obtain ⟨hw, hmain, heval⟩ : (onCore declareReads).WellFormed ∧
      (onCore declareReads).Has (.method ⟨0⟩) ∧
      succeedsWith (execute ⟨0⟩) (.fresh (onCore declareReads) {} {})
        (fun run => decide (.field ⟨0⟩ ∈ run.scanner.queue.items ∧
          .field ⟨1⟩ ∈ run.scanner.queue.items ∧
          (run.registry.field ⟨0⟩).type = (run.registry.field ⟨0⟩).declaring)) = true := by
    decide +kernel
  obtain ⟨run, hrun, hP⟩ := exists_of_succeedsWith heval
  obtain ⟨hsingle, hcount, hsame⟩ := of_decide_eq_true hP
  obtain ⟨index, -, hfields, -⟩ := execute_fields hw hmain {} {} hrun
  obtain ⟨-, hdeclaring, hiff⟩ := hfields _ hsingle
  rw [← hsame] at hdeclaring
  exact ⟨run, index, hrun, hsingle, hcount, hdeclaring, hiff.mp hdeclaring⟩

/-- the scan succeeds with `Count` in its queue, and without the type of `Count` -/
theorem execute_misses_field_type :
    (onCore declareReads).WellFormed ∧ ∃ run,
      execute ⟨0⟩ (.fresh (onCore declareReads) {} {}) = .ok () run ∧
      .field ⟨1⟩ ∈ run.scanner.queue.items ∧
      run.registry.itemKey (.type (run.registry.field ⟨1⟩).type) ∉ run.scanner.queue.keys := by
  obtain ⟨hw, heval⟩ : (onCore declareReads).WellFormed ∧
      succeedsWith (execute ⟨0⟩) (.fresh (onCore declareReads) {} {})
        (fun run => decide (.field ⟨1⟩ ∈ run.scanner.queue.items ∧
          run.registry.itemKey (.type (run.registry.field ⟨1⟩).type) ∉ run.scanner.queue.keys)) =
        true := by
    decide +kernel
  obtain ⟨run, hrun, hP⟩ := exists_of_succeedsWith heval
  exact ⟨hw, run, hrun, of_decide_eq_true hP⟩

end Scan

end ProgramScan

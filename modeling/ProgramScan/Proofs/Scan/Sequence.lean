import ProgramScan.Proofs.Scan.Stages

/-!
# The sequence of emissions

A successful scan with a new scanner emits one block for every element that it reached, in the order
in which it reached them, then the method tables and the entry (`Scan.execute_emits_blocks`).

An emission settles an element if it is its storage, its own body or its forward
(`Emission.subject?`); the body of a plug on behalf of another method settles nothing.  No element is
settled twice, and the settled ones are those that have output (`Scan.HasOutput`).

A scan that fails emits nothing, or the blocks of the elements before the one whose inline plug has
damaged code (`Scan.execute_error_emits`).
-/

namespace ProgramScan

/-- the element that an emission settles -/
def Emission.subject? : Emission → Option Item
  | .body record _ => if record.kind = .normal then some (.method record.method) else none
  | .forward record _ => some (.method record.method)
  | .field f => some (.field f)
  | .tables _ _ => none
  | .entry _ _ => none

namespace Scan

open Run

variable {run : Run}

/-- elements with output: fields, and methods that are neither inline nor wildcards without plug -/
def HasOutput (run : Run) : Item → Prop
  | .type _ => False
  | .field _ => True
  | .method m => (run.registry.method m).isInline = false ∧
    (isWildcard (run.registry.method m) = true → ∃ p, Answered run m (some p))

theorem hasOutput_of_compiled {m p : MethodId} (h : Compiled run m (some p)) :
    HasOutput run (.method m) := ⟨h.isInline, fun _ => ⟨p, h.answered⟩⟩

/-- a block settles its element if that has output, and nothing else -/
theorem IsBlock.subjects (hs : run.Sound) {x : Item} {block : List Emission}
    (h : IsBlock run x block) :
    HasOutput run x ∧ block.filterMap Emission.subject? = [x] ∨
      ¬ HasOutput run x ∧ block.filterMap Emission.subject? = [] := by
  cases h with
  | type t => exact .inr ⟨id, rfl⟩
  | field f => exact .inl ⟨trivial, rfl⟩
  | inline hi =>
    refine .inr ⟨fun ho => ?_, rfl⟩
    rw [ho.1] at hi
    cases hi
  | wildcard hm hw =>
    refine .inr ⟨fun ho => ?_, rfl⟩
    obtain ⟨p, hp⟩ := ho.2 hw
    cases hp.unique hs hm.answered
  | own hm hw hr hl hc =>
    refine .inl ⟨⟨hm.isInline, fun hw' => ?_⟩, ?_⟩
    · rw [hw] at hw'
      cases hw'
    · simp [Emission.subject?, hr.kind, hr.method]
  | forward hm hi hw hr hp hl =>
    refine .inl ⟨hasOutput_of_compiled hm, ?_⟩
    simp [Emission.subject?, hr.isRecord.method]
  | noCode hm hi hw hr hp hc =>
    refine .inl ⟨hasOutput_of_compiled hm, ?_⟩
    simp [Emission.subject?, hr.isRecord.method]
  | standIn hm he hr hp hc =>
    refine .inl ⟨hasOutput_of_compiled hm, ?_⟩
    simp [Emission.subject?, hr.isRecord.method, hp.kind]

section
variable {items : List Item} {blocks : List (List Emission)}

theorem sublist_subjects (hs : run.Sound) (h : List.Forall₂ (IsBlock run) items blocks) :
    (blocks.flatten.filterMap Emission.subject?).Sublist items := by
  induction h with
  | nil => exact .slnil
  | @cons x block items blocks hx _ ih =>
    rw [List.flatten_cons, List.filterMap_append]
    obtain ⟨-, heq⟩ | ⟨-, heq⟩ := hx.subjects hs
    · rw [heq]
      exact ih.cons_cons x
    · rw [heq]
      exact ih.cons x

theorem mem_subjects_iff (hs : run.Sound) (h : List.Forall₂ (IsBlock run) items blocks) (y : Item) :
    y ∈ blocks.flatten.filterMap Emission.subject? ↔ y ∈ items ∧ HasOutput run y := by
  induction h with
  | nil => simp
  | @cons x block items blocks hx _ ih =>
    rw [List.flatten_cons, List.filterMap_append, List.mem_append, ih, List.mem_cons]
    obtain ⟨ho, heq⟩ | ⟨ho, heq⟩ := hx.subjects hs
    · rw [heq, List.mem_singleton]
      constructor
      · rintro (rfl | ⟨hy, hy'⟩)
        · exact ⟨.inl rfl, ho⟩
        · exact ⟨.inr hy, hy'⟩
      · rintro ⟨rfl | hy, hy'⟩
        · exact .inl rfl
        · exact .inr ⟨hy, hy'⟩
    · rw [heq]
      constructor
      · rintro (hy | ⟨hy, hy'⟩)
        · cases hy
        · exact ⟨.inr hy, hy'⟩
      · rintro ⟨rfl | hy, hy'⟩
        · exact absurd hy' ho
        · exact .inr ⟨hy, hy'⟩

end

theorem nodup_items (hs : run.Sound) : run.scanner.queue.items.Nodup := by
  have hkeys := hs.distinct
  rw [hs.keys_eq] at hkeys
  exact hkeys.of_map _

/-- **The emissions of a successful scan** are one block per element in the order of the queue, then
the method tables, where types have the numbers `0, 1, 2, …` in this order, then the entry.  The
blocks settle every element with output, and none twice. -/
theorem execute_emits_blocks {r : Registry} (hw : r.WellFormed) {entry : MethodId}
    (hentry : r.Has (.method entry)) (config : ScanConfig) (generator : Generator)
    (hrun : execute entry (.fresh r config generator) = .ok () run) :
    PlugIndex.findImplementors r config.plugModules {} = .ok () run.scanner.plugs.index ∧
      ∃ blocks methods,
        List.Forall₂ (IsBlock run) run.scanner.queue.items blocks ∧
        methods.map Prod.fst = run.scanner.queue.methods ∧
        run.generator.emissions = generator.emissions ++ (blocks.flatten ++
          [.tables run.scanner.queue.types.zipIdx methods, .entry (some entry) []]) ∧
        (blocks.flatten.filterMap Emission.subject?).Nodup ∧
        ∀ x, x ∈ blocks.flatten.filterMap Emission.subject? ↔
          x ∈ run.scanner.queue.items ∧ HasOutput run x := by
  have hfin := finished_of_execute hw hentry hrun
  obtain ⟨blocks, methods, hblocks, hmethods, hemissions⟩ := hfin.emissions
  refine ⟨hfin.index, blocks, methods, hblocks, hmethods, hemissions, ?_, ?_⟩
  · exact (nodup_items hfin.sound).sublist (sublist_subjects hfin.sound hblocks)
  · exact mem_subjects_iff hfin.sound hblocks

/-- `Native` is emitted as the body of its wildcard plug and a forward, the plug itself not at all -/
theorem execute_emits_blocks_calls : ∃ run blocks methods,
    execute ⟨2⟩ (.fresh (calls [.plugMethod { wildcard := true }]) { plugModules := [⟨2⟩] } {}) =
      .ok () run ∧
    run.generator.emissions.filterMap Emission.subject? =
      [.method ⟨2⟩, .method ⟨1⟩, .method ⟨0⟩] ∧
    run.generator.bodies.map (fun body => body.1.method) = [⟨2⟩, ⟨3⟩, ⟨0⟩] ∧
    List.Forall₂ (IsBlock run) run.scanner.queue.items blocks ∧
    run.generator.emissions = blocks.flatten ++
      [.tables run.scanner.queue.types.zipIdx methods, .entry (some ⟨2⟩) []] := by
  obtain ⟨hw, hmain, heval⟩ : (calls [.plugMethod { wildcard := true }]).WellFormed ∧
      (calls [.plugMethod { wildcard := true }]).Has (.method ⟨2⟩) ∧
      succeedsWith (execute ⟨2⟩)
        (.fresh (calls [.plugMethod { wildcard := true }]) { plugModules := [⟨2⟩] } {})
        (fun run => run.generator.emissions.filterMap Emission.subject? =
            [.method ⟨2⟩, .method ⟨1⟩, .method ⟨0⟩] &&
          run.generator.bodies.map (fun body => body.1.method) = [⟨2⟩, ⟨3⟩, ⟨0⟩]) = true := by
    decide +kernel
  obtain ⟨run, hrun, hP⟩ := exists_of_succeedsWith heval
  simp only [Bool.and_eq_true, decide_eq_true_eq] at hP
  obtain ⟨-, blocks, methods, hblocks, -, hemissions, -⟩ :=
    execute_emits_blocks hw hmain { plugModules := [⟨2⟩] } {} hrun
  exact ⟨run, blocks, methods, hrun, hP.1, hP.2, hblocks, hemissions⟩

/-- **A scan that fails emits nothing** to a generator that refuses nothing, unless it fails in its
second stage.  Then the code of an inline plug does not decode, and the blocks of the elements before
were emitted. -/
theorem execute_error_emits {r : Registry} (hw : r.WellFormed) {entry : MethodId}
    (hentry : r.Has (.method entry)) (config : ScanConfig) (generator : Generator)
    (hgenerator : generator.failAt = none) {e : Error}
    (hrun : execute entry (.fresh r config generator) = .error e run) :
    run.generator = generator ∨
      ∃ done x rest blocks, run.scanner.queue.items = done ++ x :: rest ∧
        List.Forall₂ (IsBlock run) done blocks ∧
        run.generator = { generator with
          calls := generator.calls + blocks.flatten.length
          emissions := generator.emissions ++ blocks.flatten } ∧
        BreaksAt r e run x := by
  rw [execute_eq, Registry.bind_apply] at hrun
  -- the first stage emits nothing, so only the second can leave something behind
  cases hp : prepare entry (.fresh r config generator) with
  | error e₁ run₁ =>
    rw [hp] at hrun
    cases hrun
    exact .inl ((leaves_prepare entry).error hp).1.generator
  | ok entries run₁ =>
    rw [hp] at hrun
    have hready := ready_fresh hw hentry hp
    obtain ⟨-, done, x, rest, blocks, hsplit, hblocks, hg, hbreaks⟩ :=
      finish_error hready rfl hgenerator hrun
    exact .inr ⟨done, x, rest, blocks, hsplit, hblocks, hg,
      hbreaks.before hready.within.onward.grows⟩

/-- `Native` has an inline plug with damaged code: `0x24` is no opcode -/
def damaged : Registry := onCore (declareReplaced [.inline] [0x24])

/-- `Main` is emitted before the code of the inline plug of `Native` fails to decode -/
theorem execute_error_emits_damaged : ∃ e run,
    execute ⟨1⟩ (.fresh damaged { plugModules := [⟨2⟩] } {}) = .error e run ∧
    run.generator.bodies.map (fun body => body.1.method) = [⟨1⟩] ∧
    ∃ done x rest, run.scanner.queue.items = done ++ x :: rest ∧ BreaksAt damaged e run x := by
  obtain ⟨hw, hmain, heval⟩ : damaged.WellFormed ∧ damaged.Has (.method ⟨1⟩) ∧
      failsWith (execute ⟨1⟩) (.fresh damaged { plugModules := [⟨2⟩] } {})
        (fun _ run => run.generator.bodies.map (fun body => body.1.method) = [⟨1⟩]) = true := by
    decide +kernel
  obtain ⟨e, run, hrun, hP⟩ := exists_of_failsWith heval
  simp only [decide_eq_true_eq] at hP
  obtain hnone | ⟨done, x, rest, -, hsplit, -, -, hbreaks⟩ :=
    execute_error_emits hw hmain { plugModules := [⟨2⟩] } {} rfl hrun
  · rw [hnone] at hP
    cases hP
  · exact ⟨e, run, hrun, hP, done, x, rest, hsplit, hbreaks⟩

end Scan

end ProgramScan

import ProgramScan.Proofs.Scan.Closure

/-!
# What a scan emits

Bodies are decoded twice, when the scan looks into a method and when it emits.  After a successful
scan with a new scanner, every emitted body names only elements that the scan reached, unless it is
the body of an inline plug (`Scan.execute_emits_reached`).  Those bodies are expanded where the plugged
method is called and the scan does not look into them, so they can name anything
(`Scan.execute_emits_unreached`).
-/

namespace ProgramScan

namespace Scan

/-- **Emitted code names what was reached**, bodies that are expanded in place apart.  Those are the
bodies of inline plugs. -/
theorem execute_emits_reached {r : Registry} (hw : r.WellFormed) {entry : MethodId}
    (hentry : r.Has (.method entry)) (config : ScanConfig) (generator : Generator) {run : Run}
    (hrun : execute entry (.fresh r config generator) = .ok () run) :
    ∃ emitted, run.generator.emissions = generator.emissions ++ emitted ∧
      ∀ record code, .body record code ∈ emitted →
        (record.isInline = true →
          record.kind = .plug ∧ (run.registry.method record.method).isInline = true) ∧
        (record.isInline = false → ∀ y, run.registry.Names code y → run.Reached y) := by
  have hends := ends_execute ((Run.blank_fresh hw config generator).between [.method entry] [])
    hentry (by simp)
  simp only [Ends, hrun] at hends
  obtain ⟨emitted, hemitted, hreached⟩ := hends.within.onward.emitted
  refine ⟨emitted, hemitted, fun record code hbody => ?_⟩
  have hknown : BodyReached [] run record code := hreached _ hbody
  exact ⟨hknown.inPlace, fun hi => hknown.names hi (by simp)⟩

/-- whether `callee` is reached after an operation that succeeds and emits a call of it in the body of
`m` -/
def reachesCall? (act : Scan Unit) (run : Run) (m callee : MethodId) : Option Bool :=
  match act run with
  | .ok _ run' =>
    if run'.generator.bodies.any fun body =>
        body.1.method = m && body.2.any (·.method? == some callee) then
      some (run'.scanner.queue.contains run'.registry (.method callee))
    else none
  | .error _ _ => none

theorem exists_of_reachesCall? {act : Scan Unit} {run : Run} {m callee : MethodId} {b : Bool}
    (h : reachesCall? act run m callee = some b) :
    ∃ run', act run = .ok () run' ∧
      (∃ record code, .body record code ∈ run'.generator.emissions ∧ record.method = m ∧
        run'.registry.Names code (.method callee)) ∧
      (b = true ↔ run'.registry.methodKey callee ∈ run'.scanner.queue.keys) := by
  rw [reachesCall?] at h
  cases hr : act run with
  | error e run' =>
    rw [hr] at h
    cases h
  | ok u run' =>
    rw [hr] at h
    dsimp only at h
    split at h
    · rename_i hany
      cases h
      obtain ⟨⟨record, code⟩, hbody, hcall⟩ := List.any_eq_true.mp hany
      simp only [Bool.and_eq_true, decide_eq_true_eq, List.any_eq_true, beq_iff_eq] at hcall
      obtain ⟨hmethod, i, hi, hm⟩ := hcall
      obtain ⟨em, hem, hem'⟩ := List.mem_filterMap.mp hbody
      cases em with
      | body record' code' =>
        cases hem'
        exact ⟨run', rfl, ⟨record, code, hem, hmethod, .method hi hm⟩, WorkQueue.hasKey_iff _ _⟩
      | _ => cases hem'
    · cases h

/-- the body of a wildcard plug calls `Helper`, which is reached -/
theorem execute_emits_reached_calls : ∃ run,
    execute ⟨2⟩ (.fresh (calls [.plugMethod { wildcard := true }]) { plugModules := [⟨2⟩] } {}) =
      .ok () run ∧
    (∃ record code, .body record code ∈ run.generator.emissions ∧ record.method = ⟨3⟩ ∧
      run.registry.Names code (.method ⟨0⟩)) ∧
    ∀ record code, .body record code ∈ run.generator.emissions →
      (record.isInline = true →
        record.kind = .plug ∧ (run.registry.method record.method).isInline = true) ∧
      (record.isInline = false → ∀ y, run.registry.Names code y → run.Reached y) := by
  obtain ⟨hw, hmain, heval⟩ : (calls [.plugMethod { wildcard := true }]).WellFormed ∧
      (calls [.plugMethod { wildcard := true }]).Has (.method ⟨2⟩) ∧
      reachesCall? (execute ⟨2⟩)
        (.fresh (calls [.plugMethod { wildcard := true }]) { plugModules := [⟨2⟩] } {}) ⟨3⟩ ⟨0⟩ =
          some true := by
    decide +kernel
  obtain ⟨run, hrun, hbody, -⟩ := exists_of_reachesCall? heval
  obtain ⟨emitted, hemitted, hreached⟩ :=
    execute_emits_reached hw hmain { plugModules := [⟨2⟩] } {} hrun
  refine ⟨run, hrun, hbody, fun record code hmem => hreached record code ?_⟩
  rw [hemitted] at hmem
  exact hmem

/-- the body of an inline plug calls `Helper`, which is not reached -/
theorem execute_emits_unreached : ∃ run,
    execute ⟨2⟩ (.fresh (calls [.inline]) { plugModules := [⟨2⟩] } {}) = .ok () run ∧
    ∃ record code, .body record code ∈ run.generator.emissions ∧
      run.registry.Names code (.method ⟨0⟩) ∧ ¬ run.Reached (.method ⟨0⟩) := by
  obtain ⟨run, hrun, ⟨record, code, hmem, -, hnames⟩, hcontains⟩ := exists_of_reachesCall?
    (show reachesCall? (execute ⟨2⟩) (.fresh (calls [.inline]) { plugModules := [⟨2⟩] } {})
      ⟨3⟩ ⟨0⟩ = some false by decide +kernel)
  refine ⟨run, hrun, record, code, hmem, hnames, fun hreached => ?_⟩
  simpa using hcontains.mpr hreached.2

end Scan

end ProgramScan

import ProgramScan.Proofs.Scan.Closure

/-!
# Calls of one scanner after each other

A scanner can be called again, also after a call that failed; the program stays as it is in between.
Queue, remembered plugs and filed plug types survive.  When a call succeeds, every element of the
queue is covered: what it refers to was reached, and if it needs native code it has a plug.

There is one exception.  An element is taken from the queue before the scan looks into it, so one that
a failure interrupts is not looked into again.  Hence the elements of the queue are all covered if and
only if those are that failures interrupted (`Scan.execute_covers_iff`), and a program that was
rejected can be accepted the next time (`Scan.execute_covers_iff_retried`).
-/

namespace ProgramScan

open Registry (Grows)

namespace Run

/-- What `x` refers to was reached, and if `x` needs native code it has a plug. -/
structure Covers (run : Run) (x : Item) : Prop where
  closed : ∀ y, run.registry.Refers run.scanner.plugs.index run.scanner.config.arrayHelper x y →
    run.Reached y
  plugged : ∀ m, x = .method m → (run.registry.method m).needsNativeCode = true →
    ∃ p, run.registry.PlugOf run.scanner.plugs.index m (some p)

theorem Explored.covers {run : Run} {x : Item} (h : run.Explored x) (hs : run.Sound) :
    run.Covers x :=
  ⟨fun y hy => h.closed _ (.refl _) hs.wellFormed y hy,
    fun m hx hn => h.plugged m hx _ (.refl _) hs.wellFormed hn⟩

def feeding (run : Run) (generator : Generator) : Run := { run with generator }

theorem Between.feeding {run : Run} {roots lost : List Item} (h : run.Between roots lost)
    (generator : Generator) : (run.feeding generator).Between roots lost where
  progress :=
    { sound := ⟨h.progress.sound.wellFormed, h.progress.sound.index, h.progress.sound.entries,
        h.progress.sound.distinct, h.progress.sound.answers⟩
      bound := h.progress.bound
      explored e he := (h.progress.explored e he).imp id fun hx => ⟨hx.closed, hx.managed⟩
      rooted := h.progress.rooted }
  blank hn := ⟨(h.blank hn).wellFormed, (h.blank hn).index, (h.blank hn).entries,
    (h.blank hn).taken, (h.blank hn).answers⟩

/-- calls with more roots -/
theorem Between.mono {run : Run} {roots roots' lost : List Item} (h : run.Between roots lost)
    (hr : ∀ x ∈ roots, x ∈ roots') : run.Between roots' lost :=
  ⟨h.progress.extend hr (.refl h.progress.sound), h.blank⟩

theorem mem_items_of_interrupted {run : Run} {x : Item} (hx : x ∈ run.interrupted) :
    x ∈ run.scanner.queue.items := by
  rw [interrupted] at hx
  split at hx
  · rw [lastTaken, Option.mem_toList] at hx
    exact List.mem_of_getElem? hx
  · cases hx

end Run

namespace Scan

open Run

/-- A scanner for `r` after calls of `execute`.  Each call may feed a generator of its own, and may
fail; `lost` are the elements that failures interrupted. -/
inductive History (r : Registry) (config : ScanConfig) : Run → List Item → Prop
  | start (generator : Generator) : History r config (.fresh r config generator) []
  | succeeded {run run' : Run} {lost : List Item} (h : History r config run lost) {entry : MethodId}
    (hentry : run.registry.Has (.method entry)) (generator : Generator)
    (hrun : execute entry (run.feeding generator) = .ok () run') : History r config run' lost
  | failed {run run' : Run} {lost : List Item} (h : History r config run lost) {entry : MethodId}
    (hentry : run.registry.Has (.method entry)) (generator : Generator) {e : Error}
    (hrun : execute entry (run.feeding generator) = .error e run') :
    History r config run' (lost ++ run'.interrupted)

variable {r : Registry} {config : ScanConfig} {run run' : Run} {lost : List Item}

/-- what holds after every sequence of calls -/
structure Kept (r : Registry) (config : ScanConfig) (run : Run) (lost : List Item) : Prop where
  between : ∃ roots, run.Between roots lost
  lost : ∀ x ∈ lost, x ∈ run.scanner.queue.items
  grows : r.Grows run.registry
  config : run.scanner.config = config

/-- what one call makes of it -/
theorem Kept.execute (h : Kept r config run lost) {entry : MethodId}
    (hentry : run.registry.Has (.method entry)) (generator : Generator) :
    Ends (Scan.execute entry) (run.feeding generator)
      (fun run' => Kept r config run' lost ∧ run'.Complete lost)
      (fun run' => Kept r config run' (lost ++ run'.interrupted)) := by
  obtain ⟨roots, hbetween⟩ := h.between
  have hroots := (hbetween.mono fun x hx => List.mem_append_left [.method entry] hx).feeding generator
  have hends := ends_execute hroots hentry (by simp)
  have hlost : ∀ {run'' : Run}, (∀ e ∈ run.scanner.queue.entries,
      e ∈ run''.scanner.queue.entries) → ∀ x ∈ lost, x ∈ run''.scanner.queue.items := by
    intro run'' hentries x hx
    obtain ⟨e, he, rfl⟩ := List.mem_map.mp (h.lost x hx)
    exact List.mem_map_of_mem (hentries e he)
  simp only [Ends] at hends ⊢
  cases hr : Scan.execute entry (run.feeding generator) with
  | ok u run' =>
    rw [hr] at hends
    have hon := hends.within.onward
    exact ⟨⟨⟨_, hends.within.between⟩, hlost hon.entries, h.grows.trans hon.grows,
      hon.config.trans h.config⟩, hends.complete⟩
  | error e run' =>
    rw [hr] at hends
    refine ⟨⟨_, hends.between⟩, fun x hx => ?_, h.grows.trans hends.grows,
      hends.config.trans h.config⟩
    rcases List.mem_append.mp hx with hx | hx
    · exact hlost hends.entries x hx
    · exact mem_items_of_interrupted hx

/-- what every sequence of calls makes of it -/
theorem History.kept (hw : r.WellFormed) (h : History r config run lost) :
    Kept r config run lost := by
  induction h with
  | start generator =>
    exact ⟨⟨[], (blank_fresh hw config generator).between [] []⟩, by simp, .refl r, rfl⟩
  | succeeded _ hentry generator hrun ih =>
    have hends := ih.execute hentry generator
    simp only [Ends, hrun] at hends
    exact hends.1
  | failed _ hentry generator hrun ih =>
    have hends := ih.execute hentry generator
    simp only [Ends, hrun] at hends
    exact hends

/-- **When a call succeeds**, after whatever calls of the same scanner, the elements of the queue are
all covered if and only if those are that earlier failures interrupted. -/
theorem execute_covers_iff (hw : r.WellFormed) (h : History r config run lost) {entry : MethodId}
    (hentry : run.registry.Has (.method entry)) (generator : Generator)
    (hrun : execute entry (run.feeding generator) = .ok () run') :
    (∀ x ∈ run'.scanner.queue.items, x ∉ lost → run'.Covers x) ∧
      ((∀ x ∈ run'.scanner.queue.items, run'.Covers x) ↔ ∀ x ∈ lost, run'.Covers x) := by
  have hends := (h.kept hw).execute hentry generator
  simp only [Ends, hrun] at hends
  obtain ⟨hkept, hcomplete⟩ := hends
  obtain ⟨roots, hbetween⟩ := hkept.between
  have hsound := hbetween.progress.sound
  have hothers : ∀ x ∈ run'.scanner.queue.items, x ∉ lost → run'.Covers x :=
    fun x hx hl => (hcomplete x hx hl).covers hsound
  refine ⟨hothers, fun hall x hx => hall x (hkept.lost x hx), fun hlost x hx => ?_⟩
  by_cases hl : x ∈ lost
  · exact hlost x hl
  · exact hothers x hx hl

def lacksPlug (run : Run) (m : MethodId) : Bool :=
  (run.registry.method m).needsNativeCode &&
    match PlugManager.resolveByIndex run.scanner.plugs.index m run.registry with
    | .ok (some _) _ => false
    | _ => true

theorem not_covers_of_lacksPlug {m : MethodId} (h : lacksPlug run m = true) :
    ¬ run.Covers (.method m) := by
  intro hcovers
  simp only [lacksPlug, Bool.and_eq_true] at h
  obtain ⟨p, r', hp⟩ := hcovers.plugged m rfl h.1
  simp [hp] at h

/-- the states after a call that fails and after the same call once more, if that succeeds -/
def retried? (entry : MethodId) (run : Run) : Option (Run × Run) :=
  match execute entry run with
  | .ok _ _ => none
  | .error _ run₁ =>
    match execute entry (run₁.feeding {}) with
    | .ok _ run₂ => some (run₁, run₂)
    | .error _ _ => none

theorem exists_of_retried? {entry : MethodId} (P : Run × Run → Bool)
    (h : (retried? entry run).any P = true) : ∃ e run₁ run₂,
    execute entry run = .error e run₁ ∧ execute entry (run₁.feeding {}) = .ok () run₂ ∧
      P (run₁, run₂) = true := by
  rw [retried?] at h
  cases h₁ : execute entry run with
  | ok u run₁ => simp [h₁] at h
  | error e run₁ =>
    simp only [h₁] at h
    cases h₂ : execute entry (run₁.feeding {}) with
    | ok u run₂ =>
      simp only [h₂] at h
      exact ⟨e, run₁, run₂, rfl, h₂, h⟩
    | error e run₂ => simp [h₂] at h

/-- `Main` calls `Native`, which needs native code, and there are no plugs.  The first call fails while
it looks into `Native`; the second one succeeds and leaves it uncovered. -/
theorem execute_covers_iff_retried : ∃ e run₁ run₂,
    execute ⟨2⟩ (.fresh (calls []) {} {}) = .error e run₁ ∧
    execute ⟨2⟩ (run₁.feeding {}) = .ok () run₂ ∧ run₁.interrupted = [.method ⟨1⟩] ∧
    ((∀ x ∈ run₂.scanner.queue.items, run₂.Covers x) ↔ ∀ x ∈ run₁.interrupted, run₂.Covers x) ∧
    ¬ ∀ x ∈ run₂.scanner.queue.items, run₂.Covers x := by
  obtain ⟨e, run₁, run₂, hrun₁, hrun₂, hP⟩ := exists_of_retried?
    (fun (run₁, run₂) => run₁.interrupted = [.method ⟨1⟩] && lacksPlug run₂ ⟨1⟩ &&
      decide (run₁.registry.Has (.method ⟨2⟩)))
    (show (retried? ⟨2⟩ (.fresh (calls []) {} {})).any _ = true by decide +kernel)
  simp only [Bool.and_eq_true, decide_eq_true_eq] at hP
  obtain ⟨⟨hlost, hlacks⟩, hentry⟩ := hP
  obtain ⟨hw, hmain⟩ := wellFormed_calls
  have hhistory : History (calls []) {} run₁ ([] ++ run₁.interrupted) :=
    .failed (.start {}) hmain {} hrun₁
  obtain ⟨-, hiff⟩ := execute_covers_iff hw hhistory hentry {} hrun₂
  refine ⟨e, run₁, run₂, hrun₁, hrun₂, hlost, hiff, fun hall => ?_⟩
  exact not_covers_of_lacksPlug hlacks (hiff.mp hall _ (by simp [hlost]))

end Scan

end ProgramScan

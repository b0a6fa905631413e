import ProgramScan.Proofs.Scan.Looking

/-!
# Draining the queue

What holds of a scan between the elements it looks into (`Run.Progress`):

* the elements taken from the queue are explored, except those that a failure interrupted;
* every element of the queue is an entry, or leads back to one along references.

Taking an element and looking into it keeps this (`Scan.progress_look`), so draining the queue does
(`Scan.progress_drain`): if it succeeds, all elements are explored; if it fails, the element it was
looking into is lost.
-/

namespace ProgramScan

open Registry (Grows)

namespace Run

def withTaken (run : Run) (n : Nat) : Run :=
  run.modifyScanner fun s => { s with queue := { s.queue with taken := n } }

/-- every set that holds the roots and what its elements refer to holds the queue -/
def Rooted (run : Run) (roots : List Item) : Prop :=
  ∀ r, run.registry.Grows r → r.WellFormed → ∀ T : Item → Prop, (∀ x ∈ roots, T x) →
    (∀ x y, T x → run.ReferredBy x y r → T y) → ∀ x ∈ run.scanner.queue.items, T x

/-- What holds between two elements that a scan looks into. -/
structure Progress (run : Run) (roots lost : List Item) : Prop where
  sound : run.Sound
  bound : run.scanner.queue.taken ≤ run.scanner.queue.entries.length
  explored : ∀ e ∈ run.scanner.queue.entries.take run.scanner.queue.taken,
    e.item ∈ lost ∨ run.Explored e.item
  rooted : run.Rooted roots

variable {run run' : Run} {S : Item → Registry → Prop} {roots lost : List Item}

theorem Sound.withTaken (h : run.Sound) (n : Nat) : (run.withTaken n).Sound :=
  ⟨h.wellFormed, h.index, h.entries, h.distinct, h.answers⟩

theorem Step.withTaken (h : Step S lost run run') (n : Nat) :
    Step S lost (run.withTaken n) (run'.withTaken n) := by
  obtain ⟨new, hnew, hreached⟩ := h.emitted
  exact ⟨h.grows, h.sound.withTaken n, h.config, h.index, h.indexed, h.phase, rfl, h.added,
    ⟨new, hnew, fun em hem => (hreached em hem).mono (.refl _) fun _ hy => hy⟩⟩

theorem Explored.withTaken {x : Item} (h : run.Explored x) (n : Nat) :
    (run.withTaken n).Explored x :=
  ⟨h.closed, h.managed⟩

/-- what is added because of elements of the queue leads back to the roots -/
theorem Rooted.step (h : run.Rooted roots) {x : Item} (hx : x ∈ run.scanner.queue.items)
    (hstep : Step (run.ReferredBy x) lost run run') : run'.Rooted roots := by
  intro r hg hw T hroots hclosed y hy
  have hT : ∀ z ∈ run.scanner.queue.items, T z := by
    refine h r (hstep.grows.trans hg) hw T hroots fun a b ha hab => hclosed a b ha ?_
    rwa [hstep.referredBy]
  obtain ⟨new, hnew, hadded⟩ := hstep.added
  obtain ⟨e, he, rfl⟩ := List.mem_map.mp hy
  rw [hnew] at he
  rcases List.mem_append.mp he with he | he
  · exact hT e.item (List.mem_map_of_mem he)
  · refine hclosed x e.item (hT x hx) ?_
    rw [hstep.referredBy]
    exact hadded e he r hg hw

theorem Progress.mono {lost' : List Item} (h : run.Progress roots lost)
    (hl : ∀ x ∈ lost, x ∈ lost') : run.Progress roots lost' :=
  ⟨h.sound, h.bound, fun e he => (h.explored e he).imp (hl e.item) id, h.rooted⟩

/-- explored elements stay explored when a later one is looked into -/
theorem Progress.explored_step (h : run.Progress roots lost) (hstep : Step S lost run run') :
    run'.scanner.queue.taken ≤ run'.scanner.queue.entries.length ∧
      ∀ e ∈ run'.scanner.queue.entries.take run'.scanner.queue.taken,
        e.item ∈ lost ∨ run'.Explored e.item := by
  obtain ⟨new, hnew, -⟩ := hstep.added
  have hbound := h.bound
  rw [hstep.taken, hnew]
  refine ⟨by rw [List.length_append]; omega, fun e he => ?_⟩
  rw [List.take_append_of_le_length hbound] at he
  exact (h.explored e he).imp id fun hx => hx.step hstep

theorem Progress.extend {roots' : List Item} (h : run.Progress roots lost)
    (hr : ∀ x ∈ roots, x ∈ roots') (hstep : Step (fun y _ => y ∈ roots') lost run run') :
    run'.Progress roots' lost := by
  obtain ⟨hbound, hexplored⟩ := h.explored_step hstep
  refine ⟨hstep.sound, hbound, hexplored, fun r hg hw T hroots hclosed y hy => ?_⟩
  have hold := h.rooted r (hstep.grows.trans hg) hw T (fun x hx => hroots x (hr x hx))
    fun a b ha hab => hclosed a b ha (by rwa [hstep.referredBy])
  obtain ⟨new, hnew, hadded⟩ := hstep.added
  obtain ⟨e, he, rfl⟩ := List.mem_map.mp hy
  rw [hnew] at he
  rcases List.mem_append.mp he with he | he
  · exact hold e.item (List.mem_map_of_mem he)
  · exact hroots _ (hadded e he _ (.refl _) hstep.sound.wellFormed)

/-- a step that adds nothing keeps progress -/
theorem Progress.idle (h : run.Progress roots lost)
    (hstep : Step (fun _ _ => False) lost run run') : run'.Progress roots lost :=
  h.extend (fun _ hx => hx) (hstep.weaken fun _ _ => False.elim)

def lastTaken (run : Run) : List Item :=
  (run.scanner.queue.items[run.scanner.queue.taken - 1]?).toList

/-- the state after draining, compared with the one before -/
def Drains (run run' : Run) : Prop :=
  Step (fun _ _ => True) [] (run.withTaken run'.scanner.queue.taken) run'

theorem Drains.trans {run'' : Run} (h : run.Drains run') (h' : run'.Drains run'') :
    run.Drains run'' := by
  have hstep := Step.withTaken h run''.scanner.queue.taken
  exact Step.trans hstep h'

end Run

namespace Scan

open Run

variable {run : Run} {roots lost : List Item}

theorem dequeue_apply (run : Run) :
    dequeue run =
      match run.scanner.queue.entries[run.scanner.queue.taken]? with
      | none => .ok none run
      | some entry => .ok (some entry) (run.withTaken (run.scanner.queue.taken + 1)) := by
  rw [dequeue, Registry.modifyGet_apply, WorkQueue.pop]
  cases run.scanner.queue.entries[run.scanner.queue.taken]? <;> rfl

/-- taking an element and looking into it -/
theorem progress_look (h : run.Progress roots lost) {entry : QueueEntry}
    (he : run.scanner.queue.entries[run.scanner.queue.taken]? = some entry) :
    match scanItem entry.item (run.withTaken (run.scanner.queue.taken + 1)) with
    | .ok _ run' => run.Drains run' ∧ run'.Progress roots lost
    | .error _ run' => run.Drains run' ∧ run'.Progress roots (lost ++ run'.lastTaken) := by
  let run₁ := run.withTaken (run.scanner.queue.taken + 1)
  have hs₁ : run₁.Sound := h.sound.withTaken _
  have hlt : run.scanner.queue.taken < run.scanner.queue.entries.length :=
    (List.getElem?_eq_some_iff.mp he).1
  have hmem : entry.item ∈ run₁.scanner.queue.items :=
    List.mem_map_of_mem (List.mem_of_getElem? he)
  have htake : run.scanner.queue.entries.take (run.scanner.queue.taken + 1) =
      run.scanner.queue.entries.take run.scanner.queue.taken ++ [entry] := by
    rw [List.take_add_one, he]
    rfl
  -- the elements taken so far are explored, the one taken now once the look succeeds
  have hafter : ∀ {run'} {lost' : List Item}, Step (run₁.ReferredBy entry.item) [] run₁ run' →
      (∀ x ∈ lost, x ∈ lost') → (entry.item ∈ lost' ∨ run'.Explored entry.item) →
      run.Drains run' ∧ run'.Progress roots lost' := by
    intro run' lost' hstep hsub hentry
    obtain ⟨new, hnew, -⟩ := hstep.added
    have htaken : run'.scanner.queue.taken = run.scanner.queue.taken + 1 := hstep.taken
    have hentries : run'.scanner.queue.entries = run.scanner.queue.entries ++ new := hnew
    have hrooted : run₁.Rooted roots := h.rooted
    refine ⟨?_, hstep.sound, ?_, ?_, hrooted.step hmem hstep⟩
    · rw [Drains, htaken]
      exact hstep.weaken fun _ _ _ => trivial
    · rw [htaken, hentries, List.length_append]
      omega
    · intro e hmem'
      rw [htaken, hentries, List.take_append_of_le_length hlt, htake] at hmem'
      rcases List.mem_append.mp hmem' with hold | hlast
      · rcases h.explored e hold with hl | hx
        · exact .inl (hsub _ hl)
        · exact .inr ((hx.withTaken _).step hstep)
      · rw [List.mem_singleton.mp hlast]
        exact hentry
  have hlook : Steps (run₁.ReferredBy entry.item) [] (scanItem entry.item) run₁
      fun _ run' => run'.Explored entry.item := steps_scanItem hs₁ hmem
  simp only [Steps] at hlook
  cases hr : scanItem entry.item run₁ with
  | ok u run' =>
    rw [hr] at hlook
    exact hafter hlook.1 (fun _ hx => hx) (.inr hlook.2)
  | error e run' =>
    rw [hr] at hlook
    refine hafter hlook (fun _ hx => List.mem_append_left _ hx) (.inl ?_)
    refine List.mem_append_right _ ?_
    obtain ⟨new, hnew, -⟩ := hlook.added
    have htaken : run'.scanner.queue.taken = run.scanner.queue.taken + 1 := hlook.taken
    have hentries : run'.scanner.queue.entries = run.scanner.queue.entries ++ new := hnew
    simp only [lastTaken, htaken, Nat.add_sub_cancel, WorkQueue.items, hentries,
      List.getElem?_map, List.getElem?_append_left hlt, he]
    simp

theorem drain_zero_apply (run : Run) :
    drain 0 run =
      if run.scanner.queue.pending ≠ 0 then .error .scanUnfinished run else .ok () run := by
  show (if run.scanner.queue.pending ≠ 0 then _ else _ : Scan Unit) run = _
  split <;> rfl

theorem drain_succ_apply (budget : Nat) (run : Run) :
    drain (budget + 1) run =
      match run.scanner.queue.entries[run.scanner.queue.taken]? with
      | none => .ok () run
      | some entry => (scanItem entry.item >>= fun _ => drain budget)
          (run.withTaken (run.scanner.queue.taken + 1)) := by
  show (dequeue >>= _ : Scan Unit) run = _
  rw [Registry.bind_apply, dequeue_apply]
  cases run.scanner.queue.entries[run.scanner.queue.taken]? <;> rfl

/-- **Draining the queue** explores its elements; a failure loses the one that was looked into. -/
theorem progress_drain (budget : Nat) (h : run.Progress roots lost) :
    match drain budget run with
    | .ok _ run' => run.Drains run' ∧ run'.Progress roots lost ∧
        run'.scanner.queue.taken = run'.scanner.queue.entries.length
    | .error _ run' => run.Drains run' ∧ run'.Progress roots (lost ++ run'.lastTaken) := by
  have hrefl : run.Drains run := Step.refl h.sound
  have hbound := h.bound
  induction budget generalizing run with
  | zero =>
    rw [drain_zero_apply]
    by_cases hp : run.scanner.queue.pending ≠ 0
    · rw [if_pos hp]
      exact ⟨hrefl, h.mono fun _ hx => List.mem_append_left _ hx⟩
    · rw [if_neg hp]
      refine ⟨hrefl, h, ?_⟩
      simp only [WorkQueue.pending, WorkQueue.size, ne_eq, Decidable.not_not] at hp
      omega
  | succ budget ih =>
    rw [drain_succ_apply]
    cases he : run.scanner.queue.entries[run.scanner.queue.taken]? with
    | none =>
      refine ⟨hrefl, h, ?_⟩
      have := List.getElem?_eq_none_iff.mp he
      omega
    | some entry =>
      have hlook := progress_look h he
      simp only [Registry.bind_apply]
      cases hr : scanItem entry.item (run.withTaken (run.scanner.queue.taken + 1)) with
      | error e run' =>
        rw [hr] at hlook
        exact hlook
      | ok u run₁ =>
        rw [hr] at hlook
        have hrest := ih hlook.2 (Step.refl hlook.2.sound) hlook.2.bound
        dsimp only
        cases hr' : drain budget run₁ with
        | ok v run₂ =>
          rw [hr'] at hrest
          exact ⟨hlook.1.trans hrest.1, hrest.2⟩
        | error e run₂ =>
          rw [hr'] at hrest
          exact ⟨hlook.1.trans hrest.1, hrest.2⟩

end Scan

end ProgramScan

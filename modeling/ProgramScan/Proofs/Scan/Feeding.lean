import ProgramScan.Proofs.Scan.Emitting

/-!
# What a scan hands over before the method tables

Bodies, forwards and fields are handed to the generator before the method tables.  Whatever hands
them over fails as an operation on the program does, or because the generator refuses a call:

* `Run.Fed run run'`        no method tables were handed over from `run` to `run'`;
* `Scan.Feeds act`          the operation hands over no method tables, and fails as said;
* `feeds_assembleItems`     emitting elements does.
-/

namespace ProgramScan

namespace Error

/-- the cause is one of operations on the program, or the generator refused a call -/
def OfOutput (e : Error) : Prop := e.OfProgram ∨ ∃ call, e = .generatorRefused call

theorem OfOutput.notNative {e : Error} (h : e.OfOutput) : e.NotNative := by
  rcases h with h | ⟨call, rfl⟩
  · exact h.notNative
  · exact fun n he => by cases he

theorem OfOutput.notUnqueued {e : Error} (h : e.OfOutput) : e.NotUnqueued := by
  rcases h with h | ⟨call, rfl⟩
  · exact h.notUnqueued
  · exact ⟨(fun m p he => by cases he), fun t he => by cases he⟩

end Error

/-- from one state to a later one, no method tables were handed over -/
def Run.Fed (run run' : Run) : Prop :=
  ∃ new, run'.generator.emissions = run.generator.emissions ++ new ∧
    ∀ em ∈ new, em.isTables = false

namespace Run.Fed

variable {run run' run'' : Run}

theorem of_eq (h : run'.generator.emissions = run.generator.emissions) : run.Fed run' :=
  ⟨[], by rw [h, List.append_nil], by simp⟩

theorem trans (h : run.Fed run') (h' : run'.Fed run'') : run.Fed run'' := by
  obtain ⟨new, hnew, hno⟩ := h
  obtain ⟨more, hmore, hno'⟩ := h'
  refine ⟨new ++ more, by rw [hmore, hnew, List.append_assoc], fun em hem => ?_⟩
  exact (List.mem_append.mp hem).elim (hno em) (hno' em)

end Run.Fed

namespace Scan

variable {α β : Type}

/-- the operation hands over no method tables, and fails as operations on the program do or because
the generator refuses a call -/
def Feeds (act : Scan α) : Prop :=
  ∀ run, match act run with
    | .ok _ run' => run.Fed run'
    | .error e run' => run.Fed run' ∧ e.OfOutput

namespace Feeds

theorem ok {act : Scan α} (h : Feeds act) {run run' : Run} {a : α} (hr : act run = .ok a run') :
    run.Fed run' := by
  have := h run
  rw [hr] at this
  exact this

theorem error {act : Scan α} (h : Feeds act) {run run' : Run} {e : Error}
    (hr : act run = .error e run') : run.Fed run' ∧ e.OfOutput := by
  have := h run
  rw [hr] at this
  exact this

theorem raises {act : Scan α} (h : Feeds act) : Raises Error.OfOutput act :=
  fun _ _ _ hr => (h.error hr).2

/-- an operation that hands nothing over -/
theorem of_leaves {act : Scan α} (h : Leaves Error.OfProgram act) : Feeds act := by
  intro run
  cases hr : act run with
  | ok a run' => exact .of_eq (congrArg _ (h.ok hr).generator)
  | error e run' =>
    obtain ⟨hu, he⟩ := h.error hr
    exact ⟨.of_eq (congrArg _ hu.generator), .inl he⟩

theorem pure (a : α) : Feeds (Pure.pure a : Scan α) := of_leaves (.pure a)

theorem bind {x : Scan α} {k : α → Scan β} (hx : Feeds x) (hk : ∀ a, Feeds (k a)) :
    Feeds (x >>= k) := by
  intro run
  rw [Registry.bind_apply]
  cases hr : x run with
  | error e run' => exact hx.error hr
  | ok a run₁ =>
    dsimp only
    cases hr' : k a run₁ with
    | ok b run₂ => exact (hx.ok hr).trans ((hk a).ok hr')
    | error e run₂ =>
      obtain ⟨hfed, he⟩ := (hk a).error hr'
      exact ⟨(hx.ok hr).trans hfed, he⟩

/-- after an operation that hands nothing over -/
theorem after {x : Scan α} {k : α → Scan β} (hx : Leaves Error.OfProgram x)
    (hk : ∀ a, Feeds (k a)) : Feeds (x >>= k) :=
  bind (of_leaves hx) hk

theorem get {k : Run → Scan α} (hk : ∀ run, Feeds (k run)) : Feeds (MonadState.get >>= k) :=
  fun run => hk run run

theorem registry {k : Registry → Scan α} (hk : ∀ r, Feeds (k r)) : Feeds (Scan.registry >>= k) :=
  fun run => hk run.registry run

theorem forM {f : α → Scan Unit} (hf : ∀ a, Feeds (f a)) (l : List α) : Feeds (l.forM f) := by
  induction l with
  | nil => exact pure _
  | cons a l ih => exact (hf a).bind fun _ => ih

end Feeds

theorem feeds_emit {em : Emission} (h : em.isTables = false) : Feeds (emit em) := by
  intro run
  simp only [emit, emitWith_apply]
  cases run.generator.refusesNext with
  | true => exact ⟨.of_eq rfl, .inr ⟨_, rfl⟩⟩
  | false =>
    refine ⟨[em], rfl, fun e he => ?_⟩
    rw [List.mem_singleton.mp he, h]

/-! ## elements -/

theorem feeds_assembleNormal (place uid : Nat) (m : MethodId) :
    Feeds (assembleNormal place uid m) := by
  refine .registry fun r => ?_
  dsimp only
  split
  · refine .after (leaves_newRecord _ _ _ _) fun record => ?_
    exact .after (leaves_decodeStamped m) fun code => feeds_emit rfl
  · exact .pure _

theorem feeds_forwardInline (record plug : MethodRecord) : Feeds (forwardInline record plug) := by
  refine .after (leaves_methodLabel _) fun label => .after (leaves_decodeStamped _) fun code => ?_
  exact (feeds_emit rfl).bind fun _ => feeds_emit rfl

theorem feeds_forwardWithOptions (record plug : MethodRecord) (options : PlugOptions) :
    Feeds (forwardWithOptions record plug options) := by
  rw [forwardWithOptions]
  dsimp only
  split
  · refine .after (leaves_methodLabel _) fun label => .after (leaves_decodeStamped _) fun code => ?_
    split
    · exact (feeds_emit rfl).bind fun _ => feeds_emit rfl
    · exact feeds_emit rfl
  · exact feeds_emit rfl

theorem feeds_assemblePlugged (place uid : Nat) (m p : MethodId) :
    Feeds (assemblePlugged place uid m p) := by
  refine .after (leaves_identify _) fun _ => .get fun run => ?_
  refine .after (leaves_methodUid p) fun plugUid => ?_
  refine .after (leaves_newRecord _ _ _ _) fun record => ?_
  dsimp only
  split
  · exact .after (leaves_newRecord _ _ _ _) fun plug => feeds_forwardInline record plug
  · refine .after (leaves_newRecord _ _ _ _) fun plug => ?_
    split
    · exact feeds_forwardWithOptions _ _ _
    · exact feeds_emit rfl

theorem feeds_assembleItem (place : Nat) (entry : Item × Option MethodId) :
    Feeds (assembleItem place entry) := by
  obtain ⟨item, answer⟩ := entry
  cases item with
  | type t => exact .pure _
  | field f => exact feeds_emit rfl
  | method m =>
    refine .registry fun r => ?_
    split
    · refine .after (leaves_methodUid m) fun uid => ?_
      cases answer with
      | some p => exact feeds_assemblePlugged place uid m p
      | none => exact feeds_assembleNormal place uid m
    · exact .pure _

/-- **Emitting elements** hands over no method tables. -/
theorem feeds_assembleItems (place : Nat) (entries : List (Item × Option MethodId)) :
    Feeds (assembleItems place entries) := by
  induction entries generalizing place with
  | nil => exact .pure _
  | cons entry rest ih => exact (feeds_assembleItem place entry).bind fun _ => ih (place + 1)

end Scan

end ProgramScan

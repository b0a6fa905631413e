import ProgramScan.Proofs.Scan.Emitting

/-!
# Blocks of emissions

Every element of the queue gives a block of emissions (`Scan.IsBlock`), and the blocks follow each
other in the order of the queue (`Scan.emitting_assembleItems`):

* a type or an inline method gives nothing, a field its storage;
* a method without plug gives its own body, or nothing if it is a wildcard;
* a method with plug gives a forward to it.  The body of the plug stands before the forward if the
  plug is inline, or if it is a wildcard and has code.

Code was decoded when the scan looked into the method, with one exception: the code of an inline plug
is decoded here for the first time.  If it is damaged, the blocks of the elements before stay emitted
(`Scan.BreaksAt`).
-/

namespace ProgramScan

open Registry (Grows Settled)

namespace Scan

variable {run run' : Run}

def isWildcard (d : Method) : Bool := d.plugOptions?.any (·.wildcard)

/-- A method that is not expanded in place, with its plug. -/
structure Compiled (run : Run) (m : MethodId) (answer : Option MethodId) : Prop where
  has : run.registry.Has (.method m)
  isInline : (run.registry.method m).isInline = false
  answered : Answered run m answer

structure Replaced (run : Run) (m : MethodId) (record : MethodRecord) : Prop where
  isRecord : IsRecord m .needsPlug record
  label : Labelled run m record.label

/-- `plug` is the record of `p` as the body of the replaced method `m` with record `record`. -/
structure StandsIn (m p : MethodId) (record plug : MethodRecord) : Prop where
  method : plug.method = p
  kind : plug.kind = .plug
  plugged : plug.plugged = some m
  label : plug.label = pluggedLabelStart ++ record.label

/-- the code of a plug is emitted on behalf of the method it stands in for -/
def EmitsCode (d : Method) (code : List Instruction) : Prop :=
  d.isInline = true ∨ isWildcard d = true ∧ code ≠ []

inductive IsBlock (run : Run) : Item → List Emission → Prop
  | type (t : TypeId) : IsBlock run (.type t) []
  | field (f : FieldId) : IsBlock run (.field f) [.field f]
  | inline {m : MethodId} (hi : (run.registry.method m).isInline = true) :
    IsBlock run (.method m) []
  | wildcard {m : MethodId} (hm : Compiled run m none)
    (hw : isWildcard (run.registry.method m) = true) : IsBlock run (.method m) []
  | own {m : MethodId} {record : MethodRecord} {code : List Instruction}
    (hm : Compiled run m none) (hw : isWildcard (run.registry.method m) = false)
    (hr : IsRecord m .normal record) (hl : Labelled run m record.label)
    (hc : StampedCode run m code) : IsBlock run (.method m) [.body record code]
  | forward {m p : MethodId} {record plug : MethodRecord} (hm : Compiled run m (some p))
    (hi : (run.registry.method p).isInline = false)
    (hw : isWildcard (run.registry.method p) = false) (hr : Replaced run m record)
    (hp : IsRecord p .plug plug) (hl : Labelled run p plug.label) :
    IsBlock run (.method m) [.forward record plug]
  | noCode {m p : MethodId} {record plug : MethodRecord} (hm : Compiled run m (some p))
    (hi : (run.registry.method p).isInline = false)
    (hw : isWildcard (run.registry.method p) = true) (hr : Replaced run m record)
    (hp : StandsIn m p record plug) (hc : StampedCode run p []) :
    IsBlock run (.method m) [.forward record plug]
  | standIn {m p : MethodId} {record plug : MethodRecord} {code : List Instruction}
    (hm : Compiled run m (some p)) (he : EmitsCode (run.registry.method p) code)
    (hr : Replaced run m record) (hp : StandsIn m p record plug) (hc : StampedCode run p code) :
    IsBlock run (.method m) [.body plug code, .forward record plug]

/-- The code of an inline plug of the element fails to decode with `e`, in a later state of `r`. -/
inductive BreaksAt (r : Registry) (e : Error) (run : Run) : Item → Prop
  | inlinePlug {m p : MethodId} {s : Registry} (hm : Compiled run m (some p))
    (hi : (run.registry.method p).isInline = true) (hg : r.Grows s)
    (hd : Registry.decode p s = .error e run.registry) : BreaksAt r e run (.method m)

theorem BreaksAt.before {r r' : Registry} {e : Error} {x : Item} (h : BreaksAt r' e run x)
    (hg : r.Grows r') : BreaksAt r e run x := by
  cases h with
  | inlinePlug hm hi hg' hd => exact .inlinePlug hm hi (hg.trans hg') hd

/-! ## blocks stay blocks -/

theorem Answered.unique {m : MethodId} {a b : Option MethodId} (hs : run.Sound)
    (ha : Answered run m a) (hb : Answered run m b) : a = b := by
  obtain ⟨r', hr', -⟩ := ha.1.run hs.wellFormed
  exact (hb.1.eq hs.wellFormed hr').1

theorem StampedCode.step {S : Item → Registry → Prop} {lost : List Item} {m : MethodId}
    {stamped : List Instruction} (h : StampedCode run m stamped) (hs : run.Sound)
    (hstep : run.Step S lost run') : StampedCode run' m stamped := by
  obtain ⟨code, hset, hc, hst⟩ := h
  refine ⟨code, hset.mono hstep.grows, hstep.grows.hasCode hc, ?_⟩
  clear hset
  induction hst with
  | nil => exact .nil
  | @cons i j code stamped hi _ ih =>
    refine .cons (hi.step hs (hc i List.mem_cons_self) hstep) (ih fun k hk => ?_)
    exact hc k (List.mem_cons_of_mem _ hk)

section
variable (h : run.After run') (hs : run.Sound)
include h

theorem Compiled.after {m : MethodId} {answer : Option MethodId} (hm : Compiled run m answer) :
    Compiled run' m answer :=
  ⟨h.grows.has hm.has, by rw [h.grows.method hm.has, hm.isInline], h.answered hm.answered⟩

theorem Compiled.plug {m p : MethodId} (hm : Compiled run m (some p)) :
    run'.registry.method p = run.registry.method p :=
  h.grows.method (hm.answered.2 p rfl).has

include hs

theorem Labelled.after {m : MethodId} {label : String} (hl : Labelled run m label)
    (hm : run.registry.Has (.method m)) : Labelled run' m label := by
  rw [Labelled, h.grows.methodKey hs.wellFormed hm]
  exact h.labels _ _ hl

theorem StampedCode.after {m : MethodId} {code : List Instruction} (hc : StampedCode run m code) :
    StampedCode run' m code := by
  have hstep := hc.step hs h.step
  exact hstep

theorem IsBlock.after {x : Item} {block : List Emission} (hx : run.registry.Has x)
    (hb : IsBlock run x block) : IsBlock run' x block := by
  cases hb with
  | type t => exact .type t
  | field f => exact .field f
  | inline hi => exact .inline (by rw [h.grows.method hx, hi])
  | wildcard hm hw => exact .wildcard (hm.after h) (by rw [h.grows.method hx, hw])
  | own hm hw hr hl hc =>
    exact .own (hm.after h) (by rw [h.grows.method hx, hw]) hr (hl.after h hs hx) (hc.after h hs)
  | forward hm hi hw hr hp hl =>
    have hhas := (hm.answered.2 _ rfl).has
    exact .forward (hm.after h) (by rw [hm.plug h, hi]) (by rw [hm.plug h, hw])
      ⟨hr.isRecord, hr.label.after h hs hx⟩ hp (hl.after h hs hhas)
  | noCode hm hi hw hr hp hc =>
    exact .noCode (hm.after h) (by rw [hm.plug h, hi]) (by rw [hm.plug h, hw])
      ⟨hr.isRecord, hr.label.after h hs hx⟩ hp (hc.after h hs)
  | standIn hm he hr hp hc =>
    exact .standIn (hm.after h) (by rw [hm.plug h]; exact he)
      ⟨hr.isRecord, hr.label.after h hs hx⟩ hp (hc.after h hs)

end

/-! ## one element -/

theorem emitting_last (new : List Emission) (hs : run.Sound) {x : Item} (hx : run.registry.Has x)
    {em : Emission} (hb : IsBlock run x (new ++ [em]))
    {E : Error → Run → List Emission → Prop} :
    Emitting (emit em) run (fun _ run' more => IsBlock run' x (new ++ more)) E := by
  refine (emitting_emit hs em).weaken (fun _ run' more hem hmore => ?_) fun _ _ _ _ he => he
  rw [hmore]
  exact hb.after hem.after hs hx

variable {m p : MethodId}

theorem exists_settled_own (hs : run.Sound) (hc : run.Complete [])
    (hm : .method m ∈ run.scanner.queue.items) (hm' : Compiled run m none) :
    ∃ code, Settled (Registry.decode m) code run.registry := by
  obtain ⟨answer, hans, hmanaged⟩ := (hc _ hm (by simp)).managed m rfl
  obtain rfl := hans.unique hs hm'.answered
  exact hmanaged.code hm'.isInline

theorem exists_settled_plug (hs : run.Sound) (hc : run.Complete [])
    (hm : .method m ∈ run.scanner.queue.items) (hans : Answered run m (some p))
    (hi : (run.registry.method p).isInline = false) :
    ∃ code, Settled (Registry.decode p) code run.registry := by
  obtain ⟨answer, hans', hmanaged⟩ := (hc _ hm (by simp)).managed m rfl
  obtain rfl := hans'.unique hs hans
  exact hmanaged.code hi

variable {E : Error → Run → List Emission → Prop}

theorem emitting_assembleNormal (hs : run.Sound) (hc : run.Complete [])
    (hm : .method m ∈ run.scanner.queue.items) (hm' : Compiled run m none) (place uid : Nat) :
    Emitting (assembleNormal place uid m) run
      (fun _ run' new => IsBlock run' (.method m) new) E := by
  obtain ⟨settled, hset⟩ := exists_settled_own hs hc hm hm'
  refine .registry ?_
  dsimp only
  split
  · rename_i hw
    have hw : isWildcard (run.registry.method m) = false := by simpa [isWildcard] using hw
    refine .quietly (steps_newRecord hs m place uid .normal) (leaves_newRecord _ _ _ _)
      fun record run₁ hem₁ ⟨hr, hl⟩ => ?_
    have hs₁ := hem₁.after.sound
    have hm₁ := hm'.after hem₁.after
    refine .after (steps_decodeStamped hs₁ hm₁.has) (leaves_decodeStamped m)
      (decodeStamped_ne_error hs₁ (hset.mono hem₁.after.grows)) fun code run₂ hem₂ hcode => ?_
    have hem := hem₁.after.trans hem₂.after
    have hm₂ := hm'.after hem
    refine emitting_last [] hem.sound hm₂.has (.own hm₂ ?_ ?_ ?_ hcode)
    · rw [hem.grows.method hm'.has, hw]
    · exact ⟨hr.method, hr.kind, hr.plugged, hr.isInline⟩
    · exact hl.after hem₂.after hs₁ hm₁.has
  · rename_i hw
    exact .pure hs (.wildcard hm' (by simpa [isWildcard] using hw))

section
variable (hs : run.Sound) (hm : Compiled run m (some p)) {record plug : MethodRecord}
  (hr : Replaced run m record) (hp : IsRecord p .plug plug)
include hs hm hr hp

omit hs hm in
/-- the record of a plug whose code is emitted for `m` -/
theorem standsIn_forPlugged {label : String} (hl : Labelled run m label) :
    StandsIn m p record (plug.forPlugged m label) := by
  have hlabel : label = record.label := Option.some.inj (hl.symm.trans hr.label)
  refine ⟨hp.method, hp.kind, rfl, ?_⟩
  rw [MethodRecord.forPlugged, hlabel]

omit hp in
/-- the body of a plug on behalf of `m`, then the forward -/
theorem emitting_standIn {plug' : MethodRecord} (hp' : StandsIn m p record plug')
    {code : List Instruction} (hc : StampedCode run p code)
    (he : EmitsCode (run.registry.method p) code) :
    Emitting (do
        emit (.body plug' code)
        emit (.forward record plug')) run (fun _ run' new => IsBlock run' (.method m) new) E := by
  refine .bind (emitting_emit hs _) fun _ run₁ new hem₁ hnew => ?_
  rw [hnew]
  have hblock : IsBlock run (.method m) [.body plug' code, .forward record plug'] :=
    .standIn hm he hr hp' hc
  exact emitting_last _ hem₁.after.sound (hm.after hem₁.after).has
    (hblock.after hem₁.after hs hm.has)

theorem emitting_forwardInline (hi : (run.registry.method p).isInline = true) {r : Registry}
    (hg : r.Grows run.registry) :
    Emitting (forwardInline record plug) run (fun _ run' new => IsBlock run' (.method m) new)
      fun e run' new => new = [] ∧ BreaksAt r e run' (.method m) := by
  rw [forwardInline, hr.isRecord.method]
  refine .quietly (steps_methodLabel hs m) (leaves_methodLabel _) fun label run₁ hem₁ hl => ?_
  have hs₁ := hem₁.after.sound
  have hm₁ := hm.after hem₁.after
  have hr₁ : Replaced run₁ m record := ⟨hr.isRecord, hr.label.after hem₁.after hs hm.has⟩
  have hi₁ : (run₁.registry.method p).isInline = true := by rw [hm.plug hem₁.after, hi]
  have hplug := standsIn_forPlugged hr₁ hp hl
  have hdecode := emitting_decodeStamped hs₁ (hm₁.answered.2 p rfl).has
  refine .bind (Q := fun code run' new => new = [] ∧ StampedCode run' p code) ?_ ?_
  · show Emitting (decodeStamped plug.method) _ _ _
    rw [hp.method]
    refine hdecode.weaken (fun _ _ _ _ h => h) fun e run₂ new hem₂ ⟨hnew, hd⟩ => ⟨hnew, ?_⟩
    refine .inlinePlug (hm₁.after hem₂.after) ?_ (hg.trans hem₁.after.grows) hd
    rw [hm₁.plug hem₂.after, hi₁]
  · rintro code run₂ new hem₂ ⟨rfl, hc⟩
    have hs₂ := hem₂.after.sound
    have hm₂ := hm₁.after hem₂.after
    have hr₂ : Replaced run₂ m record := ⟨hr.isRecord, hr₁.label.after hem₂.after hs₁ hm₁.has⟩
    refine emitting_standIn hs₂ hm₂ hr₂ ?_ hc (.inl ?_)
    · exact ⟨hplug.method, hplug.kind, hplug.plugged, hplug.label⟩
    · rw [hm₁.plug hem₂.after, hi₁]

variable (hi : (run.registry.method p).isInline = false)
include hi

omit hp in
/-- the body of a wildcard unless it has none, then the forward -/
theorem emitting_wildcardBody (hw : isWildcard (run.registry.method p) = true)
    {plug' : MethodRecord} (hp' : StandsIn m p record plug') {code : List Instruction}
    (hc : StampedCode run p code) :
    Emitting (do
        if !code.isEmpty then
          emit (.body plug' code)
        emit (.forward record plug')) run (fun _ run' new => IsBlock run' (.method m) new) E := by
  cases code with
  | nil => exact emitting_last [] hs hm.has (.noCode hm hi hw hr hp' hc)
  | cons i code => exact emitting_standIn hs hm hr hp' hc (.inr ⟨hw, by simp⟩)

theorem emitting_wildcard {options : PlugOptions} (hw : isWildcard (run.registry.method p) = true)
    {settled : List Instruction} (hset : Settled (Registry.decode p) settled run.registry)
    (ho : options.wildcard = true) :
    Emitting (forwardWithOptions record plug options) run
      (fun _ run' new => IsBlock run' (.method m) new) E := by
  simp only [forwardWithOptions, ho, if_true, hr.isRecord.method]
  refine .quietly (steps_methodLabel hs m) (leaves_methodLabel _) fun label run₁ hem₁ hl => ?_
  have hs₁ := hem₁.after.sound
  have hm₁ := hm.after hem₁.after
  have hr₁ : Replaced run₁ m record := ⟨hr.isRecord, hr.label.after hem₁.after hs hm.has⟩
  have hplug := standsIn_forPlugged hr₁ hp hl
  have hhas := (hm₁.answered.2 p rfl).has
  refine .after (P := fun code run' => StampedCode run' p code) ?_ (leaves_decodeStamped _) ?_ ?_
  · simpa only [MethodRecord.forPlugged, hp.method] using steps_decodeStamped hs₁ hhas
  · have hne := decodeStamped_ne_error hs₁ (hset.mono hem₁.after.grows)
    simpa only [MethodRecord.forPlugged, hp.method] using hne
  · intro code run₂ hem₂ hc
    have hem := hem₁.after.trans hem₂.after
    have hs₂ := hem₂.after.sound
    have hm₂ := hm₁.after hem₂.after
    have hr₂ : Replaced run₂ m record := ⟨hr.isRecord, hr₁.label.after hem₂.after hs₁ hm₁.has⟩
    have hw₂ : isWildcard (run₂.registry.method p) = true := by rw [hm.plug hem, hw]
    have hi₂ : (run₂.registry.method p).isInline = false := by rw [hm.plug hem, hi]
    refine emitting_wildcardBody hs₂ hm₂ hr₂ hi₂ hw₂ ?_ hc
    exact ⟨hplug.method, hplug.kind, hplug.plugged, hplug.label⟩

theorem emitting_plain (hw : isWildcard (run.registry.method p) = false)
    (hl : Labelled run p plug.label) :
    Emitting (emit (.forward record plug)) run
      (fun _ run' new => IsBlock run' (.method m) new) E :=
  emitting_last [] hs hm.has (.forward hm hi hw hr hp hl)

end

theorem emitting_assemblePlugged (hs : run.Sound) (hc : run.Complete [])
    (hm : .method m ∈ run.scanner.queue.items) (hm' : Compiled run m (some p)) (place uid : Nat)
    {r : Registry} (hg : r.Grows run.registry) :
    Emitting (assemblePlugged place uid m p) run (fun _ run' new => IsBlock run' (.method m) new)
      fun e run' new => new = [] ∧ BreaksAt r e run' (.method m) := by
  refine .quietly (steps_identify hs _) (leaves_identify _)
    fun _ run₁ hem₁ _ => ?_
  refine .get ?_
  refine .quietly (steps_methodUid hem₁.after.sound p) (leaves_methodUid _)
    fun plugUid run₂ hem₂ _ => ?_
  refine .quietly (steps_newRecord hem₂.after.sound m place uid .needsPlug)
    (leaves_newRecord _ _ _ _) fun record run₃ hem₃ ⟨hrec, hl₃⟩ => ?_
  have h₃ := (hem₁.after.trans hem₂.after).trans hem₃.after
  have hs₃ := h₃.sound
  have hm₃ := hm'.after h₃
  rw [hm'.plug hem₁.after]
  dsimp only
  split
  · rename_i hi
    refine .quietly (steps_newRecord hs₃ p place plugUid .plug) (leaves_newRecord _ _ _ _)
      fun plug run₄ hem₄ ⟨hprec, _⟩ => ?_
    have h₄ := h₃.trans hem₄.after
    refine emitting_forwardInline h₄.sound (hm'.after h₄)
      ⟨hrec, hl₃.after hem₄.after hs₃ hm₃.has⟩ hprec ?_ (hg.trans h₄.grows)
    rw [hm'.plug h₄, hi]
  · rename_i hi
    have hi : (run.registry.method p).isInline = false := by simpa using hi
    refine .quietly (steps_newRecord hs₃ p _ plugUid .plug) (leaves_newRecord _ _ _ _)
      fun plug run₄ hem₄ ⟨hprec, hpl⟩ => ?_
    have h₄ := h₃.trans hem₄.after
    have hr₄ : Replaced run₄ m record := ⟨hrec, hl₃.after hem₄.after hs₃ hm₃.has⟩
    have hi₄ : (run₄.registry.method p).isInline = false := by rw [hm'.plug h₄, hi]
    have hplain : isWildcard (run.registry.method p) = false →
        isWildcard (run₄.registry.method p) = false := by
      intro hw
      rw [hm'.plug h₄, hw]
    -- options or not, only a wildcard differs from a plain plug
    cases ho : (run.registry.method p).plugOptions? with
    | none =>
      refine emitting_plain h₄.sound (hm'.after h₄) hr₄ hprec hi₄ (hplain ?_) hpl
      simp [isWildcard, ho]
    | some options =>
      cases hw : options.wildcard with
      | true =>
        obtain ⟨settled, hset⟩ := exists_settled_plug hs hc hm hm'.answered hi
        refine emitting_wildcard h₄.sound (hm'.after h₄) hr₄ hprec hi₄ ?_ (hset.mono h₄.grows) hw
        rw [hm'.plug h₄]
        simp [isWildcard, ho, hw]
      | false =>
        simp only [forwardWithOptions, hw]
        refine emitting_plain h₄.sound (hm'.after h₄) hr₄
          ⟨hprec.method, hprec.kind, hprec.plugged, hprec.isInline⟩ hi₄ (hplain ?_) hpl
        simp [isWildcard, ho, hw]

/-- **One element** gives its block; only the code of an inline plug can stop this. -/
theorem emitting_assembleItem (hs : run.Sound) (hc : run.Complete []) (place : Nat)
    {entry : Item × Option MethodId} (hentry : Checked run entry) {r : Registry}
    (hg : r.Grows run.registry) :
    Emitting (assembleItem place entry) run (fun _ run' new => IsBlock run' entry.1 new)
      fun e run' new => new = [] ∧ BreaksAt r e run' entry.1 := by
  obtain ⟨item, answer⟩ := entry
  have hmem : item ∈ run.scanner.queue.items := hentry.mem
  have hhas := (hs.item hmem).1
  cases item with
  | type t => exact .pure hs (.type t)
  | field f => exact emitting_last [] hs hhas (.field f)
  | method m =>
    have hans : Answered run m answer := hentry.answered m rfl
    refine .registry ?_
    split
    · rename_i hi
      have hm : Compiled run m answer := ⟨hhas, by simpa using hi, hans⟩
      refine .quietly (steps_methodUid hs m) (leaves_methodUid _)
        fun uid run₁ hem₁ _ => ?_
      have h₁ := hem₁.after
      have hmem₁ : .method m ∈ run₁.scanner.queue.items := by
        rw [h₁.items]
        exact hmem
      cases answer with
      | some p =>
        exact emitting_assemblePlugged h₁.sound (h₁.complete hc) hmem₁ (hm.after h₁) place uid
          (hg.trans h₁.grows)
      | none =>
        exact emitting_assembleNormal h₁.sound (h₁.complete hc) hmem₁ (hm.after h₁) place uid
    · rename_i hi
      exact .pure hs (.inline (by simpa using hi))

/-! ## all elements -/

/-- **The elements in order** give their blocks one after the other, up to the first whose inline
plug has damaged code. -/
theorem emitting_assembleItems (hs : run.Sound) (hc : run.Complete []) (place : Nat)
    {entries : List (Item × Option MethodId)} (hentries : ∀ e ∈ entries, Checked run e)
    {r : Registry} (hg : r.Grows run.registry) :
    Emitting (assembleItems place entries) run
      (fun _ run' new => ∃ blocks, List.Forall₂ (IsBlock run') (entries.map Prod.fst) blocks ∧
        new = blocks.flatten)
      fun e run' new => ∃ done x rest blocks, entries.map Prod.fst = done ++ x :: rest ∧
        List.Forall₂ (IsBlock run') done blocks ∧ new = blocks.flatten ∧ BreaksAt r e run' x := by
  -- blocks of earlier elements are blocks in every later state, so they can be collected
  induction entries generalizing run place with
  | nil => exact .pure hs ⟨[], .nil, rfl⟩
  | cons entry rest ih =>
    have hentry := hentries entry List.mem_cons_self
    have hhas := (hs.item hentry.mem).1
    have hone := emitting_assembleItem hs hc place hentry hg
    refine .bind (hone.weaken (fun _ _ _ _ h => h) ?_) ?_
    · rintro e run₁ new _ ⟨rfl, hb⟩
      exact ⟨[], entry.1, rest.map Prod.fst, [], rfl, .nil, rfl, hb⟩
    · intro _ run₁ block hem₁ hblock
      have h₁ := hem₁.after
      have hrest := ih h₁.sound (h₁.complete hc) (place + 1)
        (fun e he => h₁.checked hs (hentries e (List.mem_cons_of_mem _ he))) (hg.trans h₁.grows)
      have hhas₁ := h₁.grows.has hhas
      refine hrest.weaken ?_ ?_
      · rintro _ run₂ more hem₂ ⟨blocks, hall, rfl⟩
        exact ⟨block :: blocks, .cons (hblock.after hem₂.after h₁.sound hhas₁) hall, rfl⟩
      · rintro e run₂ more hem₂ ⟨done, x, later, blocks, hsplit, hall, rfl, hb⟩
        refine ⟨entry.1 :: done, x, later, block :: blocks, ?_, ?_, rfl, hb⟩
        · rw [List.map_cons, hsplit, List.cons_append]
        · exact .cons (hblock.after hem₂.after h₁.sound hhas₁) hall

section
variable {items : List Item} {blocks : List (List Emission)}
  (h : List.Forall₂ (IsBlock run) items blocks)
include h

/-- what was emitted belongs to a block -/
theorem exists_item_of_mem_flatten {em : Emission} (hem : em ∈ blocks.flatten) :
    ∃ x ∈ items, ∃ block ∈ blocks, IsBlock run x block ∧ em ∈ block := by
  induction h with
  | nil => cases hem
  | @cons x block items blocks hx _ ih =>
    rw [List.flatten_cons] at hem
    rcases List.mem_append.mp hem with hem | hem
    · exact ⟨x, List.mem_cons_self, block, List.mem_cons_self, hx, hem⟩
    · obtain ⟨y, hy, block', hmem, hblock⟩ := ih hem
      exact ⟨y, List.mem_cons_of_mem _ hy, block', List.mem_cons_of_mem _ hmem, hblock⟩

theorem exists_block_of_mem {x : Item} (hx : x ∈ items) :
    ∃ block ∈ blocks, IsBlock run x block := by
  induction h with
  | nil => cases hx
  | @cons y block items blocks hy _ ih =>
    rcases List.mem_cons.mp hx with rfl | hx
    · exact ⟨block, List.mem_cons_self, hy⟩
    · obtain ⟨block', hmem, hblock⟩ := ih hx
      exact ⟨block', List.mem_cons_of_mem _ hmem, hblock⟩

end

end Scan

end ProgramScan

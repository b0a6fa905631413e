import ProgramScan.Proofs.Scan.Confined

/-!
# Labels of emitted bodies

The label of a body is made from a rendered name.  Making it loses information: characters are dropped
or spelled out, the module is not part of a name, and long names are cut.  So bodies for different
methods can have one label, and it can be said when they have.

* `finalLabel_eq_iff`        two names give one label if they are spelled out alike, or one is what
                             the other is cut to;
* `LabelCache.Named`         labels that were handed out are made from names of the methods they are
                             handed out for;
* `Scan.execute_labels`      when two bodies of a scan share a label;
* `Scan.exists_shared_label` bodies for different methods that do.

Digests of long names are taken to differ if the names do (`Registry.DigestsDiffer`).
-/

namespace ProgramScan

/-! ## labels of names -/

/-- the text that a label consists of: a long one is cut and ends in its digest -/
def labelText (text : List Char) : List Char :=
  if text.length ≤ maxLabelLength then text
  else text.take (maxLabelLength - 32) ++ digestText text

/-- `a` is short, and what the long text `b` is cut to -/
structure Abbreviates (a b : List Char) : Prop where
  short : a.length ≤ maxLabelLength
  long : maxLabelLength < b.length
  eq : a = b.take (maxLabelLength - 32) ++ digestText b

/-- the names are spelled out alike, or one is what the other is cut to -/
def SpelledAlike (name other : String) : Prop :=
  spelledOut name.toList = spelledOut other.toList ∨
    Abbreviates (spelledOut name.toList) (spelledOut other.toList) ∨
    Abbreviates (spelledOut other.toList) (spelledOut name.toList)

/-- the names are not both long, or have different digests unless they are spelled out alike -/
def DigestsDiffer (name other : String) : Prop :=
  maxLabelLength < (spelledOut name.toList).length →
    maxLabelLength < (spelledOut other.toList).length →
      digestText (spelledOut name.toList) = digestText (spelledOut other.toList) →
        spelledOut name.toList = spelledOut other.toList

theorem finalLabel_eq (name : String) :
    finalLabel name = String.ofList (labelText (spelledOut name.toList)) := by
  rw [finalLabel, labelText]
  split <;> rfl

theorem labelText_of_short {text : List Char} (h : text.length ≤ maxLabelLength) :
    labelText text = text := if_pos h

theorem labelText_of_long {text : List Char} (h : maxLabelLength < text.length) :
    labelText text = text.take (maxLabelLength - 32) ++ digestText text :=
  if_neg (Nat.not_le.mpr h)

theorem ofList_inj {a b : List Char} : String.ofList a = String.ofList b ↔ a = b :=
  ⟨fun h => by simpa using congrArg String.toList h, fun h => by rw [h]⟩

/-- **When two names give one label.** -/
theorem finalLabel_eq_iff {name other : String} (hd : DigestsDiffer name other) :
    finalLabel name = finalLabel other ↔ SpelledAlike name other := by
  rw [finalLabel_eq, finalLabel_eq, ofList_inj]
  unfold SpelledAlike
  unfold DigestsDiffer at hd
  generalize spelledOut name.toList = a at hd ⊢
  generalize spelledOut other.toList = b at hd ⊢
  rcases Nat.lt_or_ge maxLabelLength a.length with ha | ha
  · rcases Nat.lt_or_ge maxLabelLength b.length with hb | hb
    · -- what is cut keeps the digest behind a part of fixed length
      have hlength : (a.take (maxLabelLength - 32)).length =
          (b.take (maxLabelLength - 32)).length := by
        rw [List.length_take, List.length_take]
        omega
      rw [labelText_of_long ha, labelText_of_long hb]
      constructor
      · intro h
        exact .inl (hd ha hb (List.append_inj h hlength).2)
      · rintro (rfl | h | h)
        · rfl
        · exact absurd h.short (Nat.not_le.mpr ha)
        · exact absurd h.short (Nat.not_le.mpr hb)
    · rw [labelText_of_long ha, labelText_of_short hb]
      constructor
      · intro h
        exact .inr (.inr ⟨hb, ha, h.symm⟩)
      · rintro (rfl | h | h)
        · exact absurd hb (Nat.not_le.mpr ha)
        · exact absurd h.short (Nat.not_le.mpr ha)
        · exact h.eq.symm
  · rcases Nat.lt_or_ge maxLabelLength b.length with hb | hb
    · rw [labelText_of_short ha, labelText_of_long hb]
      constructor
      · intro h
        exact .inr (.inl ⟨ha, hb, h⟩)
      · rintro (rfl | h | h)
        · exact absurd ha (Nat.not_le.mpr hb)
        · exact h.eq
        · exact absurd h.short (Nat.not_le.mpr hb)
    · rw [labelText_of_short ha, labelText_of_short hb]
      constructor
      · exact .inl
      · rintro (h | h | h)
        · exact h
        · exact absurd h.long (Nat.not_lt.mpr hb)
        · exact absurd h.long (Nat.not_lt.mpr ha)

theorem prefix_of_prefix_finalLabel {start : List Char} (hstart : start.length ≤ maxLabelLength - 32)
    {name : String} (h : start <+: (finalLabel name).toList) : start <+: spelledOut name.toList := by
  rw [finalLabel_eq, String.toList_ofList] at h
  generalize spelledOut name.toList = text at h ⊢
  rcases Nat.lt_or_ge maxLabelLength text.length with hl | hl
  · rw [labelText_of_long hl] at h
    have hcut : start.length ≤ (text.take (maxLabelLength - 32)).length := by
      rw [List.length_take]
      omega
    exact (List.prefix_of_prefix_length_le h (List.prefix_append _ _) hcut).trans
      (List.take_prefix _ _)
  · rwa [labelText_of_short hl] at h

/-! ## labels that were handed out -/

namespace Registry

/-- `name` is the name of a method with the identity of `m` -/
def GoesBy (r : Registry) (m : MethodId) (name : String) : Prop :=
  ∃ x, r.Has (.method x) ∧ r.methodKey x = r.methodKey m ∧ r.methodName x = name

/-- names of methods that differ have different digests -/
def DigestsDiffer (r : Registry) : Prop :=
  ∀ x y, r.Has (.method x) → r.Has (.method y) →
    ProgramScan.DigestsDiffer (r.methodName x) (r.methodName y)

/-- no name of a method is cut -/
def hasShortNames (r : Registry) : Bool :=
  (List.range r.methods.size).all fun i =>
    (spelledOut (r.methodName ⟨i⟩).toList).length ≤ maxLabelLength

theorem digestsDiffer_of_hasShortNames {r : Registry} (h : r.hasShortNames = true) :
    r.DigestsDiffer := by
  intro x y hx _ hlong _ _
  have hshort := List.all_eq_true.mp h x.index (List.mem_range.mpr hx)
  exact absurd (of_decide_eq_true hshort) (Nat.not_le.mpr hlong)

end Registry

/-- labels are made from names of methods that they were handed out for -/
def LabelCache.Named (r : Registry) (c : LabelCache) : Prop :=
  ∀ key label, c.labels.get? key = some label →
    ∃ x, r.Has (.method x) ∧ r.methodKey x = key ∧ label = finalLabel (r.methodName x)

/-- a label that was not there before was made now -/
theorem LabelCache.of_methodLabel {c : LabelCache} {r : Registry} {m : MethodId} {key label : String}
    (h : (c.methodLabel r m).2.labels.get? key = some label) :
    c.labels.get? key = some label ∨ key = r.methodKey m ∧ label = finalLabel (r.methodName m) := by
  rw [methodLabel] at h
  cases hm : c.labels.get? (r.methodKey m) with
  | some found =>
    rw [hm] at h
    exact .inl h
  | none =>
    rw [hm] at h
    by_cases hk : key = r.methodKey m
    · rw [hk, Table.get?_insert_self] at h
      exact .inr ⟨hk, (Option.some.inj h).symm⟩
    · rw [Table.get?_insert_of_ne _ _ hk] at h
      exact .inl h

namespace Scan

variable {run : Run}

def Unlabelled (run : Run) : Prop := run.scanner.labels = {}

/-- looking into elements hands out no labels -/
theorem confines_unlabelled : Confines Unlabelled fun _ => True :=
  confines_of_frame (fun _ _ h hl => h.labels.trans hl) (fun _ _ h => h) (fun _ _ _ h => h)
    fun _ _ _ _ h => h

/-- a later state of the program, in which labels are made from names of methods of `r` -/
structure Labels (r : Registry) (run : Run) : Prop where
  grows : r.Grows run.registry
  wellFormed : run.registry.WellFormed
  named : run.scanner.labels.Named r

/-- emitting elements of a program hands out labels for methods of it -/
theorem outputs_labels {r : Registry} (hw : r.WellFormed) : Outputs (Labels r) r.Has where
  indifferent run run' h hl := by
    refine ⟨hl.grows.trans (.of_forget h.registry.symm), hl.wellFormed.of_forget h.registry.symm, ?_⟩
    rw [h.labels]
    exact hl.named
  decode m hm := by
    refine keeps_onRegistry (fun run code r' hl hr => ?_) fun run e r' hl hr => ?_
    · obtain ⟨hg, hw', -⟩ := (Registry.builds_decode hl.wellFormed (hl.grows.has hm)).ok hr
      exact ⟨⟨hl.grows.trans hg, hw', hl.named⟩, trivial⟩
    · obtain ⟨hg, hw'⟩ := (Registry.builds_decode hl.wellFormed (hl.grows.has hm)).error hr
      exact ⟨hl.grows.trans hg, hw', hl.named⟩
  label m hm := by
    refine Keeps.bind (Q := fun _ => True) (.modify fun run hl => ?_) fun _ _ => ?_
    · exact ⟨hl.grows.trans (.useNames _ _), hl.wellFormed.useNames _, hl.named⟩
    refine .modifyGet fun run hl => ⟨⟨hl.grows, hl.wellFormed, fun key label hkey => ?_⟩, trivial⟩
    rcases LabelCache.of_methodLabel (c := run.scanner.labels) (r := run.registry) hkey with
      hold | ⟨hk, hlabel⟩
    · exact hl.named key label hold
    · rw [hl.grows.methodKey hw hm] at hk
      rw [hl.grows.methodName hw hm] at hlabel
      exact ⟨m, hm, hk.symm, hlabel⟩

/-- the labels of a successful scan with a new scanner are made from names of the program -/
theorem named_of_execute {r : Registry} (hw : r.WellFormed) {entry : MethodId}
    (hentry : r.Has (.method entry)) {config : ScanConfig} {generator : Generator}
    (hrun : execute entry (.fresh r config generator) = .ok () run) :
    run.scanner.labels.Named run.registry := by
  rw [execute_eq] at hrun
  obtain ⟨entries, run₁, hprepare, hfinish⟩ := Registry.bind_eq_ok_iff.mp hrun
  have hready := ready_fresh hw hentry hprepare
  have hw₁ := hready.sound.wellFormed
  have hstart : Labels run₁.registry run₁ := by
    refine ⟨.refl _, hw₁, fun key label h => ?_⟩
    have hnone : run₁.scanner.labels = {} :=
      ((keeps_prepare confines_unlabelled (fun _ _ h => h) trivial).ok
        (s := .fresh r config generator) rfl hprepare).1
    rw [hnone] at h
    cases h
  have hentries : ∀ e ∈ entries, EntryIn run₁.registry.Has e := by
    intro e he
    have hchecked := hready.checked e he
    refine ⟨(hready.sound.item hchecked.mem).1, fun m p heq => ?_⟩
    cases heq
    exact ((hchecked.answered m rfl).2 p rfl).has
  obtain ⟨hl, -⟩ := (keeps_finish (outputs_labels hw₁) hentries entry).ok hstart hfinish
  intro key label h
  obtain ⟨x, hx, hkey, hlabel⟩ := hl.named key label h
  exact ⟨x, hl.grows.has hx, by rw [hl.grows.methodKey hw₁ hx, hkey],
    by rw [hl.grows.methodName hw₁ hx, hlabel]⟩

/-! ## emitted bodies -/

end Scan

namespace MethodRecord

/-- the method that a body is emitted for: the one that it replaces, or its own -/
def target (record : MethodRecord) : MethodId := record.plugged.getD record.method

def isStandIn (record : MethodRecord) : Bool := record.plugged.isSome

/-- what stands in front of the name in the label of a body -/
def labelStart (record : MethodRecord) : String :=
  if record.isStandIn then pluggedLabelStart else ""

end MethodRecord

namespace Scan

variable {run : Run}

def bodyRecords (emissions : List Emission) : List MethodRecord :=
  emissions.filterMap fun em => em.body?.map Prod.fst

/-- a body has the label that was handed out for the method that it is emitted for -/
def HasLabel (run : Run) (record : MethodRecord) : Prop :=
  ∃ label, Labelled run record.target label ∧ record.label = record.labelStart ++ label

theorem IsBlock.bodyRecords {x : Item} {block : List Emission} (h : IsBlock run x block) :
    Scan.bodyRecords block = [] ∨
      ∃ record, Scan.bodyRecords block = [record] ∧ x = .method record.target ∧
        HasLabel run record := by
  cases h with
  | own hm hw hr hl hc =>
    rename_i m record code
    have htarget : record.target = m := by
      rw [MethodRecord.target, hr.plugged, hr.method, Option.getD_none]
    refine .inr ⟨record, rfl, by rw [htarget], record.label, by rw [htarget]; exact hl, ?_⟩
    rw [MethodRecord.labelStart, MethodRecord.isStandIn, hr.plugged]
    simp
  | standIn hm he hr hp hc =>
    rename_i m p record plug code
    have htarget : plug.target = m := by
      rw [MethodRecord.target, hp.plugged, Option.getD_some]
    refine .inr ⟨plug, rfl, by rw [htarget], record.label, by rw [htarget]; exact hr.label, ?_⟩
    rw [hp.label, MethodRecord.labelStart, MethodRecord.isStandIn, hp.plugged]
    simp
  | _ => exact .inl rfl

section
variable {items : List Item} {blocks : List (List Emission)}

/-- bodies are emitted for elements of the queue, in its order -/
theorem targets_sublist (h : List.Forall₂ (IsBlock run) items blocks) :
    ((bodyRecords blocks.flatten).map fun record => Item.method record.target).Sublist items := by
  induction h with
  | nil => exact .slnil
  | @cons x block items blocks hx _ ih =>
    rw [List.flatten_cons, bodyRecords, List.filterMap_append, List.map_append]
    rcases hx.bodyRecords with heq | ⟨record, heq, rfl, -⟩
    · rw [← bodyRecords, heq]
      exact ih.cons x
    · rw [← bodyRecords, heq]
      exact ih.cons_cons _

theorem hasLabel_of_mem (h : List.Forall₂ (IsBlock run) items blocks) {record : MethodRecord}
    (hr : record ∈ bodyRecords blocks.flatten) : HasLabel run record := by
  induction h with
  | nil => cases hr
  | @cons x block items blocks hx _ ih =>
    rw [List.flatten_cons, bodyRecords, List.filterMap_append] at hr
    rcases List.mem_append.mp hr with hr | hr
    · rcases hx.bodyRecords with heq | ⟨found, heq, -, hl⟩
      · rw [← bodyRecords, heq] at hr
        cases hr
      · rw [← bodyRecords, heq] at hr
        rw [List.mem_singleton.mp hr]
        exact hl
    · exact ih hr

end

/-- the label of a body is made from a name that the method which it is emitted for goes by -/
theorem HasLabel.exists_name {record : MethodRecord} (h : HasLabel run record)
    (hn : run.scanner.labels.Named run.registry) : ∃ x, run.registry.Has (.method x) ∧
      run.registry.methodKey x = run.registry.methodKey record.target ∧
      record.label = record.labelStart ++ finalLabel (run.registry.methodName x) := by
  obtain ⟨label, hl, heq⟩ := h
  obtain ⟨x, hx, hkey, hlabel⟩ := hn _ _ hl
  rw [hlabel] at heq
  exact ⟨x, hx, hkey, heq⟩

/-- labels of two bodies of one kind -/
theorem label_eq_iff {a b : MethodRecord} {name other : String}
    (ha : a.label = a.labelStart ++ finalLabel name)
    (hb : b.label = b.labelStart ++ finalLabel other) (hkind : a.isStandIn = b.isStandIn)
    (hd : DigestsDiffer name other) : a.label = b.label ↔ SpelledAlike name other := by
  rw [ha, hb, MethodRecord.labelStart, MethodRecord.labelStart, hkind, String.append_right_inj]
  exact finalLabel_eq_iff hd

/-- labels of the body of a plug and of a body of another kind -/
theorem prefix_of_label_eq {a b : MethodRecord} {name other : String}
    (ha : a.label = a.labelStart ++ finalLabel name)
    (hb : b.label = b.labelStart ++ finalLabel other) (hstand : a.isStandIn = true)
    (hown : b.isStandIn = false) (h : a.label = b.label) :
    pluggedLabelStart.toList <+: spelledOut other.toList := by
  rw [ha, hb, MethodRecord.labelStart, MethodRecord.labelStart, hstand, hown, if_pos rfl,
    if_neg (by decide), String.empty_append] at h
  refine prefix_of_prefix_finalLabel (by decide) ⟨(finalLabel name).toList, ?_⟩
  rw [← h, String.toList_append]

theorem bodyRecords_closing (emissions : List Emission) (types : List (TypeId × Nat))
    (methods : List (MethodId × Nat)) (entry : MethodId) :
    bodyRecords (emissions ++ [.tables types methods, .entry (some entry) []]) =
      bodyRecords emissions := by
  simp [bodyRecords, Emission.body?]

/-- **When two bodies share a label.**  A successful scan with a new scanner emits bodies for methods
of pairwise different identity.  Labels are made from the names of these methods, and those of two
bodies are the same if and only if the names are spelled out alike.  The body of a plug has the label of
a body of another kind only if the name of that starts like the label of a plug body. -/
theorem execute_labels {r : Registry} (hw : r.WellFormed) {entry : MethodId}
    (hentry : r.Has (.method entry)) (config : ScanConfig) (generator : Generator)
    (hrun : execute entry (.fresh r config generator) = .ok () run)
    (hdigests : run.registry.DigestsDiffer) :
    ∃ new, run.generator.emissions = generator.emissions ++ new ∧
      ((bodyRecords new).map fun a => run.registry.methodKey a.target).Nodup ∧
      ∀ a ∈ bodyRecords new, ∀ b ∈ bodyRecords new,
        ∃ name other, run.registry.GoesBy a.target name ∧ run.registry.GoesBy b.target other ∧
          a.label = a.labelStart ++ finalLabel name ∧ b.label = b.labelStart ++ finalLabel other ∧
          (a.isStandIn = b.isStandIn → (a.label = b.label ↔ SpelledAlike name other)) ∧
          (a.isStandIn = true → b.isStandIn = false → a.label = b.label →
            pluggedLabelStart.toList <+: spelledOut other.toList) := by
  have hfin := finished_of_execute hw hentry hrun
  have hnamed := named_of_execute hw hentry hrun
  obtain ⟨blocks, methods, hblocks, -, hemissions⟩ := hfin.emissions
  refine ⟨_, hemissions, ?_, ?_⟩
  · rw [bodyRecords_closing]
    have hkeys := hfin.sound.distinct
    rw [hfin.sound.keys_eq] at hkeys
    have hsub := (targets_sublist hblocks).map run.registry.itemKey
    rw [List.map_map] at hsub
    exact hkeys.sublist hsub
  · rw [bodyRecords_closing]
    intro a ha b hb
    obtain ⟨x, hx, hkx, hlx⟩ := (hasLabel_of_mem hblocks ha).exists_name hnamed
    obtain ⟨y, hy, hky, hly⟩ := (hasLabel_of_mem hblocks hb).exists_name hnamed
    exact ⟨run.registry.methodName x, run.registry.methodName y, ⟨x, hx, hkx, rfl⟩,
      ⟨y, hy, hky, rfl⟩, hlx, hly, fun hkind => label_eq_iff hlx hly hkind (hdigests x y hx hy),
      prefix_of_label_eq hlx hly⟩

/-- `Native` is emitted as the body of its plug, whose label says so -/
theorem execute_labels_calls : ∃ run new,
    execute ⟨2⟩ (.fresh (calls [.plugMethod { wildcard := true }]) { plugModules := [⟨2⟩] } {}) =
      .ok () run ∧
    run.generator.emissions = new ∧
    (bodyRecords new).map MethodRecord.label =
      ["SystemVoidProgramMain", "PLUG_FOR___SystemVoidProgramNative", "SystemVoidProgramHelper"] ∧
    ((bodyRecords new).map fun a => run.registry.methodKey a.target).Nodup := by
  obtain ⟨hw, hmain, heval⟩ : (calls [.plugMethod { wildcard := true }]).WellFormed ∧
      (calls [.plugMethod { wildcard := true }]).Has (.method ⟨2⟩) ∧
      succeedsWith (execute ⟨2⟩)
        (.fresh (calls [.plugMethod { wildcard := true }]) { plugModules := [⟨2⟩] } {})
        (fun run => run.registry.hasShortNames &&
          (bodyRecords run.generator.emissions).map MethodRecord.label = ["SystemVoidProgramMain",
            "PLUG_FOR___SystemVoidProgramNative", "SystemVoidProgramHelper"]) = true := by
    decide +kernel
  obtain ⟨run, hrun, hP⟩ := exists_of_succeedsWith heval
  simp only [Bool.and_eq_true, decide_eq_true_eq] at hP
  obtain ⟨new, hnew, hdistinct, -⟩ := execute_labels hw hmain { plugModules := [⟨2⟩] } {} hrun
    (Registry.digestsDiffer_of_hasShortNames hP.1)
  rw [List.nil_append] at hnew
  exact ⟨run, new, hrun, hnew, by rw [← hnew]; exact hP.2, hdistinct⟩

/-- `Program.Main` calls `M` of `A.BC` and `M` of `AB.C`. -/
def declareAlike : Action MethodId := do
  let module ← Registry.addModule "Program"
  let one ← Registry.declareType { module, namespaceName := "A", name := "BC" }
  let other ← Registry.declareType { module, namespaceName := "AB", name := "C" }
  let program ← Registry.declareType { module, namespaceName := "", name := "Program" }
  let first ← declareStatic module one "M" (some { code := [0x2A] }) []
  let second ← declareStatic module other "M" (some { code := [0x2A] }) []
  let toFirst ← callTo module first
  let toSecond ← callTo module second
  declareStatic module program "Main"
    (some { code := toFirst.code.dropLast ++ toSecond.code }) []

/-- the labels of two bodies for different methods are the same -/
def sharesLabel (run : Run) : Bool :=
  (bodyRecords run.generator.emissions).any fun a =>
    (bodyRecords run.generator.emissions).any fun b =>
      run.registry.methodKey a.target != run.registry.methodKey b.target && a.label == b.label

/-- Dots are dropped from labels, so `A.BC.M` and `AB.C.M` have one label. -/
theorem exists_shared_label : (onCore declareAlike).WellFormed ∧
    (onCore declareAlike).Has (.method ⟨2⟩) ∧
    ∃ run a b, execute ⟨2⟩ (.fresh (onCore declareAlike) {} {}) = .ok () run ∧
      a ∈ bodyRecords run.generator.emissions ∧ b ∈ bodyRecords run.generator.emissions ∧
      run.registry.methodKey a.target ≠ run.registry.methodKey b.target ∧ a.label = b.label := by
  obtain ⟨hw, hmain, heval⟩ : (onCore declareAlike).WellFormed ∧
      (onCore declareAlike).Has (.method ⟨2⟩) ∧
      succeedsWith (execute ⟨2⟩) (.fresh (onCore declareAlike) {} {}) sharesLabel = true := by
    decide +kernel
  refine ⟨hw, hmain, ?_⟩
  obtain ⟨run, hrun, hP⟩ := exists_of_succeedsWith heval
  obtain ⟨a, ha, hP⟩ := List.any_eq_true.mp hP
  obtain ⟨b, hb, hP⟩ := List.any_eq_true.mp hP
  simp only [Bool.and_eq_true, bne_iff_ne, beq_iff_eq] at hP
  exact ⟨run, a, b, hrun, ha, hb, hP.1, hP.2⟩

end Scan

end ProgramScan

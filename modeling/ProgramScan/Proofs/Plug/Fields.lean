import ProgramScan.Plug.Validate
import ProgramScan.Proofs.Plug.Filing
import ProgramScan.Proofs.Registry.Building

/-!
# Replaced fields

A plug type says which fields of its target it replaces.  The check collects what the plug types of
closed targets say, and tells replacements apart by the identity of the target and the id of the
field (`Registry.replacedField`), not by the plug type or the bucket they come from.  So it fails just
if one of these pairs occurs twice, and otherwise every replacement is found under its target
(`Registry.checkPlugs_replaces`).

A plug type that replaces a field twice makes it fail; so do two plug types that replace the same
field, and a plug type that is filed under its target twice.
-/

namespace ProgramScan

variable {r : Registry}

namespace Registry

def replacedField (r : Registry) (e : TypeId × FieldPlug) : String × String :=
  (r.typeKey e.1, e.2.fieldId)

/-- the replacements of the plug types of closed targets, in the order of the check -/
def replacements (r : Registry) (index : PlugIndex) : List (TypeId × FieldPlug) :=
  index.closedPlugs.flatMap fun (target, plug) => (r.type plug).fieldPlugs.map (target, ·)

/-- the failure for a replacement that is not the first of its field -/
def replacedTwice (r : Registry) (e : TypeId × FieldPlug) : Error :=
  .duplicatePlugField (r.fullName e.1) e.2.fieldId

theorem replacedField_eq_iff {e : TypeId × FieldPlug} {target : TypeId} {id : String} :
    r.replacedField e = (r.typeKey target, id) ↔
      r.typeKey e.1 = r.typeKey target ∧ e.2.fieldId = id :=
  Prod.mk.injEq _ _ _ _ ▸ Iff.rfl

end Registry

namespace FieldPlugs

variable {fields fields' : FieldPlugs} {e : TypeId × FieldPlug}

/-! ## adding replacements -/

/-- what is found after a replacement was added -/
theorem insert_ok (h : fields.insert r e.1 e.2 = .ok fields') :
    fields.get? r e.1 e.2.fieldId = none ∧ ∀ target id,
      fields'.get? r target id =
        if r.replacedField e = (r.typeKey target, id) then some e.2
        else fields.get? r target id := by
  rw [insert] at h
  split at h
  · cases h
  rename_i hnew
  have hnew : fields.get? r e.1 e.2.fieldId = none := by simpa using hnew
  cases h
  refine ⟨hnew, fun target id => ?_⟩
  rw [get?] at hnew
  by_cases hkey : r.typeKey e.1 = r.typeKey target
  · rw [get?, get?, ← hkey, Table.get?_insert_self, Option.getD_some, List.find?_append]
    by_cases hid : e.2.fieldId = id
    · rw [if_pos (Registry.replacedField_eq_iff.mpr ⟨rfl, hid⟩), ← hid, hnew]
      simp
    · rw [if_neg fun h => hid (Registry.replacedField_eq_iff.mp h).2]
      simp [hid]
  · rw [get?, get?, Table.get?_insert_of_ne _ _ fun h => hkey h.symm,
      if_neg fun h => hkey (Registry.replacedField_eq_iff.mp h).1]

theorem insert_error {err : Error} (h : fields.insert r e.1 e.2 = .error err) :
    (∃ p, fields.get? r e.1 e.2.fieldId = some p) ∧ err = r.replacedTwice e := by
  rw [insert] at h
  split at h
  · rename_i hsome
    cases h
    exact ⟨Option.isSome_iff_exists.mp hsome, rfl⟩
  · cases h

def insertAll (r : Registry) (fields : FieldPlugs) (es : List (TypeId × FieldPlug)) :
    Except Error FieldPlugs :=
  es.foldlM (fun fields e => fields.insert r e.1 e.2) fields

variable {es : List (TypeId × FieldPlug)}

/-- replacements that were all added are of different fields, and each of them is found -/
theorem insertAll_ok (h : insertAll r fields es = .ok fields') :
    (es.map r.replacedField).Nodup ∧ (∀ e ∈ es, fields.get? r e.1 e.2.fieldId = none) ∧
      ∀ target id p, fields'.get? r target id = some p ↔
        fields.get? r target id = some p ∨
          ∃ e ∈ es, r.replacedField e = (r.typeKey target, id) ∧ e.2 = p := by
  induction es generalizing fields with
  | nil =>
    cases h
    exact ⟨.nil, (fun _ h => by cases h), fun _ _ _ => by simp⟩
  | cons e es ih =>
    rw [insertAll, List.foldlM_cons] at h
    cases hone : fields.insert r e.1 e.2 with
    | error err =>
      rw [hone] at h
      cases h
    | ok between =>
      rw [hone] at h
      obtain ⟨hnew, hget⟩ := insert_ok hone
      obtain ⟨hnodup, hfresh, hfound⟩ := ih h
      -- what comes later is of another field than `e`, as it was not found after `e` was added
      have hother : ∀ d ∈ es, r.replacedField e ≠ (r.typeKey d.1, d.2.fieldId) := by
        intro d hd heq
        have hnone := hfresh d hd
        rw [hget, if_pos heq] at hnone
        cases hnone
      refine ⟨List.nodup_cons.mpr ⟨?_, hnodup⟩, ?_, fun target id p => ?_⟩
      · intro hmem
        obtain ⟨d, hd, heq⟩ := List.mem_map.mp hmem
        exact hother d hd heq.symm
      · intro d hd
        rcases List.mem_cons.mp hd with rfl | hd
        · exact hnew
        · have hnone := hfresh d hd
          rwa [hget, if_neg (hother d hd)] at hnone
      · rw [hfound, hget]
        by_cases he : r.replacedField e = (r.typeKey target, id)
        · have hnone : fields.get? r target id = none := by
            obtain ⟨hkey, hid⟩ := Registry.replacedField_eq_iff.mp he
            rw [get?, ← hkey, ← hid]
            exact hnew
          have hlater : ∀ d ∈ es, r.replacedField d ≠ (r.typeKey target, id) :=
            fun d hd hd' => hother d hd (he.trans hd'.symm)
          rw [if_pos he, hnone]
          constructor
          · rintro (heq | ⟨d, hd, heq, -⟩)
            · exact .inr ⟨e, List.mem_cons_self, he, Option.some.inj heq⟩
            · exact absurd heq (hlater d hd)
          · rintro (heq | ⟨d, hd, heq, rfl⟩)
            · cases heq
            · rcases List.mem_cons.mp hd with rfl | hd
              · exact .inl rfl
              · exact absurd heq (hlater d hd)
        · rw [if_neg he]
          refine or_congr Iff.rfl ⟨?_, ?_⟩
          · rintro ⟨d, hd, hd'⟩
            exact ⟨d, List.mem_cons_of_mem _ hd, hd'⟩
          · rintro ⟨d, hd, heq, hp⟩
            rcases List.mem_cons.mp hd with rfl | hd
            · exact absurd heq he
            · exact ⟨d, hd, heq, hp⟩

theorem insertAll_error {err : Error} (h : insertAll r fields es = .error err) :
    ∃ before e after, es = before ++ e :: after ∧ err = r.replacedTwice e ∧
      ((∃ p, fields.get? r e.1 e.2.fieldId = some p) ∨
        r.replacedField e ∈ before.map r.replacedField) := by
  induction es generalizing fields with
  | nil => cases h
  | cons e es ih =>
    rw [insertAll, List.foldlM_cons] at h
    cases hone : fields.insert r e.1 e.2 with
    | error err' =>
      rw [hone] at h
      cases h
      obtain ⟨hsome, rfl⟩ := insert_error hone
      exact ⟨[], e, es, rfl, rfl, .inl hsome⟩
    | ok between =>
      rw [hone] at h
      obtain ⟨-, hget⟩ := insert_ok hone
      obtain ⟨before, d, after, hsplit, herr, hd⟩ := ih h
      refine ⟨e :: before, d, after, by rw [hsplit, List.cons_append], herr, ?_⟩
      rw [List.map_cons, List.mem_cons]
      rcases hd with ⟨p, hp⟩ | hmem
      · rw [hget] at hp
        split at hp
        · rename_i heq
          exact .inr (.inl heq.symm)
        · exact .inl ⟨p, hp⟩
      · exact .inr (.inr hmem)

theorem get?_empty (target : TypeId) (id : String) : ({} : FieldPlugs).get? r target id = none :=
  rfl

/-- **Replacements can all be added** just if they are of different fields. -/
theorem insertAll_error_iff :
    (∃ err, insertAll r {} es = .error err) ↔ ¬ (es.map r.replacedField).Nodup := by
  constructor
  · rintro ⟨err, h⟩ hnodup
    obtain ⟨before, e, after, rfl, -, ⟨p, hp⟩ | hmem⟩ := insertAll_error h
    · cases hp
    · rw [List.map_append, List.map_cons, List.nodup_append] at hnodup
      exact hnodup.2.2 _ hmem _ List.mem_cons_self rfl
  · intro hdup
    cases h : insertAll r {} es with
    | error err => exact ⟨err, rfl⟩
    | ok fields => exact absurd (insertAll_ok h).1 hdup

end FieldPlugs

namespace Registry

open FieldPlugs

variable {index : PlugIndex} {ds ds' : Diagnostics}

/-! ## the check -/

theorem checkPlugType_apply (r : Registry) (before : FieldPlugs) (target plug : TypeId)
    (ds : Diagnostics) :
    r.checkPlugType before target plug ds =
      match r.addFieldPlugs before target plug with
      | .ok between => .ok between (ds ++ (r.type plug).methods.filterMap (r.plugFinding? target))
      | .error e => .error e (ds ++ (r.type plug).methods.filterMap (r.plugFinding? target)) := by
  rw [checkPlugType]
  cases r.addFieldPlugs before target plug <;> rfl

/-- the check adds the replacements, whatever it reports -/
theorem checkPlugs_insertAll (r : Registry) (index : PlugIndex) (ds : Diagnostics) :
    match r.checkPlugs index ds with
    | .ok fields _ => insertAll r {} (r.replacements index) = .ok fields
    | .error e _ => insertAll r {} (r.replacements index) = .error e := by
  unfold checkPlugs replacements
  generalize index.closedPlugs = plugs
  generalize ({} : FieldPlugs) = before
  induction plugs generalizing before ds with
  | nil => rfl
  | cons e plugs ih =>
    obtain ⟨target, plug⟩ := e
    rw [List.foldlM_cons, bind_apply, List.flatMap_cons, insertAll, List.foldlM_append,
      List.foldlM_map]
    dsimp only
    rw [checkPlugType_apply, addFieldPlugs]
    cases (r.type plug).fieldPlugs.foldlM (fun fields p => fields.insert r target p) before with
    | error e => rfl
    | ok between => exact ih _ between

theorem checkPlugs_ok {fields : FieldPlugs} (h : r.checkPlugs index ds = .ok fields ds') :
    insertAll r {} (r.replacements index) = .ok fields := by
  have hadd := checkPlugs_insertAll r index ds
  rwa [h] at hadd

theorem checkPlugs_error {e : Error} (h : r.checkPlugs index ds = .error e ds') :
    insertAll r {} (r.replacements index) = .error e := by
  have hadd := checkPlugs_insertAll r index ds
  rwa [h] at hadd

theorem checkPlugs_error_iff :
    (∃ e ds', r.checkPlugs index ds = .error e ds') ↔
      ¬ ((r.replacements index).map r.replacedField).Nodup := by
  rw [← insertAll_error_iff]
  constructor
  · rintro ⟨e, ds', h⟩
    exact ⟨e, checkPlugs_error h⟩
  · rintro ⟨e, h⟩
    cases hcheck : r.checkPlugs index ds with
    | error e' ds' => exact ⟨e', ds', rfl⟩
    | ok fields ds' => cases (checkPlugs_ok hcheck).symm.trans h

/-! ## plug types of closed targets -/

/-- `plug` is filed under `target`, for the target alone or for its descendants. -/
def FiledClosed (r : Registry) (index : PlugIndex) (target plug : TypeId) : Prop :=
  ∃ kind, (kind = .exact ∨ kind = .inheritable) ∧
    ∃ plugs, (index.bucket kind).get? r target = some plugs ∧ plug ∈ plugs

section
variable {modules : List ModuleId}
  (hfile : PlugIndex.findImplementors r modules {} = .ok () index)
include hfile

theorem filedClosed_iff {target plug : TypeId} :
    r.FiledClosed index target plug ↔
      ∃ e ∈ index.closedPlugs, r.typeKey e.1 = r.typeKey target ∧ e.2 = plug := by
  have hlists := PlugIndex.lists_of_findImplementors hfile
  simp only [PlugIndex.closedPlugs, List.mem_flatMap, List.mem_append, List.mem_map]
  constructor
  · rintro ⟨kind, hkind, plugs, hget, hmem⟩
    obtain ⟨row, hrow, hkey, rfl⟩ := PlugBucket.Lists.exists_row_of_get? hget
    refine ⟨(row.target, plug), ⟨row, ?_, plug, hmem, rfl⟩, ?_, rfl⟩
    · rcases hkind with rfl | rfl
      · exact .inl hrow
      · exact .inr hrow
    · rw [← hkey, (hlists kind).keys row hrow]
  · rintro ⟨_, ⟨row, hrow, plug', hmem, rfl⟩, hkey, rfl⟩
    have hfound : ∀ kind, row ∈ (index.bucket kind).rows →
        (index.bucket kind).get? r target = some row.plugs := by
      intro kind hrow
      have hget := (hlists kind).get?_of_mem hrow
      rwa [PlugBucket.get?, hkey, ← PlugBucket.get?] at hget
    rcases hrow with hrow | hrow
    · exact ⟨.exact, .inl rfl, row.plugs, hfound .exact hrow, hmem⟩
    · exact ⟨.inheritable, .inr rfl, row.plugs, hfound .inheritable hrow, hmem⟩

theorem not_nodup_replacements {target plug : TypeId} (h : r.FiledClosed index target plug)
    (hdup : ¬ ((r.type plug).fieldPlugs.map (·.fieldId)).Nodup) :
    ¬ ((r.replacements index).map r.replacedField).Nodup := by
  obtain ⟨e, he, -, rfl⟩ := (filedClosed_iff hfile).mp h
  obtain ⟨before, after, hsplit⟩ := List.append_of_mem he
  intro hnodup
  apply hdup
  rw [replacements, hsplit, List.flatMap_append, List.flatMap_cons, List.map_append,
    List.map_append] at hnodup
  have hmid := (List.nodup_append.mp (List.nodup_append.mp hnodup).2.1).1
  rw [List.map_map] at hmid
  refine List.Nodup.of_map (fun id => (r.typeKey e.1, id)) ?_
  rwa [List.map_map]

/-- **The check fails just if a field is replaced twice**, which it tells by the identity of the
target and the id alone: the index of modules can hold both replacements in one plug type, in two of
them, or once in a plug type that is filed twice.  The failure names such a field.  In particular it
fails if one plug type replaces a field twice.  If it succeeds, the replacement of a field that is
found under a target is that of the plug types filed under it. -/
theorem checkPlugs_replaces (ds : Diagnostics) :
    ((∃ e ds', r.checkPlugs index ds = .error e ds') ↔
        ¬ ((r.replacements index).map r.replacedField).Nodup) ∧
      (∀ e ds', r.checkPlugs index ds = .error e ds' →
        ∃ x ∈ r.replacements index, e = .duplicatePlugField (r.fullName x.1) x.2.fieldId ∧
          1 < ((r.replacements index).map r.replacedField).count (r.replacedField x)) ∧
      (∀ target plug, r.FiledClosed index target plug →
        ¬ ((r.type plug).fieldPlugs.map (·.fieldId)).Nodup →
          ∃ e ds', r.checkPlugs index ds = .error e ds') ∧
      ∀ fields ds', r.checkPlugs index ds = .ok fields ds' → ∀ target id p,
        fields.get? r target id = some p ↔
          ∃ plug, r.FiledClosed index target plug ∧ p ∈ (r.type plug).fieldPlugs ∧
            p.fieldId = id := by
  refine ⟨checkPlugs_error_iff, fun e ds' h => ?_, fun target plug hfiled hdup => ?_,
    fun fields ds' h target id p => ?_⟩
  · obtain ⟨before, x, after, hsplit, rfl, ⟨p, hp⟩ | hmem⟩ := insertAll_error (checkPlugs_error h)
    · cases hp
    · refine ⟨x, by simp [hsplit], rfl, ?_⟩
      rw [hsplit, List.map_append, List.map_cons, List.count_append, List.count_cons_self]
      have := List.count_pos_iff.mpr hmem
      omega
  · exact checkPlugs_error_iff.mpr (not_nodup_replacements hfile hfiled hdup)
  · rw [(insertAll_ok (checkPlugs_ok h)).2.2, get?_empty]
    simp only [reduceCtorEq, false_or, filedClosed_iff hfile, replacements, List.mem_flatMap,
      List.mem_map, replacedField_eq_iff]
    constructor
    · rintro ⟨_, ⟨e, he, q, hq, rfl⟩, ⟨hkey, hid⟩, rfl⟩
      exact ⟨e.2, ⟨e, he, hkey, rfl⟩, hq, hid⟩
    · rintro ⟨_, ⟨e, he, hkey, rfl⟩, hq, hid⟩
      exact ⟨(e.1, p), ⟨e, he, p, hq, rfl⟩, ⟨hkey, hid⟩, rfl⟩

end

deriving instance DecidableEq for FieldPlug

def replacingEdits (first second : List Annotation) : List Edit :=
  [.addModule "App",
    .declareType { module := ⟨1⟩, namespaceName := "App", name := "Target" },
    .addModule "Plugs",
    .declareType
      { module := ⟨2⟩, namespaceName := "Plugs", name := "First", annotations := first },
    .declareType
      { module := ⟨2⟩, namespaceName := "Plugs", name := "Second", annotations := second }]

def replacing (first second : List Annotation) : Registry :=
  core.applyAll (replacingEdits first second)

/-- the fields that two plug types replace are found under their target -/
theorem checkPlugs_replaces_fields : ∃ index fields ds',
    let r := replacing [.plug { target := some ⟨20⟩ }, .plugField { fieldId := "count" }]
      [.plug { target := some ⟨20⟩ }, .plugField { fieldId := "size", external := true }]
    PlugIndex.findImplementors r [⟨2⟩] {} = .ok () index ∧
    r.checkPlugs index [] = .ok fields ds' ∧
    fields.get? r ⟨20⟩ "count" = some { fieldId := "count" } ∧
    fields.get? r ⟨20⟩ "size" = some { fieldId := "size", external := true } := by
  let r := replacing [.plug { target := some ⟨20⟩ }, .plugField { fieldId := "count" }]
    [.plug { target := some ⟨20⟩ }, .plugField { fieldId := "size", external := true }]
  obtain ⟨hcount, hsize, heval⟩ :
      { fieldId := "count" } ∈ (r.type ⟨21⟩).fieldPlugs ∧
      { fieldId := "size", external := true } ∈ (r.type ⟨22⟩).fieldPlugs ∧
      answersWith (PlugIndex.findImplementors r [⟨2⟩]) {} (fun _ index =>
        decide ((index.bucket .exact).get? r ⟨20⟩ = some [⟨21⟩, ⟨22⟩]) &&
          answersWith (r.checkPlugs index) [] fun _ _ => true) = true := by
    decide +kernel
  obtain ⟨_, index, hfile, hindex⟩ := exists_of_answersWith heval
  simp only [Bool.and_eq_true, decide_eq_true_eq] at hindex
  obtain ⟨fields, ds', hchecked, -⟩ := exists_of_answersWith hindex.2
  obtain ⟨-, -, -, hfound⟩ := checkPlugs_replaces hfile []
  have hget := hfound fields ds' hchecked
  have hfiled : ∀ plug ∈ [⟨21⟩, ⟨22⟩], r.FiledClosed index ⟨20⟩ plug :=
    fun plug hplug => ⟨.exact, .inl rfl, _, hindex.1, hplug⟩
  refine ⟨index, fields, ds', hfile, hchecked, ?_, ?_⟩
  · exact (hget _ _ _).mpr ⟨⟨21⟩, hfiled _ (by simp), hcount, rfl⟩
  · exact (hget _ _ _).mpr ⟨⟨22⟩, hfiled _ (by simp), hsize, rfl⟩

/-- the check of the plug types of a module fails, although none of them replaces a field twice -/
def FailsApart (r : Registry) (module : ModuleId) : Prop :=
  ∃ index e ds', PlugIndex.findImplementors r [module] {} = .ok () index ∧
    (∀ plug ∈ (r.module module).types, ((r.type plug).fieldPlugs.map (·.fieldId)).Nodup) ∧
    r.checkPlugs index [] = .error e ds'

theorem failsApart_of_answersWith {module : ModuleId}
    (h : answersWith (PlugIndex.findImplementors r [module]) {} (fun _ index =>
        !answersWith (r.checkPlugs index) [] fun _ _ => true) = true ∧
      ∀ plug ∈ (r.module module).types,
        ((r.type plug).fieldPlugs.map (·.fieldId)).Nodup) : r.FailsApart module := by
  obtain ⟨hrun, hnodup⟩ := h
  obtain ⟨_, index, hfile, hfails⟩ := exists_of_answersWith hrun
  cases hcheck : r.checkPlugs index [] with
  | ok fields ds' => simp [answersWith, hcheck] at hfails
  | error e ds' => exact ⟨index, e, ds', hfile, hnodup, hcheck⟩

/-- **The check fails across plug types.**  In the first program two plug types replace `count`, in the
second one plug type is filed under `Target` for itself and for its descendants. -/
theorem checkPlugs_fails_across_types :
    (replacing [.plug { target := some ⟨20⟩ }, .plugField { fieldId := "count" }]
      [.plug { target := some ⟨20⟩ }, .plugField { fieldId := "count" }]).FailsApart ⟨2⟩ ∧
    (replacing [.plug { target := some ⟨20⟩ }, .plug { target := some ⟨20⟩, inheritable := true },
      .plugField { fieldId := "count" }] []).FailsApart ⟨2⟩ := by
  constructor
  · exact failsApart_of_answersWith (by decide +kernel)
  · exact failsApart_of_answersWith (by decide +kernel)

end Registry

end ProgramScan

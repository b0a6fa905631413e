import ProgramScan.Proofs.Registry.Aside

/-!
# What a program keeps of its history

Every type has its place as number, every definition is in the list of its module, and a name leads to
the definition that was entered first under it.  How these tables belong together is said by the entries
that were made on the way: a definition enters a program with the name that it has then.

* `Registry.Entry`        a definition with the module and the name it was entered under;
* `Registry.history`      the entries of a program that is built by edits, in the order of definition;
* `Registry.Enters`       what an edit does to the tables, for the definitions it adds (`enters_edit`);
* `Registry.Represents`   types, tables and lists of modules are as the entries say;
* `Registry.Lasts`        what is found stays found;
* `represents_applyAll`   both hold after any edits, failed ones included.
-/

namespace ProgramScan

/-! ## tables that are filled in order -/

namespace Table

variable {α κ ν : Type} [DecidableEq κ]

theorem get?_insertNew (t : Table κ ν) (key : κ) (value : ν) (k : κ) :
    (t.insertNew key value).get? k = (t.get? k).or (if key = k then some value else none) := by
  cases hk : t.get? k with
  | some v => exact get?_insertNew_of_some t value hk
  | none =>
    rw [Option.none_or]
    by_cases h : key = k
    · subst h
      have hfree : ¬ t.contains key = true := by simp [contains, hk]
      rw [insertNew, if_neg hfree, get?_insert_self, if_pos rfl]
    · rw [if_neg h, insertNew]
      split
      · exact hk
      · rw [get?_insert_of_ne t value (Ne.symm h), hk]

/-- what was there stays, and of what is stored the first counts -/
theorem get?_foldl_insertNew (key : α → κ) (value : α → ν) (l : List α) (t : Table κ ν) (k : κ) :
    (l.foldl (fun t a => t.insertNew (key a) (value a)) t).get? k =
      (t.get? k).or ((l.find? fun a => key a = k).map value) := by
  induction l generalizing t with
  | nil => simp
  | cons a l ih =>
    rw [List.foldl_cons, ih, get?_insertNew, Option.or_assoc, List.find?_cons]
    by_cases h : key a = k <;> simp [h]

theorem insertNew_of_not_mem (t : Table κ ν) {key : κ} (value : ν) (h : key ∉ t.keys) :
    (t.insertNew key value).entries = (key, value) :: t.entries := by
  have hfree : ¬ t.contains key = true := by
    intro hc
    obtain ⟨v, hv⟩ := Option.isSome_iff_exists.mp hc
    exact h (List.mem_map_of_mem (mem_entries_of_get? hv))
  have hothers : t.entries.filter (fun e => e.1 ≠ key) = t.entries := by
    refine List.filter_eq_self.mpr fun e he => decide_eq_true ?_
    rintro rfl
    exact h (List.mem_map_of_mem he)
  rw [insertNew, if_neg hfree, insert, hothers]

/-- under keys of their own all are stored, the last one in front -/
theorem entries_foldl_insertNew (key : α → κ) (value : α → ν) (l : List α) (t : Table κ ν)
    (h : (l.map key ++ t.keys).Nodup) :
    (l.foldl (fun t a => t.insertNew (key a) (value a)) t).entries =
      (l.map fun a => (key a, value a)).reverse ++ t.entries := by
  induction l generalizing t with
  | nil => rfl
  | cons a l ih =>
    rw [List.map_cons, List.cons_append, List.nodup_cons, List.mem_append, not_or] at h
    obtain ⟨⟨hl, ht⟩, hrest⟩ := h
    have hentries := insertNew_of_not_mem t (value a) ht
    have hkeys : (t.insertNew (key a) (value a)).keys = key a :: t.keys := by
      rw [keys, hentries]
      rfl
    rw [List.foldl_cons, ih, hentries, List.map_cons, List.reverse_cons, List.append_assoc]
    · rfl
    · rw [hkeys, List.perm_middle.nodup_iff, List.nodup_cons, List.mem_append, not_or]
      exact ⟨⟨hl, ht⟩, hrest⟩

/-- a table that holds the elements of a list is filled with them in order -/
theorem eq_foldl_insertNew {key : α → κ} {value : α → ν} {l : List α} {t : Table κ ν}
    (ht : t.entries = (l.map fun a => (key a, value a)).reverse) (h : (l.map key).Nodup) :
    t = l.foldl (fun t a => t.insertNew (key a) (value a)) ∅ := by
  have hkeys : (∅ : Table κ ν).keys = [] := rfl
  have hentries := entries_foldl_insertNew key value l ∅ (by rwa [hkeys, List.append_nil])
  refine congrArg Table.mk (ht.trans ?_)
  rw [hentries]
  exact (List.append_nil _).symm

end Table

namespace Registry

variable {α β : Type} {r r' s base : Registry} {new : List TypeId}

/-! ## entries -/

/-- A definition, with the module and the name that it was entered under. -/
structure Entry where
  type : TypeId
  module : String
  name : String
deriving DecidableEq

def entry (r : Registry) (t : TypeId) : Entry :=
  ⟨t, r.moduleName (r.type t).module, r.qualifiedName t⟩

theorem qualifiedNameWithin_congr (ht : r'.types = r.types) (depth : Nat) (d : TypeDecl) :
    r'.qualifiedNameWithin depth d = r.qualifiedNameWithin depth d := by
  induction depth generalizing d with
  | zero => rfl
  | succ depth ih => simp only [qualifiedNameWithin, ih, type, ht]

theorem entry_congr (ht : r'.types = r.types) (hm : ∀ m, r'.moduleName m = r.moduleName m) :
    r'.entry = r.entry := by
  funext t
  have htype : r'.type t = r.type t := by rw [type, type, ht]
  simp only [entry, qualifiedName, qualifiedNameOf, qualifiedNameWithin_congr ht, htype, hm, ht]

def entriesFrom (r : Registry) (place : Nat) : List Entry :=
  (r.definitions.filter fun t => place ≤ t.index).map r.entry

def entriesOf : Registry → List Edit → List Entry
  | _, [] => []
  | r, e :: es => (e.apply r).entriesFrom r.types.size ++ entriesOf (e.apply r) es

/-- the entries of a program that edits lead to, those of the core library first -/
def history (es : List Edit) : List Entry := core.entriesFrom 0 ++ entriesOf core es

/-- names with the definitions that were entered under them first, after what is in `index` -/
def namesOf (index : Table String TypeId) (log : List Entry) : Table String TypeId :=
  log.foldl (fun index e => index.insertNew e.name e.type) index

def namesInOf (index : Table (String × String) TypeId) (log : List Entry) :
    Table (String × String) TypeId :=
  log.foldl (fun index e => index.insertNew (e.module, e.name) e.type) index

/-! ## what edits do -/

/-- `r` with one more definition, entered in the list of its module and in the name indices -/
def define (r : Registry) (d : TypeDecl) : Registry :=
  (r.pushType (r.entitle d)).indexType ⟨r.types.size⟩

theorem module_modifyModule_self (r : Registry) {m : ModuleId} (hm : m.index < r.modules.size)
    (f : Module → Module) : (r.modifyModule m f).module m = f (r.module m) := by
  have hd : r.modules[m.index]? = some r.modules[m.index] := Array.getElem?_eq_getElem hm
  simp only [module, Registry.modifyModule, Array.getD_eq_getD_getElem?, Array.getElem?_modify, hd,
    if_true, Option.map_some, Option.getD_some]

theorem module_modifyModule_of_ne (r : Registry) {m n : ModuleId} (h : m ≠ n)
    (f : Module → Module) : (r.modifyModule m f).module n = r.module n := by
  have hindex : m.index ≠ n.index := fun he => h (by cases m; cases n; cases he; rfl)
  simp [module, Registry.modifyModule, Array.getD_eq_getD_getElem?, Array.getElem?_modify, hindex]

/-- `r'` is `r` with new definitions, entered under the names that they have in `r'`, and no other
definitions. -/
structure Enters (r r' : Registry) (new : List TypeId) : Prop where
  numbered : r.Numbered → r'.Numbered
  isNew : ∀ t ∈ new, ¬ r.Has (.type t)
  definitions : r'.definitions = r.definitions ++ new
  lists : ∀ m, (r'.module m).types =
    (r.module m).types ++ new.filter fun t => (r'.type t).module = m
  byName : r'.byName = namesOf r.byName (new.map r'.entry)
  byModule : r'.byModule = namesInOf r.byModule (new.map r'.entry)

namespace Enters

theorem of_aside (h : r.Aside r') : r.Enters r' [] where
  numbered := h.numbered
  isNew _ ht := absurd ht List.not_mem_nil
  definitions := by rw [h.definitions, List.append_nil]
  lists m := by rw [h.lists, List.filter_nil, List.append_nil]
  byName := h.byName
  byModule := h.byModule

theorem before (h : r.Aside s) (h' : s.Enters r' new) : r.Enters r' new where
  numbered := h'.numbered ∘ h.numbered
  isNew t ht hold := h'.isNew t ht (Nat.lt_of_lt_of_le hold h.types)
  definitions := by rw [h'.definitions, h.definitions]
  lists m := by rw [h'.lists, h.lists]
  byName := by rw [h'.byName, h.byName]
  byModule := by rw [h'.byModule, h.byModule]

theorem modifyModule (h : r.Enters s new) (m : ModuleId) {f : Module → Module}
    (hf : ∀ d, (f d).types = d.types ∧ (f d).name = d.name) : r.Enters (s.modifyModule m f) new := by
  have haside := Aside.modifyModule s m fun d => (hf d).1
  have hentry : (s.modifyModule m f).entry = s.entry :=
    entry_congr rfl (of_modifyModule s m (g := Module.name) fun d => (hf d).2)
  refine ⟨haside.numbered ∘ h.numbered, h.isNew, h.definitions, fun n => ?_, ?_, ?_⟩
  · rw [haside.lists]
    exact h.lists n
  · rw [hentry]
    exact h.byName
  · rw [hentry]
    exact h.byModule

theorem define (r : Registry) {d : TypeDecl} (hm : d.module.index < r.modules.size)
    (hd : d.form.isDefinition = true) : r.Enters (r.define d) [⟨r.types.size⟩] := by
  let t : TypeId := ⟨r.types.size⟩
  let added : Registry := r.pushType (r.entitle d)
  have htype : added.type t = r.entitle d := type_push r (r.entitle d)
  have hhome : (added.type t).module = d.module := by rw [htype]; rfl
  have hentry : (r.define d).entry = added.entry :=
    entry_congr rfl fun m => of_modifyModule added (added.type t).module (g := Module.name)
      (f := fun d => { d with types := d.types ++ [t] }) (fun _ => rfl) m
  refine ⟨fun h => (h.pushType d).of_same rfl rfl fun _ => rfl, ?_, ?_, fun m => ?_, ?_, ?_⟩
  · intro u hu
    rw [List.mem_singleton.mp hu]
    exact Nat.lt_irrefl _
  · have hform : (r.entitle d).form.isDefinition = true := hd
    exact (definitions_pushType r (r.entitle d)).trans (by rw [if_pos hform])
  · show ((added.modifyModule (added.type t).module _).module m).types =
      (r.module m).types ++ [t].filter fun u => (added.type u).module = m
    rw [hhome]
    by_cases h : d.module = m
    · subst h
      rw [module_modifyModule_self added hm, List.filter_cons_of_pos (by simp [hhome])]
      rfl
    · rw [module_modifyModule_of_ne added h, List.filter_cons_of_neg (by simpa [hhome] using h),
        List.filter_nil, List.append_nil]
      rfl
  · rw [hentry]
    rfl
  · rw [hentry]
    rfl

end Enters

/-- the program that an operation leaves, however it ends -/
def leaves (act : Action α) (s : Registry) : Registry :=
  match act s with
  | .ok _ r' => r'
  | .error _ r' => r'

/-- run in `s`, `act` leads from `base` to a program in which new definitions are entered -/
def EntersIn (base : Registry) (act : Action α) (s : Registry) : Prop :=
  ∃ new, base.Enters (leaves act s) new

theorem EntersIn.of_keeps {act : Action α} (h : Keeps base.Aside act fun _ => True)
    (hs : base.Aside s) : EntersIn base act s := by
  refine ⟨[], .of_aside ?_⟩
  unfold leaves
  split
  · rename_i hr
    exact (h.ok hs hr).1
  · rename_i hr
    exact h.error hs hr

/-- nothing is entered before the last step -/
theorem EntersIn.bind {x : Action α} {k : α → Action β} (hx : Keeps base.Aside x fun _ => True)
    (hs : base.Aside s) (hk : ∀ a s', base.Aside s' → EntersIn base (k a) s') :
    EntersIn base (x >>= k) s := by
  unfold EntersIn leaves
  rw [bind_apply]
  cases hr : x s with
  | ok a s' => exact hk a s' (hx.ok hs hr).1
  | error e s' => exact ⟨[], .of_aside (hx.error hs hr)⟩

/-- the answer does not count -/
theorem EntersIn.drop {act : Action α} (h : EntersIn base act s) :
    EntersIn base (do let _ ← act) s := by
  unfold EntersIn leaves at h ⊢
  rw [bind_apply]
  cases hr : act s with
  | ok a s' =>
    rw [hr] at h
    exact h
  | error e s' =>
    rw [hr] at h
    exact h

theorem enters_defineType {d : TypeDecl} (hs : base.Aside s) (hm : d.module.index < s.modules.size)
    (hd : d.form.isDefinition = true) : EntersIn base (liftM (defineType d)) s := by
  have hrun : leaves (liftM (defineType d)) s = s.define d := rfl
  rw [EntersIn, hrun]
  exact ⟨_, .before hs (.define s hm hd)⟩

theorem enters_declareType {d : TypeDesign} (hm : d.module.index < r.modules.size) :
    EntersIn r (declareType d) r := by
  refine .bind (keeps_chosenBase d) (.refl r) fun b r₁ h₁ => ?_
  refine .bind (aside_addParameters _ _ _ _) h₁ fun params r₂ h₂ => ?_
  refine .bind (aside_reserveToken _ _) h₂ fun token r₃ h₃ => ?_
  refine ⟨_, Enters.before h₃ ((Enters.define r₃ ?_ ?_).modifyModule d.module fun _ => ⟨rfl, rfl⟩)⟩
  · exact Nat.lt_of_lt_of_le hm h₃.modules
  · rfl

/-- an edit enters the definitions that it adds, also if it fails -/
theorem enters_edit {e : Edit} (hm : ∀ m ∈ e.modules, m.index < r.modules.size) :
    ∃ new, r.Enters (e.apply r) new := by
  have happly : e.apply r = leaves e.action r := by
    unfold Edit.apply leaves
    cases e.action r <;> rfl
  rw [happly]
  show EntersIn r e.action r
  cases he : e.definesType with
  | false => exact .of_keeps (aside_edit he) (.refl r)
  | true =>
    cases e with
    | declareType design => exact (enters_declareType (hm _ (List.mem_singleton.mpr rfl))).drop
    | define =>
      exact (enters_defineType (.refl r) (hm _ (List.mem_singleton.mpr rfl)) rfl).drop
    | _ => cases he

/-! ## what the entries say -/

/-- Types have their places as numbers, the definitions are those that are entered, each in the list of
its module, and the name indices are filled with the entries in order. -/
structure Catalogued (r : Registry) (log : List Entry) : Prop where
  numbered : r.Numbered
  types : log.map (·.type) = r.definitions
  homes : ∀ e ∈ log, e.module = r.moduleName (r.type e.type).module
  lists : ∀ m, (r.module m).types = r.definitions.filter fun t => (r.type t).module = m
  byName : r.byName = namesOf ∅ log
  byModule : r.byModule = namesInOf ∅ log

namespace Catalogued

variable {log : List Entry}

/-- the entries are of definitions of the program -/
theorem has (h : r.Catalogued log) {e : Entry} (he : e ∈ log) : r.Has (.type e.type) := by
  have hmem : e.type ∈ log.map (·.type) := List.mem_map_of_mem he
  rw [h.types] at hmem
  exact (mem_definitions.mp hmem).1

theorem enter (h : r.Catalogued log) (ho : r.Orderly) (hp : r.Persists r') (he : r.Enters r' new) :
    r'.Catalogued (log ++ new.map r'.entry) where
  numbered := he.numbered h.numbered
  types := by
    rw [List.map_append, h.types, List.map_map, he.definitions]
    congr 1
    exact List.map_id' new
  homes e hmem := by
    rcases List.mem_append.mp hmem with hold | hnew
    · have hhas := h.has hold
      rw [hp.home hhas, hp.moduleName _ (ho.placed _ hhas).home, h.homes e hold]
    · obtain ⟨t, -, rfl⟩ := List.mem_map.mp hnew
      rfl
  lists m := by
    rw [he.lists, h.lists, he.definitions, List.filter_append]
    congr 1
    exact List.filter_congr fun t ht => by rw [hp.home (mem_definitions.mp ht).1]
  byName := by rw [he.byName, h.byName, namesOf, namesOf, namesOf, List.foldl_append]
  byModule := by rw [he.byModule, h.byModule, namesInOf, namesInOf, namesInOf, List.foldl_append]

end Catalogued

/-- the definitions that come later are the new ones -/
theorem Enters.entriesFrom (h : r.Enters r' new) :
    r'.entriesFrom r.types.size = new.map r'.entry := by
  have hold : r.definitions.filter (fun t => r.types.size ≤ t.index) = [] :=
    List.filter_eq_nil_iff.mpr fun t ht => by
      have hlt : t.index < r.types.size := (mem_definitions.mp ht).1
      simpa using hlt
  have hnew : new.filter (fun t => r.types.size ≤ t.index) = new :=
    List.filter_eq_self.mpr fun t ht => by
      have hge : ¬ t.index < r.types.size := h.isNew t ht
      simpa using hge
  rw [Registry.entriesFrom, h.definitions, List.filter_append, hold, hnew, List.nil_append]

theorem numbered_core : core.Numbered := by
  have hids : ∀ i < core.types.size, (core.type ⟨i⟩).id = i := by decide +kernel
  exact ⟨by decide +kernel, fun t ht => hids t.index ht⟩

theorem lists_core (m : ModuleId) :
    (core.module m).types = core.definitions.filter fun t => (core.type t).module = m := by
  have hhome : ∀ t ∈ core.definitions, (core.type t).module = ⟨0⟩ := by decide +kernel
  by_cases hm : m = ⟨0⟩
  · have hlist : (core.module ⟨0⟩).types = core.definitions := by decide +kernel
    rw [hm, hlist]
    exact (List.filter_eq_self.mpr fun t ht => decide_eq_true (hhome t ht)).symm
  · have hsize : core.modules.size = 1 := by decide +kernel
    have hindex : m.index ≠ 0 := fun h => hm (by cases m; cases h; rfl)
    have hout : core.modules[m.index]? = none := by
      rw [Array.getElem?_eq_none_iff, hsize]
      omega
    have hnone : (core.module m).types = [] := by
      rw [module, Array.getD_eq_getD_getElem?, hout]
      rfl
    rw [hnone]
    refine (List.filter_eq_nil_iff.mpr fun t ht => ?_).symm
    rw [hhome t ht]
    simpa using Ne.symm hm

theorem catalogued_core : core.Catalogued (core.entriesFrom 0) := by
  obtain ⟨htypes, hhomes, hnames, hnamesIn, hdistinct⟩ :
      (core.entriesFrom 0).map (·.type) = core.definitions ∧
      (∀ e ∈ core.entriesFrom 0, e.module = core.moduleName (core.type e.type).module) ∧
      core.byName.entries = ((core.entriesFrom 0).map fun e => (e.name, e.type)).reverse ∧
      core.byModule.entries =
        ((core.entriesFrom 0).map fun e => ((e.module, e.name), e.type)).reverse ∧
      ((core.entriesFrom 0).map fun e => Text.code e.name).Nodup := by
    decide +kernel
  -- names are told apart by their codes, so pairs of module and name are as well
  have hcodes : ((core.entriesFrom 0).map (·.name)).Nodup := by
    refine .of_map Text.code ?_
    rwa [List.map_map]
  have hpairs : ((core.entriesFrom 0).map fun e => (e.module, e.name)).Nodup := by
    refine .of_map Prod.snd ?_
    rwa [List.map_map]
  exact
    { numbered := numbered_core
      types := htypes
      homes := hhomes
      lists := lists_core
      byName := Table.eq_foldl_insertNew hnames hcodes
      byModule := Table.eq_foldl_insertNew hnamesIn hpairs }

/-- the entries of edits catalogue the program that they lead to -/
theorem Catalogued.applyAll {log : List Entry} (h : r.Catalogued log) (ho : r.Orderly)
    {es : List Edit} (hes : FitAll r es) : (r.applyAll es).Catalogued (log ++ entriesOf r es) := by
  induction es generalizing r log with
  | nil =>
    rw [entriesOf, List.append_nil]
    exact h
  | cons e es ih =>
    have hafter := ho.apply hes.1
    obtain ⟨new, hnew⟩ := enters_edit hes.1.2
    have hstep := h.enter ho hafter.persists hnew
    rw [← hnew.entriesFrom] at hstep
    have hrun := ih hstep hafter.orderly hes.2
    rw [List.append_assoc] at hrun
    exact hrun

/-! ## the representation of a program -/

/-- `u` is the element of the type `t`, its definition, or one of its generic arguments -/
def IsPart (r : Registry) (u t : TypeId) : Prop :=
  r.Has (.type t) ∧ ((r.type t).form.element? = some u ∨ (r.type t).form.definition? = some u ∨
    u ∈ (r.type t).form.genericArgs)

theorem IsPart.mem_items {u t : TypeId} (h : r.IsPart u t) : .type u ∈ (r.type t).form.items := by
  obtain ⟨-, h⟩ := h
  generalize (r.type t).form = form at h ⊢
  cases form with
  | defined kind params =>
    simpa [TypeForm.element?, TypeForm.definition?, TypeForm.genericArgs, TypeForm.items] using h
  | instantiated kind definition args =>
    simpa [TypeForm.element?, TypeForm.definition?, TypeForm.genericArgs, TypeForm.items, eq_comm]
      using h
  | parameter index owner =>
    simp [TypeForm.element?, TypeForm.definition?, TypeForm.genericArgs] at h
  | constructed shape element =>
    simpa [TypeForm.element?, TypeForm.definition?, TypeForm.genericArgs, TypeForm.items, eq_comm]
      using h

/-- Types, tables and lists of modules are as the entries say. -/
structure Represents (r : Registry) (log : List Entry) : Prop where
  id_eq : ∀ t, r.Has (.type t) → (r.type t).id = t.index
  /-- and are found by them -/
  get?_eq : ∀ id t, r.get? id = some t ↔ r.Has (.type t) ∧ (r.type t).id = id
  part_lt : ∀ u t, r.IsPart u t → r.Has (.type u) ∧ (r.type u).id < (r.type t).id
  parts : WellFounded r.IsPart
  /-- what is remembered is there -/
  remembered : ∀ key t, r.instances.get? key = some t → r.Has (.type t)
  /-- a name leads to the first definition that was entered under it -/
  found : ∀ name, r.find? name = (log.find? fun e => e.name = name).map (·.type)
  foundIn : ∀ module name, r.findIn? module name =
    (log.find? fun e => e.module = module ∧ e.name = name).map (·.type)
  /-- the definitions were entered in order, each in its module -/
  definitions : log.map (·.type) = r.definitions
  homes : ∀ e ∈ log, e.module = r.moduleName (r.type e.type).module
  lists : ∀ m, (r.module m).types = r.definitions.filter fun t => (r.type t).module = m

structure Lasts (r r' : Registry) : Prop where
  remembered : ∀ key t, r.instances.get? key = some t → r'.instances.get? key = some t
  found : ∀ name t, r.find? name = some t → r'.find? name = some t
  foundIn : ∀ module name t, r.findIn? module name = some t → r'.findIn? module name = some t

section
variable {log : List Entry}

theorem Catalogued.represents (h : r.Catalogued log) (ho : r.Orderly) : r.Represents log := by
  have hpart : ∀ u t, r.IsPart u t → r.Has (.type u) ∧ u.index < t.index := fun u t hu =>
    ⟨ho.wellFormed.formOf hu.1 hu.mem_items, (ho.placed t hu.1).part_lt u hu.mem_items⟩
  refine ⟨h.numbered.id_eq, fun id t => ?_, fun u t hu => ?_, ?_, fun key t hk =>
    ho.wellFormed.instance_ hk, fun name => ?_, fun module name => ?_, h.types, h.homes, h.lists⟩
  · rw [h.numbered.get?_eq_some_iff]
    exact and_congr_right fun ht => by rw [h.numbered.id_eq t ht]
  · obtain ⟨hhas, hlt⟩ := hpart u t hu
    rw [h.numbered.id_eq u hhas, h.numbered.id_eq t hu.1]
    exact ⟨hhas, hlt⟩
  · exact Subrelation.wf (fun {u t} hu => (hpart u t hu).2) (measure TypeId.index).wf
  · rw [find?, h.byName, namesOf, Table.get?_foldl_insertNew, Table.get?_empty, Option.none_or]
  · rw [findIn?, h.byModule, namesInOf, Table.get?_foldl_insertNew, Table.get?_empty, Option.none_or]
    simp only [Prod.mk.injEq]

/-- what is found among the entries is found if there are more -/
theorem Represents.lasts {more : List Entry} (h : r.Represents log) (h' : r'.Represents (log ++ more))
    (hp : r.Persists r') : r.Lasts r' := by
  have hfirst : ∀ (p : Entry → Bool) (t : TypeId), (log.find? p).map (·.type) = some t →
      ((log ++ more).find? p).map (·.type) = some t := by
    intro p t ht
    obtain ⟨e, he, rfl⟩ := Option.map_eq_some_iff.mp ht
    rw [List.find?_append, he]
    rfl
  refine ⟨hp.instances, fun name t ht => ?_, fun module name t ht => ?_⟩
  · rw [h.found] at ht
    rw [h'.found]
    exact hfirst _ t ht
  · rw [h.foundIn] at ht
    rw [h'.foundIn]
    exact hfirst _ t ht

end

theorem fitAll_append {es fs : List Edit} :
    FitAll r (es ++ fs) ↔ FitAll r es ∧ FitAll (r.applyAll es) fs := by
  induction es generalizing r with
  | nil => exact (iff_of_eq (true_and _)).symm
  | cons e es ih => exact (and_congr_right fun _ => ih).trans and_assoc.symm

/-- **Programs are as their history says.**  After any edits, also failed ones, types have their places
as numbers and come after their parts, a name leads to the definition that was entered first under it, a
module lists the definitions that were entered in it, and nothing else, and what is remembered is there.
Whatever is done then, what is found under a name or a key stays. -/
theorem represents_applyAll (es fs : List Edit) (hes : FitAll core (es ++ fs)) :
    (core.applyAll es).Represents (history es) ∧
      (core.applyAll es).Lasts (core.applyAll (es ++ fs)) := by
  obtain ⟨hbefore, hafter⟩ := fitAll_append.mp hes
  obtain ⟨-, ho⟩ := orderly_core.applyAll hbefore
  obtain ⟨hp, ho'⟩ := ho.applyAll hafter
  have hcatalogued := catalogued_core.applyAll orderly_core hbefore
  have h : (core.applyAll es).Represents (history es) := hcatalogued.represents ho
  have h' := (hcatalogued.applyAll ho hafter).represents ho'
  have happend : core.applyAll (es ++ fs) = (core.applyAll es).applyAll fs := List.foldl_append ..
  rw [happend]
  exact ⟨h, h.lasts h' hp⟩

/-- a generic definition with an array and an instance, then an instance with an argument too few, and a
class of the application that is named like one of the core library -/
def shelfEdits : List Edit :=
  [.addModule "App",
    .declareType { module := ⟨1⟩, namespaceName := "App", name := "Box", generic := ["T"] },
    .construct .szArray ⟨21⟩, .instantiate ⟨21⟩ [⟨0⟩], .instantiate ⟨21⟩ [],
    .define ⟨1⟩ "System" "Object" .reference 0 [] none]

/-- a nested class, whose name is entered with that of the class around it, and a second class with the
name of the first -/
def laterEdits : List Edit :=
  [.define ⟨1⟩ "" "Lid" .reference 0 [] (some ⟨21⟩), .define ⟨1⟩ "App" "Box`1" .reference 0 [] none]

theorem shelfEdits_represents : FitAll core (shelfEdits ++ laterEdits) ∧
    (core.applyAll shelfEdits).find? "System.Object" = some ⟨0⟩ ∧
    (core.applyAll shelfEdits).Represents (history shelfEdits) ∧
    (core.applyAll shelfEdits).Lasts (core.applyAll (shelfEdits ++ laterEdits)) := by
  obtain ⟨hfits, hfound⟩ : FitAll core (shelfEdits ++ laterEdits) ∧
      (core.applyAll shelfEdits).find? "System.Object" = some ⟨0⟩ := by
    decide +kernel
  exact ⟨hfits, hfound, represents_applyAll shelfEdits laterEdits hfits⟩

/-- the instance and the array are not among the entries that follow those of the core library -/
example : entriesOf core shelfEdits =
    [⟨⟨21⟩, "App", "App.Box`1"⟩, ⟨⟨24⟩, "App", "System.Object"⟩] := by
  decide +kernel

end Registry

end ProgramScan

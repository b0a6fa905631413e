import ProgramScan.Proofs.Instruction.Monomorphic
import ProgramScan.Proofs.Scan.Confined
import ProgramScan.Proofs.Scan.Repeating

/-!
# Scans of programs without generic elements

While a scan of such a program decodes methods, arrays, pointers and references are added to the
program.  None of these enters the queue: whatever does, the program held when the scan began.

* `Run.StaysIn r₀ run`   the configuration, the queue and the plugs are those of `r₀`, to which constructed
                         types were added;
* `confines_staysIn`     looking into elements keeps this, and leads to elements of `r₀` only;
* `outputs_staysIn`      so does emitting them.
-/

namespace ProgramScan

namespace Registry

variable {r₀ : Registry}

theorem holds_of_has {x : Item} (h : r₀.Has x) (hx : x.field? = none) : r₀.Holds x := by
  cases x with
  | type t => exact h
  | method m => exact h
  | field f => cases hx

/-! ## references to types and methods -/

variable {ref : Reference}

theorem field?_of_signatureReferences {m : MethodId} {asPlug : Bool}
    (h : ref ∈ r₀.signatureReferences m asPlug) : ref.item.field? = none := by
  simp only [signatureReferences, List.mem_append, List.mem_map] at h
  rcases h with (⟨t, -, rfl⟩ | ⟨t, -, rfl⟩) | ⟨t, -, rfl⟩ <;> rfl

theorem field?_of_baseReferences {t : TypeId} (h : ref ∈ r₀.baseReferences t) :
    ref.item.field? = none := by
  simp only [baseReferences, List.mem_append, List.mem_map] at h
  rcases h with ⟨b, -, rfl⟩ | ⟨m, -, rfl⟩ <;> rfl

theorem field?_of_memberReferences {t : TypeId} (h : ref ∈ r₀.memberReferences t) :
    ref.item.field? = none := by
  simp only [memberReferences, List.mem_append, List.mem_map] at h
  rcases h with ⟨f, -, rfl⟩ | ⟨i, -, rfl⟩ <;> rfl

theorem Holds.fieldReferences (hw : r₀.WellFormed) {f : FieldId} (hf : r₀.Holds (.field f)) :
    ∀ ref ∈ r₀.fieldReferences f, r₀.Holds ref.item := by
  intro ref href
  simp only [Registry.fieldReferences, List.mem_cons] at href
  rcases href with rfl | href
  · exact hw.declaringOf (hf.has hw)
  · split at href
    · rw [List.mem_singleton.mp href]
      exact hf
    · cases href

end Registry

/-! ## plugs -/

namespace PlugManager

variable {r₀ : Registry}

structure Within (r₀ : Registry) (p : PlugManager) : Prop where
  index : r₀.HasIndex p.index
  answers : ∀ key m, p.resolved.get? key = some (some m) → r₀.Has (.method m)

section
variable (hw : r₀.WellFormed) {r : Registry} (hr : r₀.Broadens r)
include hw hr

theorem keeps_findImplementors (modules : List ModuleId) :
    Keeps (Within r₀) (findImplementors r modules) fun _ => True := by
  have hfiled := fun (p : PlugManager) (hp : p.Within r₀) =>
    Registry.hasIndex_findImplementors hw modules hp.index
  rw [← hr.widens.grows.findImplementors hw] at hfiled
  constructor
  · intro p _ p' hp hrun
    have hindex := hfiled p hp
    rw [findImplementors] at hrun
    split at hrun
    · rename_i heq
      cases hrun
      rw [heq] at hindex
      exact ⟨⟨hindex, hp.answers⟩, trivial⟩
    · cases hrun
  · intro p e p' hp hrun
    have hindex := hfiled p hp
    rw [findImplementors] at hrun
    split at hrun
    · cases hrun
    · rename_i heq
      cases hrun
      rw [heq] at hindex
      exact ⟨hindex, hp.answers⟩

end

theorem keeps_scanFound (r : Registry) : Keeps (Within r₀) (scanFound r) fun _ => True := by
  constructor
  · intro p _ p' hp hrun
    rw [scanFound] at hrun
    split at hrun
    · cases hrun
      exact ⟨⟨hp.index, hp.answers⟩, trivial⟩
    · cases hrun
  · intro p e p' hp hrun
    rw [scanFound] at hrun
    split at hrun
    · cases hrun
    · cases hrun
      exact ⟨hp.index, hp.answers⟩

section
variable (hmono : r₀.Monomorphic) {m : MethodId} (hm : r₀.Has (.method m))
include hmono hm

theorem broadens_resolveByIndex {index : PlugIndex} (hindex : r₀.HasIndex index) :
    Keeps r₀.Broadens (resolveByIndex index m) fun answer =>
      ∀ p ∈ answer, r₀.Has (.method p) := by
  have hbuilds : ∀ r, r₀.Broadens r → Registry.Builds (resolveByIndex index m) r Registry.HasPlug :=
    fun r hr => Registry.builds_resolveByIndex hr.wellFormed (hr.widens.grows.hasIndex hindex)
      (hr.widens.grows.has hm)
  refine (Registry.Broadens.keeps hbuilds (widens_resolveByIndex hmono index m)).weaken ?_
  rintro answer ⟨-, r, hr, hplug⟩ p hp
  exact hr.widens.has_method (hplug p hp).has

theorem broadens_resolvePlug {p : PlugManager} (hp : p.Within r₀) :
    Keeps r₀.Broadens (p.resolvePlug m) fun found =>
      found.2.Within r₀ ∧ ∀ q ∈ found.1, r₀.Has (.method q) := by
  refine .get fun r _ => ?_
  refine Keeps.bind (Q := fun _ => True) (.modify fun s hs => hs.useNames _) fun _ _ => ?_
  dsimp only
  split
  · rename_i answer hanswer
    refine .pure ⟨hp, fun q hq => hp.answers (r.methodKey m) q ?_⟩
    rw [hanswer]
    exact congrArg some hq
  · refine (broadens_resolveByIndex hmono hm hp.index).bind fun answer hanswer => ?_
    refine .pure ⟨⟨hp.index, fun key q hq => ?_⟩, hanswer⟩
    by_cases hkey : key = r.methodKey m
    · rw [hkey, Table.get?_insert_self] at hq
      exact hanswer q (Option.some.inj hq)
    · rw [Table.get?_insert_of_ne _ _ hkey] at hq
      exact hp.answers key q hq

end

end PlugManager

namespace Run

/-- The configuration, the queue, the filed plug types and the remembered plugs are those of `r₀`, from
which the program of the run differs by constructed types only. -/
structure StaysIn (r₀ : Registry) (run : Run) : Prop where
  broadens : r₀.Broadens run.registry
  config : ∀ m ∈ run.scanner.config.explicitEntries, r₀.Has (.method m)
  plugs : run.scanner.plugs.Within r₀
  entries : ∀ e ∈ run.scanner.queue.entries, r₀.Holds e.item ∧ e.key = r₀.itemKey e.item
  distinct : run.scanner.queue.keys.Nodup

namespace StaysIn

variable {r₀ : Registry} {run : Run}

theorem rebase (h : run.StaysIn r₀) (hw : r₀.WellFormed) : run.StaysIn run.registry where
  broadens := ⟨.refl _, h.broadens.wellFormed⟩
  config m hm := h.broadens.widens.grows.has (h.config m hm)
  plugs := ⟨h.broadens.widens.grows.hasIndex h.plugs.index, fun key m hm =>
    h.broadens.widens.grows.has (h.plugs.answers key m hm)⟩
  entries e he := by
    obtain ⟨hholds, hkey⟩ := h.entries e he
    exact ⟨h.broadens.holds hholds,
      by rw [h.broadens.widens.grows.itemKey hw (hholds.has hw), hkey]⟩
  distinct := h.distinct

end StaysIn

end Run

namespace Scan

variable {r₀ : Registry} {α : Type}

/-! ## looking into elements -/

theorem indifferent_staysIn : Indifferent (Run.StaysIn r₀) := fun run run' h hi => by
  refine ⟨hi.broadens.of_forget h.registry.symm, ?_, ?_, ?_, ?_⟩
  · rw [h.config]
    exact hi.config
  · rw [h.plugs]
    exact hi.plugs
  · rw [h.queue]
    exact hi.entries
  · rw [h.queue]
    exact hi.distinct

theorem advances_staysIn : Advances (Run.StaysIn r₀) :=
  fun _ _ hi => ⟨hi.broadens, hi.config, hi.plugs, hi.entries, hi.distinct⟩

theorem staysIn_onRegistry {x : Action α} {Q : α → Prop} (hx : Keeps r₀.Broadens x Q) :
    Keeps (Run.StaysIn r₀) (onRegistry x) Q := by
  refine keeps_onRegistry (fun run a r hi hr => ?_) fun run e r hi hr => ?_
  · obtain ⟨hbroadens, hq⟩ := hx.ok hi.broadens hr
    exact ⟨⟨hbroadens, hi.config, hi.plugs, hi.entries, hi.distinct⟩, hq⟩
  · exact ⟨hx.error hi.broadens hr, hi.config, hi.plugs, hi.entries, hi.distinct⟩

theorem staysIn_onPlugs {x : EStateM Error PlugManager α} {Q : α → Prop}
    (hx : Keeps (PlugManager.Within r₀) x Q) : Keeps (Run.StaysIn r₀) (onPlugs x) Q := by
  refine keeps_onPlugs (fun run a plugs hi hr => ?_) fun run e plugs hi hr => ?_
  · obtain ⟨hplugs, hq⟩ := hx.ok hi.plugs hr
    exact ⟨⟨hi.broadens, hi.config, hplugs, hi.entries, hi.distinct⟩, hq⟩
  · exact ⟨hi.broadens, hi.config, hx.error hi.plugs hr, hi.entries, hi.distinct⟩

section
variable (hw : r₀.WellFormed)
include hw

theorem staysIn_push (run : Run) (item : Item) (reason : Reason) (source : Option String)
    (hi : run.StaysIn r₀) (hitem : r₀.Holds item) :
    (run.modifyScanner fun s =>
      { s with queue := s.queue.push run.registry item reason source }).StaysIn r₀ := by
  have hkey := hi.broadens.widens.grows.itemKey hw (hitem.has hw)
  refine ⟨hi.broadens, hi.config, hi.plugs, fun e he => ?_, ?_⟩
  · simp only [Run.modifyScanner, WorkQueue.push] at he
    split at he
    · exact hi.entries e he
    · rcases List.mem_append.mp he with he | he
      · exact hi.entries e he
      · rw [List.mem_singleton.mp he]
        exact ⟨hitem, hkey⟩
  · exact WorkQueue.keys_nodup_push _ _ _ _ _ hi.distinct

theorem staysIn_indexPlugs : Keeps (Run.StaysIn r₀) indexPlugs fun _ => True := by
  have hI : Indifferent (Run.StaysIn r₀) := indifferent_staysIn
  refine .get fun run hi => ?_
  split
  · refine (keeps_enter hI _).bind fun _ _ => (keeps_reading hI _).bind fun _ _ => ?_
    refine (staysIn_onPlugs (PlugManager.keeps_findImplementors hw hi.broadens _)).bind fun _ _ => ?_
    refine (keeps_reading hI _).bind fun _ _ => ?_
    refine (staysIn_onPlugs (PlugManager.keeps_scanFound _)).bind fun _ _ => ?_
    exact .modify fun _ h => ⟨h.broadens, h.config, h.plugs, h.entries, h.distinct⟩
  · exact .pure trivial

variable (hmono : r₀.Monomorphic)
include hmono

omit hw in
theorem staysIn_resolvePlug {m : MethodId} (hm : r₀.Has (.method m)) :
    Keeps (Run.StaysIn r₀) (resolvePlug m) fun answer => ∀ p ∈ answer, r₀.Has (.method p) := by
  refine .get fun run hi => ?_
  refine (staysIn_onRegistry (PlugManager.broadens_resolvePlug hmono hm hi.plugs)).bind ?_
  rintro ⟨plug, plugs⟩ ⟨hplugs, hplug⟩
  refine Keeps.bind (Q := fun _ => True) (.modify fun _ h => ?_) fun _ _ => .pure hplug
  exact ⟨h.broadens, h.config, hplugs, h.entries, h.distinct⟩

theorem staysIn_decode {m : MethodId} (hm : r₀.Has (.method m)) :
    Keeps (Run.StaysIn r₀) (onRegistry (Registry.decode m)) (NamesOnly r₀.Holds) := by
  have hbuilds : ∀ r, r₀.Broadens r →
      Registry.Builds (Registry.decode m) r fun code s => s.HasCode code :=
    fun r hr => Registry.builds_decode hr.wellFormed (hr.widens.grows.has hm)
  exact (staysIn_onRegistry (Registry.Broadens.keeps hbuilds
    (Registry.widens_decode hw hmono m))).weaken fun _ h => h.1

/-- **Looking into elements** of a program without generic elements leads to elements that it holds. -/
theorem confines_staysIn : Confines (Run.StaysIn r₀) r₀.Holds where
  indifferent := indifferent_staysIn
  queues run hi x hx := by
    obtain ⟨e, he, rfl⟩ := List.mem_map.mp hx
    exact (hi.entries e he).1
  push := staysIn_push hw
  index := staysIn_indexPlugs hw
  decode m hm := staysIn_decode hw hmono hm
  plug m hm := staysIn_resolvePlug hmono hm
  helper m element := by
    have hfails := Registry.keeps_instantiateMethod (I := r₀.Broadens) (fun _ _ h => h.useNames _)
      (fun _ h => h.widens.monomorphic hmono) m [element]
    exact (staysIn_onRegistry hfails).weaken fun _ h => h.elim
  signature run m asPlug hi hm ref href := by
    rw [hi.broadens.widens.grows.signatureReferences hm] at href
    exact Registry.holds_of_has (hw.signatureReferences hm asPlug ref href)
      (Registry.field?_of_signatureReferences href)
  fieldUse run f hi hf ref href := by
    rw [hi.broadens.widens.grows.fieldReferences (hf.has hw)] at href
    exact hf.fieldReferences hw ref href
  base run t hi ht ref href := by
    rw [hi.broadens.widens.grows.baseReferences hw ht] at href
    exact Registry.holds_of_has (hw.baseReferences ht ref href)
      (Registry.field?_of_baseReferences href)
  members run t hi ht ref href := by
    rw [hi.broadens.widens.grows.memberReferences hw ht] at href
    exact Registry.holds_of_has (hw.memberReferences ht ref href)
      (Registry.field?_of_memberReferences href)

/-! ## emitting elements -/

theorem outputs_staysIn : Outputs (Run.StaysIn r₀) r₀.Holds where
  indifferent := indifferent_staysIn
  decode _ hm := (staysIn_decode hw hmono hm).plain
  label _ _ := (keeps_identify indifferent_staysIn _).bind fun _ _ => .modifyGet fun _ h =>
    ⟨⟨h.broadens, h.config, h.plugs, h.entries, h.distinct⟩, trivial⟩

end

end Scan

end ProgramScan

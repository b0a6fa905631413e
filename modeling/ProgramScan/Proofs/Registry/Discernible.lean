import ProgramScan.Proofs.Layout.Remembering
import ProgramScan.Proofs.Registry.Copies
import ProgramScan.Proofs.Registry.Identity

/-!
# Elements that are told apart by their keys

Instances are found again by the keys of what they were made from.  If different elements have different
keys, and keys can be taken apart, then an instance that is found is the one that was asked for.

* `Registry.Discernible`            different types and methods have different keys, made of names that
                                    can be taken apart;
* `Discernible.inner_methodKey`     the brackets in the key of a method match;
* `Discernible.instantiated`        an instance of a definition is made from the arguments it was asked
                                    for with;
* `Discernible.methodInstance`      so is an instance of a method.
-/

namespace ProgramScan

open Text

namespace Registry

variable {r : Registry}

/-- Different types have different keys, and so have different methods.  The keys are made of names with
matching brackets, so that they can be taken apart. -/
structure Discernible (r : Registry) : Prop where
  legible : r.Legible
  methodNames : ∀ d ∈ r.methods.toList, Inner d.name.toList
  types : r.KeysDistinct
  methods : r.MethodKeysDistinct

instance (r : Registry) : Decidable r.Discernible :=
  decidable_of_iff (_ ∧ _ ∧ _ ∧ _)
    ⟨fun h => ⟨h.1, h.2.1, h.2.2.1, h.2.2.2⟩, fun h => ⟨h.1, h.2, h.3, h.4⟩⟩

theorem inner_append {s t : String} (hs : Inner s.toList) (ht : Inner t.toList) :
    Inner (s ++ t).toList := by
  rw [String.toList_append]
  exact hs.append ht

namespace Discernible

variable (h : r.Discernible) (ho : r.Orderly)
include h

theorem eq_of_keys {as bs : List TypeId} (has : ∀ a ∈ as, r.Has (.type a))
    (hbs : ∀ b ∈ bs, r.Has (.type b)) (hkeys : as.map r.typeKey = bs.map r.typeKey) : as = bs := by
  have hids : as.map id = bs.map id :=
    map_eq_map_of_imp hkeys fun a ha b hb hab => h.types a b (has a ha) (hbs b hb) hab
  rwa [List.map_id, List.map_id] at hids

include ho

theorem inner_fullName {t : TypeId} (ht : r.Has (.type t)) : Inner (r.fullName t).toList :=
  (h.legible.closed_fullName ho ht).inner

theorem inner_nameList {ts : List TypeId} (hts : ∀ t ∈ ts, r.Has (.type t)) :
    Inner (r.nameList ts).toList :=
  inner_intercalate (w := [' ']) rfl rfl
    (List.forall_mem_map.mpr fun t ht => h.legible.closed_fullName ho (hts t ht))

theorem inner_ownerName {m : MethodId} (hm : r.Has (.method m)) :
    Inner (match (r.method m).declaring with
      | some t => r.fullName t
      | none => "dynamic_method").toList := by
  cases hd : (r.method m).declaring with
  | none =>
    show Inner "dynamic_method".toList
    decide
  | some t => exact h.inner_fullName ho (ho.wellFormed.declaring hm hd)

theorem inner_methodKey {m : MethodId} (hm : r.Has (.method m)) : Inner (r.methodKey m).toList := by
  have hw := ho.wellFormed
  have hname := h.methodNames (r.method m) (method_mem hm)
  have hshown : ∀ t ∈ (shownParams (r.method m).params).map (·.type), r.Has (.type t) := by
    intro t ht
    obtain ⟨p, hp, rfl⟩ := List.mem_map.mp ht
    exact hw.param hm (List.mem_map_of_mem (mem_of_mem_shownParams hp))
  have hplain : ∀ s ∈ ["M:", ":", "  ", ".", "(", ")"], Inner s.toList := by decide
  have hmodule : Inner (r.methodModuleName m).toList := by
    rw [methodModuleName]
    cases hd : (r.method m).declaring with
    | none => exact Closed.nil.inner
    | some t => exact (h.legible.module (ho.placed t (hw.declaring hm hd)).home).1.inner
  have hresult : Inner (if (r.method m).isConstructor then "System.Void" else
      r.fullName (r.method m).returnType).toList := by
    split
    · decide
    · exact h.inner_fullName ho (hw.returnType hm)
  have hargs : Inner (if (r.method m).isGenericInstance && !(r.method m).genericArgs.isEmpty then
      "<" ++ r.nameList (r.method m).genericArgs ++ ">" else "").toList := by
    split
    · have hlist := h.inner_nameList ho fun t ht => hw.genericArg hm ht
      have hgroup := (hlist.group (o := '<') (c := '>') rfl rfl).inner
      simpa using hgroup
    · decide
  have hhead := inner_append (inner_append (hplain "M:" (by simp)) hmodule) (hplain ":" (by simp))
  have hqualified := inner_append (inner_append (inner_append (inner_append hresult
    (hplain "  " (by simp))) (h.inner_ownerName ho hm)) (hplain "." (by simp))) hname
  exact inner_append hhead (inner_append (inner_append (inner_append (inner_append hqualified hargs)
    (hplain "(" (by simp))) (h.inner_nameList ho hshown)) (hplain ")" (by simp)))

/-- An instance that is found has the arguments it was asked for with, unless these are the parameters of
the definition. -/
theorem instantiated {t inst : TypeId} {args : List TypeId} (ht : r.Has (.type t))
    (hdef : (r.type t).form.definition? = none) (ha : ∀ a ∈ args, r.Has (.type a))
    (hset : Settled (instantiate t args) inst r) :
    inst = t ∧ (r.type t).form.genericArgs = args ∨
      ∃ kind, (r.type inst).form = .instantiated kind t args := by
  have hw := ho.wellFormed
  obtain ⟨s, hrun, hforget⟩ := hset.run hw
  have hg : r.Grows s := .of_forget hforget.symm
  obtain ⟨hs, -, hof⟩ := (supplies_instantiate ho ht ha).ok hrun
  have hself : s.definitionOf t = t := by
    rw [Persists.definitionOf hs.persists ht, definitionOf, hdef]
    rfl
  rw [hself] at hof
  have hne := hof.args_ne_nil
  rcases hof.found with ⟨hown, rfl⟩ | ⟨-, -, -, hknown⟩
  · left
    rw [hg.type ht] at hown
    exact ⟨rfl, hown⟩
  · right
    rw [instances_of_forget hforget, hg.instanceKeyOf ht ha] at hknown
    have hinst := hw.instance_ hknown
    obtain ⟨kind, d, as, hform, hkey⟩ := ho.form_of_known hknown
    have hd : r.Has (.type d) := hw.definition hinst (by rw [hform]; rfl)
    have has : ∀ a ∈ as, r.Has (.type a) := fun a hmem => hw.genericArgOf hinst (by
      rw [hform]
      exact hmem)
    obtain ⟨hdt, hargs⟩ := h.legible.instanceKeyOf_inj ho hd ht has ha hne hkey
    refine ⟨kind, ?_⟩
    rw [hform, h.types d t hd ht hdt, h.eq_of_keys has ha hargs]

omit ho in
/-- An instance of a method that is found is one of the method it was asked for with, and has the given
arguments. -/
theorem methodInstance (hc : r.Coherent) {m x : MethodId} {args : List TypeId}
    (hm : r.Has (.method m)) (hdef : (r.method m).genericDefinition? = none)
    (ha : ∀ a ∈ args, r.Has (.type a)) (hset : Settled (instantiateMethod m args) x r) :
    r.MethodInstance m args x := by
  have ho := hc.orderly
  have hw := ho.wellFormed
  have hself : r.methodDefinitionOf m = m := by
    rw [methodDefinitionOf, hdef]
    rfl
  have hne : args ≠ [] := by
    rintro rfl
    obtain ⟨s, hrun, -⟩ := hset.run hw
    simp [instantiateMethod_apply] at hrun
  obtain ⟨d, hi, hkey⟩ := hc.instanceKey_eq hm ha hset
  have hx := has_of_genericDefinition? hi.definition
  have hd := hw.genericDefinition hx hi.definition
  have has : ∀ a ∈ (r.method x).genericArgs, r.Has (.type a) := fun a hmem => hw.genericArg hx hmem
  rw [hself] at hkey
  obtain ⟨hdm, hargs⟩ := h.legible.instanceKey_inj ho (h.inner_methodKey ho hd)
    (h.inner_methodKey ho hm) has ha hne hkey
  rw [h.methods d m hd hm hdm, h.eq_of_keys has ha hargs] at hi
  exact hi

end Discernible

end Registry

end ProgramScan

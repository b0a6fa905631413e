import ProgramScan.Proofs.Registry.Completeness
import ProgramScan.Proofs.Text.Brackets
import ProgramScan.Proofs.Text.Bytes

/-!
# When instances are the same type

Instances are remembered by the identity keys of their arguments, and these name the modules.  The
identity of an instance itself is its rendered name in the module of its definition, and there the
arguments stand by their names only.  So two lists of the same types give one instance, but two
instances can be the same type while their arguments are not: the arguments of one may have the names
of the arguments of the other, in other modules.

* `Legible`                    names have matching brackets, so that rendered names can be taken apart;
* `Legible.typeKey_eq_iff`     an identity key is the name of the module and the name of the type;
* `Legible.instanceKey_inj`    the key of an instance is that of its definition and those of its arguments;
* `Legible.fullName_known`     the name of what is remembered as an instance;
* `instantiate_same_iff`, `instantiate_conflated`   which instances are the same type.
-/

namespace ProgramScan

open Text

theorem Shape.closed_render (shape : Shape) {s : String} (h : Closed s.toList) :
    Closed (shape.render s).toList := by
  cases shape with
  | szArray =>
    rw [render, String.toList_append]
    exact h.append (by decide)
  | pointer =>
    rw [render, String.toList_append]
    exact h.append (by decide)
  | byRef =>
    rw [render, String.toList_append]
    exact Closed.append (by decide) h
  | array rank =>
    have hlist : ((array rank).render s).toList =
        s.toList ++ ('[' :: List.replicate (rank - 1) ',' ++ [']']) := by
      simp [render]
    rw [hlist]
    exact h.append ((Inner.replicate_comma _).group rfl rfl)

namespace Registry

variable {r : Registry}

/-- Modules and the types that are not made from others have names with matching brackets, and module
names have no colon.  Definitions of one name in one module are all shared helpers, or none is. -/
structure Legible (r : Registry) : Prop where
  modules : ∀ d ∈ r.modules.toList, Closed d.name.toList ∧ ':' ∉ d.name.toList
  named : ∀ d ∈ r.types.toList, (d.form.isDefinition || d.form.isParameter) = true →
    Closed d.fullName.toList
  helpers : ∀ c ∈ r.types.toList, ∀ d ∈ r.types.toList, c.form.isDefinition = true →
    d.form.isDefinition = true → r.moduleName c.module = r.moduleName d.module →
    c.fullName = d.fullName → isSharedHelperName c.name = isSharedHelperName d.name

def helperRows (r : Registry) : List ((Nat × Nat) × Bool) :=
  (r.types.toList.filter fun d => d.form.isDefinition).map fun d =>
    ((code (r.moduleName d.module), code d.fullName), isSharedHelperName d.name)

theorem helperRows_iff : (∀ x ∈ r.helperRows, ∀ y ∈ r.helperRows, x.1 = y.1 → x.2 = y.2) ↔
    ∀ c ∈ r.types.toList, ∀ d ∈ r.types.toList, c.form.isDefinition = true →
      d.form.isDefinition = true → r.moduleName c.module = r.moduleName d.module →
      c.fullName = d.fullName → isSharedHelperName c.name = isSharedHelperName d.name := by
  simp only [helperRows, List.forall_mem_map, List.mem_filter, and_imp, Prod.mk.injEq,
    code_injective.eq_iff]
  exact ⟨fun h c hc d hd hcd hdd => h c hc hcd d hd hdd, fun h c hc hcd d hd hdd => h c hc d hd hcd hdd⟩

instance (r : Registry) : Decidable r.Legible :=
  have := decidable_of_iff _ (helperRows_iff (r := r))
  decidable_of_iff (_ ∧ _ ∧ _) ⟨fun h => ⟨h.1, h.2.1, h.2.2⟩, fun h => ⟨h.1, h.2, h.3⟩⟩

theorem module_mem_of_lt {m : ModuleId} (hm : m.index < r.modules.size) :
    r.module m ∈ r.modules.toList := by
  simp only [Registry.module, Array.getD_eq_getD_getElem?]
  rw [Array.getElem?_eq_getElem hm]
  exact Array.getElem_mem_toList hm

/-! ## same types -/

theorem sameType_iff {a b : TypeId} : r.sameType a b = true ↔ r.typeKey a = r.typeKey b := by
  rw [Registry.sameType, Bool.or_eq_true, decide_eq_true_eq, beq_iff_eq]
  exact ⟨fun h => h.elim (fun hab => by rw [hab]) id, .inr⟩

theorem sameTypes_iff {as bs : List TypeId} :
    r.sameTypes as bs = true ↔ as.map r.typeKey = bs.map r.typeKey := by
  induction as generalizing bs with
  | nil => cases bs <;> simp [Registry.sameTypes]
  | cons a as ih =>
    cases bs with
    | nil => simp [Registry.sameTypes]
    | cons b bs =>
      rw [List.map_cons, List.map_cons, List.cons.injEq, ← ih, ← sameType_iff]
      simp only [Registry.sameTypes, List.length_cons, List.zip_cons_cons, List.all_cons,
        Bool.and_eq_true, beq_iff_eq, Nat.add_right_cancel_iff]
      exact and_left_comm

/-! ## names that can be taken apart -/

theorem inner_intercalate {w : List Char} (hw : Inner w) {sep : String}
    (hsep : sep.toList = ',' :: w) {names : List String} (h : ∀ n ∈ names, Closed n.toList) :
    Inner (sep.intercalate names).toList := by
  rw [String.toList_intercalate, hsep]
  refine Inner.intercalate hw fun s hs => ?_
  obtain ⟨n, hn, rfl⟩ := List.mem_map.mp hs
  exact h n hn

theorem eq_of_intercalate_eq {w : List Char} {sep : String} (hsep : sep.toList = ',' :: w)
    {ms ns : List String} (hms : ∀ n ∈ ms, Closed n.toList) (hns : ∀ n ∈ ns, Closed n.toList)
    (hm : ms ≠ []) (hn : ns ≠ []) (h : sep.intercalate ms = sep.intercalate ns) : ms = ns := by
  have hlist := congrArg String.toList h
  rw [String.toList_intercalate, String.toList_intercalate, hsep] at hlist
  refine List.map_injective_iff.mpr (fun _ _ => String.toList_inj.mp)
    (intercalate_inj ?_ ?_ (by simpa using hm) (by simpa using hn) hlist)
  · exact List.forall_mem_map.mpr hms
  · exact List.forall_mem_map.mpr hns

/-- lists that are alike under `f` are alike under `g`, if that holds of their elements -/
theorem map_eq_map_of_imp {α β γ : Type} {f : α → β} {g : α → γ} {as bs : List α}
    (h : as.map f = bs.map f) (himp : ∀ a ∈ as, ∀ b ∈ bs, f a = f b → g a = g b) :
    as.map g = bs.map g := by
  induction as generalizing bs with
  | nil =>
    cases bs with
    | nil => rfl
    | cons b bs => cases h
  | cons a as ih =>
    cases bs with
    | nil => cases h
    | cons b bs =>
      obtain ⟨hab, hrest⟩ := List.cons.inj h
      rw [List.map_cons, List.map_cons, himp a List.mem_cons_self b List.mem_cons_self hab]
      rw [ih hrest fun c hc d hd => himp c (List.mem_cons_of_mem _ hc) d (List.mem_cons_of_mem _ hd)]

theorem toList_typeKey (r : Registry) (t : TypeId) : (r.typeKey t).toList =
    'T' :: ':' :: ((r.moduleName (r.type t).module).toList ++ ':' :: (r.fullName t).toList) := by
  simp [Registry.typeKey]

theorem toList_instanceKey (r : Registry) (key : String) (args : List TypeId) :
    (r.instanceKey key args).toList = (key.toList ++
      '<' :: (String.intercalate "," (args.map r.typeKey)).toList) ++ ['>'] := by
  simp [Registry.instanceKey]

theorem withModuleName_congr {d d' : TypeDecl}
    (hh : isSharedHelperName d.name = isSharedHelperName d'.name)
    (hm : r.moduleName d.module = r.moduleName d'.module) (s : String) :
    r.withModuleName d s = r.withModuleName d' s := by
  simp only [Registry.withModuleName, hh, hm]

theorem withModuleName_inj {d : TypeDecl} {s s' : String}
    (h : r.withModuleName d s = r.withModuleName d s') : s = s' := by
  unfold Registry.withModuleName at h
  split at h
  · exact (String.append_right_inj _).mp h
  · exact h

/-- the name of an instance has matching brackets if the names in it have -/
theorem closed_applied {s : String} {names : List String} (hs : Closed s.toList)
    (hnames : ∀ n ∈ names, Closed n.toList) :
    Closed (s ++ "<" ++ String.intercalate ", " names ++ ">").toList := by
  have hargs : Inner (String.intercalate ", " names).toList :=
    inner_intercalate (w := [' ']) rfl rfl hnames
  have hlist : (s ++ "<" ++ String.intercalate ", " names ++ ">").toList =
      s.toList ++ ('<' :: (String.intercalate ", " names).toList ++ ['>']) := by
    simp
  rw [hlist]
  exact hs.append (hargs.group rfl rfl)

/-- A property of names holds of all types if it holds of those that are not made from others, and stays
as types are constructed and instantiated: types are made from types that were there before. -/
theorem Orderly.fullName_of_parts (ho : r.Orderly) {P : String → Prop}
    (hplain : ∀ d ∈ r.types.toList, (d.form.isDefinition || d.form.isParameter) = true → P d.fullName)
    (hshape : ∀ (shape : Shape) s, P s → P (shape.render s))
    (hargs : ∀ s names, P s → (∀ n ∈ names, P n) →
      P (s ++ "<" ++ String.intercalate ", " names ++ ">"))
    (hmodule : ∀ (d : TypeDecl) s, d.module.index < r.modules.size → P s → P (r.withModuleName d s))
    {t : TypeId} (ht : r.Has (.type t)) : P (r.fullName t) := by
  induction hn : t.index using Nat.strongRecOn generalizing t with
  | _ n ih =>
    subst hn
    have hpart : ∀ u, Item.type u ∈ (r.type t).form.items → P (r.fullName u) :=
      fun u hu => ih u.index ((ho.placed t ht).part_lt u hu) (ho.wellFormed.formOf ht hu) rfl
    have hname := hplain (r.type t) (type_mem ht)
    have hrendered := (ho.placed t ht).rendered
    cases hf : (r.type t).form with
    | defined kind params => exact hname (by rw [hf]; rfl)
    | parameter index owner => exact hname (by rw [hf]; rfl)
    | constructed shape element =>
      rw [hrendered (by rw [hf]; rfl), Registry.render, hf]
      exact hshape shape _ (hpart element (by rw [hf]; exact List.mem_singleton.mpr rfl))
    | instantiated kind definition args =>
      rw [hf] at hpart
      rw [hrendered (by rw [hf]; rfl), Registry.render, hf]
      refine hmodule _ _ (ho.placed t ht).home (hargs _ _ ?_ (List.forall_mem_map.mpr fun a ha => ?_))
      · exact hpart definition (List.mem_map_of_mem List.mem_cons_self)
      · exact hpart a (List.mem_map_of_mem (List.mem_cons_of_mem _ ha))

namespace Legible

variable (hl : r.Legible) (ho : r.Orderly)
include hl ho

omit ho in
theorem module {m : ModuleId} (hm : m.index < r.modules.size) :
    Closed (r.moduleName m).toList ∧ ':' ∉ (r.moduleName m).toList :=
  hl.modules (r.module m) (module_mem_of_lt hm)

omit ho in
theorem closed_withModuleName {d : TypeDecl} (hd : d.module.index < r.modules.size) {s : String}
    (hs : Closed s.toList) : Closed (r.withModuleName d s).toList := by
  unfold Registry.withModuleName
  split
  · rw [String.toList_append, String.toList_ofList]
    exact (hl.module hd).1.filter_dot.append hs
  · exact hs

/-- Rendered names have matching brackets. -/
theorem closed_fullName {t : TypeId} (ht : r.Has (.type t)) : Closed (r.fullName t).toList :=
  ho.fullName_of_parts (P := fun s => Closed s.toList) hl.named
    (fun shape _ h => shape.closed_render h) (fun _ _ h hnames => closed_applied h hnames)
    (fun _ _ hd h => hl.closed_withModuleName hd h) ht

theorem closed_typeKey {t : TypeId} (ht : r.Has (.type t)) : Closed (r.typeKey t).toList := by
  have hm := (hl.module (ho.placed t ht).home).1
  have hkey : (r.typeKey t).toList = ['T', ':'] ++
      ((r.moduleName (r.type t).module).toList ++ ([':'] ++ (r.fullName t).toList)) :=
    toList_typeKey r t
  rw [hkey]
  exact Closed.append (by decide)
    (hm.append (Closed.append (by decide) (hl.closed_fullName ho ht)))

theorem typeKey_eq_iff {a b : TypeId} (ha : r.Has (.type a)) (hb : r.Has (.type b)) :
    r.typeKey a = r.typeKey b ↔ r.moduleName (r.type a).module = r.moduleName (r.type b).module ∧
      r.fullName a = r.fullName b := by
  constructor
  · intro h
    have hlist := congrArg String.toList h
    rw [toList_typeKey, toList_typeKey] at hlist
    obtain ⟨hm, hn⟩ := append_cons_inj_left (List.cons.inj (List.cons.inj hlist).2).2
      (hl.module (ho.placed a ha).home).2 (hl.module (ho.placed b hb).home).2
    exact ⟨String.toList_inj.mp hm, String.toList_inj.mp hn⟩
  · rintro ⟨hm, hn⟩
    rw [Registry.typeKey, Registry.typeKey, hm, hn]

theorem instanceKey_inj {k k' : String} {as bs : List TypeId} (hk : Inner k.toList)
    (hk' : Inner k'.toList) (has : ∀ a ∈ as, r.Has (.type a)) (hbs : ∀ b ∈ bs, r.Has (.type b))
    (hne : bs ≠ []) (h : r.instanceKey k as = r.instanceKey k' bs) :
    k = k' ∧ as.map r.typeKey = bs.map r.typeKey := by
  have hcas : ∀ n ∈ as.map r.typeKey, Closed n.toList :=
    List.forall_mem_map.mpr fun a ha => hl.closed_typeKey ho (has a ha)
  have hcbs : ∀ n ∈ bs.map r.typeKey, Closed n.toList :=
    List.forall_mem_map.mpr fun b hb => hl.closed_typeKey ho (hbs b hb)
  have hlist := congrArg String.toList h
  rw [toList_instanceKey, toList_instanceKey] at hlist
  obtain ⟨hkey, hkeys⟩ := hk.group_inj hk' (inner_intercalate (w := []) rfl rfl hcas)
    (inner_intercalate (w := []) rfl rfl hcbs) (List.append_cancel_right hlist)
  have hjoined := String.toList_inj.mp hkeys
  refine ⟨String.toList_inj.mp hkey, ?_⟩
  refine eq_of_intercalate_eq rfl hcas hcbs ?_ (by simpa using hne) hjoined
  -- no keys at all give the empty text
  intro hnil
  obtain ⟨b, bs, rfl⟩ := List.exists_cons_of_ne_nil hne
  rw [hnil, String.toList_intercalate, String.toList_intercalate, List.map_cons, List.map_cons,
    toList_typeKey] at hkeys
  cases bs <;> simp at hkeys

theorem instanceKeyOf_inj {c d : TypeId} {as bs : List TypeId} (hc : r.Has (.type c))
    (hd : r.Has (.type d)) (has : ∀ a ∈ as, r.Has (.type a)) (hbs : ∀ b ∈ bs, r.Has (.type b))
    (hne : bs ≠ []) (h : r.instanceKeyOf c as = r.instanceKeyOf d bs) :
    r.typeKey c = r.typeKey d ∧ as.map r.typeKey = bs.map r.typeKey :=
  hl.instanceKey_inj ho (hl.closed_typeKey ho hc).inner (hl.closed_typeKey ho hd).inner has hbs hne h

theorem fullName_known {d inst : TypeId} {args : List TypeId} (hd : r.Has (.type d))
    (hdef : (r.type d).form.isDefinition = true) (ha : ∀ a ∈ args, r.Has (.type a))
    (hne : args ≠ []) (hk : r.instances.get? (r.instanceKeyOf d args) = some inst) :
    r.moduleName (r.type inst).module = r.moduleName (r.type d).module ∧
      r.fullName inst =
        r.withModuleName (r.type d) (r.fullName d ++ "<" ++ r.nameList args ++ ">") := by
  have hinst : r.Has (.type inst) := ho.wellFormed.instance_ hk
  obtain ⟨kind, c, as, hf, hkey⟩ := ho.form_of_known hk
  have hcd : (r.type inst).form.definition? = some c := by rw [hf]; rfl
  have hc : r.Has (.type c) := ho.wellFormed.definition hinst hcd
  have has : ∀ a ∈ as, r.Has (.type a) := fun a h => ho.wellFormed.genericArgOf hinst (by
    rw [hf]
    exact h)
  obtain ⟨hkc, hkas⟩ := hl.instanceKeyOf_inj ho hc hd has ha hne hkey
  obtain ⟨hm, hn⟩ := (hl.typeKey_eq_iff ho hc hd).mp hkc
  have hdefines := (ho.placed inst hinst).definition c hcd
  have hmodule : r.moduleName (r.type inst).module = r.moduleName (r.type d).module := by
    rw [hdefines.module, hm]
  have hhelper : isSharedHelperName (r.type inst).name = isSharedHelperName (r.type d).name := by
    rw [hdefines.name]
    exact hl.helpers _ (type_mem hc) _ (type_mem hd) hdefines.isDefinition hdef hm hn
  -- the arguments it was made with have the keys, hence the names, of the given ones
  have hnames : as.map r.fullName = args.map r.fullName :=
    map_eq_map_of_imp hkas fun x hx y hy h => ((hl.typeKey_eq_iff ho (has x hx) (ha y hy)).mp h).2
  refine ⟨hmodule, ?_⟩
  rw [(ho.placed inst hinst).rendered (by rw [hf]; rfl), Registry.render, hf]
  simp only [Registry.nameList, hn, hnames]
  exact withModuleName_congr hhelper hmodule _

theorem sameType_known_iff {d a b : TypeId} {as bs : List TypeId} (hd : r.Has (.type d))
    (hdef : (r.type d).form.isDefinition = true) (has : ∀ a ∈ as, r.Has (.type a))
    (hbs : ∀ b ∈ bs, r.Has (.type b)) (hnas : as ≠ []) (hnbs : bs ≠ [])
    (hka : r.instances.get? (r.instanceKeyOf d as) = some a)
    (hkb : r.instances.get? (r.instanceKeyOf d bs) = some b) :
    r.sameType a b = true ↔ as.map r.fullName = bs.map r.fullName := by
  obtain ⟨hma, hna⟩ := hl.fullName_known ho hd hdef has hnas hka
  obtain ⟨hmb, hnb⟩ := hl.fullName_known ho hd hdef hbs hnbs hkb
  rw [sameType_iff, hl.typeKey_eq_iff ho (ho.wellFormed.instance_ hka)
    (ho.wellFormed.instance_ hkb), hma, hmb, hna, hnb]
  constructor
  · rintro ⟨-, h⟩
    have hnames : r.nameList as = r.nameList bs :=
      (String.append_right_inj _).mp ((String.append_left_inj _).mp (withModuleName_inj h))
    refine eq_of_intercalate_eq (w := [' ']) rfl ?_ ?_ (by simpa using hnas) (by simpa using hnbs)
      hnames
    · exact List.forall_mem_map.mpr fun a ha => hl.closed_fullName ho (has a ha)
    · exact List.forall_mem_map.mpr fun b hb => hl.closed_fullName ho (hbs b hb)
  · intro h
    refine ⟨rfl, ?_⟩
    simp only [Registry.nameList, h]

end Legible

/-! ## two instantiations -/

theorem InstanceOf.known {d inst : TypeId} {args : List TypeId} (h : r.InstanceOf d args inst)
    (hne : (r.type d).form.genericArgs ≠ args) :
    r.instances.get? (r.instanceKeyOf d args) = some inst := by
  rcases h.found with ⟨hown, -⟩ | ⟨-, -, -, hk⟩
  · exact absurd hown hne
  · exact hk

theorem InstanceOf.params_ne_nil {d inst : TypeId} {args : List TypeId}
    (h : r.InstanceOf d args inst) : (r.type d).form.genericArgs ≠ [] := by
  have harity := h.arity
  simp only [Bool.or_eq_false_iff, List.isEmpty_eq_false_iff] at harity
  exact harity.2

theorem InstanceOf.args_ne_nil {d inst : TypeId} {args : List TypeId}
    (h : r.InstanceOf d args inst) : args ≠ [] := by
  have harity := h.arity
  simp only [Bool.or_eq_false_iff, bne_eq_false_iff_eq] at harity
  intro hnil
  rw [hnil, List.length_nil] at harity
  exact h.params_ne_nil (List.eq_nil_of_length_eq_zero harity.1)

/-- **Which instances are the same type.**  Two instantiations of one definition, with any edits in
between, give one instance if the arguments are the same types.  As long as rendered names can be taken
apart, the instances are the same type if and only if the arguments have the same names; and if and
only if the arguments are the same types, where arguments of one name are. -/
theorem instantiate_same_iff (hr : r.Built) {t : TypeId} {as bs : List TypeId}
    (ht : r.Has (.type t)) (has : ∀ x ∈ as, r.Has (.type x))
    (hownas : (r.type (r.definitionOf t)).form.genericArgs ≠ as)
    (hownbs : (r.type (r.definitionOf t)).form.genericArgs ≠ bs) {a b : TypeId} {r₁ r₂ : Registry}
    (ha : instantiate t as r = .ok a r₁) {es : List Edit} (hes : FitAll r₁ es)
    (hbs : ∀ x ∈ bs, (r₁.applyAll es).Has (.type x))
    (hb : instantiate t bs (r₁.applyAll es) = .ok b r₂) :
    (r₂.sameTypes as bs = true → a = b) ∧
    (r₂.Legible →
      (r₂.sameType a b = true ↔ as.map r₂.fullName = bs.map r₂.fullName) ∧
      ((∀ x ∈ as, ∀ y ∈ bs, r₂.fullName x = r₂.fullName y → r₂.sameType x y = true) →
        (r₂.sameType a b = true ↔ r₂.sameTypes as bs = true))) := by
  have ho := hr.orderly
  let d := r.definitionOf t
  have hd : r.Has (.type d) := definition_has ho.wellFormed ht
  -- the first instance, and what it is at the end
  obtain ⟨hs₁, -, hof₁⟩ := (supplies_instantiate ho ht has).ok ha
  obtain ⟨hp, hos⟩ := hs₁.orderly.applyAll hes
  have hps := hs₁.persists.trans hp
  obtain ⟨hs₂, -, hofb⟩ := (supplies_instantiate hos (hps.has _ ht) hbs).ok hb
  have ho₂ := hs₂.orderly
  have hp₁₂ := hp.trans hs₂.persists
  have hp₂ := hps.trans hs₂.persists
  rw [Persists.definitionOf hs₁.persists ht] at hof₁
  rw [Persists.definitionOf hp₂ ht] at hofb
  have hofa : r₂.InstanceOf d as a := hof₁.mono hs₁.orderly hp₁₂ (hs₁.persists.has _ hd)
    fun x hx => hs₁.persists.has _ (has x hx)
  have hform : (r₂.type d).form = (r.type d).form := hp₂.form hd
  have hka := hofa.known (by rw [hform]; exact hownas)
  have hkb := hofb.known (by rw [hform]; exact hownbs)
  refine ⟨fun hsame => ?_, fun hl => ?_⟩
  · rw [sameTypes_iff] at hsame
    simp only [Registry.instanceKeyOf, Registry.instanceKey, hsame] at hka hkb
    exact Option.some.inj (hka.symm.trans hkb)
  · have hparams : (r.type d).form.genericArgs ≠ [] := hform ▸ hofa.params_ne_nil
    have hdef : (r₂.type d).form.isDefinition = true := by
      rw [hform]
      exact ho.isDefinition_definitionOf ht hparams
    have hiff := hl.sameType_known_iff ho₂ (hp₂.has _ hd) hdef (fun x hx => hp₂.has _ (has x hx))
      (fun x hx => hs₂.persists.has _ (hbs x hx)) hofa.args_ne_nil hofb.args_ne_nil hka hkb
    refine ⟨hiff, fun hnames => ?_⟩
    rw [hiff, sameTypes_iff]
    constructor
    · intro h
      exact map_eq_map_of_imp h fun x hx y hy hxy => sameType_iff.mp (hnames x hx y hy hxy)
    · intro h
      refine map_eq_map_of_imp h fun x hx y hy hxy => ?_
      exact ((hl.typeKey_eq_iff ho₂ (hp₂.has _ (has x hx))
        (hs₂.persists.has _ (hbs y hy))).mp hxy).2

/-! ## arguments of one name -/

def twinEdits : List Edit :=
  [.addModule "A", .addModule "B", .declareType { module := ⟨1⟩, namespaceName := "", name := "X" },
    .declareType { module := ⟨2⟩, namespaceName := "", name := "X" },
    .declareType { module := ⟨1⟩, namespaceName := "", name := "G", generic := ["T"] }]

theorem instantiate_same_iff_twins : ∃ a r₁ b r₂,
    instantiate ⟨23⟩ [⟨20⟩] (core.applyAll twinEdits) = .ok a r₁ ∧
    instantiate ⟨23⟩ [⟨12⟩] (r₁.applyAll [.addModule "C"]) = .ok b r₂ ∧ r₂.Legible ∧
    (r₂.sameType a b = true ↔ r₂.sameTypes [⟨20⟩] [⟨12⟩] = true) := by
  obtain ⟨hfits, ht, has, hownas, hownbs, heval⟩ :
      FitAll core twinEdits ∧ (core.applyAll twinEdits).Has (.type ⟨23⟩) ∧
      (∀ x ∈ [(⟨20⟩ : TypeId)], (core.applyAll twinEdits).Has (.type x)) ∧
      ((core.applyAll twinEdits).type ((core.applyAll twinEdits).definitionOf ⟨23⟩)).form.genericArgs ≠
        [⟨20⟩] ∧
      ((core.applyAll twinEdits).type ((core.applyAll twinEdits).definitionOf ⟨23⟩)).form.genericArgs ≠
        [⟨12⟩] ∧
      answersWith (instantiate ⟨23⟩ [⟨20⟩]) (core.applyAll twinEdits) (fun _ r₁ =>
        decide (FitAll r₁ [.addModule "C"]) &&
          decide ((r₁.applyAll [.addModule "C"]).Has (.type ⟨12⟩)) &&
          answersWith (instantiate ⟨23⟩ [⟨12⟩]) (r₁.applyAll [.addModule "C"]) fun _ r₂ =>
            decide r₂.Legible && r₂.fullName ⟨20⟩ != r₂.fullName ⟨12⟩) = true := by
    decide +kernel
  obtain ⟨a, r₁, ha, h₁⟩ := exists_of_answersWith heval
  simp only [Bool.and_eq_true, decide_eq_true_eq] at h₁
  obtain ⟨⟨hes, hhas⟩, h₁⟩ := h₁
  obtain ⟨b, r₂, hb, h₂⟩ := exists_of_answersWith h₁
  simp only [Bool.and_eq_true, decide_eq_true_eq, bne_iff_ne, ne_eq] at h₂
  obtain ⟨hl, hnames⟩ := h₂
  have hiff := instantiate_same_iff (Built.core.applyAll hfits) ht has hownas hownbs ha hes
    (by simpa using hhas) hb
  refine ⟨a, r₁, b, r₂, ha, hb, hl, (hiff.2 hl).2 ?_⟩
  simp [hnames]

/-- The instances of `G` for the two classes `X` are the same type, and the two classes are not. -/
theorem instantiate_conflated : ∃ a r₁ b r₂, FitAll core twinEdits ∧
    instantiate ⟨23⟩ [⟨20⟩] (core.applyAll twinEdits) = .ok a r₁ ∧
    instantiate ⟨23⟩ [⟨21⟩] r₁ = .ok b r₂ ∧ r₂.sameType a b = true ∧
    r₂.sameTypes [⟨20⟩] [⟨21⟩] = false := by
  obtain ⟨hfits, heval⟩ : FitAll core twinEdits ∧
      answersWith (instantiate ⟨23⟩ [⟨20⟩]) (core.applyAll twinEdits) (fun a r₁ =>
        answersWith (instantiate ⟨23⟩ [⟨21⟩]) r₁ fun b r₂ =>
          r₂.sameType a b && !r₂.sameTypes [⟨20⟩] [⟨21⟩]) = true := by
    decide +kernel
  obtain ⟨a, r₁, ha, h₁⟩ := exists_of_answersWith heval
  obtain ⟨b, r₂, hb, h₂⟩ := exists_of_answersWith h₁
  simp only [Bool.and_eq_true, Bool.not_eq_true'] at h₂
  exact ⟨a, r₁, b, r₂, hfits, ha, hb, h₂.1, h₂.2⟩

end Registry

end ProgramScan

import ProgramScan.Proofs.Layout.Remembering
import ProgramScan.Proofs.Registry.Copies
import ProgramScan.Proofs.Registry.Identity
import ProgramScan.Proofs.Text.Angles
import ProgramScan.Proofs.Text.Bytes

/-!
# Programs that say what they mean

What is made on demand is found again by keys.  In a faithful program it is what was asked for, part by
part: names cannot be mistaken for something else, and different elements have different keys.

* `Registry.Readable`                 different types have different keys, and names are free of the
                                     characters that keys are made with;
* `Registry.Faithful`                different methods have different keys as well, and generic
                                     parameters are in their places;
* `Readable.keyed_typeKey`            keys of types can be put in a row;
* `Readable.instanceKey_inj`          the key of an instance gives its definition and arguments;
* `Readable.constructed`, `Readable.instanceOf`, `Faithful.methodInstance`
                                     what is found under a key is what the key was made for;
* `Faithful.of_grows`                 a program that grew into a faithful one is faithful.
-/

namespace ProgramScan

open Text

/-- the name has none of the characters that keys are made with -/
def PlainName (s : String) : Prop := ∀ c ∈ s.toList, c ∉ [',', '<', '>', '|', ':']

-- a search through the name, not through all characters
instance (s : String) : Decidable (PlainName s) :=
  have := List.decidableBAll (fun c => c ∉ [',', '<', '>', '|', ':']) (characters s)
  decidable_of_iff (∀ c ∈ characters s, c ∉ [',', '<', '>', '|', ':']) (by rw [characters_eq]; rfl)

theorem PlainName.keyed {s : String} (h : PlainName s) : Keyed s.toList := by
  refine .of_plain fun c hc => ?_
  have hplain := h c hc
  simp only [List.mem_cons, List.not_mem_nil, or_false, not_or] at hplain
  exact ⟨hplain.1, hplain.2.1, hplain.2.2.1⟩

theorem Shape.keyed_render (shape : Shape) {s : String} (h : Keyed s.toList) :
    Keyed (shape.render s).toList := by
  cases shape with
  | szArray =>
    rw [render, String.toList_append]
    exact h.append (by decide)
  | pointer =>
    rw [render, String.toList_append]
    exact h.append (by decide)
  | byRef =>
    rw [render, String.toList_append]
    exact Keyed.append (by decide) h
  | array rank =>
    have hlist : ((array rank).render s).toList =
        s.toList ++ ('[' :: List.replicate (rank - 1) ',' ++ [']']) := by
      simp [render]
    rw [hlist]
    exact h.append (.ranks _)

deriving instance DecidableEq for TypeForm

namespace Registry

variable {r : Registry}

/-- at each place of a list of generic parameters stands the parameter with that index -/
def InPlace (r : Registry) (owner : ParameterOwner) (params : List TypeId) : Prop :=
  ∀ e ∈ params.zipIdx, (r.type e.1).form = .parameter e.2 owner

instance (r : Registry) (owner : ParameterOwner) (params : List TypeId) :
    Decidable (r.InPlace owner params) :=
  inferInstanceAs (Decidable (∀ e ∈ params.zipIdx, _))

/-- Different types have different keys.  The names of modules, definitions and parameters have none of
the characters that keys are made with. -/
structure Readable (r : Registry) : Prop where
  types : r.KeysDistinct
  modules : ∀ d ∈ r.modules.toList, PlainName d.name
  names : ∀ d ∈ r.types.toList, (d.form.isDefinition || d.form.isParameter) = true →
    PlainName d.fullName

/-- Different types and different methods have different keys.  The names of modules, definitions and
parameters have none of the characters that keys are made with, and generic parameters stand in their
places. -/
structure Faithful (r : Registry) : Prop extends Readable r where
  methods : r.MethodKeysDistinct
  typeParams : ∀ d ∈ r.types.toList, d.form.isDefinition = true → r.InPlace .type d.form.genericArgs
  methodParams : ∀ d ∈ r.methods.toList, d.genericDefinition? = none →
    r.InPlace .method d.genericArgs

instance (r : Registry) : Decidable r.Readable :=
  decidable_of_iff (_ ∧ _ ∧ _) ⟨fun h => ⟨h.1, h.2.1, h.2.2⟩, fun h => ⟨h.1, h.2, h.3⟩⟩

instance (r : Registry) : Decidable r.Faithful :=
  decidable_of_iff (r.Readable ∧ _ ∧ _ ∧ _)
    ⟨fun h => ⟨h.1, h.2.1, h.2.2.1, h.2.2.2⟩, fun h => ⟨h.1, h.2, h.3, h.4⟩⟩

theorem InPlace.getElem? {owner : ParameterOwner} {params : List TypeId} (h : r.InPlace owner params)
    {i : Nat} {p : TypeId} (hp : params[i]? = some p) : (r.type p).form = .parameter i owner :=
  h (p, i) (List.mk_mem_zipIdx_iff_getElem?.mpr hp)

namespace Readable

variable (h : r.Readable)
include h

/-! ## keys -/

theorem plain_moduleName {m : ModuleId} (hm : m.index < r.modules.size) :
    PlainName (r.moduleName m) := by
  refine h.modules (r.module m) ?_
  simp only [Registry.module, Array.getD_eq_getD_getElem?]
  rw [Array.getElem?_eq_getElem hm]
  exact Array.getElem_mem_toList hm

theorem keyed_withModuleName {d : TypeDecl} (hd : d.module.index < r.modules.size) {s : String}
    (hs : Keyed s.toList) : Keyed (r.withModuleName d s).toList := by
  unfold Registry.withModuleName
  split
  · rw [String.toList_append, String.toList_ofList]
    refine Keyed.append ?_ hs
    have hplain : PlainName (String.ofList ((r.moduleName d.module).toList.filter (· ≠ '.'))) := by
      intro c hc
      rw [String.toList_ofList] at hc
      exact h.plain_moduleName hd c (List.mem_filter.mp hc).1
    have hkeyed := hplain.keyed
    rwa [String.toList_ofList] at hkeyed
  · exact hs

variable (ho : r.Orderly)
include ho

/-- Names can stand in a row of keys, since types are made from types that were there before. -/
theorem keyed_fullName {t : TypeId} (ht : r.Has (.type t)) : Keyed (r.fullName t).toList := by
  induction hn : t.index using Nat.strongRecOn generalizing t with
  | _ n ih =>
    subst hn
    have hpart : ∀ u, Item.type u ∈ (r.type t).form.items → Keyed (r.fullName u).toList :=
      fun u hu => ih u.index ((ho.placed t ht).part_lt u hu) (ho.wellFormed.formOf ht hu) rfl
    have hname := h.names (r.type t) (type_mem ht)
    have hrendered := (ho.placed t ht).rendered
    cases hf : (r.type t).form with
    | defined kind params => exact (hname (by rw [hf]; rfl)).keyed
    | parameter index owner => exact (hname (by rw [hf]; rfl)).keyed
    | constructed shape element =>
      rw [hrendered (by rw [hf]; rfl), Registry.render, hf]
      exact shape.keyed_render (hpart element (by rw [hf]; exact List.mem_singleton.mpr rfl))
    | instantiated kind definition args =>
      rw [hf] at hpart
      rw [hrendered (by rw [hf]; rfl), Registry.render, hf]
      refine h.keyed_withModuleName (ho.placed t ht).home ?_
      have hargs : Angled (r.nameList args).toList := by
        rw [Registry.nameList, String.toList_intercalate]
        refine Angled.intercalate (by decide) ?_
        simp only [List.map_map, List.forall_mem_map, Function.comp]
        exact fun a ha => (hpart a (List.mem_map_of_mem (List.mem_cons_of_mem _ ha))).angled
      have hlist : (r.fullName definition ++ "<" ++ r.nameList args ++ ">").toList =
          (r.fullName definition).toList ++ ('<' :: (r.nameList args).toList ++ ['>']) := by
        simp
      rw [hlist]
      exact (hpart definition (List.mem_map_of_mem List.mem_cons_self)).append (.group hargs)

/-- keys of types can stand in a row -/
theorem keyed_typeKey {t : TypeId} (ht : r.Has (.type t)) :
    Keyed (r.typeKey t).toList ∧ (r.typeKey t).toList.head? = some 'T' := by
  have hkey : (r.typeKey t).toList = ['T', ':'] ++
      ((r.moduleName (r.type t).module).toList ++ ([':'] ++ (r.fullName t).toList)) :=
    toList_typeKey r t
  rw [hkey]
  have hm := (h.plain_moduleName (ho.placed t ht).home).keyed
  exact ⟨Keyed.append (by decide) (hm.append (Keyed.append (by decide) (h.keyed_fullName ho ht))), rfl⟩

theorem instanceKey_inj {k k' : String} {as bs : List TypeId} (has : ∀ a ∈ as, r.Has (.type a))
    (hbs : ∀ b ∈ bs, r.Has (.type b)) (hne : bs ≠ [])
    (hkey : r.instanceKey k as = r.instanceKey k' bs) : k = k' ∧ as = bs := by
  have hkeys : ∀ {ts : List TypeId}, (∀ t ∈ ts, r.Has (.type t)) →
      ∀ s ∈ (ts.map r.typeKey).map String.toList, Keyed s ∧ s.head? = some 'T' := by
    intro ts hts
    simp only [List.map_map, List.forall_mem_map, Function.comp]
    exact fun t ht => h.keyed_typeKey ho (hts t ht)
  have hangled : ∀ {ts : List TypeId}, (∀ t ∈ ts, r.Has (.type t)) →
      Angled (String.intercalate "," (ts.map r.typeKey)).toList := by
    intro ts hts
    rw [String.toList_intercalate]
    exact Angled.intercalate (by decide) fun s hs => (hkeys hts s hs).1.angled
  have hlist := congrArg String.toList hkey
  rw [toList_instanceKey, toList_instanceKey] at hlist
  obtain ⟨hk, hrow⟩ := (hangled has).group_inj (hangled hbs) (List.append_cancel_right hlist)
  refine ⟨String.toList_inj.mp hk, ?_⟩
  rw [String.toList_intercalate, String.toList_intercalate] at hrow
  have hnil : as ≠ [] := by
    rintro rfl
    obtain ⟨b, bs, rfl⟩ := List.exists_cons_of_ne_nil hne
    rw [List.map_cons, List.map_cons, toList_typeKey] at hrow
    cases bs <;> simp at hrow
  have htexts := keys_inj (hkeys has) (hkeys hbs) (by simpa using hnil) (by simpa using hne) hrow
  rw [List.map_map, List.map_map] at htexts
  have hids : as.map id = bs.map id := map_eq_map_of_imp htexts fun a ha b hb hab =>
    h.types a b (has a ha) (hbs b hb) (String.toList_inj.mp hab)
  rwa [List.map_id, List.map_id] at hids

/-! ## what is found -/

theorem constructed {shape : Shape} {e t : TypeId} (he : r.Has (.type e))
    (hc : r.Constructed shape e t) : (r.type t).form = .constructed shape e := by
  obtain ⟨e₀, hf, hkey⟩ := hc.form ho
  have ht := ho.wellFormed.instance_ hc.known
  rw [hf, h.types e₀ e (ho.wellFormed.element ht (by rw [hf]; rfl)) he hkey]

theorem instanceOf {d t : TypeId} {args : List TypeId} (hd : r.Has (.type d))
    (hdef : (r.type d).form.isDefinition = true) (ha : ∀ a ∈ args, r.Has (.type a))
    (hi : r.InstanceOf d args t) : t = d ∧ (r.type d).form.genericArgs = args ∨
      ∃ kind, (r.type t).form = .instantiated kind d args := by
  rcases hi.found with ⟨hown, rfl⟩ | ⟨-, -, -, hknown⟩
  · exact .inl ⟨rfl, hown⟩
  · right
    have hw := ho.wellFormed
    have ht := hw.instance_ hknown
    obtain ⟨kind, c, as, hf, hkey⟩ := ho.form_of_known hknown
    have hc : r.Has (.type c) := hw.definition ht (by rw [hf]; rfl)
    have has : ∀ a ∈ as, r.Has (.type a) := fun a hmem => hw.genericArgOf ht (by
      rw [hf]
      exact hmem)
    obtain ⟨hkc, rfl⟩ := h.instanceKey_inj ho has ha hi.args_ne_nil hkey
    refine ⟨kind, ?_⟩
    rw [hf, h.types c d hc hd hkc]

end Readable

namespace Faithful

variable (h : r.Faithful)
include h

/-! ## parameters -/

theorem typeParameter {d p : TypeId} {i : Nat} (hd : r.Has (.type d))
    (hdef : (r.type d).form.isDefinition = true) (hp : (r.type d).form.genericArgs[i]? = some p) :
    (r.type p).form = .parameter i .type :=
  (h.typeParams _ (type_mem hd) hdef).getElem? hp

theorem methodParameter {m : MethodId} {p : TypeId} {i : Nat} (hm : r.Has (.method m))
    (hdef : (r.method m).genericDefinition? = none) (hp : (r.method m).genericArgs[i]? = some p) :
    (r.type p).form = .parameter i .method :=
  (h.methodParams _ (method_mem hm) hdef).getElem? hp

/-! ## what is found -/

theorem methodInstance (hc : r.Coherent) {m x : MethodId} {args : List TypeId}
    (hm : r.Has (.method m)) (ha : ∀ a ∈ args, r.Has (.type a)) (hne : args ≠ [])
    (hk : r.methodInstances.get? (r.methodInstanceKey m args) = some x) :
    (r.method x).genericDefinition? = some m ∧ (r.method x).genericArgs = args := by
  have hw := hc.wellFormed
  obtain ⟨d, hdef, hkey, -⟩ := hc.memo _ x hk
  have hx := has_of_genericDefinition? hdef
  have hd := hw.genericDefinition hx hdef
  obtain ⟨hkd, hargs⟩ := h.instanceKey_inj hc.orderly (fun a hmem => hw.genericArg hx hmem) ha hne
    hkey.symm
  rw [hdef, h.methods d m hd hm hkd, hargs]
  exact ⟨rfl, rfl⟩

end Faithful

/-! ## what was there before -/

theorem mem_toList_of_getElem? {α : Type} {as bs : Array α}
    (h : ∀ (i : Nat) a, as[i]? = some a → bs[i]? = some a) {a : α} (ha : a ∈ as.toList) :
    a ∈ bs.toList := by
  obtain ⟨i, hi⟩ := List.mem_iff_getElem?.mp ha
  rw [Array.getElem?_toList] at hi
  exact List.mem_iff_getElem?.mpr ⟨i, by rw [Array.getElem?_toList, h i a hi]⟩

section
variable {s : Registry} (hg : r.Grows s)
include hg

theorem InPlace.of_grows {owner : ParameterOwner} {params : List TypeId}
    (hp : ∀ p ∈ params, r.Has (.type p)) (h : s.InPlace owner params) : r.InPlace owner params := by
  intro e he
  rw [← hg.type (hp e.1 (List.fst_mem_of_mem_zipIdx he))]
  exact h e he

theorem Faithful.of_grows (hw : r.WellFormed) (h : s.Faithful) : r.Faithful where
  types t u ht hu hkey := h.types t u (hg.has ht) (hg.has hu) (by
    rwa [hg.typeKey ht, hg.typeKey hu])
  modules := hg.modules ▸ h.modules
  names d hd := h.names d (mem_toList_of_getElem? hg.types hd)
  methods m n hm hn hkey := h.methods m n (hg.has hm) (hg.has hn) (by
    rwa [hg.methodKey hw hm, hg.methodKey hw hn])
  typeParams d hd hdef := by
    refine (h.typeParams d (mem_toList_of_getElem? hg.types hd) hdef).of_grows hg fun p hp => ?_
    refine hw.types d hd _ ?_
    cases hf : d.form with
    | defined kind params =>
      rw [hf] at hp
      simp only [TypeDecl.items, hf, TypeForm.items, List.append_assoc, List.mem_append]
      exact .inl (List.mem_map_of_mem hp)
    | instantiated kind definition args =>
      rw [hf] at hdef
      cases hdef
    | parameter index owner =>
      rw [hf] at hdef
      cases hdef
    | constructed shape element =>
      rw [hf] at hdef
      cases hdef
  methodParams d hd hdef :=
    (h.methodParams d (mem_toList_of_getElem? hg.methods hd) hdef).of_grows hg
      fun p hp => hw.methods d hd _ (by simp [Method.items, hp])

end

end Registry

end ProgramScan

import ProgramScan.Proofs.Registry.Members

/-!
# Programs that change

A program does not only grow: clients set bases, nest types and add members.  Some things stay even
so, and everything that is remembered by name rests on them.

* `Registry.NameFixed`   the name of a type can no longer change;
* `Registry.Persists`    a later state of a program, whatever was done to it in between;
* `Registry.memoKey?`    the key that a constructed type or an instance is remembered under;
* `Registry.Defines`     a type is the definition that a record belongs to, by name and module;
* `Registry.Placed`      a type that comes after its parts, with a name that is made from their names;
* `Registry.Orderly`     a well-formed program with its types placed, in which what is remembered is
                         found under its key.

A change that adds no type and remembers nothing keeps a program orderly (`Orderly.of_persists`), and
so do a new type (`Orderly.push_type`) and one that is remembered (`Orderly.remember`).
-/

namespace ProgramScan

/-- what stays of a method when it gets a body -/
def Method.signature (d : Method) : Method := { d with body := none }

namespace TypeDecl

/-- what never changes about a type -/
def identity (d : TypeDecl) : ModuleId × String × TypeForm := (d.module, d.name, d.form)

/-- what a type takes over from its definition when it is an instance -/
def members (d : TypeDecl) : Option TypeId × List TypeId × List FieldId × List MethodId :=
  (d.base, d.interfaces, d.fields, d.methods)

end TypeDecl

theorem TypeForm.mem_items_of_definition? {f : TypeForm} {d : TypeId} (h : f.definition? = some d) :
    .type d ∈ f.items := by
  cases f with
  | instantiated kind definition args =>
    cases h
    exact List.mem_map_of_mem List.mem_cons_self
  | defined kind params => cases h
  | parameter index owner => cases h
  | constructed shape element => cases h

theorem TypeForm.definition?_of_isDefinition {f : TypeForm} (h : f.isDefinition = true) :
    f.definition? = none := by
  cases f <;> first | rfl | cases h

namespace Registry

def NameFixed (r : Registry) (t : TypeId) : Prop :=
  t ∈ r.usedNames ∨ (r.type t).form.isDefinition = false

/-- `r'` is a state of the program that edits lead to from `r`. -/
structure Persists (r r' : Registry) : Prop where
  has : ∀ x, r.Has x → r'.Has x
  identity : ∀ t, r.Has (.type t) → (r'.type t).identity = (r.type t).identity
  modules : r.modules.size ≤ r'.modules.size
  moduleName : ∀ m : ModuleId, m.index < r.modules.size → r'.moduleName m = r.moduleName m
  used : r.usedNames ⊆ r'.usedNames
  fullName : ∀ t, r.Has (.type t) → r.NameFixed t → r'.fullName t = r.fullName t
  field : ∀ f, r.Has (.field f) → r'.field f = r.field f
  signature : ∀ m, r.Has (.method m) → (r'.method m).signature = (r.method m).signature
  instances : ∀ key t, r.instances.get? key = some t → r'.instances.get? key = some t

def memoKey? (r : Registry) (t : TypeId) : Option String :=
  match (r.type t).form with
  | .constructed shape element => some (r.constructedKey shape element)
  | .instantiated _ definition args => some (r.instanceKeyOf definition args)
  | _ => none

/-- `c` is a definition, in the module and with the name of the record `d` -/
structure Defines (r : Registry) (c : TypeId) (d : TypeDecl) : Prop where
  isDefinition : (r.type c).form.isDefinition = true
  module : d.module = (r.type c).module
  name : d.name = (r.type c).name

/-- The type comes after its parts.  Unless it is a definition, its name is rendered from the names of
its parts, and these are in use. -/
structure Placed (r : Registry) (t : TypeId) : Prop where
  home : (r.type t).module.index < r.modules.size
  part_lt : ∀ u, .type u ∈ (r.type t).form.items → u.index < t.index
  part_used : (r.type t).form.isDefinition = false →
    ∀ u, .type u ∈ (r.type t).form.items → u ∈ r.usedNames
  rendered : (r.type t).form.isDefinition = false → r.fullName t = r.render (r.type t)
  definition : ∀ d, (r.type t).form.definition? = some d → r.Defines d (r.type t)

/-- The types of the program come after their parts, and those that are remembered are found by the
names of their parts. -/
structure Orderly (r : Registry) : Prop where
  wellFormed : r.WellFormed
  placed : ∀ t, r.Has (.type t) → r.Placed t
  memo : ∀ key t, r.instances.get? key = some t → r.memoKey? t = some key

variable {r r' r'' : Registry}

/-! ## what persists -/

namespace Persists

theorem refl (r : Registry) : r.Persists r :=
  ⟨fun _ h => h, fun _ _ => rfl, Nat.le_refl _, fun _ _ => rfl, fun _ h => h, fun _ _ _ => rfl,
    fun _ _ => rfl, fun _ _ => rfl, fun _ _ h => h⟩

theorem form (h : r.Persists r') {t : TypeId} (ht : r.Has (.type t)) :
    (r'.type t).form = (r.type t).form :=
  congrArg (·.2.2) (h.identity t ht)

theorem home (h : r.Persists r') {t : TypeId} (ht : r.Has (.type t)) :
    (r'.type t).module = (r.type t).module :=
  congrArg (·.1) (h.identity t ht)

theorem simpleName (h : r.Persists r') {t : TypeId} (ht : r.Has (.type t)) :
    (r'.type t).name = (r.type t).name :=
  congrArg (·.2.1) (h.identity t ht)

theorem nameFixed (h : r.Persists r') {t : TypeId} (ht : r.Has (.type t)) (hf : r.NameFixed t) :
    r'.NameFixed t := by
  rcases hf with hf | hf
  · exact .inl (h.used hf)
  · exact .inr (by rw [h.form ht, hf])

theorem trans (h : r.Persists r') (h' : r'.Persists r'') : r.Persists r'' where
  has x hx := h'.has x (h.has x hx)
  identity t ht := (h'.identity t (h.has _ ht)).trans (h.identity t ht)
  modules := Nat.le_trans h.modules h'.modules
  moduleName m hm := (h'.moduleName m (Nat.lt_of_lt_of_le hm h.modules)).trans (h.moduleName m hm)
  used _ hx := h'.used (h.used hx)
  fullName t ht hf :=
    (h'.fullName t (h.has _ ht) (h.nameFixed ht hf)).trans (h.fullName t ht hf)
  field f hf := (h'.field f (h.has _ hf)).trans (h.field f hf)
  signature m hm := (h'.signature m (h.has _ hm)).trans (h.signature m hm)
  instances key t ht := h'.instances key t (h.instances key t ht)

theorem of_grows (h : r.Grows r') (hu : r.usedNames ⊆ r'.usedNames) : r.Persists r' where
  has _ hx := h.has hx
  identity t ht := by rw [h.type ht]
  modules := Nat.le_of_eq (by rw [h.modules])
  moduleName m _ := h.moduleName m
  used := hu
  fullName t ht _ := h.fullName ht
  field f hf := h.field hf
  signature m hm := by rw [h.method hm]
  instances := h.instances

theorem useNames (r : Registry) (ts : List TypeId) : r.Persists (r.useNames ts) :=
  .of_grows (.useNames r ts) (usedNames_subset_useNames r ts)

end Persists

/-! ## keys that persist -/

theorem render_congr {d d' : TypeDecl} (hid : d'.identity = d.identity)
    (hnd : d.form.isDefinition = false) (hmodule : r'.moduleName d.module = r.moduleName d.module)
    (hname : ∀ u, .type u ∈ d.form.items → r'.fullName u = r.fullName u) :
    r'.render d' = r.render d := by
  have hm : d'.module = d.module := congrArg (·.1) hid
  have hn : d'.name = d.name := congrArg (·.2.1) hid
  have hf : d'.form = d.form := congrArg (·.2.2) hid
  unfold Registry.render Registry.withModuleName
  rw [hm, hn, hf, hmodule]
  cases hform : d.form with
  | defined kind params =>
    rw [hform] at hnd
    cases hnd
  | parameter index owner => rfl
  | constructed shape element =>
    rw [hform] at hname
    simp only [hname element (List.mem_singleton.mpr rfl)]
  | instantiated kind definition args =>
    rw [hform] at hname
    have hd := hname definition (List.mem_map_of_mem List.mem_cons_self)
    have hargs : args.map r'.fullName = args.map r.fullName :=
      List.map_congr_left fun a h => hname a (List.mem_map_of_mem (List.mem_cons_of_mem _ h))
    simp only [Registry.nameList, hd, hargs]

namespace Orderly

variable (ho : r.Orderly) (hp : r.Persists r')
include ho hp

theorem typeKey {t : TypeId} (ht : r.Has (.type t)) (hf : r.NameFixed t) :
    r'.typeKey t = r.typeKey t := by
  rw [Registry.typeKey, Registry.typeKey, hp.home ht, hp.moduleName _ (ho.placed t ht).home,
    hp.fullName t ht hf]

theorem constructedKey (shape : Shape) {e : TypeId} (he : r.Has (.type e)) (hf : r.NameFixed e) :
    r'.constructedKey shape e = r.constructedKey shape e := by
  rw [Registry.constructedKey, Registry.constructedKey, ho.typeKey hp he hf]

theorem instanceKeyOf {d : TypeId} {args : List TypeId} (hd : r.Has (.type d))
    (hfd : r.NameFixed d) (ha : ∀ a ∈ args, r.Has (.type a)) (hfa : ∀ a ∈ args, r.NameFixed a) :
    r'.instanceKeyOf d args = r.instanceKeyOf d args := by
  have hargs : args.map r'.typeKey = args.map r.typeKey :=
    List.map_congr_left fun a h => ho.typeKey hp (ha a h) (hfa a h)
  simp only [Registry.instanceKeyOf, Registry.instanceKey, ho.typeKey hp hd hfd, hargs]

theorem memoKey? {t : TypeId} (ht : r.Has (.type t)) : r'.memoKey? t = r.memoKey? t := by
  have hused := (ho.placed t ht).part_used
  have hpart : ∀ {x}, x ∈ (r.type t).form.items → r.Has x := ho.wellFormed.formOf ht
  unfold Registry.memoKey?
  rw [hp.form ht]
  cases hf : (r.type t).form with
  | defined kind params => rfl
  | parameter index owner => rfl
  | constructed shape element =>
    rw [hf] at hused hpart
    have he : Item.type element ∈ (TypeForm.constructed shape element).items :=
      List.mem_singleton.mpr rfl
    simp only [ho.constructedKey hp shape (hpart he) (.inl (hused rfl _ he))]
  | instantiated kind definition args =>
    rw [hf] at hused hpart
    have hd : Item.type definition ∈ (TypeForm.instantiated kind definition args).items :=
      List.mem_map_of_mem List.mem_cons_self
    have ha : ∀ a ∈ args, Item.type a ∈ (TypeForm.instantiated kind definition args).items :=
      fun a h => List.mem_map_of_mem (List.mem_cons_of_mem _ h)
    simp only [ho.instanceKeyOf hp (hpart hd) (.inl (hused rfl _ hd)) (fun a h => hpart (ha a h))
      fun a h => .inl (hused rfl _ (ha a h))]

/-- the names of types that are not definitions do not depend on the state they are rendered in -/
theorem render {t : TypeId} (ht : r.Has (.type t)) (hnd : (r.type t).form.isDefinition = false) :
    r'.render (r'.type t) = r.render (r.type t) := by
  refine render_congr (hp.identity t ht) hnd (hp.moduleName _ (ho.placed t ht).home) ?_
  intro u hu
  exact hp.fullName u (ho.wellFormed.formOf ht hu) (.inl ((ho.placed t ht).part_used hnd u hu))

theorem old {t : TypeId} (ht : r.Has (.type t)) : r'.Placed t := by
  have hplaced := ho.placed t ht
  have hform := hp.form ht
  refine ⟨?_, ?_, fun hnd u hu => ?_, fun hnd => ?_, fun d hd => ?_⟩
  · rw [hp.home ht]
    exact Nat.lt_of_lt_of_le hplaced.home hp.modules
  · rw [hform]
    exact hplaced.part_lt
  · rw [hform] at hnd hu
    exact hp.used (hplaced.part_used hnd u hu)
  · rw [hform] at hnd
    rw [ho.render hp ht hnd, hp.fullName t ht (.inr hnd), hplaced.rendered hnd]
  · rw [hform] at hd
    have hdhas := ho.wellFormed.definition ht hd
    have hdef := hplaced.definition d hd
    refine ⟨?_, ?_, ?_⟩
    · rw [hp.form hdhas, hdef.isDefinition]
    · rw [hp.home ht, hp.home hdhas, hdef.module]
    · rw [hp.simpleName ht, hp.simpleName hdhas, hdef.name]

/-- what is remembered stays remembered under its key -/
theorem memo_old {key : String} {t : TypeId} (hk : r.instances.get? key = some t) :
    r'.memoKey? t = some key := by
  rw [ho.memoKey? hp (ho.wellFormed.instance_ hk)]
  exact ho.memo key t hk

/-- a change that adds no type and remembers none -/
theorem of_persists (hw : r'.WellFormed) (hsize : r'.types.size = r.types.size)
    (hmemo : r'.instances = r.instances) : r'.Orderly := by
  refine ⟨hw, fun t ht => ho.old hp ?_, fun key t hk => ho.memo_old hp ?_⟩
  · have ht' : t.index < r'.types.size := ht
    rw [hsize] at ht'
    exact ht'
  · rw [hmemo] at hk
    exact hk

end Orderly

theorem Orderly.useNames (ho : r.Orderly) (ts : List TypeId) : (r.useNames ts).Orderly :=
  ho.of_persists (.useNames r ts) (ho.wellFormed.useNames ts) rfl rfl

/-! ## new types -/

theorem type_push (r : Registry) (d : TypeDecl) : (r.pushType d).type ⟨r.types.size⟩ = d := by
  simp [Registry.type, pushType]

def entitle (r : Registry) (d : TypeDecl) : TypeDecl :=
  { d with id := r.nextId, fullName := r.render d }

/-- A type can be added with the name it has, in a module of the program and over parts whose names
are in use. -/
theorem Orderly.push_type (ho : r.Orderly) {d : TypeDecl} (hitems : ∀ x ∈ d.items, r.Has x)
    (hhome : d.module.index < r.modules.size)
    (hused : d.form.isDefinition = false → ∀ u, .type u ∈ d.form.items → u ∈ r.usedNames)
    (hdef : ∀ c, d.form.definition? = some c → r.Defines c d) :
    (r.pushType (r.entitle d)).Orderly := by
  let named : TypeDecl := r.entitle d
  let s : Registry := r.pushType named
  have hg : r.Grows s := .push_type r named
  have hp : r.Persists s := .of_grows hg fun _ h => h
  have hw : s.WellFormed := ho.wellFormed.push_type (d := named) hitems
  have hparts : ∀ u, Item.type u ∈ d.form.items → r.Has (.type u) := fun u hu =>
    hitems _ (by simp [TypeDecl.items, hu])
  -- a type is the new one or was there
  have hcases : ∀ t, s.Has (.type t) → r.Has (.type t) ∨ t = ⟨r.types.size⟩ := by
    intro t ht
    have hlt : t.index < (r.types.push named).size := ht
    rw [Array.size_push] at hlt
    rcases Nat.lt_succ_iff_lt_or_eq.mp hlt with h | h
    · exact .inl h
    · right
      cases t
      cases h
      rfl
  have hnew : s.type ⟨r.types.size⟩ = named := type_push r named
  have hrender : named.form.isDefinition = false → s.render named = r.render d := fun hnd =>
    render_congr (d := d) rfl hnd rfl fun u hu => hg.fullName (hparts u hu)
  show s.Orderly
  refine ⟨hw, fun t ht => ?_, fun key t hk => ho.memo_old hp hk⟩
  rcases hcases t ht with h | rfl
  · exact ho.old hp h
  · refine ⟨?_, ?_, ?_, ?_, ?_⟩ <;> rw [hnew]
    · exact hhome
    · exact hparts
    · exact hused
    · intro hnd
      rw [Registry.fullName, hnew]
      exact (hrender hnd).symm
    · intro c hc
      have hcparts : r.Has (.type c) := hparts c (TypeForm.mem_items_of_definition? hc)
      have hcdef := hdef c hc
      refine ⟨?_, ?_, ?_⟩
      · rw [hp.form hcparts, hcdef.isDefinition]
      · rw [hp.home hcparts, ← hcdef.module]
        rfl
      · rw [hp.simpleName hcparts, ← hcdef.name]
        rfl

theorem Orderly.remember (ho : r.Orderly) {t : TypeId} (ht : r.Has (.type t)) {key : String}
    (hkey : r.memoKey? t = some key) (hnew : r.instances.get? key = none) :
    Orderly { r with instances := r.instances.insert key t } := by
  let s : Registry := { r with instances := r.instances.insert key t }
  have hp : r.Persists s := .of_grows (.insert_instance t hnew) fun _ h => h
  refine ⟨ho.wellFormed.insert_instance ht key, fun u hu => ho.old hp hu, fun key' u hu => ?_⟩
  have hu' : (r.instances.insert key t).get? key' = some u := hu
  by_cases hk : key' = key
  · subst hk
    rw [Table.get?_insert_self] at hu'
    cases hu'
    exact hkey
  · rw [Table.get?_insert_of_ne _ _ hk] at hu'
    exact ho.memo key' u hu'

end Registry

end ProgramScan

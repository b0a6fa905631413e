import Mathlib.Data.List.Forall2
import ProgramScan.Proofs.Registry.Orderly

/-!
# Answers that last

The answer of a substitution does not change while the program does, and so it does not change either
what it means to be a member with arguments for the parameters:

* `Registry.Lasting act a r`   whatever is done to `r`, `act` answers `a` and does no more than note
                               names in use;
* `Registry.Becomes`           a type with arguments for the type parameters, as a lasting answer;
* `Registry.MethodBecomes`     a method of an instance that belongs to one of the definition;
* `Registry.Populated`         base, interfaces, fields and methods of an instance are those of its
                               definition, in order, with the arguments for the parameters.
-/

namespace ProgramScan

namespace Registry

variable {α β : Type} {r r' : Registry}

/-! ## answers that last -/

/-- in every later state of `r`, `act` answers `a` and does no more than note names in use -/
def Lasting (act : Action α) (a : α) (r : Registry) : Prop :=
  ∀ r', r.Persists r' → r'.Orderly → ∃ ts, act r' = .ok a (r'.useNames ts)

namespace Lasting

theorem mono {act : Action α} {a : α} (h : Lasting act a r) (hp : r.Persists r') :
    Lasting act a r' :=
  fun s hs ho => h s (hp.trans hs) ho

/-- a lasting answer is the answer now -/
theorem run {act : Action α} {a : α} (h : Lasting act a r) (ho : r.Orderly) :
    ∃ ts, act r = .ok a (r.useNames ts) :=
  h r (.refl r) ho

theorem unique {act : Action α} {a b : α} (ho : r.Orderly) (ha : Lasting act a r)
    (hb : Lasting act b r) : a = b := by
  obtain ⟨ts, hts⟩ := ha.run ho
  obtain ⟨us, hus⟩ := hb.run ho
  rw [hts] at hus
  exact (EStateM.Result.ok.inj hus).1

theorem pure (a : α) (r : Registry) : Lasting (Pure.pure a) a r :=
  fun _ _ _ => ⟨[], rfl⟩

theorem bind {x : Action α} {k : α → Action β} {a : α} {b : β} (hx : Lasting x a r)
    (hk : Lasting (k a) b r) : Lasting (x >>= k) b r := by
  intro s hs ho
  obtain ⟨ts, hts⟩ := hx s hs ho
  obtain ⟨us, hus⟩ := hk (s.useNames ts) (hs.trans (.useNames s ts)) (ho.useNames ts)
  refine ⟨ts ++ us, ?_⟩
  rw [bind_apply, hts]
  rw [useNames_useNames] at hus
  exact hus

theorem mapM {f : α → Action β} {as : List α} {bs : List β}
    (h : List.Forall₂ (fun a b => Lasting (f a) b r) as bs) : Lasting (as.mapM f) bs r := by
  induction h with
  | nil => exact pure [] r
  | cons hab _ ih =>
    rw [List.mapM_cons]
    exact hab.bind (ih.bind (pure _ r))

end Lasting

/-! ## members with arguments -/

/-- `u` with the arguments for the type parameters is `v` -/
def Becomes (r : Registry) (args : List TypeId) (u v : TypeId) : Prop :=
  Lasting (substitute ⟨args, []⟩ u) v r

/-- the parameter of a method of an instance that belongs to one of the definition -/
def ParamBecomes (r : Registry) (args : List TypeId) (p q : Param) : Prop :=
  ∃ type, r.Becomes args p.type type ∧ q = { p with type }

/-- the field of an instance that belongs to a field of the definition -/
def FieldBecomes (r : Registry) (inst : TypeId) (args : List TypeId) (f g : FieldId) : Prop :=
  ∃ type, r.Becomes args (r.field f).type type ∧
    r.field g = { r.field f with declaring := inst, type }

/-- the method of an instance that belongs to a method of the definition, apart from its body -/
def MethodBecomes (r : Registry) (inst : TypeId) (args : List TypeId) (m n : MethodId) : Prop :=
  ∃ returnType params, r.Becomes args (r.method m).returnType returnType ∧
    List.Forall₂ (r.ParamBecomes args) (r.method m).params params ∧
    (r.method n).signature =
      { r.method m with
        declaring := some inst, returnType, params, origin := .memberOf m, body := none }

/-- The record of an instance has the given base, interfaces, fields and methods with the arguments for
the type parameters, and no others. -/
structure Carries (r : Registry) (inst : TypeId) (args : List TypeId) (d : TypeDecl)
    (base : Option TypeId) (interfaces : List TypeId) (fields : List FieldId)
    (methods : List MethodId) : Prop where
  base : Option.Rel (r.Becomes args) base d.base
  interfaces : List.Forall₂ (r.Becomes args) interfaces d.interfaces
  fields : List.Forall₂ (r.FieldBecomes inst args) fields d.fields
  methods : List.Forall₂ (r.MethodBecomes inst args) methods d.methods

/-- The instance has the members of its definition with the arguments for the type parameters. -/
def Populated (r : Registry) (inst definition : TypeId) (args : List TypeId) : Prop :=
  let d := r.type definition
  r.Carries inst args (r.type inst) d.base d.interfaces d.fields d.methods

/-! ## members that stay -/

theorem forall₂_imp_of_mem {R S : α → β → Prop} {as : List α} {bs : List β}
    (h : List.Forall₂ R as bs) (himp : ∀ a ∈ as, ∀ b ∈ bs, R a b → S a b) :
    List.Forall₂ S as bs := by
  induction h with
  | nil => exact .nil
  | @cons a b as bs hab _ ih =>
    refine .cons (himp a List.mem_cons_self b List.mem_cons_self hab) (ih ?_)
    intro c hc d hd
    exact himp c (List.mem_cons_of_mem _ hc) d (List.mem_cons_of_mem _ hd)

theorem forall_of_forall₂ {R : α → β → Prop} {P : β → Prop} {as : List α} {bs : List β}
    (h : List.Forall₂ R as bs) (hP : ∀ a b, R a b → P b) : ∀ b ∈ bs, P b := by
  induction h with
  | nil =>
    intro b hb
    cases hb
  | @cons a b as bs hab _ ih =>
    intro c hc
    rcases List.mem_cons.mp hc with rfl | hc
    · exact hP a c hab
    · exact ih c hc

/-- two lists that belong to one list -/
theorem forall₂_of_common {γ : Type} {R : α → β → Prop} {R' : α → γ → Prop} {S : β → γ → Prop}
    {as : List α} {bs : List β} {cs : List γ} (h : List.Forall₂ R as bs) (h' : List.Forall₂ R' as cs)
    (himp : ∀ a ∈ as, ∀ b c, R a b → R' a c → S b c) : List.Forall₂ S bs cs := by
  induction h generalizing cs with
  | nil =>
    cases h'
    exact .nil
  | @cons a b as bs hab _ ih =>
    cases h' with
    | cons hac hrest =>
      exact .cons (himp a List.mem_cons_self b _ hab hac)
        (ih hrest fun a ha => himp a (List.mem_cons_of_mem _ ha))

theorem exists_of_forall₂ {R : α → β → Prop} {as : List α} {bs : List β}
    (h : List.Forall₂ R as bs) : ∀ b ∈ bs, ∃ a ∈ as, R a b :=
  forall_of_forall₂ (forall₂_imp_of_mem (S := fun a b => a ∈ as ∧ R a b) h
    fun _ ha _ _ hab => ⟨ha, hab⟩) fun a _ hab => ⟨a, hab⟩

section
variable (hp : r.Persists r')
include hp

theorem Becomes.mono {args : List TypeId} {u v : TypeId} (h : r.Becomes args u v) :
    r'.Becomes args u v :=
  Lasting.mono h hp

theorem ParamBecomes.mono {args : List TypeId} {p q : Param} (h : r.ParamBecomes args p q) :
    r'.ParamBecomes args p q := by
  obtain ⟨type, ht, hq⟩ := h
  exact ⟨type, ht.mono hp, hq⟩

theorem FieldBecomes.mono {inst : TypeId} {args : List TypeId} {f g : FieldId}
    (h : r.FieldBecomes inst args f g) (hf : r.Has (.field f)) (hg : r.Has (.field g)) :
    r'.FieldBecomes inst args f g := by
  obtain ⟨type, ht, hfg⟩ := h
  refine ⟨type, ?_, ?_⟩
  · rw [hp.field f hf]
    exact ht.mono hp
  · rw [hp.field f hf, hp.field g hg, hfg]

theorem MethodBecomes.mono {inst : TypeId} {args : List TypeId} {m n : MethodId}
    (h : r.MethodBecomes inst args m n) (hm : r.Has (.method m)) (hn : r.Has (.method n)) :
    r'.MethodBecomes inst args m n := by
  obtain ⟨returnType, params, ht, hps, hmn⟩ := h
  have hs := hp.signature m hm
  have hreturn : (r'.method m).returnType = (r.method m).returnType :=
    congrArg (·.returnType) hs
  have hparams : (r'.method m).params = (r.method m).params := congrArg (·.params) hs
  refine ⟨returnType, params, ?_, ?_, ?_⟩
  · rw [hreturn]
    exact ht.mono hp
  · rw [hparams]
    exact hps.imp fun _ _ h => ParamBecomes.mono hp h
  · rw [hp.signature n hn, hmn]
    -- the two records of `m` differ in their bodies at most
    exact congrArg (fun d : Method =>
      { d with declaring := some inst, returnType, params, origin := .memberOf m }) hs.symm

/-- what a record carries stays as it was made -/
theorem Carries.mono {inst : TypeId} {args : List TypeId} {d : TypeDecl} {base : Option TypeId}
    {interfaces : List TypeId} {fields : List FieldId} {methods : List MethodId}
    (h : r.Carries inst args d base interfaces fields methods)
    (hf : ∀ f ∈ fields ++ d.fields, r.Has (.field f))
    (hm : ∀ m ∈ methods ++ d.methods, r.Has (.method m)) :
    r'.Carries inst args d base interfaces fields methods := by
  refine ⟨?_, h.interfaces.imp fun _ _ hi => hi.mono hp, ?_, ?_⟩
  · have hb := h.base
    generalize d.base = b at hb ⊢
    cases hb with
    | some hb => exact .some (hb.mono hp)
    | none => exact .none
  · refine forall₂_imp_of_mem h.fields fun f hff g hg hfg => ?_
    exact hfg.mono hp (hf f (List.mem_append_left _ hff)) (hf g (List.mem_append_right _ hg))
  · refine forall₂_imp_of_mem h.methods fun m hmm n hn hmn => ?_
    exact hmn.mono hp (hm m (List.mem_append_left _ hmm)) (hm n (List.mem_append_right _ hn))

end

theorem Carries.congr {inst : TypeId} {args : List TypeId} {d d' : TypeDecl} {base : Option TypeId}
    {interfaces : List TypeId} {fields : List FieldId} {methods : List MethodId}
    (h : r.Carries inst args d base interfaces fields methods) (hd : d'.members = d.members) :
    r.Carries inst args d' base interfaces fields methods := by
  have hbase : d'.base = d.base := congrArg (·.1) hd
  have hifaces : d'.interfaces = d.interfaces := congrArg (·.2.1) hd
  have hfs : d'.fields = d.fields := congrArg (·.2.2.1) hd
  have hms : d'.methods = d.methods := congrArg (·.2.2.2) hd
  exact ⟨hbase ▸ h.base, hifaces ▸ h.interfaces, hfs ▸ h.fields, hms ▸ h.methods⟩

end Registry

end ProgramScan

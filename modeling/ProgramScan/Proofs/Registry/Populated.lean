import ProgramScan.Proofs.Registry.Listed

/-!
# Instances that have their members

An instance gets the members of its definition when it is made.  They stay as long as nothing changes
the members of the instance or of the definition.

* `Registry.Remembers`   every type that was made on demand is remembered;
* `Registry.After`       an orderly later state in which only given types have other members;
* `Registry.Step`        such a state in which every new instance is populated.
-/

namespace ProgramScan

/-- constructed types and instances are made on demand -/
def TypeForm.isMade : TypeForm → Bool
  | .constructed _ _ => true
  | .instantiated _ _ _ => true
  | _ => false

namespace Registry

variable {r r' r'' : Registry}

/-! ## types made on demand -/

/-- The type is remembered.  An instance has other arguments than the parameters of its definition. -/
structure Remembered (r : Registry) (t : TypeId) : Prop where
  known : ∃ key, r.instances.get? key = some t
  foreign : ∀ kind definition args, (r.type t).form = .instantiated kind definition args →
    (r.type definition).form.genericArgs ≠ args

def Remembers (r : Registry) : Prop :=
  ∀ t, r.Has (.type t) → (r.type t).form.isMade = true → r.Remembered t

theorem Remembers.later (h : r.Remembers) (hw : r.WellFormed) (hp : r.Persists r')
    (hnew : ∀ t, ¬ r.Has (.type t) → r'.Has (.type t) → (r'.type t).form.isMade = true →
      r'.Remembered t) : r'.Remembers := by
  intro t ht hmade
  by_cases ht₀ : r.Has (.type t)
  · have hform := hp.form ht₀
    obtain ⟨⟨key, hk⟩, hforeign⟩ := h t ht₀ (by rwa [← hform])
    refine ⟨⟨key, hp.instances key t hk⟩, fun kind definition args hf => ?_⟩
    rw [hform] at hf
    rw [hp.form (hw.definition ht₀ (by rw [hf]; rfl))]
    exact hforeign kind definition args hf
  · exact hnew t ht₀ ht hmade

/-! ## members -/

/-- `r'` is an orderly later state of `r`, and only types of `changed` have other members there.  Lists
that were in order still are, and so is what is remembered. -/
structure After (changed : List TypeId) (r r' : Registry) : Prop where
  persists : r.Persists r'
  orderly : r'.Orderly
  listed : r.Listed → r'.Listed
  remembers : r.Remembers → r'.Remembers
  members : ∀ t, r.Has (.type t) → t ∉ changed → (r'.type t).members = (r.type t).members

namespace After

variable {changed : List TypeId}

theorem refl (ho : r.Orderly) : After changed r r :=
  ⟨.refl r, ho, id, id, fun _ _ _ => rfl⟩

theorem trans (h : After changed r r') (h' : After changed r' r'') : After changed r r'' where
  persists := h.persists.trans h'.persists
  orderly := h'.orderly
  listed hl := h'.listed (h.listed hl)
  remembers hr := h'.remembers (h.remembers hr)
  members t ht hc := (h'.members t (h.persists.has _ ht) hc).trans (h.members t ht hc)

theorem mono {more : List TypeId} (h : After changed r r') (hsub : changed ⊆ more) :
    After more r r' :=
  ⟨h.persists, h.orderly, h.listed, h.remembers,
    fun t ht hc => h.members t ht fun hin => hc (hsub hin)⟩

end After

/-- an instance stays populated while its members and those of its definition stay -/
theorem Populated.later {changed : List TypeId} {inst definition : TypeId} {args : List TypeId}
    (h : r.Populated inst definition args) (ha : After changed r r') (hw : r.WellFormed)
    (hi : r.Has (.type inst)) (hd : r.Has (.type definition)) (hci : inst ∉ changed)
    (hcd : definition ∉ changed) : r'.Populated inst definition args := by
  have hm := ha.members definition hd hcd
  have hbase : (r'.type definition).base = (r.type definition).base := congrArg (·.1) hm
  have hifaces : (r'.type definition).interfaces = (r.type definition).interfaces :=
    congrArg (·.2.1) hm
  have hfs : (r'.type definition).fields = (r.type definition).fields := congrArg (·.2.2.1) hm
  have hms : (r'.type definition).methods = (r.type definition).methods := congrArg (·.2.2.2) hm
  show r'.Carries inst args _ _ _ _ _
  rw [hbase, hifaces, hfs, hms]
  refine (Carries.mono ha.persists h ?_ ?_).congr (ha.members inst hi hci)
  · intro f hf
    rcases List.mem_append.mp hf with hf | hf
    · exact hw.fieldOf hd hf
    · exact hw.fieldOf hi hf
  · intro m hm
    rcases List.mem_append.mp hm with hm | hm
    · exact hw.methodOf hd hm
    · exact hw.methodOf hi hm

/-! ## steps -/

/-- `r'` is an orderly later state of `r`, only types of `changed` have other members there, and the
new instances are populated. -/
structure Step (changed : List TypeId) (r r' : Registry) : Prop extends After changed r r' where
  populated : ∀ t, ¬ r.Has (.type t) → r'.Has (.type t) → ∀ kind definition args,
    (r'.type t).form = .instantiated kind definition args → t ∉ changed → definition ∉ changed →
    r'.Populated t definition args

namespace Step

variable {changed : List TypeId}

theorem refl (ho : r.Orderly) : Step changed r r :=
  { After.refl ho with populated := fun _ hn ht => absurd ht hn }

theorem trans (h : Step changed r r') (h' : Step changed r' r'') : Step changed r r'' where
  toAfter := h.toAfter.trans h'.toAfter
  populated t hn ht kind definition args hf hct hcd := by
    by_cases ht' : r'.Has (.type t)
    · have hf' : (r'.type t).form = .instantiated kind definition args := by
        rw [← h'.persists.form ht', hf]
      have hd : r'.Has (.type definition) :=
        h.orderly.wellFormed.definition ht' (by rw [hf']; rfl)
      exact (h.populated t hn ht' kind definition args hf' hct hcd).later h'.toAfter
        h.orderly.wellFormed ht' hd hct hcd
    · exact h'.populated t ht' ht kind definition args hf hct hcd

theorem mono {more : List TypeId} (h : Step changed r r') (hsub : changed ⊆ more) :
    Step more r r' where
  toAfter := h.toAfter.mono hsub
  populated t hn ht kind definition args hf hct hcd :=
    h.populated t hn ht kind definition args hf (fun hin => hct (hsub hin)) fun hin => hcd (hsub hin)

/-- a change that adds no type and remembers none -/
theorem of_persists (ho : r.Orderly) (hp : r.Persists r') (hw : r'.WellFormed)
    (hsize : r'.types.size = r.types.size) (hmemo : r'.instances = r.instances)
    (hl : r.Listed → r'.Listed)
    (hm : ∀ t, r.Has (.type t) → t ∉ changed → (r'.type t).members = (r.type t).members) :
    Step changed r r' :=
  have hold : ∀ t, r'.Has (.type t) → r.Has (.type t) := fun t ht => by
    have ht' : t.index < r'.types.size := ht
    rw [hsize] at ht'
    exact ht'
  { persists := hp
    orderly := ho.of_persists hp hw hsize hmemo
    listed := hl
    remembers := fun hr => hr.later ho.wellFormed hp fun t hn ht => absurd (hold t ht) hn
    members := hm
    populated := fun t hn ht => absurd (hold t ht) hn }

/-- a change that adds no type and no method, and remembers nothing -/
theorem of_same (ho : r.Orderly) (hp : r.Persists r') (hw : r'.WellFormed)
    (hsize : r'.types.size = r.types.size) (hmemo : r'.instances = r.instances)
    (hmethods : r'.methods.size = r.methods.size)
    (hlists : ∀ t, (r'.type t).fields = (r.type t).fields ∧ (r'.type t).methods = (r.type t).methods)
    (hm : ∀ t, r.Has (.type t) → t ∉ changed → (r'.type t).members = (r.type t).members) :
    Step changed r r' :=
  .of_persists ho hp hw hsize hmemo
    (fun hl => hl.same ho.wellFormed hp hsize hmethods hlists) hm

theorem useNames (ho : r.Orderly) (ts : List TypeId) : Step changed r (r.useNames ts) :=
  .of_same ho (.useNames r ts) (ho.wellFormed.useNames ts) rfl rfl rfl (fun _ => ⟨rfl, rfl⟩)
    fun _ _ _ => rfl

end Step

end Registry

end ProgramScan

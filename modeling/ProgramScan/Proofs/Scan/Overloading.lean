import ProgramScan.Label
import ProgramScan.Plug.Manager
import ProgramScan.Scan.Uid
import ProgramScan.Proofs.Registry.Discernible
import ProgramScan.Proofs.Text.Blanks
import ProgramScan.Proofs.Text.Bytes

/-!
# Overloads are told apart

Methods of one type can have one name.  Their identity keys show what they return, the arguments of
instances and the parameters, and so what a scan remembers of one overload is not taken for another.
A leading parameter `aThis` does not show, and types show without their modules.

* `Registry.Separable`         names that can be told from what joins them;
* `Registry.Signature`         what the key of a method shows besides the type that declares it;
* `Separable.signature_inj`    methods of one type with one key have one signature;
* `Registry.KeptApart`         what is remembered of one method is not taken for the other;
* `keptApart_of_differ`        overloads with different signatures are kept apart;
* `sameKey_overloads`          overloads that are not.
-/

namespace ProgramScan

open Text

/-- a text with blanks behind commas and without parentheses -/
structure Plain (s : String) : Prop where
  spaced : Spaced s.toList
  flat : '(' ∉ s.toList

/-- a text that can stand for a type in a signature -/
structure Showable (s : String) : Prop extends Plain s where
  closed : Closed s.toList
  nonempty : s ≠ ""

namespace Plain

variable {s t : String}

/-- no blanks and no parentheses -/
theorem of_not_mem (h : ' ' ∉ s.toList ∧ '(' ∉ s.toList) : Plain s := ⟨.of_not_mem h.1, h.2⟩

theorem append (hs : Plain s) (ht : Plain t) : Plain (s ++ t) where
  spaced := by
    rw [String.toList_append]
    exact hs.spaced.append ht.spaced
  flat := by
    rw [String.toList_append, List.mem_append]
    exact fun h => h.elim hs.flat ht.flat

theorem intercalate {names : List String} (h : ∀ n ∈ names, Plain n) :
    Plain (String.intercalate ", " names) := by
  induction names with
  | nil => exact .of_not_mem (by decide)
  | cons s names ih =>
    obtain ⟨hs, hrest⟩ := List.forall_mem_cons.mp h
    cases names with
    | nil => rwa [String.intercalate_singleton]
    | cons t names =>
      rw [String.intercalate_cons_cons]
      exact (hs.append (t := ", ") ⟨.separator, by decide⟩).append (ih hrest)

theorem render (shape : Shape) (hs : Plain s) : Plain (shape.render s) := by
  cases shape with
  | szArray => exact hs.append (.of_not_mem (by decide))
  | pointer => exact hs.append (.of_not_mem (by decide))
  | byRef => exact Plain.append (.of_not_mem (by decide)) hs
  | array rank =>
    refine ((hs.append (.of_not_mem (by decide))).append (.of_not_mem ?_)).append
      (.of_not_mem (by decide))
    simp

end Plain

namespace Showable

theorem intercalate_ne {names : List String} (h : ∀ n ∈ names, Showable n) (hne : names ≠ []) :
    String.intercalate ", " names ≠ "" := by
  obtain ⟨s, names, rfl⟩ := List.exists_cons_of_ne_nil hne
  have hs := h s List.mem_cons_self
  cases names with
  | nil =>
    rw [String.intercalate_singleton]
    exact hs.nonempty
  | cons t names =>
    rw [String.intercalate_cons_cons]
    simp [hs.nonempty]

/-- names that were joined can be told apart -/
theorem intercalate_inj {ss ts : List String} (hss : ∀ s ∈ ss, Showable s)
    (hts : ∀ t ∈ ts, Showable t)
    (h : String.intercalate ", " ss = String.intercalate ", " ts) : ss = ts := by
  by_cases hs : ss = []
  · by_contra hne
    subst hs
    exact intercalate_ne hts (Ne.symm hne) h.symm
  · by_cases ht : ts = []
    · subst ht
      exact absurd h (intercalate_ne hss hs)
    · exact Registry.eq_of_intercalate_eq (w := [' ']) rfl (fun s hs => (hss s hs).closed)
        (fun t ht => (hts t ht).closed) hs ht h

theorem render (shape : Shape) {s : String} (hs : Showable s) : Showable (shape.render s) where
  toPlain := hs.toPlain.render shape
  closed := shape.closed_render hs.closed
  nonempty := by cases shape <;> simp [Shape.render]

end Showable

namespace Registry

variable {r : Registry} {t u : TypeId} {m n : MethodId}

/-! ## names of types -/

/-- Names hold no blanks and no parentheses, and have matching brackets.  Those of methods do not
end like a group of arguments, and those of types are not empty. -/
structure Separable (r : Registry) : Prop where
  modules : ∀ d ∈ r.modules.toList,
    (' ' ∉ d.name.toList ∧ '(' ∉ d.name.toList) ∧ Closed d.name.toList
  types : ∀ d ∈ r.types.toList, (d.form.isDefinition || d.form.isParameter) = true →
    (' ' ∉ d.fullName.toList ∧ '(' ∉ d.fullName.toList) ∧ Closed d.fullName.toList ∧
      d.fullName ≠ ""
  methods : ∀ d ∈ r.methods.toList,
    Inner d.name.toList ∧ '(' ∉ d.name.toList ∧ d.name.toList.getLast? ≠ some '>'

instance (r : Registry) : Decidable r.Separable :=
  decidable_of_iff (_ ∧ _ ∧ _) ⟨fun h => ⟨h.1, h.2.1, h.2.2⟩, fun h => ⟨h.1, h.2, h.3⟩⟩

/-- What the key of a method shows besides the type that declares it: the name of what it returns,
its own name, and the names of the arguments of an instance and of the parameters. -/
structure Signature where
  result : String
  name : String
  args : List String
  params : List String
  deriving DecidableEq

def signature (r : Registry) (m : MethodId) : Signature :=
  let d := r.method m
  { result := if d.isConstructor then "System.Void" else r.fullName d.returnType
    name := d.name
    args := if d.isGenericInstance then d.genericArgs.map r.fullName else []
    params := (shownParams d.params).map fun p => r.fullName p.type }

def Signature.render (s : Signature) (owner : String) : String :=
  s.result ++ "  " ++ owner ++ "." ++ s.name ++
    (if s.args.isEmpty then "" else "<" ++ String.intercalate ", " s.args ++ ">") ++
    "(" ++ String.intercalate ", " s.params ++ ")"

/-- Its parts can stand in signatures, and its own name can be told from what is behind it. -/
structure Signature.Apart (s : Signature) : Prop where
  result : Showable s.result
  name : Inner s.name.toList ∧ '(' ∉ s.name.toList ∧ s.name.toList.getLast? ≠ some '>'
  args : ∀ a ∈ s.args, Showable a
  params : ∀ p ∈ s.params, Showable p

/-- the arguments of an instance with their brackets -/
def Signature.group (s : Signature) : Option (List Char) :=
  if s.args.isEmpty then none else some (String.intercalate ", " s.args).toList

theorem Signature.toList_render (s : Signature) (owner : String) :
    (s.render owner).toList = s.result.toList ++ ' ' :: ' ' :: (owner.toList ++
      '.' :: ((s.name.toList ++ angles s.group) ++
        '(' :: ((String.intercalate ", " s.params).toList ++ [')']))) := by
  unfold render group
  split <;> simp [angles]

namespace Signature.Apart

variable {s s' : Signature} {owner : String}

theorem group (hs : s.Apart) : ∀ g ∈ s.group, Inner g ∧ '(' ∉ g := by
  intro g hg
  unfold Signature.group at hg
  split at hg
  · cases hg
  · cases hg
    exact ⟨inner_intercalate (w := [' ']) rfl rfl fun a ha => (hs.args a ha).closed,
      (Plain.intercalate fun a ha => (hs.args a ha).toPlain).flat⟩

/-- no parenthesis comes before the parameters -/
theorem not_mem_head (hs : s.Apart) : '(' ∉ s.name.toList ++ angles s.group := by
  rw [List.mem_append]
  refine fun h => h.elim hs.name.2.1 fun h => ?_
  cases hg : s.group with
  | none => simp [hg, angles] at h
  | some g => simp [hg, angles, (hs.group g hg).2] at h

/-- the arguments of instances are read off their group -/
theorem args_inj (hs : s.Apart) (hs' : s'.Apart) (h : s.group = s'.group) : s.args = s'.args := by
  unfold Signature.group at h
  split at h
  · split at h
    · simp_all
    · cases h
  · split at h
    · cases h
    · exact Showable.intercalate_inj hs.args hs'.args (String.toList_inj.mp (Option.some.inj h))

end Signature.Apart

/-- a signature is read off the name that it gives -/
theorem Signature.render_inj {s s' : Signature} {owner : String} (hs : s.Apart) (hs' : s'.Apart)
    (h : s.render owner = s'.render owner) : s = s' := by
  have hlist := congrArg String.toList h
  rw [toList_render, toList_render] at hlist
  obtain ⟨hresult, hrest⟩ := Spaced.cut_inj hs.result.closed hs'.result.closed hs.result.spaced
    hs'.result.spaced hlist
  have hbehind := (List.cons.inj (List.append_cancel_left (List.cons.inj hrest).2)).2
  obtain ⟨hhead, hparams⟩ := append_cons_inj_left hbehind hs.not_mem_head hs'.not_mem_head
  obtain ⟨hname, hgroup⟩ := angles_inj hs.name.1 hs'.name.1 hs.name.2.2 hs'.name.2.2
    (fun g hg => (hs.group g hg).1) (fun g hg => (hs'.group g hg).1) hhead
  have hjoined := String.toList_inj.mp (List.append_cancel_right hparams)
  calc s = ⟨s.result, s.name, s.args, s.params⟩ := rfl
    _ = ⟨s'.result, s'.name, s'.args, s'.params⟩ := by
      rw [String.toList_inj.mp hresult, String.toList_inj.mp hname, hs.args_inj hs' hgroup,
        Showable.intercalate_inj hs.params hs'.params hjoined]

theorem methodKey_eq_render (h : (r.method m).declaring = some t) : r.methodKey m =
    "M:" ++ r.moduleName (r.type t).module ++ ":" ++ (r.signature m).render (r.fullName t) := by
  have hargs : (if (r.method m).isGenericInstance && !(r.method m).genericArgs.isEmpty then
      "<" ++ r.nameList (r.method m).genericArgs ++ ">" else "") =
      if (r.signature m).args.isEmpty then ""
      else "<" ++ String.intercalate ", " (r.signature m).args ++ ">" := by
    by_cases hi : (r.method m).isGenericInstance = true
    · cases hg : (r.method m).genericArgs <;> simp [signature, nameList, hi, hg]
    · simp [signature, hi]
  simp only [methodKey, methodModuleName, methodName, Signature.render, h, hargs]
  simp only [signature, nameList, List.map_map, Function.comp_def]

namespace Separable

variable (hs : r.Separable) (ho : r.Orderly)
include hs

theorem showable_withModuleName {d : TypeDecl} (hd : d.module.index < r.modules.size) {s : String}
    (h : Showable s) : Showable (r.withModuleName d s) := by
  unfold Registry.withModuleName
  split
  · obtain ⟨⟨hblank, hflat⟩, hclosed⟩ := hs.modules (r.module d.module) (module_mem_of_lt hd)
    refine ⟨Plain.append (.of_not_mem ?_) h.toPlain, ?_, by simp [h.nonempty]⟩
    · rw [String.toList_ofList]
      exact ⟨fun hmem => hblank (List.mem_of_mem_filter hmem),
        fun hmem => hflat (List.mem_of_mem_filter hmem)⟩
    · rw [String.toList_append, String.toList_ofList]
      exact hclosed.filter_dot.append h.closed
  · exact h

include ho

theorem showable_fullName (ht : r.Has (.type t)) : Showable (r.fullName t) := by
  refine ho.fullName_of_parts (fun d hd hform => ?_) (fun shape _ h => h.render shape)
    (fun s names h hnames => ?_) (fun d _ hd h => hs.showable_withModuleName hd h) ht
  · obtain ⟨hplain, hclosed, hne⟩ := hs.types d hd hform
    exact ⟨.of_not_mem hplain, hclosed, hne⟩
  · have hlist := Plain.intercalate fun n hn => (hnames n hn).toPlain
    have hplain := ((h.toPlain.append (t := "<") (.of_not_mem (by decide))).append hlist).append
      (t := ">") (.of_not_mem (by decide))
    exact ⟨hplain, closed_applied h.closed fun n hn => (hnames n hn).closed, by simp⟩

theorem signature_apart (hm : r.Has (.method m)) : (r.signature m).Apart := by
  have hw := ho.wellFormed
  have hshow {t : TypeId} (ht : r.Has (.type t)) : Showable (r.fullName t) :=
    hs.showable_fullName ho ht
  refine ⟨?_, hs.methods _ (method_mem hm), ?_, List.forall_mem_map.mpr fun p hp => hshow ?_⟩
  · unfold signature
    dsimp only
    split
    · exact ⟨.of_not_mem (by decide), by decide, by decide⟩
    · exact hshow (hw.returnType hm)
  · unfold signature
    dsimp only
    split
    · exact List.forall_mem_map.mpr fun t ht => hshow (hw.genericArg hm ht)
    · exact List.forall_mem_nil _
  · exact hw.param hm (List.mem_map_of_mem (mem_of_mem_shownParams hp))

/-- **Methods of one type with one key have one signature.** -/
theorem signature_inj (hm : r.Has (.method m)) (hn : r.Has (.method n))
    (hmt : (r.method m).declaring = some t) (hnt : (r.method n).declaring = some t)
    (h : r.methodKey m = r.methodKey n) : r.signature m = r.signature n := by
  rw [methodKey_eq_render hmt, methodKey_eq_render hnt] at h
  have hrender := (String.append_right_inj _).mp h
  exact Signature.render_inj (hs.signature_apart ho hm) (hs.signature_apart ho hn) hrender

end Separable

/-! ## what is remembered of overloads -/

/-- entering an element leaves what entered under other identities -/
theorem push_of_ne {x : Item} {key : String} (h : r.itemKey x ≠ key) (q : WorkQueue)
    (reason : Reason) (source : Option String) :
    (q.push r x reason source).hasKey key = q.hasKey key ∧
      (q.push r x reason source).entries.find? (·.key == key) =
        q.entries.find? (·.key == key) := by
  have hnew : (r.itemKey x == key) = false := beq_false_of_ne h
  simp only [WorkQueue.push]
  split
  · exact ⟨rfl, rfl⟩
  · simp [WorkQueue.hasKey, hnew]

/-- handing out a label leaves the labels of other identities -/
theorem methodLabel_of_ne {key : String} (h : key ≠ r.methodKey m) (c : LabelCache) :
    (c.methodLabel r m).2.labels.get? key = c.labels.get? key := by
  simp only [LabelCache.methodLabel]
  split
  · rfl
  · exact Table.get?_insert_of_ne _ _ h

theorem resolvePlug_of_ne {p p' : PlugManager} {answer : Option MethodId} {r' : Registry}
    {key : String} (h : key ≠ r.methodKey m)
    (hrun : PlugManager.resolvePlug p m r = .ok (answer, p') r') :
    p'.resolved.get? key = p.resolved.get? key := by
  rw [PlugManager.resolvePlug, get_bind_apply, modify_bind_apply] at hrun
  cases hkey : p.resolved.get? (r.methodKey m) with
  | some known =>
    simp only [hkey] at hrun
    cases hrun
    rfl
  | none =>
    simp only [hkey] at hrun
    obtain ⟨found, s, -, hrun⟩ := bind_eq_ok_iff.mp hrun
    cases hrun
    exact Table.get?_insert_of_ne _ _ h

theorem get?_insertNew_of_ne {t : Table String Nat} {key other : String} (h : key ≠ other)
    (k : Nat) : (t.insertNew other k).get? key = t.get? key := by
  unfold Table.insertNew
  split
  · rfl
  · exact Table.get?_insert_of_ne _ _ h

/-- handing out a number leaves the numbers of methods that are not it and not its owner -/
theorem methodUid_of_ne {key : String} (h : key ≠ r.methodKey m)
    (howner : key ≠ r.methodKey (r.uidOwner m)) (u : Uids) :
    (u.methodUid r m).2.methods.get? key = u.methods.get? key := by
  simp only [Uids.methodUid]
  cases u.methods.get? (r.methodKey m) with
  | some uid => rfl
  | none =>
    simp only [Uids.numberOf]
    cases u.methods.get? (r.methodKey (r.uidOwner m)) with
    | some uid => exact get?_insertNew_of_ne h _
    | none =>
      refine (get?_insertNew_of_ne h _).trans ?_
      exact Table.get?_insert_of_ne _ _ howner

/-- What is remembered of `m` is not taken for `n`: not in the queue, in the labels, among the plugs
that were found, and among the numbers of methods, unless it is `n` whose number `m` has. -/
structure KeptApart (r : Registry) (m n : MethodId) : Prop where
  queue (q : WorkQueue) (reason : Reason) (source : Option String) :
    (q.push r (.method m) reason source).contains r (.method n) = q.contains r (.method n) ∧
      (q.push r (.method m) reason source).canonicalMethod? r n = q.canonicalMethod? r n
  labels (c : LabelCache) :
    (c.methodLabel r m).2.labels.get? (r.methodKey n) = c.labels.get? (r.methodKey n)
  plugs {p p' : PlugManager} {answer : Option MethodId} {r' : Registry} :
    PlugManager.resolvePlug p m r = .ok (answer, p') r' →
      p'.resolved.get? (r.methodKey n) = p.resolved.get? (r.methodKey n)
  numbers (u : Uids) : r.methodKey n ≠ r.methodKey (r.uidOwner m) →
    (u.methodUid r m).2.methods.get? (r.methodKey n) = u.methods.get? (r.methodKey n)

theorem KeptApart.of_key_ne (h : r.methodKey m ≠ r.methodKey n) : r.KeptApart m n where
  queue q reason source := by
    obtain ⟨hkey, hfound⟩ := push_of_ne (x := .method m) h q reason source
    exact ⟨hkey, by simp only [WorkQueue.canonicalMethod?, hfound]⟩
  labels c := methodLabel_of_ne (Ne.symm h) c
  plugs hrun := resolvePlug_of_ne (Ne.symm h) hrun
  numbers u howner := methodUid_of_ne (Ne.symm h) howner u

/-- **Overloads are kept apart.**  Two methods that a type declares have different keys if their
names, the names of their arguments as instances, or the names of the types of their parameters
without a leading `aThis` differ; then what is remembered of one is not taken for the other. -/
theorem keptApart_of_differ (hs : r.Separable) (ho : r.Orderly) (hm : r.Has (.method m))
    (hn : r.Has (.method n)) (hmt : (r.method m).declaring = some t)
    (hnt : (r.method n).declaring = some t)
    (hdiffer : (r.method m).name ≠ (r.method n).name ∨
      (r.signature m).args ≠ (r.signature n).args ∨
      (r.signature m).params ≠ (r.signature n).params) :
    r.methodKey m ≠ r.methodKey n ∧ r.KeptApart m n ∧ r.KeptApart n m := by
  have hkey : r.methodKey m ≠ r.methodKey n := fun h => by
    have hsig := hs.signature_inj ho hm hn hmt hnt h
    rcases hdiffer with hname | hargs | hparams
    · exact hname (congrArg Signature.name hsig)
    · exact hargs (congrArg Signature.args hsig)
    · exact hparams (congrArg Signature.params hsig)
  exact ⟨hkey, .of_key_ne hkey, .of_key_ne (Ne.symm hkey)⟩

/-! ## overloads with one key -/

/-- Class `Host` with methods `Run`, `Make` and `Show`; classes `N.X` in two modules. -/
def overloadEdits : List Edit :=
  [.addModule "App", .addModule "A", .addModule "B",
    .declareType { module := ⟨1⟩, namespaceName := "", name := "Host" },
    .declareType { module := ⟨2⟩, namespaceName := "N", name := "X" },
    .declareType { module := ⟨3⟩, namespaceName := "N", name := "X" },
    .addParameter ⟨1⟩ "T" 0 .method,
    .declareMethod { module := ⟨1⟩, name := "Run", declaring := some ⟨20⟩,
                     params := [{ name := "n", type := ⟨12⟩ }] },
    .declareMethod { module := ⟨1⟩, name := "Run", declaring := some ⟨20⟩, returnType := some ⟨12⟩,
                     params := [{ name := "s", type := ⟨4⟩ }] },
    .declareMethod { module := ⟨1⟩, name := "Run", declaring := some ⟨20⟩,
                     params := [{ name := "aThis", type := ⟨20⟩ }, { name := "n", type := ⟨12⟩ }] },
    .declareMethod { module := ⟨1⟩, name := "Make", declaring := some ⟨20⟩ },
    .declareMethod { module := ⟨1⟩, name := "Make", declaring := some ⟨20⟩,
                     genericParams := [⟨23⟩] },
    .declareMethod { module := ⟨1⟩, name := "Show", declaring := some ⟨20⟩,
                     params := [{ name := "x", type := ⟨21⟩ }] },
    .declareMethod { module := ⟨1⟩, name := "Show", declaring := some ⟨20⟩,
                     params := [{ name := "x", type := ⟨22⟩ }] }]

/-- `Run(System.Int32)` and `Run(System.String)` are kept apart -/
theorem keptApart_of_differ_overloads :
    (core.applyAll overloadEdits).KeptApart ⟨0⟩ ⟨1⟩ ∧
      (core.applyAll overloadEdits).KeptApart ⟨1⟩ ⟨0⟩ := by
  obtain ⟨hfits, hs, hmethods, hparams⟩ : FitAll core overloadEdits ∧
      (core.applyAll overloadEdits).Separable ∧
      (∀ m ∈ [(⟨0⟩ : MethodId), ⟨1⟩], (core.applyAll overloadEdits).Has (.method m) ∧
        ((core.applyAll overloadEdits).method m).declaring = some ⟨20⟩) ∧
      ((core.applyAll overloadEdits).signature ⟨0⟩).params ≠
        ((core.applyAll overloadEdits).signature ⟨1⟩).params := by
    decide +kernel
  obtain ⟨h0, hd0⟩ := hmethods ⟨0⟩ (by simp)
  obtain ⟨h1, hd1⟩ := hmethods ⟨1⟩ (by simp)
  exact (keptApart_of_differ hs (Built.core.applyAll hfits).orderly h0 h1 hd0 hd1
    (.inr (.inr hparams))).2

/-- Class `Host` with a method that takes an `X` and a `Y`, and one that takes an `X, Y`. -/
def joinedEdits : List Edit :=
  [.addModule "App", .declareType { module := ⟨1⟩, namespaceName := "", name := "Host" },
    .declareType { module := ⟨1⟩, namespaceName := "", name := "X" },
    .declareType { module := ⟨1⟩, namespaceName := "", name := "Y" },
    .declareType { module := ⟨1⟩, namespaceName := "", name := "X, Y" },
    .declareMethod { module := ⟨1⟩, name := "Show", declaring := some ⟨20⟩,
                     params := [{ name := "x", type := ⟨21⟩ }, { name := "y", type := ⟨22⟩ }] },
    .declareMethod { module := ⟨1⟩, name := "Show", declaring := some ⟨20⟩,
                     params := [{ name := "x", type := ⟨23⟩ }] }]

/-- Overloads of one class that have different parameter types, or different numbers of generic
parameters, and are one element of the queue. -/
theorem sameKey_overloads :
    FitAll core overloadEdits ∧ FitAll core joinedEdits ∧
    (∀ e ∈ [(core.applyAll overloadEdits, (⟨0⟩ : MethodId), (⟨2⟩ : MethodId)),
        (core.applyAll overloadEdits, ⟨3⟩, ⟨4⟩), (core.applyAll overloadEdits, ⟨5⟩, ⟨6⟩),
        (core.applyAll joinedEdits, ⟨0⟩, ⟨1⟩)],
      (e.1.method e.2.1).declaring = some ⟨20⟩ ∧ (e.1.method e.2.2).declaring = some ⟨20⟩ ∧
      (e.1.paramKeys e.2.1 ≠ e.1.paramKeys e.2.2 ∨
        (e.1.method e.2.1).genericArgs.length ≠ (e.1.method e.2.2).genericArgs.length) ∧
      e.1.methodKey e.2.1 = e.1.methodKey e.2.2 ∧
      (WorkQueue.push {} e.1 (.method e.2.1) .call none).contains e.1 (.method e.2.2) = true) := by
  decide +kernel

end Registry

end ProgramScan

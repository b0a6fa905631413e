import Mathlib.Data.Set.Finite.Lattice
import Mathlib.Order.WellFounded
import ProgramScan.Proofs.Registry.Ancestry
import ProgramScan.Proofs.Registry.Building

/-!
# Interfaces of a type

A type offers the interfaces in its list, those in the lists of its bases, and all that their lists
lead to.  The search for one of them keeps a stack and no record of what it met: it looks at an
interface once for every way that leads to it, and gives up after `interfaceSteps` looks.

* `Lists`, `Extends`        one step to an interface, one step to a base;
* `Offers`                  an interface is reached from the lists of a type and its bases;
* `Visits`                  what a search without limit looks at, in its order;
* `interfaceWalk_eq`        the search looks at the first `interfaceSteps` of these;
* `exists_visits`           without cycles, a search without limit ends;
* `implements_iff_visited`  what the answer means, and where it is the whole truth;
* `implements_cut_off`      an interface that a class lists, and that is not found.
-/

namespace ProgramScan

namespace Registry

open Relation (ReflTransGen TransGen)

/-- `i` stands in the list of interfaces of `t` -/
def Lists (r : Registry) (t i : TypeId) : Prop := i ∈ (r.type t).interfaces

def Extends (r : Registry) (t b : TypeId) : Prop := (r.type t).base = some b

/-- `i` is reached from the list of `t` or of one of its bases, through lists of interfaces. -/
def Offers (r : Registry) (t i : TypeId) : Prop :=
  ∃ b, ReflTransGen r.Extends t b ∧ TransGen r.Lists b i

/-- no list of interfaces leads back to the interface that has it -/
def InterfacesAcyclic (r : Registry) : Prop := ∀ i, ¬ TransGen r.Lists i i

/-- A search without limit that starts with a stack of interfaces looks at these, in this order. -/
inductive Visits (r : Registry) : (pending visited : List TypeId) → Prop
  | done : Visits r [] []
  | visit {c : TypeId} {pending visited : List TypeId}
      (h : Visits r ((r.type c).interfaces.reverse ++ pending) visited) :
      Visits r (c :: pending) (c :: visited)

variable {r : Registry} {t b i iface : TypeId} {pending pending' visited visited' : List TypeId}

/-! ## the search -/

/-- The search looks at what a search without limit does, and no further than its steps go. -/
theorem interfaceWalk_eq (h : r.Visits pending visited) (steps : Nat) :
    r.interfaceWalk iface steps pending = (visited.take steps).any (r.sameType · iface) := by
  induction h generalizing steps with
  | done => cases steps <;> rfl
  | visit _ ih =>
    cases steps with
    | zero => rfl
    | succ steps => rw [interfaceWalk, ih, List.take_succ_cons, List.any_cons]

theorem Visits.unique (h : r.Visits pending visited) (h' : r.Visits pending visited') :
    visited = visited' := by
  induction h generalizing visited' with
  | done =>
    cases h'
    rfl
  | visit _ ih =>
    cases h' with
    | visit h' => rw [ih h']

theorem Visits.append (h : r.Visits pending visited) (h' : r.Visits pending' visited') :
    r.Visits (pending ++ pending') (visited ++ visited') := by
  induction h with
  | done => exact h'
  | visit _ ih =>
    rw [List.append_assoc] at ih
    exact .visit ih

/-- stacks of interfaces that are all searched to the end are searched to the end -/
theorem Visits.of_forall (h : ∀ c ∈ pending, ∃ visited, r.Visits [c] visited) :
    ∃ visited, r.Visits pending visited := by
  induction pending with
  | nil => exact ⟨[], .done⟩
  | cons c pending ih =>
    obtain ⟨first, hfirst⟩ := h c List.mem_cons_self
    obtain ⟨rest, hrest⟩ := ih fun d hd => h d (List.mem_cons_of_mem _ hd)
    exact ⟨first ++ rest, hfirst.append hrest⟩

theorem Visits.single (h : r.Visits (r.type t).interfaces.reverse visited) :
    r.Visits [t] (t :: visited) := by
  refine .visit ?_
  rwa [List.append_nil]

/-- Every interface that is looked at was on the stack or is reached from it, and all of these are
looked at. -/
theorem Visits.mem_iff (h : r.Visits pending visited) :
    i ∈ visited ↔ ∃ c ∈ pending, ReflTransGen r.Lists c i := by
  induction h with
  | done => simp
  | @visit c pending visited _ ih =>
    rw [List.mem_cons, ih]
    constructor
    · rintro (rfl | ⟨d, hd, hreach⟩)
      · exact ⟨i, List.mem_cons_self, .refl⟩
      · rcases List.mem_append.mp hd with hd | hd
        · exact ⟨c, List.mem_cons_self, .head (List.mem_reverse.mp hd) hreach⟩
        · exact ⟨d, List.mem_cons_of_mem _ hd, hreach⟩
    · rintro ⟨d, hd, hreach⟩
      rcases List.mem_cons.mp hd with rfl | hd
      · rcases hreach.cases_head with rfl | ⟨j, hj, hreach⟩
        · exact .inl rfl
        · exact .inr ⟨j, List.mem_append_left _ (List.mem_reverse.mpr hj), hreach⟩
      · exact .inr ⟨d, List.mem_append_right _ hd, hreach⟩

/-! ## the end of the search -/

/-- interfaces that come before the types that list them lead back to none -/
theorem interfacesAcyclic_of_lt
    (h : ∀ k < r.types.size, (r.type ⟨k⟩).interfaces.all (·.index < k) = true) :
    r.InterfacesAcyclic := by
  have hstep {t i : TypeId} (hti : r.Lists t i) : i.index < t.index := by
    by_cases ht : r.Has (.type t)
    · exact of_decide_eq_true (List.all_eq_true.mp (h t.index ht) i hti)
    · rw [Lists, type_of_not_has ht] at hti
      cases hti
  have hlt {t i : TypeId} (hti : TransGen r.Lists t i) : i.index < t.index := by
    induction hti with
    | single hti => exact hstep hti
    | tail _ hti ih => exact Nat.lt_trans (hstep hti) ih
  exact fun i hi => Nat.lt_irrefl _ (hlt hi)

/-- going down lists of interfaces ends, as there are finitely many types -/
theorem InterfacesAcyclic.wellFounded (h : r.InterfacesAcyclic) (hw : r.WellFormed) :
    WellFounded fun i t => r.Lists t i := by
  let Below (i t : {t : TypeId // r.Has (.type t)}) : Prop := TransGen r.Lists t.1 i.1
  have hfinite : Finite {t : TypeId // r.Has (.type t)} := by
    refine Set.Finite.to_subtype (((Set.finite_lt_nat r.types.size).image TypeId.mk).subset ?_)
    exact fun t ht => ⟨t.index, ht, rfl⟩
  have : IsTrans _ Below := ⟨fun _ _ _ hab hbc => hbc.trans hab⟩
  have : Std.Irrefl Below := ⟨fun t => h t.1⟩
  have hbelow : WellFounded Below := Finite.wellFounded_of_trans_of_irrefl Below
  have hacc (t : {t : TypeId // r.Has (.type t)}) : Acc (fun i t => r.Lists t i) t.1 := by
    induction hbelow.apply t with
    | intro t _ ih =>
      refine ⟨_, fun i hi => ?_⟩
      exact ih ⟨i, hw.interface t.2 hi⟩ (.single hi)
  refine ⟨fun t => ⟨_, fun i hi => ?_⟩⟩
  by_cases ht : r.Has (.type t)
  · exact hacc ⟨i, hw.interface ht hi⟩
  · -- no list outside of the program
    have : r.Lists t i := hi
    rw [Lists, type_of_not_has ht] at this
    cases this

/-- Without cycles, a search without limit ends. -/
theorem exists_visits (hw : r.WellFormed) (h : r.InterfacesAcyclic) (pending : List TypeId) :
    ∃ visited, r.Visits pending visited := by
  have hone (c : TypeId) : ∃ visited, r.Visits [c] visited := by
    induction (h.wellFounded hw).apply c with
    | intro c _ ih =>
      obtain ⟨visited, hvisited⟩ := Visits.of_forall fun i hi => ih i (List.mem_reverse.mp hi)
      exact ⟨c :: visited, hvisited.single⟩
  exact Visits.of_forall fun c _ => hone c

/-! ## what a type offers -/

theorem BaseChain.mem_iff {l : List TypeId} (h : r.BaseChain t l) :
    b ∈ l ↔ TransGen r.Extends t b := by
  induction h with
  | root hb =>
    refine ⟨fun h => absurd h List.not_mem_nil, fun h => ?_⟩
    obtain ⟨c, hc, -⟩ := Relation.TransGen.head'_iff.mp h
    cases hb.symm.trans hc
  | @step t c l hc _ ih =>
    rw [List.mem_cons, ih]
    constructor
    · rintro (rfl | h)
      · exact .single hc
      · exact .head hc h
    · intro h
      obtain ⟨d, hd, h⟩ := Relation.TransGen.head'_iff.mp h
      cases hc.symm.trans hd
      rcases h.cases_head with rfl | ⟨e, he, h⟩
      · exact .inl rfl
      · exact .inr (.head' he h)

section

variable (hw : r.WellFormed) (hbases : r.Acyclic) (ht : r.Has (.type t))
include hw hbases ht

theorem Acyclic.mem_ancestors_iff : b ∈ r.ancestors t ↔ TransGen r.Extends t b := by
  obtain ⟨l, hl⟩ := hbases t ht
  rw [hl.ancestors hw ht]
  exact hl.mem_iff

theorem Acyclic.isSubclassOf_iff : r.isSubclassOf t b = true ↔
    ∃ a, TransGen r.Extends t a ∧ r.sameType a b = true := by
  simp only [isSubclassOf, List.any_eq_true, hbases.mem_ancestors_iff hw ht]

/-- the stack that the search starts with leads to what the type offers -/
theorem Acyclic.offers_iff : r.Offers t i ↔
    ∃ c ∈ r.declaredInterfaces t, ReflTransGen r.Lists c i := by
  have hlevel : ∀ b, ReflTransGen r.Extends t b ↔ b ∈ t :: r.ancestors t := fun b => by
    rw [Relation.reflTransGen_iff_eq_or_transGen, List.mem_cons, hbases.mem_ancestors_iff hw ht]
  simp only [Offers, hlevel, Relation.TransGen.head'_iff, declaredInterfaces, List.mem_reverse,
    List.mem_flatMap]
  constructor
  · rintro ⟨b, hb, c, hc, hreach⟩
    exact ⟨c, ⟨b, hb, hc⟩, hreach⟩
  · rintro ⟨c, ⟨b, hb, hc⟩, hreach⟩
    exact ⟨b, hb, c, hc, hreach⟩

end

/-- **What a type implements.**  Bases and lists of interfaces do not lead back to where they start.
A search without limit ends, and looks at what the type offers, once for every way that leads there.
The type implements an interface if one of the first `interfaceSteps` looks finds it.  So it offers
what it implements, and it implements all that it offers if the search needs no more looks. -/
theorem implements_iff_visited (hw : r.WellFormed) (hbases : r.Acyclic)
    (hlists : r.InterfacesAcyclic) (ht : r.Has (.type t)) :
    ∃ visited, r.Visits (r.declaredInterfaces t) visited ∧ (∀ i, i ∈ visited ↔ r.Offers t i) ∧
      ∀ iface,
        (r.implements t iface = true ↔
          ∃ i ∈ visited.take interfaceSteps, r.sameType i iface = true) ∧
        (r.implements t iface = true → ∃ i, r.Offers t i ∧ r.sameType i iface = true) ∧
        (visited.length ≤ interfaceSteps →
          (r.implements t iface = true ↔ ∃ i, r.Offers t i ∧ r.sameType i iface = true)) ∧
        ((r.type iface).form.isInterface = true →
          (r.isAssignable iface t = true ↔ r.sameType iface t = true ∨
            (∃ b, TransGen r.Extends t b ∧ r.sameType b iface = true) ∨
              r.implements t iface = true)) := by
  obtain ⟨visited, hvisited⟩ := exists_visits hw hlists (r.declaredInterfaces t)
  have hmem : ∀ i, i ∈ visited ↔ r.Offers t i := fun i => by
    rw [hvisited.mem_iff, hbases.offers_iff hw ht]
  refine ⟨visited, hvisited, hmem, fun iface => ?_⟩
  have hfound : r.implements t iface = true ↔
      ∃ i ∈ visited.take interfaceSteps, r.sameType i iface = true := by
    rw [implements, interfaceWalk_eq hvisited, List.any_eq_true]
  refine ⟨hfound, fun h => ?_, fun hlength => ?_, fun hface => ?_⟩
  · obtain ⟨i, hi, hsame⟩ := hfound.mp h
    exact ⟨i, (hmem i).mp (List.mem_of_mem_take hi), hsame⟩
  · rw [hfound, List.take_of_length_le hlength]
    simp only [hmem]
  · rw [isAssignable, hface, Bool.true_and, Bool.or_eq_true, Bool.or_eq_true,
      hbases.isSubclassOf_iff hw ht, or_assoc]

/-! ## two ways to one interface -/

/-- An interface 0, two interfaces that list it, a class that lists these, one with that base. -/
def diamond : Registry :=
  { types := #[
      { module := ⟨0⟩, name := "Root", fullName := "Root", form := .defined .interface [] },
      { module := ⟨0⟩, name := "Left", fullName := "Left", form := .defined .interface [],
        interfaces := [⟨0⟩] },
      { module := ⟨0⟩, name := "Right", fullName := "Right", form := .defined .interface [],
        interfaces := [⟨0⟩] },
      { module := ⟨0⟩, name := "Shape", fullName := "Shape", form := .defined .reference [],
        interfaces := [⟨1⟩, ⟨2⟩] },
      { module := ⟨0⟩, name := "Circle", fullName := "Circle", form := .defined .reference [],
        base := some ⟨3⟩ }]
    modules := #[{ name := "App" }] }

/-- the root is looked at twice -/
theorem visits_diamond : diamond.Visits (diamond.declaredInterfaces ⟨4⟩) [⟨2⟩, ⟨0⟩, ⟨1⟩, ⟨0⟩] := by
  have hstart : diamond.declaredInterfaces ⟨4⟩ = [⟨2⟩, ⟨1⟩] := by decide
  rw [hstart]
  exact .visit (.visit (.visit (.visit .done)))

theorem implements_iff_visited_diamond :
    diamond.implements ⟨4⟩ ⟨0⟩ = true ∧ diamond.isAssignable ⟨0⟩ ⟨4⟩ = true := by
  obtain ⟨visited, hvisited, hoffers, hiface⟩ :=
    implements_iff_visited (r := diamond) (t := ⟨4⟩) (by decide +kernel)
      (acyclic_of_base_lt (by decide)) (interfacesAcyclic_of_lt (by decide)) (by decide)
  cases hvisited.unique visits_diamond
  obtain ⟨-, -, hiff, hassignable⟩ := hiface ⟨0⟩
  have himplements := (hiff (by decide)).mpr ⟨⟨0⟩, (hoffers _).mp (by decide), by decide +kernel⟩
  exact ⟨himplements, (hassignable (by decide)).mpr (.inr (.inr himplements))⟩

/-! ## an interface that is not found -/

/-- Interfaces `⟨21 + 2 * k⟩` and `⟨22 + 2 * k⟩`, which list the two of the level below. -/
def latticeLevel (k : Nat) : List Edit :=
  [.define ⟨1⟩ "App" (String.ofList (List.replicate (k + 1) 'L')) .interface 0 [] none,
    .define ⟨1⟩ "App" (String.ofList (List.replicate (k + 1) 'R')) .interface 0 [] none] ++
  if k = 0 then []
  else
    [⟨21 + 2 * k⟩, ⟨22 + 2 * k⟩].flatMap fun (i : TypeId) =>
      [.addInterface i ⟨19 + 2 * k⟩, .addInterface i ⟨20 + 2 * k⟩]

/-- An interface `Target`, ten levels of interfaces beside it, and a class that lists `Target` and
the two interfaces at the top. -/
def latticeEdits : List Edit :=
  [.addModule "App", .define ⟨1⟩ "App" "Target" .interface 0 [] none] ++
    (List.range 10).flatMap latticeLevel ++
    [.define ⟨1⟩ "App" "Shape" .reference 0 [] none, .addInterface ⟨41⟩ ⟨20⟩,
      .addInterface ⟨41⟩ ⟨39⟩, .addInterface ⟨41⟩ ⟨40⟩]

def lattice : Registry := core.applyAll latticeEdits

/-- The class lists `Target` itself.  Each level doubles the ways down, and the search, which goes
down from the end of the list, gives up before it gets to `Target`. -/
theorem implements_cut_off : lattice.WellFormed ∧ lattice.Acyclic ∧ lattice.InterfacesAcyclic ∧
    lattice.Has (.type ⟨41⟩) ∧ (lattice.type ⟨20⟩).form.isInterface = true ∧
    lattice.Lists ⟨41⟩ ⟨20⟩ ∧ lattice.Offers ⟨41⟩ ⟨20⟩ ∧ lattice.implements ⟨41⟩ ⟨20⟩ = false ∧
    lattice.isAssignable ⟨20⟩ ⟨41⟩ = false := by
  obtain ⟨hfits, hbases, hinterfaces, ht, hform, hlists⟩ : FitAll core latticeEdits ∧
      (∀ i < lattice.types.size, (lattice.type ⟨i⟩).base.all (·.index < i) = true) ∧
      (∀ i < lattice.types.size, (lattice.type ⟨i⟩).interfaces.all (·.index < i) = true) ∧
      lattice.Has (.type ⟨41⟩) ∧ (lattice.type ⟨20⟩).form.isInterface = true ∧
      ⟨20⟩ ∈ (lattice.type ⟨41⟩).interfaces := by
    decide +kernel
  have hsearch : lattice.implements ⟨41⟩ ⟨20⟩ = false := by decide +kernel
  have hother : (lattice.sameType ⟨20⟩ ⟨41⟩ || lattice.isSubclassOf ⟨41⟩ ⟨20⟩) = false := by
    decide +kernel
  refine ⟨(Built.core.applyAll hfits).wellFormed, acyclic_of_base_lt hbases,
    interfacesAcyclic_of_lt hinterfaces, ht, hform, hlists, ⟨⟨41⟩, .refl, .single hlists⟩, hsearch,
    ?_⟩
  rw [isAssignable, hother, hform, hsearch]
  rfl

end Registry

end ProgramScan

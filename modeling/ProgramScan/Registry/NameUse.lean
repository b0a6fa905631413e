import ProgramScan.Registry.Names

/-!
# Names in use

The name of a definition shows the types that enclose it.  A definition can be nested in another type
after it was added, and its name follows as long as nothing uses it.  A name is in use once it was
asked for, compared, or looked up as part of a structural key; from then on it stays as it is.

* `useNames`                              notes that names are in use;
* `refreshNames`                          renders the other names of definitions again;
* `methodUses`, `fieldUses`, `itemUses`   the types that the name of an element shows;
* `sameTypeUses`, `sameMethodUses`, …     the types whose names a comparison reads.

Comparisons stop when they are decided, and read no more names than they need: `usesThrough` gives
what is read up to the element that decides.
-/

namespace ProgramScan

/-- what `uses` gives for the elements up to the first one at which `stop` holds -/
def usesThrough {α : Type} (stop : α → Bool) (uses : α → List TypeId) : List α → List TypeId
  | [] => []
  | a :: rest => uses a ++ if stop a then [] else usesThrough stop uses rest

def insertUse (used : List TypeId) (t : TypeId) : List TypeId :=
  if used.contains t then used else t :: used

namespace Registry

/-- `r` with the names of `ts` in use -/
def useNames (r : Registry) (ts : List TypeId) : Registry :=
  { r with usedNames := ts.foldl insertUse r.usedNames }

/-- `r` with the names of definitions rendered again, except those in use -/
def refreshNames (r : Registry) : Registry :=
  { r with
    types := r.types.mapIdx fun i d =>
      if d.form.isDefinition && !r.usedNames.contains ⟨i⟩ then { d with fullName := r.render d }
      else d }

/-- the type that says whether a method returns a value; constructors never do -/
def resultUses (r : Registry) (m : MethodId) : List TypeId :=
  if (r.method m).isConstructor then [] else [(r.method m).returnType]

def methodUses (r : Registry) (m : MethodId) : List TypeId :=
  let d := r.method m
  r.resultUses m ++ d.declaring.toList ++ (if d.isGenericInstance then d.genericArgs else []) ++
    (shownParams d.params).map (·.type)

def fieldUses (r : Registry) (f : FieldId) : List TypeId :=
  [(r.field f).type, (r.field f).declaring]

def itemUses (r : Registry) : Item → List TypeId
  | .method m => r.methodUses m
  | .type t => [t]
  | .field f => r.fieldUses f

def sameTypeUses (a b : TypeId) : List TypeId := if a = b then [] else [a, b]

def sameMethodUses (r : Registry) (a b : MethodId) : List TypeId :=
  if a = b then [] else r.methodUses a ++ r.methodUses b

def sameTypesUses (r : Registry) (as bs : List TypeId) : List TypeId :=
  if as.length == bs.length then
    usesThrough (fun (a, b) => !r.sameType a b) (fun (a, b) => sameTypeUses a b) (as.zip bs)
  else []

def sameKnownUses : Option TypeId → Option TypeId → List TypeId
  | some a, some b => sameTypeUses a b
  | _, _ => []

def sameKnownsUses (r : Registry) (as bs : List (Option TypeId)) : List TypeId :=
  if as.length == bs.length then
    usesThrough (fun (a, b) => !r.sameKnown a b) (fun (a, b) => sameKnownUses a b) (as.zip bs)
  else []

@[simp] theorem types_useNames (r : Registry) (ts : List TypeId) : (r.useNames ts).types = r.types :=
  rfl

theorem subset_foldl_insertUse (ts used : List TypeId) {t : TypeId} (h : t ∈ used) :
    t ∈ ts.foldl insertUse used := by
  induction ts generalizing used with
  | nil => exact h
  | cons u ts ih =>
    refine ih _ ?_
    unfold insertUse
    split
    · exact h
    · exact List.mem_cons_of_mem _ h

theorem mem_foldl_insertUse (ts used : List TypeId) {t : TypeId} (h : t ∈ ts) :
    t ∈ ts.foldl insertUse used := by
  induction ts generalizing used with
  | nil => cases h
  | cons u ts ih =>
    rcases List.mem_cons.mp h with rfl | h
    · refine subset_foldl_insertUse ts _ ?_
      unfold insertUse
      split
      · rename_i hc
        simpa using hc
      · exact List.mem_cons_self
    · exact ih _ h

theorem mem_usedNames_useNames (r : Registry) (ts : List TypeId) {t : TypeId} (h : t ∈ ts) :
    t ∈ (r.useNames ts).usedNames :=
  mem_foldl_insertUse ts r.usedNames h

theorem usedNames_subset_useNames (r : Registry) (ts : List TypeId) :
    r.usedNames ⊆ (r.useNames ts).usedNames :=
  fun _ h => subset_foldl_insertUse ts r.usedNames h

/-- a name in use stays as it is -/
theorem fullName_refreshNames (r : Registry) {t : TypeId} (h : t ∈ r.usedNames) :
    r.refreshNames.fullName t = r.fullName t := by
  have h' : (⟨t.index⟩ : TypeId) ∈ r.usedNames := h
  simp only [fullName, type, refreshNames, Array.getD_eq_getD_getElem?, Array.getElem?_mapIdx]
  cases r.types[t.index]? with
  | none => rfl
  | some d => simp [h']

end Registry

end ProgramScan

import Mathlib.Data.List.Induction
import Mathlib.Data.List.Nodup
import ProgramScan.Plug.Index

/-!
# What is filed in an index

Filing the plug types of modules puts a type into one bucket for each of its marks that has a target:
at the end of the row of this target.

* `PlugIndex.filings`          what the marks of modules file, in order;
* `PlugIndex.plugsFiled`       the plug types that filings put into the row of a key;
* `PlugBucket.Lists`           a bucket has one row for each key, with these plug types;
* `PlugIndex.lists_of_findImplementors`   the buckets of an index that was filed into at once.
-/

namespace ProgramScan

structure Filing where
  kind : PlugKind
  target : TypeId
  plug : TypeId

namespace PlugIndex

variable {r : Registry} {modules : List ModuleId}

/-- what a mark files for the type that carries it -/
def filing? (r : Registry) (e : TypeId × PlugTarget) : Option Filing :=
  (targetOf r e.2).toOption.map fun target =>
    ⟨.ofTarget (r.isOpen target) e.2.inheritable, target, e.1⟩

/-- what the types of modules file, in order -/
def filings (r : Registry) (modules : List ModuleId) : List Filing :=
  (marksOf r modules).filterMap (filing? r)

theorem filings_append (r : Registry) (modules more : List ModuleId) :
    filings r (modules ++ more) = filings r modules ++ filings r more := by
  rw [filings, marksOf, List.flatMap_append, List.filterMap_append]
  rfl

def plugsFiled (r : Registry) (filings : List Filing) (kind : PlugKind) (key : String) :
    List TypeId :=
  (filings.filter fun f => f.kind = kind && r.typeKey f.target = key).map (·.plug)

theorem plugsFiled_append (r : Registry) (fs gs : List Filing) (kind : PlugKind) (key : String) :
    plugsFiled r (fs ++ gs) kind key = plugsFiled r fs kind key ++ plugsFiled r gs kind key := by
  rw [plugsFiled, List.filter_append, List.map_append]
  rfl

def file (r : Registry) (index : PlugIndex) (f : Filing) : PlugIndex :=
  index.modifyBucket f.kind fun b => b.insert r f.target f.plug

theorem bucket_file (r : Registry) (index : PlugIndex) (f : Filing) (kind : PlugKind) :
    (file r index f).bucket kind =
      if f.kind = kind then (index.bucket kind).insert r f.target f.plug
      else index.bucket kind := by
  rw [file]
  cases f.kind <;> cases kind <;> rfl

/-- a run that succeeds makes all filings, one after the other -/
theorem findImplementors_ok {index index' : PlugIndex}
    (h : findImplementors r modules index = .ok () index') :
    index' = (filings r modules).foldl (file r) index := by
  rw [findImplementors] at h
  rw [filings]
  generalize marksOf r modules = marks at h
  induction marks generalizing index with
  | nil =>
    cases h
    rfl
  | cons e marks ih =>
    have h : EStateM.bind (fileMark r e.1 e.2) (fun _ => marks.forM fun e => fileMark r e.1 e.2)
        index = .ok () index' := h
    rw [EStateM.bind, fileMark] at h
    cases ht : targetOf r e.2 with
    | ok target =>
      rw [ht] at h
      have hfile : filing? r e =
          some ⟨.ofTarget (r.isOpen target) e.2.inheritable, target, e.1⟩ := by
        rw [filing?, ht]
        rfl
      rw [List.filterMap_cons_some hfile, List.foldl_cons]
      exact ih h
    | error e' =>
      rw [ht] at h
      have hfile : filing? r e = none := by
        rw [filing?, ht]
        rfl
      rw [List.filterMap_cons_none hfile]
      dsimp only at h
      split at h
      · rename_i hskip
        split at hskip
        · cases hskip
          exact ih h
        · cases hskip
      · cases h

end PlugIndex

/-! ## rows -/

def plugsInRow? (rows : List PlugRow) (key : String) : Option (List TypeId) :=
  (rows.find? fun row => row.key == key).map (·.plugs)

theorem plugsInRow?_cons (row : PlugRow) (rows : List PlugRow) (key : String) :
    plugsInRow? (row :: rows) key =
      if row.key = key then some row.plugs else plugsInRow? rows key := by
  simp only [plugsInRow?, List.find?_cons]
  split <;> simp_all

theorem plugsInRow?_filePlug (key : String) (target plug : TypeId) (rows : List PlugRow)
    (other : String) :
    plugsInRow? (filePlug key target plug rows) other =
      if key = other then some ((plugsInRow? rows other).getD [] ++ [plug])
      else plugsInRow? rows other := by
  induction rows with
  | nil =>
    rw [filePlug, plugsInRow?_cons]
    rfl
  | cons row rows ih =>
    rw [filePlug]
    split
    · rename_i hkey
      rw [plugsInRow?_cons, plugsInRow?_cons, hkey]
      split <;> rfl
    · rename_i hkey
      rw [plugsInRow?_cons, plugsInRow?_cons, ih]
      by_cases ho : row.key = other
      · have hne : key ≠ other := fun h => hkey (ho.trans h.symm)
        rw [if_pos ho, if_pos ho, if_neg hne]
      · rw [if_neg ho, if_neg ho]

theorem keys_filePlug (key : String) (target plug : TypeId) (rows : List PlugRow) :
    (filePlug key target plug rows).map (·.key) =
      if key ∈ rows.map (·.key) then rows.map (·.key) else rows.map (·.key) ++ [key] := by
  induction rows with
  | nil => rfl
  | cons row rows ih =>
    rw [filePlug]
    split
    · rename_i hkey
      simp [hkey]
    · rename_i hkey
      have hne : key ≠ row.key := fun h => hkey h.symm
      rw [List.map_cons, ih, List.map_cons]
      by_cases hmem : key ∈ rows.map (·.key)
      · rw [if_pos hmem, if_pos (List.mem_cons_of_mem _ hmem)]
      · rw [if_neg hmem, if_neg (by simp [hne, hmem]), List.cons_append]

theorem mem_filePlug {key : String} {target plug : TypeId} {rows : List PlugRow} {row : PlugRow}
    (h : row ∈ filePlug key target plug rows) :
    row.key = key ∧ row.target = target ∨ ∃ before ∈ rows, row.key = before.key ∧
      row.target = before.target := by
  induction rows with
  | nil =>
    cases List.mem_singleton.mp h
    exact .inl ⟨rfl, rfl⟩
  | cons first rows ih =>
    rw [filePlug] at h
    split at h
    · rcases List.mem_cons.mp h with rfl | h
      · exact .inr ⟨first, List.mem_cons_self, rfl, rfl⟩
      · exact .inr ⟨row, List.mem_cons_of_mem _ h, rfl, rfl⟩
    · rcases List.mem_cons.mp h with rfl | h
      · exact .inr ⟨row, List.mem_cons_self, rfl, rfl⟩
      · obtain hnew | ⟨before, hmem, hbefore⟩ := ih h
        · exact .inl hnew
        · exact .inr ⟨before, List.mem_cons_of_mem _ hmem, hbefore⟩

/-! ## buckets -/

namespace PlugBucket

open PlugIndex

variable {r : Registry} {b : PlugBucket} {kind : PlugKind} {fs : List Filing}

/-- The bucket has one row for each key, and the plug types of a row are those that `fs` put there. -/
structure Lists (r : Registry) (b : PlugBucket) (kind : PlugKind) (fs : List Filing) : Prop where
  keys : ∀ row ∈ b.rows, row.key = r.typeKey row.target
  distinct : (b.rows.map (·.key)).Nodup
  plugs : ∀ key, plugsInRow? b.rows key =
    if plugsFiled r fs kind key = [] then none else some (plugsFiled r fs kind key)

theorem lists_nil (r : Registry) (kind : PlugKind) : Lists r {} kind [] :=
  ⟨(fun _ h => by cases h), .nil, fun _ => rfl⟩

namespace Lists

variable (h : Lists r b kind fs)
include h

theorem insert {f : Filing} (hf : f.kind = kind) :
    Lists r (b.insert r f.target f.plug) kind (fs ++ [f]) where
  keys row hrow := by
    obtain ⟨hkey, htarget⟩ | ⟨before, hmem, hkey, htarget⟩ := mem_filePlug hrow
    · rw [hkey, htarget]
    · rw [hkey, htarget, h.keys before hmem]
  distinct := by
    rw [PlugBucket.insert, keys_filePlug]
    split
    · exact h.distinct
    · rename_i hnew
      rw [← List.concat_eq_append]
      exact h.distinct.concat hnew
  plugs key := by
    rw [PlugBucket.insert, plugsInRow?_filePlug, h.plugs, plugsFiled_append]
    by_cases hkey : r.typeKey f.target = key
    · have hone : plugsFiled r [f] kind key = [f.plug] := by simp [plugsFiled, hf, hkey]
      rw [if_pos hkey, hone, if_neg (List.append_ne_nil_of_right_ne_nil _ (by simp))]
      by_cases hnone : plugsFiled r fs kind key = []
      · rw [if_pos hnone, hnone]
        rfl
      · rw [if_neg hnone]
        rfl
    · have hone : plugsFiled r [f] kind key = [] := by simp [plugsFiled, hkey]
      rw [if_neg hkey, hone, List.append_nil]

theorem other {f : Filing} (hf : f.kind ≠ kind) : Lists r b kind (fs ++ [f]) where
  keys := h.keys
  distinct := h.distinct
  plugs key := by
    have hone : plugsFiled r [f] kind key = [] := by simp [plugsFiled, hf]
    rw [h.plugs, plugsFiled_append, hone, List.append_nil]

/-- the plug types that are filed under a target -/
theorem get?_eq (target : TypeId) :
    b.get? r target =
      if plugsFiled r fs kind (r.typeKey target) = [] then none
      else some (plugsFiled r fs kind (r.typeKey target)) := h.plugs _

theorem get?_of_mem {row : PlugRow} (hrow : row ∈ b.rows) :
    b.get? r row.target = some row.plugs := by
  obtain ⟨rows⟩ := b
  have hfind : ∀ rows : List PlugRow, (rows.map (·.key)).Nodup → row ∈ rows →
      plugsInRow? rows row.key = some row.plugs := by
    intro rows hnodup hmem
    induction rows with
    | nil => cases hmem
    | cons first rows ih =>
      obtain ⟨hfirst, hrest⟩ := List.nodup_cons.mp hnodup
      rw [plugsInRow?_cons]
      rcases List.mem_cons.mp hmem with rfl | hmem
      · exact if_pos rfl
      · have hne : first.key ≠ row.key := by
          intro heq
          exact hfirst (List.mem_map.mpr ⟨row, hmem, heq.symm⟩)
        rw [if_neg hne, ih hrest hmem]
  have hkey := h.keys row hrow
  rw [show get? _ r row.target = plugsInRow? rows (r.typeKey row.target) from rfl, ← hkey]
  exact hfind rows h.distinct hrow

omit h in
/-- what is found under a target stands in a row -/
theorem exists_row_of_get? {target : TypeId} {plugs : List TypeId}
    (hp : b.get? r target = some plugs) :
    ∃ row ∈ b.rows, row.key = r.typeKey target ∧ row.plugs = plugs := by
  obtain ⟨row, hrow, rfl⟩ := Option.map_eq_some_iff.mp hp
  exact ⟨row, List.mem_of_find?_eq_some hrow, by simpa using List.find?_some hrow, rfl⟩

end Lists

end PlugBucket

namespace PlugIndex

variable {r : Registry} {modules : List ModuleId}

/-- **The index of modules** lists, in each bucket, what the marks of their types file. -/
theorem lists_of_findImplementors {index : PlugIndex}
    (h : findImplementors r modules {} = .ok () index) (kind : PlugKind) :
    (index.bucket kind).Lists r kind (filings r modules) := by
  rw [findImplementors_ok h]
  generalize filings r modules = fs
  -- filings are added at the end, one step for each
  induction fs using List.reverseRecOn with
  | nil => cases kind <;> exact PlugBucket.lists_nil r _
  | append_singleton fs f ih =>
    rw [List.foldl_append, List.foldl_cons, List.foldl_nil, bucket_file]
    split
    · rename_i hkind
      exact ih.insert hkind
    · rename_i hkind
      exact ih.other hkind

end PlugIndex

end ProgramScan

import ProgramScan.Registry.Hierarchy
import ProgramScan.Scan.Queue

/-!
# Numbers of methods and types

Methods and types are numbered from zero in the order in which their numbers are first asked for.
A method shares the number of the method whose virtual slot it takes over, so that a slot has one
number whichever override is asked for; methods of interfaces have numbers of their own.  Types have
numbers only if the scan reached them.
-/

namespace ProgramScan

structure Uids where
  methods : Table String Nat := ∅
  types : Table String Nat := ∅
  methodCount : Nat := 0
  typeCount : Nat := 0

/-- the method whose number `m` has -/
def Registry.uidOwner (r : Registry) (m : MethodId) : MethodId :=
  if (r.method m).declaring.any fun t => (r.type t).form.isInterface then m else r.slotRoot m

/-- names read when the owner of a number is looked for -/
def Registry.uidOwnerUses (r : Registry) (m : MethodId) : List TypeId :=
  if (r.method m).declaring.any fun t => (r.type t).form.isInterface then []
  else r.slotRootUses m ++ r.methodUses (r.slotRoot m)

namespace Uids

/-- the number stored under a method key, a new one if there is none -/
def numberOf (u : Uids) (key : String) : Nat × Uids :=
  match u.methods.get? key with
  | some uid => (uid, u)
  | none =>
    (u.methodCount,
      { u with methods := u.methods.insert key u.methodCount, methodCount := u.methodCount + 1 })

def methodUid (u : Uids) (r : Registry) (m : MethodId) : Nat × Uids :=
  let key := r.methodKey m
  match u.methods.get? key with
  | some uid => (uid, u)
  | none =>
    let (uid, u) := u.numberOf (r.methodKey (r.uidOwner m))
    (uid, { u with methods := u.methods.insertNew key uid })

/-- names read by `methodUid`; the owner of a number that was handed out is not looked for again -/
def methodUidUses (u : Uids) (r : Registry) (m : MethodId) : List TypeId :=
  r.methodUses m ++ if u.methods.contains (r.methodKey m) then [] else r.uidOwnerUses m

def typeUid (u : Uids) (r : Registry) (q : WorkQueue) (t : TypeId) : Except Error (Nat × Uids) :=
  if q.contains r (.type t) then
    match u.types.get? (r.typeKey t) with
    | some uid => .ok (uid, u)
    | none =>
      .ok (u.typeCount,
        { u with types := u.types.insert (r.typeKey t) u.typeCount, typeCount := u.typeCount + 1 })
  else .error (.typeNotQueued (r.fullName t))

/-- numbering a method leaves the numbers of types alone -/
theorem types_methodUid (u : Uids) (r : Registry) (m : MethodId) :
    (u.methodUid r m).2.types = u.types ∧ (u.methodUid r m).2.typeCount = u.typeCount := by
  simp only [methodUid]
  cases u.methods.get? (r.methodKey m) with
  | some uid => exact ⟨rfl, rfl⟩
  | none =>
    simp only [numberOf]
    cases u.methods.get? (r.methodKey (r.uidOwner m)) <;> exact ⟨rfl, rfl⟩

/-- the number of a method is stored for it, and numbers that were stored stay -/
theorem get?_methodUid (u : Uids) (r : Registry) (m : MethodId) :
    (u.methodUid r m).2.methods.get? (r.methodKey m) = some (u.methodUid r m).1 ∧
      ∀ key n, u.methods.get? key = some n → (u.methodUid r m).2.methods.get? key = some n := by
  have hinsert : ∀ (t : Table String Nat) n, t.get? (r.methodKey m) = none →
      (t.insertNew (r.methodKey m) n).get? (r.methodKey m) = some n := by
    intro t n hnone
    rw [Table.insertNew, if_neg (by simp [Table.contains, hnone]), Table.get?_insert_self]
  simp only [methodUid]
  cases hown : u.methods.get? (r.methodKey m) with
  | some uid => exact ⟨hown, fun _ _ h => h⟩
  | none =>
    simp only [numberOf]
    cases howner : u.methods.get? (r.methodKey (r.uidOwner m)) with
    | some uid =>
      exact ⟨hinsert _ _ hown, fun key n h => u.methods.get?_insertNew_of_some uid h⟩
    | none =>
      constructor
      · by_cases hkey : r.methodKey m = r.methodKey (r.uidOwner m)
        · rw [← hkey]
          exact Table.get?_insertNew_of_some _ _ (Table.get?_insert_self _ _ _)
        · refine hinsert _ _ ?_
          rw [Table.get?_insert_of_ne _ _ hkey, hown]
      · intro key n h
        have hne : key ≠ r.methodKey (r.uidOwner m) := by
          rintro rfl
          cases howner.symm.trans h
        refine Table.get?_insertNew_of_some _ _ ?_
        rw [Table.get?_insert_of_ne _ _ hne, h]

end Uids

end ProgramScan

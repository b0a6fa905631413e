import ProgramScan.Registry.Names

/-!
# The work queue

The elements a scan has reached, in the order in which it reached them, and how far it has looked
into them.  An element is identified by its key and enters once; asking again only counts.

* `push`              adds an element that is not there yet;
* `pop`               the next element to look into;
* `canonicalMethod?`  the method that entered under a given identity.
-/

namespace ProgramScan

inductive Reason
  | entryPoint
  | bootEntry
  | bootEntryDeclaringType
  | forceInclude
  | explicitEntry
  | parameter
  | declaringType
  | returnType
  | plugMethod
  | call
  /-- operand of an instruction other than a call -/
  | opcodeValue
  | baseType
  | staticConstructor
  /-- implements collection interfaces for arrays of an element type -/
  | arrayHelper
  | fieldType
  | implementedInterface
  deriving DecidableEq

namespace Reason

def label : Reason → String
  | .entryPoint => "Entry Point"
  | .bootEntry => "Boot Entry"
  | .bootEntryDeclaringType => "Boot Entry Declaring Type"
  | .forceInclude => "Force Include"
  | .explicitEntry => "Explicit Entry"
  | .parameter => "Parameter"
  | .declaringType => "Declaring Type"
  | .returnType => "Return Type"
  | .plugMethod => "Plug method"
  | .call => "Call"
  | .opcodeValue => "OpCode Value"
  | .baseType => "Base Type"
  | .staticConstructor => "Static Constructor"
  | .arrayHelper => "Virtual SzArrayHelper"
  | .fieldType => "Field Type"
  | .implementedInterface => "Implemented Interface"

def all : List Reason :=
  [.entryPoint, .bootEntry, .bootEntryDeclaringType, .forceInclude, .explicitEntry, .parameter,
    .declaringType, .returnType, .plugMethod, .call, .opcodeValue, .baseType, .staticConstructor,
    .arrayHelper, .fieldType, .implementedInterface]

theorem mem_all (reason : Reason) : reason ∈ all := by cases reason <;> decide

end Reason

structure QueueEntry where
  key : String
  item : Item
  reason : Reason
  /-- name of the element that refers to it -/
  source : Option String

def QueueEntry.describe (r : Registry) (e : QueueEntry) : String :=
  r.itemName e.item ++ " (" ++ e.reason.label ++ ")"

/-- Elements in the order in which they were reached; the first `taken` have been looked into. -/
structure WorkQueue where
  entries : List QueueEntry := []
  taken : Nat := 0
  alreadyPresent : Nat := 0

namespace WorkQueue

def size (q : WorkQueue) : Nat := q.entries.length

def pending (q : WorkQueue) : Nat := q.size - q.taken

def items (q : WorkQueue) : List Item := q.entries.map (·.item)

def keys (q : WorkQueue) : List String := q.entries.map (·.key)

def hasKey (q : WorkQueue) (key : String) : Bool := q.entries.any (·.key == key)

def push (q : WorkQueue) (r : Registry) (item : Item) (reason : Reason) (source : Option String) :
    WorkQueue :=
  let key := r.itemKey item
  if q.hasKey key then { q with alreadyPresent := q.alreadyPresent + 1 }
  else { q with entries := q.entries ++ [⟨key, item, reason, source⟩] }

def pop (q : WorkQueue) : Option (QueueEntry × WorkQueue) :=
  q.entries[q.taken]?.map fun entry => (entry, { q with taken := q.taken + 1 })

def contains (q : WorkQueue) (r : Registry) (item : Item) : Bool := q.hasKey (r.itemKey item)

def indexOf? (q : WorkQueue) (r : Registry) (item : Item) : Option Nat :=
  q.entries.findIdx? (·.key == r.itemKey item)

/-- the method that entered under the identity of `m` -/
def canonicalMethod? (q : WorkQueue) (r : Registry) (m : MethodId) : Option MethodId :=
  (q.entries.find? (·.key == r.methodKey m)).bind (·.item.method?)

def methods (q : WorkQueue) : List MethodId := q.items.filterMap Item.method?

def types (q : WorkQueue) : List TypeId := q.items.filterMap Item.type?

def fields (q : WorkQueue) : List FieldId := q.items.filterMap Item.field?

theorem keys_push (q : WorkQueue) (r : Registry) (item : Item) (reason : Reason)
    (source : Option String) :
    (q.push r item reason source).keys =
      if q.hasKey (r.itemKey item) then q.keys else q.keys ++ [r.itemKey item] := by
  unfold push
  split <;> simp_all [keys]

theorem hasKey_iff (q : WorkQueue) (key : String) : q.hasKey key = true ↔ key ∈ q.keys := by
  simp [hasKey, keys]

/-- the method that entered under an identity is the item of an entry with this key -/
theorem exists_of_canonicalMethod? {q : WorkQueue} {r : Registry} {m c : MethodId}
    (h : q.canonicalMethod? r m = some c) :
    ∃ e ∈ q.entries, e.key = r.methodKey m ∧ e.item = .method c := by
  obtain ⟨e, he, hitem⟩ := Option.bind_eq_some_iff.mp h
  have hkey := List.find?_some he
  refine ⟨e, List.mem_of_find?_eq_some he, by simpa using hkey, ?_⟩
  cases hi : e.item with
  | method m' =>
    rw [hi] at hitem
    cases hitem
    rfl
  | type t =>
    rw [hi] at hitem
    cases hitem
  | field f =>
    rw [hi] at hitem
    cases hitem

theorem keys_nodup_push (q : WorkQueue) (r : Registry) (item : Item) (reason : Reason)
    (source : Option String) (h : q.keys.Nodup) : (q.push r item reason source).keys.Nodup := by
  rw [keys_push]
  split
  · exact h
  · rename_i hk
    rw [hasKey_iff] at hk
    exact List.nodup_append.mpr ⟨h, by simp, by
      intro a ha b hb
      rw [List.mem_singleton] at hb
      subst hb
      rintro rfl
      exact hk ha⟩

end WorkQueue

end ProgramScan

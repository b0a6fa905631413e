import ProgramScan.Registry.Hierarchy
import ProgramScan.Sorting

/-!
# Placing fields

A field table lists the fields of a type with their sizes and offsets.  These are numbers of 32 bits,
and sums of them wrap around.

* `alignUp`           the next multiple of an alignment;
* `placeAligned`      fields one after the other, each aligned;
* `placeDense`        fields one after the other without padding, except those with fixed offsets;
* `FieldEntry.debugName`   the name of a field in debug records.
-/

namespace ProgramScan

/-- the least multiple of `alignment` that is not below `n`, if the sum does not wrap; alignment 0
asks for nothing -/
def alignUp (n alignment : UInt32) : UInt32 :=
  if alignment = 0 || n % alignment = 0 then n else n + alignment - n % alignment

structure FieldEntry where
  id : String
  size : UInt32
  /-- the type at whose level the field stands -/
  declaring : TypeId
  type : TypeId
  offset : UInt32 := 0
  isStatic : Bool := false
  hasExplicitOffset : Bool := false
  /-- the field points to a value held elsewhere -/
  isExternal : Bool := false
  field : FieldId

namespace FieldEntry

def stop (e : FieldEntry) : UInt32 := e.offset + e.size

/-- the declaring type in place of the field type in front of the name -/
def debugName (r : Registry) (e : FieldEntry) : String :=
  if e.id.toList.contains ' ' then
    r.fullName e.declaring ++ String.ofList (e.id.toList.dropWhile (· ≠ ' '))
  else e.id

end FieldEntry

/-- entries placed from `offset` on, each aligned to its size but at most to `alignment` -/
def placeAligned (alignment : UInt32) : (offset : UInt32) → List FieldEntry → List FieldEntry
  | _, [] => []
  | offset, e :: rest =>
    let start := alignUp offset (min alignment e.size)
    { e with offset := start } :: placeAligned alignment (start + e.size) rest

/-- instance entries without fixed offset placed from `offset` on, back to back -/
def placeDense : (offset : UInt32) → List FieldEntry → List FieldEntry
  | _, [] => []
  | offset, e :: rest =>
    if e.hasExplicitOffset || e.isStatic then e :: placeDense offset rest
    else { e with offset } :: placeDense (offset + e.size) rest

/-- the largest value of `f` on a list, 0 for the empty list -/
def largest {α : Type} (f : α → UInt32) (l : List α) : UInt32 := l.foldl (fun n a => max n (f a)) 0

/-- the last entry among those with the largest offset -/
def lastPlaced? (entries : List FieldEntry) : Option FieldEntry :=
  entries.foldl
    (fun best e =>
      match best with
      | some b => if b.offset ≤ e.offset then some e else best
      | none => some e)
    none

namespace Registry

/-- the declared layout discipline of a type; the reserved value of its bits is refused -/
def layoutKind (r : Registry) (t : TypeId) : Except Error LayoutKind :=
  match (r.type t).layout? with
  | some kind => .ok kind
  | none =>
    .error (.notSupported
      (.layoutKind ((r.type t).flags &&& TypeFlags.layoutMask).toNat (r.fullName t)))

def byFieldName (r : Registry) (fields : List FieldId) : List FieldId :=
  sortBy (fun a b => decide ((r.field a).name ≤ (r.field b).name)) fields

def byFieldToken (r : Registry) (fields : List FieldId) : List FieldId :=
  sortBy (fun a b => decide ((r.field a).token.value ≤ (r.field b).token.value)) fields

def instanceFields (r : Registry) (t : TypeId) : List FieldId :=
  (r.type t).fields.filter fun f => !(r.field f).isStatic

def staticFields (r : Registry) (t : TypeId) : List FieldId :=
  (r.type t).fields.filter fun f => (r.field f).isStatic

end Registry

end ProgramScan

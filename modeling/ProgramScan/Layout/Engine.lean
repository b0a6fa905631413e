import ProgramScan.Diagnostic
import ProgramScan.Layout.FieldTable
import ProgramScan.Layout.Kinds
import ProgramScan.Registry.NameUse

/-!
# The layout engine

For a target machine, the engine computes the field table of a type and the size of its values, and
remembers both.

* Reference types list the fields of every level of the ancestor chain, ordered by name within a
  level; the whole list is reversed, so that the root comes first, and placed without padding.
* Value types place their instance fields in the order of the tokens, each aligned to the least of
  the packing, the largest field size and its own size; explicit layout takes annotated offsets.
* A value type is at least as large as its declared size.

Value types can contain each other, at most `maxLayoutDepth` levels deep.  Field tables of reference
types are reported to a debug symbol sink; a sink that refuses them only causes a warning.

Sizes depend on names, and tables and sizes are remembered under identity keys.  The engine keeps
track of the types whose names it read; what it remembers is not read again.
-/

namespace ProgramScan

/-- The machine that a program is laid out for. -/
structure Target where
  /-- size of pointers, references to locations and native integers -/
  pointerSize : UInt32 := 4
  /-- size of an object reference -/
  referenceSize : UInt32 := 8

inductive DebugRecord
  /-- type name, offset and name of each instance field -/
  | fieldInfo (fields : List (String × Nat × String))
  /-- names of all fields of a type -/
  | fieldMap (type : String) (names : List String)

/-- A sink that keeps what it receives, unless one of its channels is closed. -/
structure DebugSink where
  infoClosed : Bool := false
  mapClosed : Bool := false
  records : List DebugRecord := []

def DebugSink.write (s : DebugSink) (record : DebugRecord) : Except Error DebugSink :=
  match record with
  | .fieldInfo _ =>
    if s.infoClosed then .error (.sinkClosed .fieldInfo)
    else .ok { s with records := s.records ++ [record] }
  | .fieldMap _ _ =>
    if s.mapClosed then .error (.sinkClosed .fieldMap)
    else .ok { s with records := s.records ++ [record] }

/-- A target with the tables and sizes computed so far. -/
structure LayoutEngine where
  target : Target := {}
  /-- field tables by identity key, without and with static fields -/
  tables : Table (String × Bool) (List FieldEntry) := ∅
  /-- sizes of value types by identity key -/
  sizes : Table String UInt32 := ∅
  sink : Option DebugSink := none
  diagnostics : Diagnostics := []
  namesRead : List TypeId := []

/-- A query of a layout engine; a failing query keeps what was computed before. -/
abbrev LayoutQuery := EStateM Error LayoutEngine

/-- how deep value types can contain each other -/
def maxLayoutDepth : Nat := 256

/-- The size of a value that its type alone decides: pointers, references, and the value types with
a size fixed by name. -/
def Target.fixedSize? (target : Target) (r : Registry) (t : TypeId) : Option UInt32 :=
  let form := (r.type t).form
  let name := r.fullName t
  if form.isPointer || form.isByRef then some target.pointerSize
  else if name = "System.Void" then some 0
  else if r.isReference t then some target.referenceSize
  else if ["System.Byte", "System.SByte", "System.Boolean"].contains name then some 1
  else if ["System.Char", "System.UInt16", "System.Int16"].contains name then some 2
  else if ["System.UInt32", "System.Int32", "System.Single"].contains name then some 4
  else if ["System.UInt64", "System.Int64", "System.Double", "System.DateTime"].contains name then
    some 8
  else if ["System.UIntPtr", "System.IntPtr"].contains name then some target.pointerSize
  else if ["System.Decimal", "System.Guid"].contains name then some 16
  else if name.toList.getLast? = some '*' then some target.pointerSize
  else none

/-- the packing of a type: its declared one, or the pointer size -/
def Target.packing (target : Target) (d : TypeDecl) : UInt32 :=
  match d.packing with
  | some packing => if packing = 0 then target.pointerSize else packing.toUInt32
  | none => target.pointerSize

def Target.storageOf (target : Target) (d : TypeDecl) (entries : List FieldEntry) : UInt32 :=
  let declared := d.classSize.getD 0
  if entries.isEmpty then declared
  else
    let alignment := min (largest FieldEntry.size entries) (target.packing d)
    max declared (alignUp (largest FieldEntry.stop entries) alignment)

namespace LayoutEngine

def readNames (ts : List TypeId) : LayoutQuery Unit :=
  modify fun engine => { engine with namesRead := ts.foldl insertUse engine.namesRead }

def describe (r : Registry) (sizeOf : TypeId → LayoutQuery UInt32) (declaring : TypeId)
    (f : FieldId) : LayoutQuery FieldEntry := do
  let type := (r.field f).type
  let size ← sizeOf type
  readNames (r.fieldUses f)
  return { id := r.fieldName f, size, declaring, type, field := f }

/-- an entry of a reference type: annotated offsets are taken at once -/
def describeMember (r : Registry) (sizeOf : TypeId → LayoutQuery UInt32) (declaring : TypeId)
    (f : FieldId) : LayoutQuery FieldEntry := do
  let e ← describe r sizeOf declaring f
  let e := { e with isStatic := (r.field f).isStatic }
  match (r.field f).explicitOffset? with
  | some offset => return { e with offset, hasExplicitOffset := true }
  | none => return e

def describeLevel (r : Registry) (sizeOf : TypeId → LayoutQuery UInt32) (withStatic : Bool)
    (level : TypeId) : LayoutQuery (List FieldEntry) :=
  let fields := (r.type level).fields.filter fun f => withStatic || !(r.field f).isStatic
  (r.byFieldName fields).mapM (describeMember r sizeOf level)

def referenceFields (r : Registry) (sizeOf : TypeId → LayoutQuery UInt32) (t : TypeId)
    (withStatic : Bool) : LayoutQuery (List FieldEntry) := do
  let levels ← (t :: r.ancestors t).mapM (describeLevel r sizeOf withStatic)
  return placeDense 0 levels.flatten.reverse

/-- the instance entries of a value type with automatic or sequential layout -/
def sequentialFields (r : Registry) (sizeOf : TypeId → LayoutQuery UInt32) (t : TypeId) :
    LayoutQuery (List FieldEntry) := do
  let fields := r.instanceFields t
  let sizes ← fields.mapM fun f => sizeOf (r.field f).type
  let entries ← (r.byFieldToken fields).mapM (describe r sizeOf t)
  let packing := (← get).target.packing (r.type t)
  return placeAligned (min packing (largest id sizes)) 0 entries

def describeFixed (r : Registry) (sizeOf : TypeId → LayoutQuery UInt32) (t : TypeId) (f : FieldId) :
    LayoutQuery FieldEntry := do
  let e ← describe r sizeOf t f
  return { e with offset := (r.field f).explicitOffset?.getD 0, hasExplicitOffset := true }

def describeStatic (r : Registry) (sizeOf : TypeId → LayoutQuery UInt32) (t : TypeId) (f : FieldId) :
    LayoutQuery FieldEntry := do
  let e ← describe r sizeOf t f
  return { e with isStatic := true }

/-- the field table of a value type; static fields come last -/
def valueFields (r : Registry) (sizeOf : TypeId → LayoutQuery UInt32) (t : TypeId)
    (withStatic : Bool) : LayoutQuery (List FieldEntry) := do
  let placed ← match ← MonadExcept.ofExcept (r.layoutKind t) with
    | .auto | .sequential => sequentialFields r sizeOf t
    | .explicit => (r.instanceFields t).mapM (describeFixed r sizeOf t)
  let statics ← if withStatic then (r.staticFields t).mapM (describeStatic r sizeOf t) else pure []
  return placed ++ statics

/-- hands a record to the sink; a refusal becomes a warning about `what` -/
def report (what : String) (record : DebugRecord) (engine : LayoutEngine) : LayoutEngine :=
  match engine.sink with
  | none => engine
  | some sink =>
    match sink.write record with
    | .ok sink => { engine with sink := some sink }
    | .error e =>
      { engine with
        diagnostics := engine.diagnostics ++
          [⟨.warning, .debugSymbols, "Writing " ++ what ++ " failed: " ++ e.message, none⟩] }

def maxRecordOffset : Nat := 0x7FFFFFFF

/-- reports the table of a reference type to the sink -/
def reportTable (r : Registry) (t : TypeId) (entries : List FieldEntry) : LayoutQuery Unit := do
  let fields := (entries.filter fun e => !e.isStatic).map fun e =>
    (r.fullName e.type, min e.offset.toNat maxRecordOffset, e.debugName r)
  modify (report ("field info of " ++ r.fullName t) (.fieldInfo fields))
  modify (report ("field map of " ++ r.fullName t)
    (.fieldMap (r.fullName t) (entries.map (·.debugName r))))

/-- the field table of a type that stands `depth` levels deep in other types -/
def fieldTableAt (r : Registry) (sizeOf : TypeId → LayoutQuery UInt32) (depth : Nat) (t : TypeId)
    (withStatic : Bool) : LayoutQuery (List FieldEntry) := do
  if maxLayoutDepth < depth then
    throw (.recursionLimit maxLayoutDepth)
  else
    readNames [t]
    let key := (r.typeKey t, withStatic)
    match (← get).tables.get? key with
    | some entries => return entries
    | none =>
      let entries ←
        if (r.type t).form.isValueType then valueFields r sizeOf t withStatic
        else do
          let entries ← referenceFields r sizeOf t withStatic
          reportTable r t entries
          pure entries
      modify fun engine => { engine with tables := engine.tables.insert key entries }
      return entries

def valueStorageAt (r : Registry) (sizeOf : TypeId → LayoutQuery UInt32) (depth : Nat) (t : TypeId) :
    LayoutQuery UInt32 := do
  let entries ← fieldTableAt r sizeOf depth t false
  return (← get).target.storageOf (r.type t) entries

def underlying? (r : Registry) (t : TypeId) : Option TypeId :=
  (r.fieldNamed? t "value__").map fun f => (r.field f).type

/-- size of a value of a type that stands `depth` levels deep in other types, looking at most
`steps` levels further -/
def sizeAt (r : Registry) : (steps depth : Nat) → TypeId → LayoutQuery UInt32
  | 0, _, _ => throw (.recursionLimit maxLayoutDepth)
  | steps + 1, depth, t => do
    readNames [t]
    let engine ← get
    match engine.target.fixedSize? r t with
    | some size => return size
    | none =>
      match engine.sizes.get? (r.typeKey t) with
      | some size => return size
      | none =>
        if (r.type t).form.isEnum then
          match underlying? r t with
          | some u => sizeAt r steps (depth + 1) u
          | none => return 4
        else
          let size ← valueStorageAt r (sizeAt r steps (depth + 1)) depth t
          modify fun engine => { engine with sizes := engine.sizes.insert (r.typeKey t) size }
          return size

/-- Levels that a size can take: value types are limited by `maxLayoutDepth`, and enums over enums
by the number of types. -/
def sizeSteps (r : Registry) : Nat := maxLayoutDepth + 2 + r.types.size

def sizeOfType (r : Registry) (t : TypeId) : LayoutQuery UInt32 := sizeAt r (sizeSteps r) 0 t

def fieldTable (r : Registry) (t : TypeId) (withStatic : Bool) : LayoutQuery (List FieldEntry) :=
  fieldTableAt r (sizeAt r (sizeSteps r) 1) 0 t withStatic

/-- size of an instance of a type, without object header; for reference types the end of the field
placed last -/
def storageSize (r : Registry) (t : TypeId) : LayoutQuery UInt32 := do
  if (r.type t).form.isValueType then
    valueStorageAt r (sizeAt r (sizeSteps r) 1) 0 t
  else
    let entries ← fieldTable r t false
    return match lastPlaced? (entries.filter fun e => !e.isStatic) with
      | some e => e.stop
      | none => 0

/-- number of stack slots of four bytes for a local variable -/
def stackSlots (r : Registry) (t : TypeId) : LayoutQuery UInt32 := do
  let size ← sizeOfType r t
  return size / 4 + if size % 4 = 0 then 0 else 1

def resolveField (r : Registry) (t : TypeId) (id : String) (onlyInstance : Bool) :
    LayoutQuery FieldEntry := do
  let entries ← fieldTable r t (!onlyInstance)
  match entries.find? fun e => e.id == id && (!onlyInstance || !e.isStatic) with
  | some e => return e
  | none => throw (.fieldNotFound ("Field '" ++ id ++ "' not found on type '" ++ r.fullName t ++ "'"))

def resolveFieldOf (r : Registry) (f : FieldId) : LayoutQuery FieldEntry := do
  let d := r.field f
  let entries ← fieldTable r d.declaring d.isStatic
  match entries.find? fun e => e.field = f with
  | some e => return e
  | none =>
    readNames (r.fieldUses f)
    resolveField r d.declaring (r.fieldName f) (!d.isStatic)

end LayoutEngine

end ProgramScan

import ProgramScan.Scan.Reach

/-!
# Emitting what was reached

Every element of a finished scan goes to the generator in the order in which it was reached:

* a field as its storage;
* a method without plug as its body;
* a method with plug as a forward to it, after the body of the plug if that is emitted on behalf of
  the method (wildcard and inline plugs);
* types, inline methods and wildcard plugs themselves not at all.

The method tables come last.  Before anything is emitted, all plugs are checked.
-/

namespace ProgramScan

namespace Scan

/-- the plug of a method that was reached, which must be there if the method cannot do without, and
must have been reached itself unless it is inline -/
def checkedPlug (m : MethodId) : Scan (Option MethodId) := do
  let plug ← resolvePlug m
  let run ← get
  let r := run.registry
  let d := r.method m
  if d.isInline then
    return plug
  else
    match plug with
    | some found =>
      identify (.method found)
      if run.scanner.queue.contains r (.method found) || (r.method found).isInline then
        return plug
      else
        throw (.plugNotQueued (r.methodName m) (r.methodName found))
    | none =>
      if d.plugOptions?.any fun options => options.required && !options.wildcard then
        throw (.plugRequired (r.methodName m))
      else
        return none

def checkPlugs (items : List Item) : Scan (List (Item × Option MethodId)) :=
  items.mapM fun item =>
    match item with
    | .method m => return (item, ← checkedPlug m)
    | _ => return (item, none)

def newRecord (m : MethodId) (place uid : Nat) (kind : EmissionKind) : Scan MethodRecord :=
  return { method := m, place, uid, kind, label := ← methodLabel m }

def assembleNormal (place uid : Nat) (m : MethodId) : Scan Unit := do
  let options := ((← registry).method m).plugOptions?
  if !(options.any (·.wildcard)) then
    let record ← newRecord m place uid .normal
    let code ← decodeStamped m
    emit (.body { record with assembler := options.bind (·.assembler) } code)

/-- emits a forward to a plug with options; a wildcard is emitted as the body of the method -/
def forwardWithOptions (record plugRecord : MethodRecord) (options : PlugOptions) : Scan Unit := do
  let plugRecord := { plugRecord with assembler := options.assembler }
  if options.wildcard then
    let label ← methodLabel record.method
    let plugRecord := { plugRecord.forPlugged record.method label with isWildcard := true }
    let code ← decodeStamped plugRecord.method
    if !code.isEmpty then
      emit (.body plugRecord code)
    emit (.forward record plugRecord)
  else
    emit (.forward record plugRecord)

def forwardInline (record plugRecord : MethodRecord) : Scan Unit := do
  let label ← methodLabel record.method
  let plugRecord := { plugRecord.forPlugged record.method label with isInline := true }
  let code ← decodeStamped plugRecord.method
  emit (.body plugRecord code)
  emit (.forward record plugRecord)

def assemblePlugged (place uid : Nat) (m plug : MethodId) : Scan Unit := do
  identify (.method plug)
  let run ← get
  let plugPlace := (run.scanner.queue.indexOf? run.registry (.method plug)).getD place
  let plugUid ← methodUid plug
  let record ← newRecord m place uid .needsPlug
  let d := run.registry.method plug
  if d.isInline then
    forwardInline record (← newRecord plug place plugUid .plug)
  else
    let plugRecord ← newRecord plug plugPlace plugUid .plug
    match d.plugOptions? with
    | some options => forwardWithOptions record plugRecord options
    | none => emit (.forward record plugRecord)

def assembleMethod (place : Nat) (m : MethodId) (plug : Option MethodId) : Scan Unit := do
  if !((← registry).method m).isInline then
    let uid ← methodUid m
    match plug with
    | some plug => assemblePlugged place uid m plug
    | none => assembleNormal place uid m

def assembleItem (place : Nat) : Item × Option MethodId → Scan Unit
  | (.method m, plug) => assembleMethod place m plug
  | (.field f, _) => emit (.field f)
  | (.type _, _) => return ()

def assembleItems : Nat → List (Item × Option MethodId) → Scan Unit
  | _, [] => return ()
  | place, entry :: rest => do
    assembleItem place entry
    assembleItems (place + 1) rest

def methodTables : Scan Emission := do
  let queue := (← get).scanner.queue
  let types ← queue.types.mapM fun t => return (t, ← typeUid t)
  let methods ← queue.methods.mapM fun m => return (m, ← methodUid m)
  return .tables types methods

def assemble : Scan Unit := do
  enter .finalizing
  let items := (← get).scanner.queue.items
  assembleItems 0 (← checkPlugs items)
  emitWith methodTables

end Scan

end ProgramScan

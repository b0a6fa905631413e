import ProgramScan.Plug.Manager
import ProgramScan.Scan.Emission
import ProgramScan.Scan.Uid

/-!
# Scans

A `Scanner` is what one scan knows: its configuration, the plugs, the queue, the numbers and labels
handed out.  A `Scan` is an operation on a scanner, the program it scans and the generator it feeds;
a failure keeps what was done before it.  Steps that identify elements note the names they read.
-/

namespace ProgramScan

structure ScanConfig where
  /-- modules searched for plug types -/
  plugModules : List ModuleId := []
  /-- methods that a boot scan starts from, beside the boot list -/
  explicitEntries : List MethodId := []
  /-- fields that a boot scan emits first -/
  earlyFields : List FieldId := []
  /-- the type whose methods implement collection interfaces for arrays -/
  arrayHelper : String := "System.SZArrayHelper"
  /-- most elements that one run looks into -/
  budget : Nat := 1000000000

inductive Phase
  | idle
  | discovering
  | draining
  | finalizing
  | done
  deriving DecidableEq

def Phase.label : Phase → String
  | .idle => "Idle"
  | .discovering => "Discovering"
  | .draining => "Draining"
  | .finalizing => "Finalizing"
  | .done => "Done"

structure Scanner where
  config : ScanConfig := {}
  plugs : PlugManager := {}
  plugsIndexed : Bool := false
  queue : WorkQueue := {}
  uids : Uids := {}
  /-- modules of the types that were looked into, in the order of first use -/
  usedModules : List ModuleId := []
  labels : LabelCache := {}
  phase : Phase := .idle

/-- A scanner with the program it scans and the generator it feeds. -/
structure Run where
  registry : Registry
  scanner : Scanner := {}
  generator : Generator := {}

/-- A step of a scan; a failure keeps what was done before it. -/
abbrev Scan := EStateM Error Run

namespace Run

def modifyScanner (run : Run) (f : Scanner → Scanner) : Run := { run with scanner := f run.scanner }

def useNames (run : Run) (ts : List TypeId) : Run :=
  { run with registry := run.registry.useNames ts }

end Run

namespace Scan

def onRegistry {α : Type} (x : Action α) : Scan α := fun run =>
  match x run.registry with
  | .ok a registry => .ok a { run with registry }
  | .error e registry => .error e { run with registry }

def onPlugs {α : Type} (x : EStateM Error PlugManager α) : Scan α := fun run =>
  match x run.scanner.plugs with
  | .ok a plugs => .ok a (run.modifyScanner fun s => { s with plugs })
  | .error e plugs => .error e (run.modifyScanner fun s => { s with plugs })

def registry : Scan Registry := return (← get).registry

def enter (phase : Phase) : Scan Unit :=
  modify fun run => run.modifyScanner fun s => { s with phase }

def reading (uses : Run → List TypeId) : Scan Unit := modify fun run => run.useNames (uses run)

def identify (item : Item) : Scan Unit := reading fun run => run.registry.itemUses item

def enqueue (item : Item) (reason : Reason) (source : Option String) : Scan Unit := do
  identify item
  modify fun run =>
    run.modifyScanner fun s => { s with queue := s.queue.push run.registry item reason source }

def dequeue : Scan (Option QueueEntry) :=
  modifyGet fun run =>
    match run.scanner.queue.pop with
    | none => (none, run)
    | some (entry, queue) => (some entry, run.modifyScanner fun s => { s with queue })

def methodUid (m : MethodId) : Scan Nat := do
  reading fun run => run.scanner.uids.methodUidUses run.registry m
  modifyGet fun run =>
    let (uid, uids) := run.scanner.uids.methodUid run.registry m
    (uid, run.modifyScanner fun s => { s with uids })

/-- the number of a type that was reached -/
def typeUid (t : TypeId) : Scan Nat := do
  identify (.type t)
  let run ← get
  let (uid, uids) ← MonadExcept.ofExcept
    (run.scanner.uids.typeUid run.registry run.scanner.queue t)
  set (run.modifyScanner fun s => { s with uids })
  return uid

def methodLabel (m : MethodId) : Scan String := do
  identify (.method m)
  modifyGet fun run =>
    let (label, labels) := run.scanner.labels.methodLabel run.registry m
    (label, run.modifyScanner fun s => { s with labels })

def resolvePlug (m : MethodId) : Scan (Option MethodId) := do
  let (plug, plugs) ← onRegistry ((← get).scanner.plugs.resolvePlug m)
  modify fun run => run.modifyScanner fun s => { s with plugs }
  return plug

/-- hands what `make` gives to the generator; a refused call makes nothing -/
def emitWith (make : Scan Emission) : Scan Unit := do
  let generator := (← get).generator
  modify fun run => { run with generator := generator.counted }
  if generator.refusesNext then
    throw (.generatorRefused generator.calls)
  else
    let e ← make
    modify fun run => { run with generator := run.generator.record e }

def emit (e : Emission) : Scan Unit := emitWith (return e)

end Scan

end ProgramScan

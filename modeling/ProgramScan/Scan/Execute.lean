import ProgramScan.Scan.Assemble

/-!
# Whole scans

* `execute`   scans from one entry point;
* `boot`      scans from a boot list.

Plug types are filed and checked once per scanner.  A later scan with the same scanner goes on from
what the earlier ones reached.
-/

namespace ProgramScan

namespace Scan

def indexPlugs : Scan Unit := do
  let run ← get
  if !run.scanner.plugsIndexed then
    enter .discovering
    let modules := run.scanner.config.plugModules
    reading fun run => PlugIndex.findUses run.registry modules
    onPlugs (PlugManager.findImplementors run.registry modules)
    reading fun run => run.registry.checkUses run.scanner.plugs.index
    onPlugs (PlugManager.scanFound run.registry)
    modify fun run => run.modifyScanner fun s => { s with plugsIndexed := true }

/-- looks into everything in the queue -/
def drainQueue : Scan Unit := do
  enter .draining
  drain (← get).scanner.config.budget

/-- scans everything that `entry` leads to, and emits it -/
def execute (entry : MethodId) : Scan Unit := do
  indexPlugs
  enqueue (.method entry) .entryPoint none
  drainQueue
  assemble
  emit (.entry (some entry) [])
  enter .done

def enqueueBootEntry (entry : MethodId) : Scan Unit := do
  if let some declaring := ((← registry).method entry).declaring then
    enqueue (.type declaring) .bootEntryDeclaringType none
  enqueue (.method entry) .bootEntry none

/-- scans everything that a boot list and further elements lead to, and emits it -/
def boot (entries : List MethodId) (included : List Item) : Scan Unit := do
  entries.forM enqueueBootEntry
  included.forM fun item => enqueue item .forceInclude none
  indexPlugs
  let config := (← get).scanner.config
  config.explicitEntries.forM fun m => enqueue (.method m) .explicitEntry none
  config.earlyFields.forM fun f => emit (.field f)
  drainQueue
  assemble
  emit (.entry none entries)
  enter .done

end Scan

end ProgramScan

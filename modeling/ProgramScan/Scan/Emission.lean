import ProgramScan.Instruction.Basic
import ProgramScan.Label

/-!
# What a scan hands to a code generator

A scan ends in a sequence of `Emission`s: bodies of methods, forwards of replaced methods to their
plugs, storage of static fields, the method tables and the entry of the program.  A `Generator` takes
them one by one and keeps them; it can be made to refuse one call.
-/

namespace ProgramScan

inductive EmissionKind
  | normal
  | plug
  | needsPlug
  deriving DecidableEq

def EmissionKind.label : EmissionKind → String
  | .normal => "Normal"
  | .plug => "Plug"
  | .needsPlug => "NeedsPlug"

/-- A method with all that is needed to emit it. -/
structure MethodRecord where
  method : MethodId
  /-- place among the elements of the scan -/
  place : Nat
  uid : Nat
  kind : EmissionKind
  /-- the method that a plug body is emitted for -/
  plugged : Option MethodId := none
  assembler : Option String := none
  isWildcard : Bool := false
  /-- the body is expanded where the plugged method is called -/
  isInline : Bool := false
  label : String

/-- what stands in front of the label of a body that is emitted for a replaced method -/
def pluggedLabelStart : String := "PLUG_FOR___"

namespace MethodRecord

def forPlugged (record : MethodRecord) (plugged : MethodId) (label : String) : MethodRecord :=
  { record with plugged := some plugged, label := pluggedLabelStart ++ label }

end MethodRecord

inductive Emission
  | body (record : MethodRecord) (code : List Instruction)
  /-- a method that only leads to its plug -/
  | forward (record plug : MethodRecord)
  | field (field : FieldId)
  /-- the method tables: types and methods with their numbers -/
  | tables (types : List (TypeId × Nat)) (methods : List (MethodId × Nat))
  /-- the entry of the program, `none` for a boot list -/
  | entry (entry : Option MethodId) (boot : List MethodId)

namespace Emission

def body? : Emission → Option (MethodRecord × List Instruction)
  | .body record code => some (record, code)
  | _ => none

def forward? : Emission → Option (MethodRecord × MethodRecord)
  | .forward record plug => some (record, plug)
  | _ => none

def field? : Emission → Option FieldId
  | .field f => some f
  | _ => none

def isTables : Emission → Bool
  | .tables _ _ => true
  | _ => false

end Emission

structure Generator where
  /-- the call to refuse, counted from zero -/
  failAt : Option Nat := none
  calls : Nat := 0
  emissions : List Emission := []

namespace Generator

def refusesNext (g : Generator) : Bool := g.failAt == some g.calls

def counted (g : Generator) : Generator := { g with calls := g.calls + 1 }

def record (g : Generator) (e : Emission) : Generator := { g with emissions := g.emissions ++ [e] }

def bodies (g : Generator) : List (MethodRecord × List Instruction) :=
  g.emissions.filterMap Emission.body?

def forwards (g : Generator) : List (MethodRecord × MethodRecord) :=
  g.emissions.filterMap Emission.forward?

def fields (g : Generator) : List FieldId := g.emissions.filterMap Emission.field?

def hasTables (g : Generator) : Bool := g.emissions.any Emission.isTables

end Generator

end ProgramScan

/-!
# Findings that do not stop a run

Replacement methods that match nothing and debug symbol sinks that refuse a record are reported as
`Diagnostic`s.  A collection of them is a list in the order of reporting.
-/

namespace ProgramScan

inductive Severity
  | info
  | warning
  | error
  deriving DecidableEq

def Severity.label : Severity → String
  | .info => "INFO"
  | .warning => "WARN"
  | .error => "ERROR"

/-- The part of the program that reported a finding. -/
inductive Category
  | plug
  | plugField
  | layout
  | debugSymbols
  | scanner
  | general
  deriving DecidableEq

def Category.label : Category → String
  | .plug => "Plug"
  | .plugField => "PlugField"
  | .layout => "Layout"
  | .debugSymbols => "DebugSymbols"
  | .scanner => "Scanner"
  | .general => "General"

def Category.all : List Category := [.plug, .plugField, .layout, .debugSymbols, .scanner, .general]

/-- A finding, possibly about a named item. -/
structure Diagnostic where
  severity : Severity
  category : Category
  message : String
  item : Option String := none

def Diagnostic.render (d : Diagnostic) : String :=
  "[" ++ d.severity.label ++ "] " ++ d.category.label ++ ": " ++ d.message ++
    match d.item with
    | some item => " (" ++ item ++ ")"
    | none => ""

abbrev Diagnostics := List Diagnostic

namespace Diagnostics

def countOf (ds : Diagnostics) (severity : Severity) : Nat :=
  ds.countP fun d => d.severity = severity

def warningCount (ds : Diagnostics) : Nat := ds.countOf .warning

def errorCount (ds : Diagnostics) : Nat := ds.countOf .error

def ofCategory (ds : Diagnostics) (category : Category) : Diagnostics :=
  ds.filter fun d => d.category = category

/-- counts on the first line, then every warning and error on a line of its own -/
def summary (ds : Diagnostics) : String :=
  let head :=
    "Diagnostics: " ++ toString ds.errorCount ++ " error(s), " ++ toString ds.warningCount ++
      " warning(s), " ++ toString ds.length ++ " total\n"
  let serious := ds.filter fun d => d.severity ≠ .info
  String.join (head :: serious.map fun d => "  " ++ d.render ++ "\n")

end Diagnostics

end ProgramScan

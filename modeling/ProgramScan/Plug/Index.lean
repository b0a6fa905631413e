import ProgramScan.Registry.Instantiate
import ProgramScan.Registry.Resolve

/-!
# The index of plug types

A plug type replaces members of the types it names as targets.  Plug types are filed under their
targets in four buckets: for one type or for it and its descendants, and for closed or open targets.
Targets are compared by identity key and kept in the order in which they were first seen.
-/

namespace ProgramScan

inductive PlugKind
  /-- one closed type -/
  | exact
  /-- one open generic type -/
  | exactGeneric
  /-- the descendants of a closed type -/
  | inheritable
  /-- the descendants of an open generic type -/
  | inheritableGeneric
  deriving DecidableEq

def PlugKind.ofTarget (isOpen inheritable : Bool) : PlugKind :=
  match isOpen, inheritable with
  | false, false => .exact
  | false, true => .inheritable
  | true, false => .exactGeneric
  | true, true => .inheritableGeneric

/-- A target and the plug types filed under it. -/
structure PlugRow where
  key : String
  target : TypeId
  plugs : List TypeId

structure PlugBucket where
  rows : List PlugRow := []

/-- files `plug` under the row of `key`, which is started for `target` if there is none -/
def filePlug (key : String) (target plug : TypeId) : List PlugRow → List PlugRow
  | [] => [⟨key, target, [plug]⟩]
  | row :: rest =>
    if row.key = key then { row with plugs := row.plugs ++ [plug] } :: rest
    else row :: filePlug key target plug rest

namespace PlugBucket

def insert (b : PlugBucket) (r : Registry) (target plug : TypeId) : PlugBucket :=
  ⟨filePlug (r.typeKey target) target plug b.rows⟩

def get? (b : PlugBucket) (r : Registry) (target : TypeId) : Option (List TypeId) :=
  (b.rows.find? fun row => row.key == r.typeKey target).map (·.plugs)

def plugCount (b : PlugBucket) : Nat :=
  b.rows.foldl (fun n row => n + row.plugs.length) 0

end PlugBucket

structure PlugIndex where
  exact : PlugBucket := {}
  exactGeneric : PlugBucket := {}
  inheritable : PlugBucket := {}
  inheritableGeneric : PlugBucket := {}

namespace PlugIndex

def bucket (index : PlugIndex) : PlugKind → PlugBucket
  | .exact => index.exact
  | .exactGeneric => index.exactGeneric
  | .inheritable => index.inheritable
  | .inheritableGeneric => index.inheritableGeneric

def modifyBucket (index : PlugIndex) (kind : PlugKind) (f : PlugBucket → PlugBucket) : PlugIndex :=
  match kind with
  | .exact => { index with exact := f index.exact }
  | .exactGeneric => { index with exactGeneric := f index.exactGeneric }
  | .inheritable => { index with inheritable := f index.inheritable }
  | .inheritableGeneric => { index with inheritableGeneric := f index.inheritableGeneric }

def insert (index : PlugIndex) (r : Registry) (target plug : TypeId) (inheritable : Bool) :
    PlugIndex :=
  index.modifyBucket (.ofTarget (r.isOpen target) inheritable) fun b => b.insert r target plug

def plugCount (index : PlugIndex) : Nat :=
  index.exact.plugCount + index.exactGeneric.plugCount + index.inheritable.plugCount +
    index.inheritableGeneric.plugCount

def closedPlugs (index : PlugIndex) : List (TypeId × TypeId) :=
  (index.exact.rows ++ index.inheritable.rows).flatMap fun row =>
    row.plugs.map fun plug => (row.target, plug)

def targetOf (r : Registry) (mark : PlugTarget) : Except Error TypeId :=
  match mark.target, mark.name with
  | some t, _ => .ok t
  | none, none => .error (.plugTargetNotFound "Missing TargetName")
  | none, some name =>
    match r.resolveTypeName? name with
    | some t => .ok t
    | none => .error (.plugTargetNotFound name)

/-- the marks of the types of the given modules, with the types that carry them -/
def marksOf (r : Registry) (modules : List ModuleId) : List (TypeId × PlugTarget) :=
  modules.flatMap fun m =>
    (r.module m).types.flatMap fun plug => (r.type plug).plugTargets.map fun mark => (plug, mark)

/-- files `plug` as one of its marks says; an optional mark without target is passed over -/
def fileMark (r : Registry) (plug : TypeId) (mark : PlugTarget) :
    EStateM Error PlugIndex Unit :=
  match targetOf r mark with
  | .ok target => modify fun index => index.insert r target plug mark.inheritable
  | .error e => if mark.optional then return () else throw e

/-- files the plug types of the given modules; what was filed before a failure stays filed -/
def findImplementors (r : Registry) (modules : List ModuleId) : EStateM Error PlugIndex Unit :=
  (marksOf r modules).forM fun (plug, mark) => fileMark r plug mark

def findUses (r : Registry) (modules : List ModuleId) : List TypeId :=
  usesThrough (fun (_, mark) => !(targetOf r mark).isOk && !mark.optional)
    (fun (plug, mark) => (targetOf r mark).toOption.toList.flatMap fun target => [target, plug])
    (marksOf r modules)

end PlugIndex

end ProgramScan

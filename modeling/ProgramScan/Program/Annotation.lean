/-!
# Annotations

Program elements refer to each other by their place in the registry (`TypeId`, `MethodId`, …).
Annotations are records attached to types, methods, parameters and fields:

* `plug`, `plugMethod`, `plugField`   steer which members replace members of other types;
* `inline`                            methods that a code generator expands at their calls;
* `fieldAccess`, `objectPointer`, `fieldType`   describe parameters of replacement methods;
* `fieldOffset`                       fixes the place of a field.
-/

namespace ProgramScan

structure TypeId where
  index : Nat
  deriving DecidableEq, Inhabited

structure MethodId where
  index : Nat
  deriving DecidableEq, Inhabited

structure FieldId where
  index : Nat
  deriving DecidableEq, Inhabited

structure ModuleId where
  index : Nat
  deriving DecidableEq, Inhabited

/-- Marks a type as the substitute for another type. -/
structure PlugTarget where
  target : Option TypeId := none
  /-- its name, used when there is no `target` -/
  name : Option String := none
  /-- the substitute also stands in for descendants of the target -/
  inheritable : Bool := false
  /-- the mark is ignored if the target does not exist -/
  optional : Bool := false

/-- Options of a replacement method, or of a method that must be replaced. -/
structure PlugOptions where
  /-- the full name the replacement stands for, compared without illegal characters -/
  signature : Option String := none
  /-- a disabled replacement counts as none -/
  enabled : Bool := true
  assembler : Option String := none
  required : Bool := false
  wildcard : Bool := false
  /-- a wildcard whose parameters are compared all the same -/
  matchParams : Bool := false
  /-- a missing target is not reported -/
  optional : Bool := true

structure FieldPlug where
  fieldId : String
  /-- the value lives outside the plugged type -/
  external : Bool := false
  type : Option TypeId := none

inductive Annotation
  | plug (target : PlugTarget)
  | plugMethod (options : PlugOptions)
  | plugField (plug : FieldPlug)
  | inline
  | fieldAccess (name : String)
  | objectPointer
  | fieldType (name : String)
  | fieldOffset (offset : UInt32)

namespace Annotation

def plug? : Annotation → Option PlugTarget
  | .plug mark => some mark
  | _ => none

def plugMethod? : Annotation → Option PlugOptions
  | .plugMethod options => some options
  | _ => none

def plugField? : Annotation → Option FieldPlug
  | .plugField replacement => some replacement
  | _ => none

def fieldType? : Annotation → Option String
  | .fieldType name => some name
  | _ => none

def fieldOffset? : Annotation → Option UInt32
  | .fieldOffset offset => some offset
  | _ => none

def isInline : Annotation → Bool
  | .inline => true
  | _ => false

def isFieldAccess : Annotation → Bool
  | .fieldAccess _ => true
  | _ => false

def isObjectPointer : Annotation → Bool
  | .objectPointer => true
  | _ => false

end Annotation

end ProgramScan

import ProgramScan.Registry.Define

/-!
# Declaring types and members

A `TypeDesign` or `MethodDesign` says how a new type or method should look; declaring it adds the
element to the registry, with a token of its module bound to it.
-/

namespace ProgramScan

inductive BaseChoice
  | usual
  | none
  | explicit (base : TypeId)

structure TypeDesign where
  module : ModuleId
  namespaceName : String
  name : String
  kind : TypeKind := .reference
  generic : List String := []
  base : BaseChoice := .usual
  interfaces : List TypeId := []
  layout : Option LayoutKind := Option.none
  flags : TypeFlags := 0
  packing : Option UInt16 := Option.none
  classSize : Option UInt32 := Option.none
  annotations : List Annotation := []
  enclosing : Option TypeId := Option.none

def LayoutKind.flags : LayoutKind → TypeFlags
  | .auto => 0
  | .sequential => TypeFlags.sequentialLayout
  | .explicit => TypeFlags.explicitLayout

def TypeKind.usualFlags : TypeKind → TypeFlags
  | .reference => 0
  | .valueType => TypeFlags.isSealed ||| TypeFlags.sequentialLayout
  | .interface => TypeFlags.interface ||| TypeFlags.abstract
  | .enum => TypeFlags.isSealed

namespace TypeDesign

/-- the name with the number of generic parameters behind it -/
def declaredName (d : TypeDesign) : String :=
  if d.generic.isEmpty then d.name else d.name ++ "`" ++ toString d.generic.length

def declaredFlags (d : TypeDesign) : TypeFlags :=
  let usual := d.kind.usualFlags ||| TypeFlags.isPublic
  let laidOut := match d.layout with
    | some layout => usual &&& ~~~TypeFlags.layoutMask ||| layout.flags
    | Option.none => usual
  laidOut ||| d.flags

end TypeDesign

structure MethodDesign where
  module : ModuleId
  name : String
  /-- `none` for a dynamic method -/
  declaring : Option TypeId
  access : MethodFlags := MethodFlags.accessPublic
  modifiers : MethodFlags := 0
  implementation : MethodFlags := 0
  /-- `none` stands for no result -/
  returnType : Option TypeId := none
  params : List Param := []
  genericParams : List TypeId := []
  annotations : List Annotation := []
  body : Option Body := none

structure MethodOptions where
  isStatic : Bool := false
  isVirtual : Bool := false
  /-- virtual, in a slot of its own -/
  newSlot : Bool := false
  /-- virtual and without code -/
  isAbstract : Bool := false
  isPrivate : Bool := false
  internalCall : Bool := false
  /-- static and forwarded to native code -/
  pinvoke : Bool := false

namespace MethodOptions

def flagsIf (present : Bool) (flags : MethodFlags) : MethodFlags := if present then flags else 0

/-- the modifier word of the options; methods always hide by signature -/
def modifiers (o : MethodOptions) : MethodFlags :=
  MethodFlags.hideBySig ||| flagsIf o.isStatic MethodFlags.isStatic |||
    flagsIf o.isVirtual MethodFlags.isVirtual |||
    flagsIf o.newSlot (MethodFlags.isVirtual ||| MethodFlags.newSlot) |||
    flagsIf o.isAbstract (MethodFlags.abstract ||| MethodFlags.isVirtual) |||
    flagsIf o.pinvoke (MethodFlags.pinvoke ||| MethodFlags.isStatic)

def access (o : MethodOptions) : MethodFlags :=
  if o.isPrivate then MethodFlags.accessPrivate else MethodFlags.accessPublic

def implementation (o : MethodOptions) : MethodFlags :=
  flagsIf o.internalCall MethodFlags.internalCall

end MethodOptions

/-- the design with the flag words of the options; a dynamic method is always static -/
def MethodDesign.withOptions (d : MethodDesign) (options : MethodOptions) : MethodDesign :=
  let o := { options with isStatic := options.isStatic || d.declaring.isNone }
  { d with access := o.access, modifiers := o.modifiers, implementation := o.implementation }

namespace Registry

def chosenBase (d : TypeDesign) : Action (Option TypeId) :=
  match d.base, d.kind with
  | .explicit base, _ => return some base
  | .none, _ => return none
  | .usual, .reference => return some (← wellKnown "System.Object")
  | .usual, .valueType => return some (← wellKnown "System.ValueType")
  | .usual, .enum => return some (← wellKnown "System.Enum")
  | .usual, .interface => return none

def addParameters (module : ModuleId) (owner : ParameterOwner) :
    (index : Nat) → List String → StateM Registry (List TypeId)
  | _, [] => return []
  | index, name :: rest => do
    let p ← addParameter module name index owner
    let ps ← addParameters module owner (index + 1) rest
    return p :: ps

/-- adds a designed type; nested types have no namespace of their own -/
def declareType (d : TypeDesign) : Action TypeId := do
  let base ← chosenBase d
  let params ← addParameters d.module .type 0 d.generic
  let token ← reserveToken d.module Token.typeDefTable
  let t ← defineType
    { module := d.module, token, name := d.declaredName, form := .defined d.kind params,
      namespaceName := if d.enclosing.isSome then "" else d.namespaceName,
      flags := d.declaredFlags, base, enclosing := d.enclosing, interfaces := d.interfaces,
      packing := d.packing, classSize := d.classSize, annotations := d.annotations }
  bindToken d.module token (.type (some t))
  return t

def declareField (module : ModuleId) (declaring : TypeId) (name : String) (type : TypeId)
    (flags : FieldFlags) (annotations : List Annotation) : StateM Registry FieldId := do
  let token ← reserveToken module Token.fieldTable
  let f ← addField { token, name, flags, declaring, type, annotations }
  bindToken module token (.field (some f))
  attachField declaring f
  return f

/-- adds a field that its declaring type does not list and no token is bound to -/
def declareDetached (module : ModuleId) (declaring : TypeId) (name : String) (type : TypeId)
    (flags : FieldFlags) (annotations : List Annotation) : StateM Registry FieldId := do
  let token ← reserveToken module Token.fieldTable
  addField { token, name, flags, declaring, type, annotations }

def declareEnum (module : ModuleId) (namespaceName name : String) (underlying : TypeId) :
    Action TypeId := do
  let t ← declareType { module, namespaceName, name, kind := .enum }
  let _ ← declareField module t "value__" underlying (FieldFlags.isPublic ||| FieldFlags.specialName)
    []
  return t

def declareMethod (d : MethodDesign) : Action MethodId := do
  let returnType ← match d.returnType with
    | some t => pure t
    | none => wellKnown "System.Void"
  let token ← reserveToken d.module Token.methodDefTable
  let m ← addMethod
    { token, name := d.name, access := d.access, modifiers := d.modifiers,
      implementation := d.implementation, declaring := d.declaring, returnType,
      params := d.params, genericArgs := d.genericParams, annotations := d.annotations,
      body := d.body }
  bindToken d.module token (.method (some m))
  if let some declaring := d.declaring then
    attachMethod declaring m
  return m

end Registry

end ProgramScan

import ProgramScan.Program.Region
import ProgramScan.Table
import ProgramScan.Token

/-!
# Program elements

The records of types, methods, fields and modules.

* `TypeForm`     how a type comes about: defined, instantiated, a parameter, or constructed from an
                 element type;
* `TypeDecl`     a type with its members and relations;
* `Method`       a method, with the method it was instantiated from as its `MethodOrigin`;
* `Field`        a field of a type;
* `TokenTarget`  what a module binds a token to;
* `Item`         any element that a scan can reach.
-/

namespace ProgramScan

inductive TypeKind
  | reference
  | valueType
  | interface
  | enum
  deriving DecidableEq

/-- Ways to construct a type from an element type. -/
inductive Shape
  /-- vector: one dimension, counted from zero -/
  | szArray
  | array (rank : Nat)
  | pointer
  | byRef
  deriving DecidableEq

def Shape.isArray : Shape → Bool
  | .szArray | .array _ => true
  | _ => false

/-- Who declares a generic parameter. -/
inductive ParameterOwner
  | type
  | method
  deriving DecidableEq

/-- How a type comes about. -/
inductive TypeForm
  /-- a definition, generic if it has parameters -/
  | defined (kind : TypeKind) (params : List TypeId)
  | instantiated (kind : TypeKind) (definition : TypeId) (args : List TypeId)
  /-- the generic parameter at a position of its owner's list -/
  | parameter (index : Nat) (owner : ParameterOwner)
  | constructed (shape : Shape) (element : TypeId)

namespace TypeForm

def kind? : TypeForm → Option TypeKind
  | .defined kind _ => some kind
  | .instantiated kind _ _ => some kind
  | _ => none

def genericArgs : TypeForm → List TypeId
  | .defined _ params => params
  | .instantiated _ _ args => args
  | _ => []

def definition? : TypeForm → Option TypeId
  | .instantiated _ definition _ => some definition
  | _ => none

def element? : TypeForm → Option TypeId
  | .constructed _ element => some element
  | _ => none

def shape? : TypeForm → Option Shape
  | .constructed shape _ => some shape
  | _ => none

def isParameter : TypeForm → Bool
  | .parameter _ _ => true
  | _ => false

def isDefinition : TypeForm → Bool
  | .defined _ _ => true
  | _ => false

def isGenericDefinition : TypeForm → Bool
  | .defined _ params => !params.isEmpty
  | _ => false

def isGenericInstance : TypeForm → Bool
  | .instantiated _ _ _ => true
  | _ => false

/-- true for value types and enums -/
def isValueType (f : TypeForm) : Bool := f.kind? == some .valueType || f.kind? == some .enum

def isInterface (f : TypeForm) : Bool := f.kind? == some .interface

def isEnum (f : TypeForm) : Bool := f.kind? == some .enum

def isPointer (f : TypeForm) : Bool := f.shape? == some .pointer

/-- true for managed references -/
def isByRef (f : TypeForm) : Bool := f.shape? == some .byRef

/-- true for arrays of any rank -/
def isArray (f : TypeForm) : Bool := f.shape?.any Shape.isArray

end TypeForm

abbrev TypeFlags := UInt32

namespace TypeFlags

def isPublic : TypeFlags := 0x1
/-- the two bits that hold the layout discipline -/
def layoutMask : TypeFlags := 0x18
def sequentialLayout : TypeFlags := 0x8
def explicitLayout : TypeFlags := 0x10
def interface : TypeFlags := 0x20
def abstract : TypeFlags := 0x80
def isSealed : TypeFlags := 0x100

end TypeFlags

/-- How the fields of a value type are placed. -/
inductive LayoutKind
  | auto
  | sequential
  | explicit
  deriving DecidableEq

def LayoutKind.label : LayoutKind → String
  | .auto => "Auto"
  | .sequential => "Sequential"
  | .explicit => "Explicit"

structure TypeDecl where
  id : Nat := 0
  module : ModuleId
  token : Token := ⟨0⟩
  namespaceName : String := ""
  name : String
  form : TypeForm
  flags : TypeFlags := 0
  /-- the rendered name; that of a definition can change until it is used -/
  fullName : String := ""
  /-- declared packing; 0 stands for the pointer size -/
  packing : Option UInt16 := none
  /-- declared size of a value type -/
  classSize : Option UInt32 := none
  base : Option TypeId := none
  enclosing : Option TypeId := none
  interfaces : List TypeId := []
  fields : List FieldId := []
  methods : List MethodId := []
  annotations : List Annotation := []

instance : Inhabited TypeDecl := ⟨{ module := ⟨0⟩, name := "", form := .parameter 0 .type }⟩

namespace TypeDecl

def isAbstract (t : TypeDecl) : Bool := t.flags &&& TypeFlags.abstract != 0

/-- the declared layout discipline; one value of the two bits is reserved -/
def layout? (t : TypeDecl) : Option LayoutKind :=
  let bits := t.flags &&& TypeFlags.layoutMask
  if bits = 0 then some .auto
  else if bits = TypeFlags.sequentialLayout then some .sequential
  else if bits = TypeFlags.explicitLayout then some .explicit
  else none

/-- the marks that make the type a substitute for others -/
def plugTargets (t : TypeDecl) : List PlugTarget := t.annotations.filterMap Annotation.plug?

def fieldPlugs (t : TypeDecl) : List FieldPlug := t.annotations.filterMap Annotation.plugField?

end TypeDecl

structure Param where
  name : String
  type : TypeId
  annotations : List Annotation := []

namespace Param

def isFieldAccess (p : Param) : Bool := p.annotations.any Annotation.isFieldAccess

def isObjectPointer (p : Param) : Bool := p.annotations.any Annotation.isObjectPointer

/-- the type name that replaces the declared type when signatures are compared -/
def fieldTypeName? (p : Param) : Option String := p.annotations.findSome? Annotation.fieldType?

end Param

structure Body where
  code : List UInt8
  maxStack : Nat := 8
  regions : List Region := []
  locals : List TypeId := []

abbrev MethodFlags := UInt32

namespace MethodFlags

def accessPrivate : MethodFlags := 0x1
def accessPublic : MethodFlags := 0x6
def isStatic : MethodFlags := 0x10
def isVirtual : MethodFlags := 0x40
def hideBySig : MethodFlags := 0x80
def newSlot : MethodFlags := 0x100
def abstract : MethodFlags := 0x400
def pinvoke : MethodFlags := 0x2000
/-- implementation: the bits that say what kind of code it is -/
def codeMask : MethodFlags := 0x3
def native : MethodFlags := 0x1
/-- implementation: provided by the runtime -/
def internalCall : MethodFlags := 0x1000

end MethodFlags

inductive MethodOrigin
  | declared
  /-- a generic method with arguments for its parameters -/
  | instanceOf (definition : MethodId)
  /-- the member of a generic instance that belongs to a member of the definition -/
  | memberOf (definition : MethodId)
  deriving DecidableEq

structure Method where
  token : Token := ⟨0⟩
  name : String
  access : MethodFlags := MethodFlags.accessPublic
  modifiers : MethodFlags := 0
  implementation : MethodFlags := 0
  /-- `none` for a dynamic method -/
  declaring : Option TypeId
  returnType : TypeId
  /-- parameters without the instance -/
  params : List Param := []
  /-- generic parameters of a definition, generic arguments of an instance -/
  genericArgs : List TypeId := []
  origin : MethodOrigin := .declared
  annotations : List Annotation := []
  body : Option Body := none

instance : Inhabited Method := ⟨{ name := "", declaring := none, returnType := ⟨0⟩ }⟩

namespace Method

def isStatic (m : Method) : Bool := m.modifiers &&& MethodFlags.isStatic != 0

def isVirtual (m : Method) : Bool := m.modifiers &&& MethodFlags.isVirtual != 0

def isAbstract (m : Method) : Bool := m.modifiers &&& MethodFlags.abstract != 0

/-- the method starts a virtual slot of its own -/
def isNewSlot (m : Method) : Bool := m.modifiers &&& MethodFlags.newSlot != 0

def isPublic (m : Method) : Bool := m.access == MethodFlags.accessPublic

def isTypeConstructor (m : Method) : Bool := m.name == ".cctor"

def isConstructor (m : Method) : Bool := m.name == ".ctor" || m.isTypeConstructor

/-- true for methods without declaring type -/
def isDynamic (m : Method) : Bool := m.declaring.isNone

/-- the method has no managed code of its own -/
def needsNativeCode (m : Method) : Bool :=
  m.modifiers &&& MethodFlags.pinvoke != 0 ||
    m.implementation &&& MethodFlags.codeMask == MethodFlags.native ||
    m.implementation &&& MethodFlags.internalCall != 0

def isInline (m : Method) : Bool := m.annotations.any Annotation.isInline

def plugOptions? (m : Method) : Option PlugOptions := m.annotations.findSome? Annotation.plugMethod?

/-- types of the parameters, without the instance -/
def paramTypes (m : Method) : List TypeId := m.params.map (·.type)

def genericDefinition? (m : Method) : Option MethodId :=
  match m.origin with
  | .instanceOf definition => some definition
  | _ => none

/-- the member of the definition that a member of a generic instance belongs to -/
def memberDefinition? (m : Method) : Option MethodId :=
  match m.origin with
  | .memberOf definition => some definition
  | _ => none

def isGenericInstance (m : Method) : Bool := m.genericDefinition?.isSome

/-- true for methods with generic parameters of their own -/
def isGenericDefinition (m : Method) : Bool := !m.genericArgs.isEmpty && !m.isGenericInstance

end Method

abbrev FieldFlags := UInt32

namespace FieldFlags

def isPublic : FieldFlags := 0x6
def isStatic : FieldFlags := 0x10
def specialName : FieldFlags := 0x200

end FieldFlags

structure Field where
  /-- value types place their fields in the order of the tokens -/
  token : Token
  name : String
  flags : FieldFlags
  declaring : TypeId
  type : TypeId
  annotations : List Annotation := []

instance : Inhabited Field := ⟨⟨⟨0⟩, "", 0, ⟨0⟩, ⟨0⟩, []⟩⟩

namespace Field

def isStatic (f : Field) : Bool := f.flags &&& FieldFlags.isStatic != 0

def explicitOffset? (f : Field) : Option UInt32 := f.annotations.findSome? Annotation.fieldOffset?

end Field

structure CallSite where
  /-- number of parameters without the instance -/
  paramCount : Nat := 0
  hasThis : Bool := false
  /-- `none` for a call without result -/
  returnType : Option TypeId := none

/-- What a token is bound to; `none` stands for an element that no longer exists. -/
inductive TokenTarget
  | type (target : Option TypeId)
  | method (target : Option MethodId)
  | field (target : Option FieldId)
  | string (text : String)
  | signature (site : CallSite)

structure Module where
  name : String
  /-- types defined in the module, in the order of definition -/
  types : List TypeId := []
  tokens : Table Token TokenTarget := ∅
  rows : Table UInt8 Nat := ∅

instance : Inhabited Module := ⟨{ name := "" }⟩

inductive Item
  | method (method : MethodId)
  | type (type : TypeId)
  | field (field : FieldId)
  deriving DecidableEq

namespace Item

def method? : Item → Option MethodId
  | .method m => some m
  | _ => none

def type? : Item → Option TypeId
  | .type t => some t
  | _ => none

def field? : Item → Option FieldId
  | .field f => some f
  | _ => none

def target : Item → TokenTarget
  | .method m => .method (some m)
  | .type t => .type (some t)
  | .field f => .field (some f)

end Item

end ProgramScan

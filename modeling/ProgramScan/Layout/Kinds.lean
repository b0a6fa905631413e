import ProgramScan.Registry.Names

/-!
# Value categories

What values of a type look like to a code generator, mostly by the name of the type.
-/

namespace ProgramScan

namespace Registry

def isNamed (r : Registry) (t : TypeId) (names : List String) : Bool := names.contains (r.fullName t)

def isReference (r : Registry) (t : TypeId) : Bool :=
  let form := (r.type t).form
  !form.isValueType && !form.isPointer && !form.isByRef

def primitiveNames : List String :=
  ["System.Boolean", "System.Char", "System.SByte", "System.Byte", "System.Int16", "System.UInt16",
    "System.Int32", "System.UInt32", "System.Int64", "System.UInt64", "System.IntPtr",
    "System.UIntPtr", "System.Single", "System.Double"]

def isPrimitive (r : Registry) (t : TypeId) : Bool := r.isNamed t primitiveNames

/-- a value type of the program: no enum, no primitive, not the decimal type -/
def isStruct (r : Registry) (t : TypeId) : Bool :=
  (r.type t).form.isValueType && !r.isNamed t ["System.String", "System.Decimal"] &&
    !(r.type t).form.isEnum && !r.isPrimitive t

def isSigned (r : Registry) (t : TypeId) : Bool :=
  r.isNamed t ["System.SByte", "System.Int16", "System.Int32", "System.Int64"]

/-- held as a 32-bit integer -/
def isIntegerBased (r : Registry) (t : TypeId) : Bool :=
  (r.type t).form.isPointer ||
    r.isNamed t
      ["System.Byte", "System.Boolean", "System.SByte", "System.UInt16", "System.Int16",
        "System.Int32", "System.UInt32", "System.Char", "System.IntPtr", "System.UIntPtr"]

/-- held as a 64-bit integer -/
def isLongBased (r : Registry) (t : TypeId) : Bool :=
  r.isNamed t ["System.Int64", "System.UInt64"]

/-- integers, native integers, pointers and references to locations -/
def isIntegralOrPointer (r : Registry) (t : TypeId) : Bool :=
  r.isIntegerBased t || r.isLongBased t || (r.type t).form.isPointer || (r.type t).form.isByRef

/-- pointers, references to locations and native integers -/
def isPointerLike (r : Registry) (t : TypeId) : Bool :=
  (r.type t).form.isPointer || (r.type t).form.isByRef ||
    r.isNamed t ["System.IntPtr", "System.UIntPtr"]

def isFloat (r : Registry) (t : TypeId) : Bool := r.isNamed t ["System.Single", "System.Double"]

/-- values of both types are held in the same way -/
def sameValueCategory (r : Registry) (a b : TypeId) : Bool :=
  (r.isIntegerBased a && r.isIntegerBased b) || (r.isLongBased a && r.isLongBased b) ||
    (r.isPointerLike a && r.isPointerLike b) || (r.sameType a b && r.isFloat a)

end Registry

end ProgramScan

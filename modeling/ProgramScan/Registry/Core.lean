import ProgramScan.Registry.Define

/-!
# The core library

Every registry starts with the module of the core library: the root class, the bases of value
types, enums and arrays, strings, and the primitive value types.
-/

namespace ProgramScan

namespace Registry

def coreName : String := "System.Private.CoreLib"

def primitives : List String :=
  ["Void", "Boolean", "Char", "SByte", "Byte", "Int16", "UInt16", "Int32", "UInt32", "Int64",
    "UInt64", "Single", "Double", "IntPtr", "UIntPtr"]

def defineCore (module : ModuleId) (name : String) (kind : TypeKind) (flags : TypeFlags)
    (base : Option TypeId) : StateM Registry TypeId :=
  defineType
    { module, namespaceName := "System", name, form := .defined kind [],
      flags := flags ||| TypeFlags.isPublic, base }

def defineCoreTypes : StateM Registry Unit := do
  let m ← addModule coreName
  let object ← defineCore m "Object" .reference 0 none
  let valueType ← defineCore m "ValueType" .reference TypeFlags.abstract (some object)
  let _ ← defineCore m "Enum" .reference TypeFlags.abstract (some valueType)
  let _ ← defineCore m "Array" .reference TypeFlags.abstract (some object)
  let _ ← defineCore m "String" .reference TypeFlags.isSealed (some object)
  primitives.forM fun name => do
    let _ ← defineCore m name .valueType (TypeFlags.isSealed ||| TypeFlags.sequentialLayout)
      (some valueType)

/-- the registry that holds the core library and nothing else -/
def core : Registry := (defineCoreTypes.run {}).2

end Registry

end ProgramScan

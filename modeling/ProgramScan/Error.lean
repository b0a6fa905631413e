import ProgramScan.Token

/-!
# Failures

`Error` lists the causes an operation can fail for.  Findings that do not stop a run are
`Diagnostic`s instead.  `Error.message` is the one place that words them.
-/

namespace ProgramScan

inductive TokenKind
  | type
  | method
  | field
  | string
  | signature
  deriving DecidableEq

def TokenKind.noun : TokenKind → String
  | .type => "type"
  | .method => "method"
  | .field => "field"
  | .string => "string"
  | .signature => "signature"

/-- Ways in which a method body or the metadata it uses is damaged. -/
inductive Malformation
  | unknownOpcode (byte : UInt8)
  | unknownExtendedOpcode (byte : UInt8)
  | unboundToken (token : Token) (moduleName : String)
  /-- what the token was bound to no longer exists -/
  | goneTarget (token : Token) (kind : TokenKind)
  | wrongOperandKind (token : Token) (mnemonic method : String) (found : TokenKind)
  /-- several methods implement a facade method -/
  | ambiguousImplementation (method implementation : String)
  | missingGenericArgument (method : String)

def Malformation.message : Malformation → String
  | .unknownOpcode byte => "Invalid opcode: " ++ Text.hexUpper 1 byte.toNat
  | .unknownExtendedOpcode byte => "Invalid opcode: FE " ++ Text.hexUpper 2 byte.toNat
  | .unboundToken token moduleName =>
    "Token " ++ token.display ++ " does not resolve in module " ++ moduleName
  | .goneTarget token kind => "Token " ++ token.display ++ " refers to a dropped " ++ kind.noun
  | .wrongOperandKind token mnemonic method found =>
    "Operand 0x" ++ Text.hexUpper 8 token.value.toNat ++ " of " ++ mnemonic ++ " in " ++ method ++
      " resolves to a " ++ found.noun
  | .ambiguousImplementation method implementation =>
    "Ambiguous implementation of " ++ method ++ " on " ++ implementation
  | .missingGenericArgument method =>
    "IsBitwiseEquatable needs a generic argument - " ++ method

/-- Features that are recognised and refused. -/
inductive Unsupported
  /-- the reserved value of the layout bits -/
  | layoutKind (bits : Nat) (type : String)
  | bodyWithoutModule (method : String)
  /-- a member of the by-reference wrapper that has no replacement body -/
  | byReferenceMember (method : String)

def Unsupported.message : Unsupported → String
  | .layoutKind bits type => "Layout kind 0x" ++ Text.hexUpper 1 bits ++ " of " ++ type
  | .bodyWithoutModule method =>
    "Dynamic method " ++ method ++ " has a body but no module to resolve it in"
  | .byReferenceMember method => "ByReference intrinsic method '" ++ method ++ "' not implemented!"

/-- The two channels of a debug symbol sink. -/
inductive SinkChannel
  | fieldInfo
  | fieldMap
  deriving DecidableEq

/-- Causes of failure. -/
inductive Error
  | malformed (fault : Malformation)
  | outOfBounds
  | branchOutOfRange (method : String) (offset : Nat) (target : Int)
  | notSupported (feature : Unsupported)
  | typeNotFound (name : String)
  | methodNotFound (name : String)
  | fieldNotFound (name : String)
  | nativeCodeNeedsPlug (method : String)
  | plugRequired (method : String)
  | plugTargetNotFound (name : String)
  | duplicatePlugField (target fieldId : String)
  | plugNotQueued (method plug : String)
  | typeNotQueued (type : String)
  | recursionLimit (limit : Nat)
  | typeArity (definition : String) (expected given : Nat)
  | methodArity (definition : String) (expected given : Nat)
  | generatorRefused (call : Nat)
  | sinkClosed (channel : SinkChannel)
  /-- a scan stopped with items pending because its step budget ran out -/
  | scanUnfinished

/-- the name of the kind of a failure; what only a caller can get wrong has no kind of its own -/
def Error.kind : Error → String
  | .malformed _ => "Malformed"
  | .outOfBounds => "OutOfBounds"
  | .branchOutOfRange _ _ _ => "BranchOutOfRange"
  | .notSupported _ => "NotSupported"
  | .typeNotFound _ => "TypeNotFound"
  | .methodNotFound _ => "MethodNotFound"
  | .fieldNotFound _ => "FieldNotFound"
  | .nativeCodeNeedsPlug _ => "NativeCodeNeedsPlug"
  | .plugRequired _ => "PlugRequired"
  | .plugTargetNotFound _ => "PlugTargetNotFound"
  | .duplicatePlugField _ _ => "DuplicatePlugField"
  | .plugNotQueued _ _ => "PlugNotQueued"
  | .typeNotQueued _ => "TypeNotQueued"
  | .recursionLimit _ => "RecursionLimit"
  | .scanUnfinished => "ScanUnfinished"
  | .typeArity _ _ _ | .methodArity _ _ _ | .generatorRefused _ | .sinkClosed _ => "Error"

def Error.message : Error → String
  | .malformed fault => fault.message
  | .outOfBounds => "Out of Bound read would have occurred!"
  | .branchOutOfRange method offset target =>
    "Branch jumps outside method - " ++ method ++ " at IL_" ++ Text.hexUpper 4 offset ++
      " targets " ++ toString target
  | .notSupported feature => "Not supported - " ++ feature.message
  | .typeNotFound name => "Failed to find type - " ++ name
  | .methodNotFound name => "Failed to find method - " ++ name
  | .fieldNotFound name => "Failed to find field - " ++ name
  | .nativeCodeNeedsPlug method => "Native code encountered, plug required - " ++ method
  | .plugRequired method => "Method " ++ method ++ " requires a plug, but none is implemented"
  | .plugTargetNotFound name => "Plug target not found - " ++ name
  | .duplicatePlugField target fieldId =>
    "Duplicate PlugField found for field '" ++ fieldId ++ "' on '" ++ target ++ "'!"
  | .plugNotQueued method plug => "Plug " ++ plug ++ " for " ++ method ++ " was not queued"
  | .typeNotQueued type => "Cannot get UID of types which are not queued - " ++ type
  | .recursionLimit limit => "Reach the maximum recursion level allowed - " ++ toString limit
  | .typeArity definition expected given =>
    "Generic type " ++ definition ++ " expects " ++ toString expected ++ " arguments, got " ++
      toString given
  | .methodArity definition expected given =>
    "Generic method " ++ definition ++ " expects " ++ toString expected ++ " arguments, got " ++
      toString given
  | .generatorRefused call => "generator failed at call " ++ toString call
  | .sinkClosed .fieldInfo => "info sink closed"
  | .sinkClosed .fieldMap => "map sink closed"
  | .scanUnfinished => "Scan stopped before its queue was empty"

end ProgramScan

import ProgramScan.Instruction.Stack
import ProgramScan.Layout.Kinds
import ProgramScan.Registry.Hierarchy

/-!
# Replacement bodies of runtime methods

Some methods of the core library are provided by the host runtime and have no usable code.  For
these, another method's code is read, or a short instruction sequence stands in.
-/

namespace ProgramScan

/-- What is decoded in place of a method's own code. -/
inductive Replacement
  /-- another body, whose tokens belong to `module` -/
  | redirect (body : Body) (module : ModuleId)
  | synthesized (code : List Instruction)

namespace Registry

def memoryFacade : String := "Internal.Runtime.CompilerServices.Unsafe"
def memoryImplementation : String := "System.Runtime.CompilerServices.Unsafe"
/-- wrapper of a reference to a location -/
def byReferenceName : String := "System.ByReference`1"
/-- pool of arrays, whose type constructor does nothing -/
def arrayPoolName : String := "System.Buffers.ArrayPool`1"
/-- type that declares the test for bitwise equality -/
def runtimeHelpers : String := "System.Runtime.CompilerServices.RuntimeHelpers"

def sameAccess (candidate declared : Shape) : Bool :=
  (candidate.isArray && declared.isArray) || candidate == declared

/-- Parameter types of implementation and facade agree: same constructors around an assignable or
generic innermost type, looked at `depth` levels deep. -/
def parameterMatchesWithin (r : Registry) : Nat → TypeId → TypeId → Bool
  | 0, _, _ => false
  | depth + 1, candidate, declared =>
    match (r.type candidate).form, (r.type declared).form with
    | .constructed shape element, .constructed shape' element' =>
      sameAccess shape shape' && r.parameterMatchesWithin depth element element'
    | .constructed _ _, _ => false
    | .parameter _ _, _ => true
    | _, _ => r.isAssignable candidate declared

def parameterUsesWithin (r : Registry) : Nat → TypeId → TypeId → List TypeId
  | 0, _, _ => []
  | depth + 1, candidate, declared =>
    match (r.type candidate).form, (r.type declared).form with
    | .constructed shape element, .constructed shape' element' =>
      if sameAccess shape shape' then r.parameterUsesWithin depth element element' else []
    | .constructed _ _, _ => []
    | .parameter _ _, _ => []
    | _, _ => r.assignableUses candidate declared

/-- parameter types of implementation and facade agree -/
def parameterMatches (r : Registry) (candidate declared : TypeId) : Bool :=
  r.parameterMatchesWithin (candidate.index + 1) candidate declared

/-- `candidate` has the name, generic arity and number of parameters of a facade method -/
def resemblesFacade (r : Registry) (name : String) (definition : Method) (candidate : MethodId) :
    Bool :=
  let c := r.method candidate
  c.name == name && c.genericArgs.length == definition.genericArgs.length &&
    c.params.length == definition.params.length

def implementsFacade (r : Registry) (name : String) (definition : Method) (candidate : MethodId) :
    Bool :=
  r.resemblesFacade name definition candidate &&
    ((r.method candidate).paramTypes.zip definition.paramTypes).all fun (p, o) =>
      r.parameterMatches p o

def facadeUses (r : Registry) (name : String) (definition : Method) (candidate : MethodId) :
    List TypeId :=
  if r.resemblesFacade name definition candidate then
    usesThrough (fun (p, o) => !r.parameterMatches p o)
      (fun (p, o) => r.parameterUsesWithin (p.index + 1) p o)
      ((r.method candidate).paramTypes.zip definition.paramTypes)
  else []

def facadeReplacement (m : MethodId) : Action (Option Replacement) := do
  let r ← get
  match r.find? memoryImplementation with
  | none => throw (.typeNotFound memoryImplementation)
  | some implementation =>
    let d := r.method m
    let definition := r.method (d.genericDefinition?.getD m)
    let methods := (r.type implementation).methods
    modify fun r => r.useNames (methods.flatMap (r.facadeUses d.name definition))
    match methods.filter (r.implementsFacade d.name definition) with
    | [] => return none
    | [found] =>
      match r.body? found, (r.method found).declaring with
      | some body, some owner => return some (.redirect body (r.type owner).module)
      | _, _ => return none
    | _ =>
      throw (.malformed (.ambiguousImplementation (r.methodName m) memoryImplementation))

def synthesize (m : MethodId) (code : List (Opcode × Nat × Nat × Operand)) :
    StateM Registry Replacement := do
  let code ← withStackEffects m
    (code.map fun (op, offset, next, operand) => Instruction.ofEncoded op offset next operand)
  return .synthesized code

def onlyReturn (m : MethodId) : StateM Registry Replacement :=
  synthesize m [(.ret, 0, 1, .none)]

/-- the body of a member of the by-reference wrapper -/
def byReferenceReplacement (m : MethodId) (declaring : TypeId) : Action Replacement := do
  let r ← get
  match r.fieldNamed? declaring "_value" with
  | none => throw (.fieldNotFound (r.fullName declaring ++ "._value"))
  | some value =>
    if (r.method m).name = ".ctor" then
      synthesize m
        [(.ldarg, 0, 1, .var 0), (.ldarg, 1, 2, .var 1), (.stfld, 2, 8, .field value),
          (.ret, 8, 9, .none)]
    else if (r.method m).name = "get_Value" then
      synthesize m
        [(.ldarg, 0, 1, .var 0), (.ldfld, 1, 6, .field value), (.ret, 6, 7, .none)]
    else
      throw (.notSupported (.byReferenceMember (r.methodName m)))

def withTypes (op : Opcode) (offset : Nat) (operand : Operand) (pops pushes : List TypeId) :
    Instruction :=
  { Instruction.ofEncoded op offset (offset + 1) operand with
    stack :=
      { pops := pops.length, popTypes := pops.map some, pushTypes := pushes.map some } }

/-- A constructor of `t` with the given parameter types.  The names that the search reads are in use
afterwards. -/
def findConstructor (t : TypeId) (params : List TypeId) : StateM Registry (Option MethodId) :=
  modifyGet fun r =>
    (r.findMethod? t ".ctor" false params, r.useNames (r.findMethodUses t ".ctor" false params))

/-- makes a runtime type, stores the handle argument in it, and wraps it in a type handle -/
def typeHandleReplacement : Action Replacement := do
  let runtimeType ← wellKnown "System.RuntimeType"
  let handleType ← wellKnown "System.RuntimeTypeHandle"
  let int32 ← wellKnown "System.Int32"
  let r ← get
  match ← findConstructor runtimeType [] with
  | none => throw (.methodNotFound (r.fullName runtimeType ++ "..ctor()"))
  | some typeConstructor =>
    match r.fieldNamed? runtimeType "m_handle" with
    | none => throw (.fieldNotFound (r.fullName runtimeType ++ ".m_handle"))
    | some handleField =>
      match ← findConstructor handleType [runtimeType] with
      | none =>
        throw (.methodNotFound
          (r.fullName handleType ++ "..ctor(" ++ r.fullName runtimeType ++ ")"))
      | some handleConstructor =>
        return .synthesized
          [withTypes .newobj 0 (.method typeConstructor none) [] [runtimeType],
            withTypes .dup 1 .none [runtimeType] [runtimeType, runtimeType],
            withTypes .ldarg 2 (.var 0) [] [int32],
            withTypes .stfld 3 (.field handleField) [int32, runtimeType] [],
            withTypes .newobj 4 (.method handleConstructor none) [runtimeType] [handleType],
            withTypes .ret 5 .none [] []]

/-- answers 1 for integers, native integers, pointers and references to locations, else 0 -/
def bitwiseReplacement (m : MethodId) : Action Replacement := do
  let r ← get
  match (r.method m).genericArgs with
  | [] => throw (.malformed (.missingGenericArgument (r.methodName m)))
  | arg :: _ =>
    modify (·.useNames [arg])
    let answer := if r.isIntegralOrPointer arg then 1 else 0
    synthesize m [(.ldcI4, 0, 1, .int answer), (.ret, 1, 2, .none)]

/-- what is decoded in place of the code of `m`, if it is an intrinsic method -/
def replacement? (m : MethodId) : Action (Option Replacement) := do
  let r ← get
  let d := r.method m
  match d.declaring with
  | none => return none
  | some declaring =>
    let owner := r.type declaring
    let definitionName := owner.form.definition?.map r.fullName
    if owner.fullName = memoryFacade then
      facadeReplacement m
    else if definitionName = some byReferenceName then
      return some (← byReferenceReplacement m declaring)
    else if owner.name = "RuntimeType" && d.name = ".ctor" then
      return some (← onlyReturn m)
    else if owner.name = "TypeImpl" && d.name = "CreateRuntimeTypeHandle" then
      return some (← typeHandleReplacement)
    else if definitionName = some arrayPoolName && d.name = ".cctor" then
      return some (← onlyReturn m)
    else if owner.fullName = runtimeHelpers && d.name = "IsBitwiseEquatable" then
      return some (← bitwiseReplacement m)
    else
      return none

end Registry

end ProgramScan

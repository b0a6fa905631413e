import ProgramScan.Label
import ProgramScan.Plug.Validate

/-!
# Finding the plug of a method

Among the plug types of its target, a method's plug is looked for by name and parameter types first,
then by what each plug method says it stands for.

* `findByName?`       a plug method of the same name whose parameters can take the arguments;
* `findBySignature`   a plug method that stands for the method as a wildcard, by its parameter types
                      or by an explicit signature;
* `resolveAmong`      the plug among plug types; disabled plugs count as none.

The names that the search reads are in use afterwards.
-/

namespace ProgramScan

def plugNames (name : String) : List String :=
  if name = ".ctor" then [".ctor", "Ctor"]
  else if name = ".cctor" then [".cctor", "CCtor"]
  else [name]

def plugNameFits (plug name : String) : Bool :=
  (plug == "Ctor" && name == ".ctor") || (plug == "CCtor" && name == ".cctor") || plug == name

namespace Registry

/-- a public static method that has the name and a number of parameters -/
def isPlugCalled (d : Method) (name : String) (count : Nat) : Bool :=
  d.isStatic && d.isPublic && d.name == name && d.params.length == count

def takesArguments (r : Registry) (name : String) (args : List TypeId) (candidate : MethodId) :
    Bool :=
  isPlugCalled (r.method candidate) name args.length &&
    ((r.method candidate).paramTypes.zip args).all fun (param, arg) => r.isAssignable param arg

def argumentUses (r : Registry) (name : String) (args : List TypeId) (candidate : MethodId) :
    List TypeId :=
  if isPlugCalled (r.method candidate) name args.length then
    usesThrough (fun (param, arg) => !r.isAssignable param arg)
      (fun (param, arg) => r.assignableUses param arg) ((r.method candidate).paramTypes.zip args)
  else []

def findByName? (r : Registry) (plug : TypeId) (name : String) (args : List TypeId) :
    Option MethodId :=
  (plugNames name).findSome? fun n => (r.type plug).methods.find? (r.takesArguments n args)

def findByNameUses (r : Registry) (plug : TypeId) (name : String) (args : List TypeId) :
    List TypeId :=
  usesThrough (fun n => (r.type plug).methods.any (r.takesArguments n args))
    (fun n => usesThrough (r.takesArguments n args) (r.argumentUses n args) (r.type plug).methods)
    (plugNames name)

def withoutUnderscores (text : String) : String := String.ofList (text.toList.filter (· ≠ '_'))

def signatureIs (r : Registry) (options : Option PlugOptions) (m : MethodId) (ignoreCase : Bool) :
    Bool :=
  match options.bind (·.signature) with
  | none => false
  | some signature =>
    let expected := withoutUnderscores (identifier (r.methodName m))
    let given := withoutUnderscores signature
    if ignoreCase then Text.sameIgnoringCase expected given else expected == given

def signatureUses (r : Registry) (options : Option PlugOptions) (m : MethodId) : List TypeId :=
  if (options.bind (·.signature)).isSome then r.methodUses m else []

def instanceShift (d : Method) : Nat := if d.isStatic then 0 else 1

def paramAgrees (r : Registry) (found m : MethodId) (expected actual : TypeId) : Bool :=
  r.sameType actual expected || (r.type actual).name == "Object" ||
    r.signatureIs (r.method found).plugOptions? m false

/-- A plug found by name agrees with `m`: same name, and the same parameter types, except that the
object class stands for types the plug cannot name and an explicit signature overrides them. -/
def signatureAgrees (r : Registry) (found m : MethodId) : Bool :=
  let f := r.method found
  let d := r.method m
  f.params.length == d.params.length + instanceShift d &&
    (d.paramTypes.zip (f.paramTypes.drop (instanceShift d))).all (fun (expected, actual) =>
      r.paramAgrees found m expected actual) &&
    plugNameFits f.name d.name

def paramAgreesUses (r : Registry) (found m : MethodId) (expected actual : TypeId) : List TypeId :=
  sameTypeUses actual expected ++
    if r.sameType actual expected || (r.type actual).name == "Object" then []
    else r.signatureUses (r.method found).plugOptions? m

def signatureAgreesUses (r : Registry) (found m : MethodId) : List TypeId :=
  let f := r.method found
  let d := r.method m
  if f.params.length == d.params.length + instanceShift d then
    usesThrough (fun (expected, actual) => !r.paramAgrees found m expected actual)
      (fun (expected, actual) => r.paramAgreesUses found m expected actual)
      (d.paramTypes.zip (f.paramTypes.drop (instanceShift d)))
  else []

def single? {α : Type} : List α → Option α
  | [a] => some a
  | _ => none

/-- the member that a wildcard plug method stands for: the only one of its name -/
def wildcardTarget? (r : Registry) (target : TypeId) (candidate : MethodId) : Option MethodId :=
  let name := (r.method candidate).name
  if isConstructorAlias name then
    single? ((r.type target).methods.filter fun m => (r.method m).isConstructor)
  else single? (r.methodsNamed target name)

def targetParamType (r : Registry) (p : Param) : Except Error TypeId :=
  match p.fieldTypeName? with
  | none => .ok p.type
  | some name =>
    match r.resolveTypeName? name with
    | some t => .ok t
    | none => .error (.typeNotFound name)

/-- the parameter types if a plug method stands for an instance member; without parameters it
cannot -/
def instanceTypes (r : Registry) (params : List Param) : Except Error (Option (List TypeId)) :=
  match params.filter fun p => !p.isFieldAccess with
  | [] => .ok none
  | [_] => .ok (some [])
  | _ =>
    (((params.drop 1).filter fun p => !p.isFieldAccess).mapM r.targetParamType).map some

/-- the parameter types if a plug method stands for a static member -/
def staticTypes (r : Registry) (params : List Param) : Except Error (List TypeId) :=
  match params.filter fun p => !p.isFieldAccess with
  | [only] => (r.targetParamType only).map ([·])
  | many => .ok (many.map (·.type))

def instanceMemberName (name : String) : String :=
  if Text.sameIgnoringCase name "ctor" then ".ctor" else name

def staticMemberName (name : String) : String := if isConstructorAlias name then ".cctor" else name

def instanceTarget? (r : Registry) (target : TypeId) (name : String)
    (params : Option (List TypeId)) : Option MethodId :=
  params.bind (r.findMethod? target (instanceMemberName name) false)

def signatureTarget? (r : Registry) (target : TypeId) (candidate : MethodId) :
    Except Error (Option MethodId) := do
  let d := r.method candidate
  let instanceParams ← r.instanceTypes d.params
  let staticParams ← r.staticTypes d.params
  return (r.instanceTarget? target d.name instanceParams).or
    (r.findMethod? target (staticMemberName d.name) true staticParams)

def signatureTargetUses (r : Registry) (target : TypeId) (candidate : MethodId) : List TypeId :=
  let d := r.method candidate
  match r.instanceTypes d.params, r.staticTypes d.params with
  | .ok instanceParams, .ok staticParams =>
    instanceParams.toList.flatMap (r.findMethodUses target (instanceMemberName d.name) false) ++
      if (r.instanceTarget? target d.name instanceParams).isSome then []
      else r.findMethodUses target (staticMemberName d.name) true staticParams
  | _, _ => []

/-- a plug method of `target` stands for `m` -/
def standsFor (r : Registry) (target : TypeId) (m candidate : MethodId) : Except Error Bool := do
  let d := r.method candidate
  if !d.isStatic || !d.isPublic then
    return false
  else if d.plugOptions?.any fun options => options.wildcard && !options.matchParams then
    return (r.wildcardTarget? target candidate).any (r.sameMethod · m)
  else
    let plugged ← r.signatureTarget? target candidate
    return plugged.any (r.sameMethod · m) || r.signatureIs d.plugOptions? m true

def standsForUses (r : Registry) (target : TypeId) (m candidate : MethodId) : List TypeId :=
  let d := r.method candidate
  if !d.isStatic || !d.isPublic then []
  else if d.plugOptions?.any fun options => options.wildcard && !options.matchParams then
    (r.wildcardTarget? target candidate).toList.flatMap (r.sameMethodUses · m)
  else
    r.signatureTargetUses target candidate ++
      match r.signatureTarget? target candidate with
      | .ok plugged =>
        plugged.toList.flatMap (r.sameMethodUses · m) ++
          if plugged.any (r.sameMethod · m) then [] else r.signatureUses d.plugOptions? m
      | .error _ => []

/-- the search for a plug ends with this answer, found or failed -/
def endsSearch {α : Type} : Except Error (Option α) → Bool
  | .ok none => false
  | _ => true

def findStandIn (r : Registry) (target : TypeId) (m : MethodId) :
    List MethodId → Except Error (Option MethodId)
  | [] => return none
  | candidate :: rest => do
    if ← r.standsFor target m candidate then return some candidate
    else r.findStandIn target m rest

def findBySignature (r : Registry) (target : TypeId) (m : MethodId) (plug : TypeId) :
    Except Error (Option MethodId) :=
  r.findStandIn target m (r.type plug).methods

def findBySignatureUses (r : Registry) (target : TypeId) (m : MethodId) (plug : TypeId) :
    List TypeId :=
  usesThrough (fun candidate => endsSearch (r.findStandIn target m [candidate]))
    (r.standsForUses target m) (r.type plug).methods

/-- The plug of `m` among plug types, before it is known to be enabled.  A method found by name that
does not agree with `m` ends the search. -/
def findPlug (r : Registry) (target : TypeId) (m : MethodId) (args : List TypeId) :
    List TypeId → Except Error (Option MethodId)
  | [] => return none
  | plug :: rest =>
    match r.findByName? plug (r.method m).name args with
    | some found => return if r.signatureAgrees found m then some found else none
    | none => do
      match ← r.findBySignature target m plug with
      | some found => return some found
      | none => r.findPlug target m args rest

def findPlugUses (r : Registry) (target : TypeId) (m : MethodId) (args plugs : List TypeId) :
    List TypeId :=
  let name := (r.method m).name
  usesThrough
    (fun plug =>
      (r.findByName? plug name args).isSome || endsSearch (r.findBySignature target m plug))
    (fun plug =>
      r.findByNameUses plug name args ++
        match r.findByName? plug name args with
        | some found => r.signatureAgreesUses found m
        | none => r.findBySignatureUses target m plug)
    plugs

/-- The plug of `m` among the plug types of `target`, looked for by name with the given parameter
types.  A generic plug method is instantiated with the generic arguments of `m`. -/
def resolveAmong (target : TypeId) (plugs : List TypeId) (m : MethodId) (params : List TypeId) :
    Action (Option MethodId) := do
  let r ← get
  let d := r.method m
  let args := if d.isStatic then params else target :: params
  modify fun r => r.useNames (r.findPlugUses target m args plugs)
  match ← MonadExcept.ofExcept (r.findPlug target m args plugs) with
  | none => return none
  | some found =>
    let f := r.method found
    if f.plugOptions?.any fun options => !options.enabled then
      return none
    else if f.isGenericDefinition && d.isGenericInstance &&
        f.genericArgs.length == d.genericArgs.length then
      return some (← instantiateMethod found d.genericArgs)
    else
      return some found

def resolveIn (target : TypeId) (plugs : List TypeId) (m : MethodId) :
    Action (Option MethodId) := do
  resolveAmong target plugs m ((← get).method m).paramTypes

end Registry

end ProgramScan

import ProgramScan.Registry.Instantiate
import ProgramScan.Text.Blank

/-!
# Resolving tokens and names

* `substituteMethod`, `substituteField`   members seen from a generic context: re-homed on the
                                          substituted declaring type;
* `correspondingMethod`                   the member of a type that stems from a given definition;
* `resolveToken`                          what a token of a module denotes in a context;
* `resolveTypeName?`                      types named `Namespace.Type, Module`.
-/

namespace ProgramScan

inductive Resolved
  | type (type : TypeId)
  | method (method : MethodId)
  | field (field : FieldId)
  | string (text : String)
  | signature (site : CallSite)

def Resolved.kind : Resolved → TokenKind
  | .type _ => .type
  | .method _ => .method
  | .field _ => .field
  | .string _ => .string
  | .signature _ => .signature

def Resolved.target : Resolved → TokenTarget
  | .type t => .type (some t)
  | .method m => .method (some m)
  | .field f => .field (some f)
  | .string text => .string text
  | .signature site => .signature site

namespace Registry

/-- `m` is `root` or the member of a generic instance that belongs to it -/
def stemsFrom (r : Registry) (root m : MethodId) : Bool :=
  m = root || (r.method m).memberDefinition? = some root

def correspondingMethod (owner : TypeId) (m : MethodId) : Action MethodId := do
  let r ← get
  let root := (r.method m).memberDefinition?.getD m
  match (r.type owner).methods.find? (r.stemsFrom root) with
  | some found => return found
  | none =>
    modify fun r => r.useNames (owner :: r.methodUses m)
    throw (.methodNotFound (r.methodName m ++ " on " ++ r.fullName owner))

/-- the method `m` moved to its declaring type as seen from `ctx` -/
def rehome (ctx : GenericContext) (m : MethodId) : Action MethodId := do
  let r ← get
  match (r.method m).declaring with
  | none => return m
  | some declaring =>
    if ctx.isEmpty || !r.isOpen declaring then
      return m
    else
      let owner ← substitute ctx declaring
      if owner = declaring then return m else correspondingMethod owner m

def substituteMethod (ctx : GenericContext) (m : MethodId) : Action MethodId := do
  let r ← get
  match (r.method m).genericDefinition? with
  | none => rehome ctx m
  | some definition =>
    let target ← rehome ctx definition
    let args ← (r.method m).genericArgs.mapM (substitute ctx)
    instantiateMethod target args

def substituteField (ctx : GenericContext) (f : FieldId) : Action FieldId := do
  let r ← get
  let declaring := (r.field f).declaring
  if ctx.isEmpty || !r.isOpen declaring then
    return f
  else
    let owner ← substitute ctx declaring
    match (← get).fieldNamed? owner (r.field f).name with
    | some found => return found
    | none =>
      modify fun r => r.useNames (r.fieldUses f)
      throw (.fieldNotFound (r.fieldName f))

def resolveToken (module : ModuleId) (token : Token) (ctx : GenericContext) :
    Action Resolved := do
  let r ← get
  match (r.module module).tokens.get? token with
  | none => throw (.malformed (.unboundToken token (r.moduleName module)))
  | some (.type none) => throw (.malformed (.goneTarget token .type))
  | some (.method none) => throw (.malformed (.goneTarget token .method))
  | some (.field none) => throw (.malformed (.goneTarget token .field))
  | some (.type (some t)) => return .type (← substitute ctx t)
  | some (.method (some m)) => return .method (← substituteMethod ctx m)
  | some (.field (some f)) => return .field (← substituteField ctx f)
  | some (.string text) => return .string text
  | some (.signature site) => return .signature site

/-- the type of a name; what follows a comma, up to the next one, is the module -/
def resolveTypeName? (r : Registry) (name : String) : Option TypeId :=
  match Text.cutAt ',' name.toList with
  | none => r.find? (String.ofList (Text.trim name.toList))
  | some (typeName, rest) =>
    let moduleName := rest.takeWhile (· ≠ ',')
    r.findIn? (String.ofList (Text.trim moduleName)) (String.ofList (Text.trim typeName))

end Registry

end ProgramScan

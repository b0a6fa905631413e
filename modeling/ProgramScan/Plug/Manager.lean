import ProgramScan.Plug.Resolve

/-!
# The plug manager

The manager holds the index of plug types, the fields they replace, and the plugs found so far.
The plug of a method is looked for in three places, in this order:

1. the plug types filed for exactly the declaring type;
2. those filed for an ancestor of the declaring type, in the order of filing;
3. for members of a generic instance, those filed for the definition.  Such a plug type must be
   generic itself and is instantiated with the same arguments.

Answers are remembered by identity key of the method, also the answer that there is no plug.
-/

namespace ProgramScan

/-- Plug types and the plugs found so far. -/
structure PlugManager where
  index : PlugIndex := {}
  fields : FieldPlugs := {}
  resolved : Table String (Option MethodId) := ∅
  diagnostics : Diagnostics := []

namespace PlugManager

def resolvedCount (p : PlugManager) : Nat := p.resolved.size

def findImplementors (r : Registry) (modules : List ModuleId) : EStateM Error PlugManager Unit :=
  fun p =>
    match PlugIndex.findImplementors r modules p.index with
    | .ok _ index => .ok () { p with index }
    | .error e index => .error e { p with index }

/-- checks the plug types that were filed and collects the fields they replace -/
def scanFound (r : Registry) : EStateM Error PlugManager Unit :=
  fun p =>
    match r.checkPlugs p.index p.diagnostics with
    | .ok fields diagnostics => .ok () { p with fields, diagnostics }
    | .error e diagnostics => .error e { p with diagnostics }

def resolveInherited (declaring : TypeId) (m : MethodId) (row : PlugRow) :
    Action (Option MethodId) := do
  let r ← get
  modify fun r => r.useNames (r.subclassUses declaring row.target)
  if r.isSubclassOf declaring row.target then
    Registry.resolveIn declaring row.plugs m
  else
    return none

/-- a member of a definition that `m` can have been instantiated from -/
def isOpenMemberOf (r : Registry) (m candidate : MethodId) : Bool :=
  let d := r.method m
  let c := r.method candidate
  c.name == d.name && c.isStatic == d.isStatic && c.isPublic == d.isPublic &&
    c.params.length == d.params.length

/-- the member of `definition` that `m` was instantiated from, if it is the only candidate -/
def openMember? (r : Registry) (definition : TypeId) (m : MethodId) : Option MethodId :=
  Registry.single? ((r.type definition).methods.filter (isOpenMemberOf r m))

/-- The plug of `m`, a member of the generic instance `declaring`, made from a plug of its
definition.  Only a generic plug type can be instantiated with the same arguments. -/
def closePlug (declaring : TypeId) (m openPlug : MethodId) : Action (Option MethodId) := do
  let r ← get
  match (r.method openPlug).declaring with
  | none => return none
  | some plugType =>
    if (r.type plugType).form.isGenericDefinition then
      let closed ← Registry.instantiate plugType (r.type declaring).form.genericArgs
      let plug ← Registry.correspondingMethod closed openPlug
      let r ← get
      if (r.method plug).isGenericDefinition && (r.method m).isGenericInstance then
        return some (← Registry.instantiateMethod plug (r.method m).genericArgs)
      else
        return some plug
    else
      return none

def findOpenPlug (bucket : PlugBucket) (definition : TypeId) (openMethod : MethodId)
    (params : List TypeId) : Action (Option MethodId) := do
  match bucket.get? (← get) definition with
  | none => return none
  | some plugs => Registry.resolveAmong definition plugs openMethod params

/-- the plug of a member of the generic instance `declaring`, looked for under its definition; the
first bucket with a plug decides -/
def resolveGeneric (index : PlugIndex) (declaring definition : TypeId) (m : MethodId) :
    Action (Option MethodId) := do
  let r ← get
  match openMember? r definition m with
  | none => return none
  | some openMethod =>
    let params := (r.method m).paramTypes
    match ← findOpenPlug index.exactGeneric definition openMethod params with
    | some plug => closePlug declaring m plug
    | none =>
      match ← findOpenPlug index.inheritableGeneric definition openMethod params with
      | some plug => closePlug declaring m plug
      | none => return none

def resolveExact (index : PlugIndex) (declaring : TypeId) (m : MethodId) :
    Action (Option MethodId) := do
  match index.exact.get? (← get) declaring with
  | none => return none
  | some plugs => Registry.resolveIn declaring plugs m

/-- the plug of the first row that has one -/
def resolveInheritedAmong (declaring : TypeId) (m : MethodId) :
    List PlugRow → Action (Option MethodId)
  | [] => return none
  | row :: rest => do
    match ← resolveInherited declaring m row with
    | some plug => return some plug
    | none => resolveInheritedAmong declaring m rest

/-- the plug of a method by the index alone; methods without declaring type have none -/
def resolveByIndex (index : PlugIndex) (m : MethodId) : Action (Option MethodId) := do
  match ((← get).method m).declaring with
  | none => return none
  | some declaring =>
    match ← resolveExact index declaring m with
    | some plug => return some plug
    | none =>
      match ← resolveInheritedAmong declaring m index.inheritable.rows with
      | some plug => return some plug
      | none =>
        match ((← get).type declaring).form.definition? with
        | some definition => resolveGeneric index declaring definition m
        | none => return none

/-- the plug of a method; an answer is remembered, a failure is not -/
def resolvePlug (p : PlugManager) (m : MethodId) : Action (Option MethodId × PlugManager) := do
  let r ← get
  modify fun r => r.useNames (r.methodUses m)
  let key := r.methodKey m
  match p.resolved.get? key with
  | some answer => return (answer, p)
  | none =>
    let answer ← resolveByIndex p.index m
    return (answer, { p with resolved := p.resolved.insert key answer })

end PlugManager

end ProgramScan

import ProgramScan.Registry.Define

/-!
# Constructed types and generic instantiation

Constructed types and instances are made on demand and kept: asking twice gives the same type.

* `construct`          the array, pointer or reference type over an element;
* `isOpen`             a generic parameter occurs in a type;
* `substitute`         a type with the arguments of a `GenericContext` for its parameters;
* `instantiate`        a generic definition with arguments; instantiating with the definition's own
                       parameters gives the definition;
* `instantiateMethod`  a generic method with arguments.

The members of an instance are made together with it, with their signatures substituted, and this
can lead to further instances.  An instance is known before its members are made, so members can
refer back to it.  At most `maxNesting` instances are under way at a time.

Looking for a type by its structural key reads the names of its element, or of its definition and
its arguments.

Element types, definitions and arguments were there before the types made from them, so walks along
these links take at most as many steps as the place of the type they start from.
-/

namespace ProgramScan

structure GenericContext where
  typeArgs : List TypeId := []
  methodArgs : List TypeId := []

namespace GenericContext

def isEmpty (ctx : GenericContext) : Bool := ctx.typeArgs.isEmpty && ctx.methodArgs.isEmpty

def argsOf (ctx : GenericContext) : ParameterOwner → List TypeId
  | .type => ctx.typeArgs
  | .method => ctx.methodArgs

end GenericContext

def Shape.label : Shape → String
  | .szArray => "SzArray"
  | .array rank => "Array \x7b rank: " ++ toString rank ++ " \x7d"
  | .pointer => "Pointer"
  | .byRef => "ByRef"

namespace Registry

def constructedKey (r : Registry) (shape : Shape) (element : TypeId) : String :=
  r.typeKey element ++ "|" ++ shape.label

def instanceKey (r : Registry) (definition : String) (args : List TypeId) : String :=
  definition ++ "<" ++ String.intercalate "," (args.map r.typeKey) ++ ">"

/-- the constructed type of a shape over an element; arrays have the array class as base -/
def construct (shape : Shape) (element : TypeId) : StateM Registry TypeId := do
  modify (·.useNames [element])
  let r ← get
  let key := r.constructedKey shape element
  match r.instances.get? key with
  | some t => return t
  | none =>
    let t ← addType
      { module := (r.type element).module, name := "", form := .constructed shape element,
        flags := TypeFlags.isPublic ||| TypeFlags.isSealed,
        base := if shape.isArray then r.find? "System.Array" else none }
    modify fun r => { r with instances := r.instances.insert key t }
    return t

/-- a generic parameter occurs in a type, looked at `depth` levels deep -/
def isOpenWithin (r : Registry) : Nat → TypeId → Bool
  | 0, _ => false
  | depth + 1, t =>
    match (r.type t).form with
    | .parameter _ _ => true
    | .defined _ params => !params.isEmpty
    | .constructed _ element => r.isOpenWithin depth element
    | .instantiated _ _ args => args.any (r.isOpenWithin depth)

/-- a generic parameter occurs in a type; generic definitions count as open -/
def isOpen (r : Registry) (t : TypeId) : Bool := r.isOpenWithin (t.index + 1) t

/-- substitution down to `depth` levels, with `make` to make instances -/
def substituteWith (make : TypeId → List TypeId → Action TypeId) (ctx : GenericContext) :
    Nat → TypeId → Action TypeId
  | 0, t => return t
  | depth + 1, t => do
    let r ← get
    if ctx.isEmpty || !r.isOpen t then
      return t
    else
      match (r.type t).form with
      | .parameter index owner => return (ctx.argsOf owner)[index]?.getD t
      | .constructed shape element =>
        let element ← substituteWith make ctx depth element
        construct shape element
      | .defined _ params =>
        let args ← params.mapM (substituteWith make ctx depth)
        make t args
      | .instantiated _ definition args =>
        let args ← args.mapM (substituteWith make ctx depth)
        make definition args

def substituteParams (sub : TypeId → Action TypeId) (params : List Param) : Action (List Param) :=
  params.mapM fun p => do
    let type ← sub p.type
    return { p with type }

def instantiateBase (sub : TypeId → Action TypeId) (inst base : TypeId) : Action Unit := do
  let base ← sub base
  let _ ← setBase inst base

def instantiateInterface (sub : TypeId → Action TypeId) (inst iface : TypeId) : Action Unit := do
  let iface ← sub iface
  addInterface inst iface

def instantiateField (sub : TypeId → Action TypeId) (inst : TypeId) (f : FieldId) :
    Action Unit := do
  let d := (← get).field f
  let type ← sub d.type
  let copy ← addField { d with declaring := inst, type }
  attachField inst copy

def instantiateMember (sub : TypeId → Action TypeId) (inst : TypeId) (m : MethodId) :
    Action Unit := do
  let d := (← get).method m
  let returnType ← sub d.returnType
  let params ← substituteParams sub d.params
  let copy ← addMethod
    { d with declaring := some inst, returnType, params, origin := .memberOf m, body := none }
  attachMethod inst copy

/-- gives `inst` the relations and members of its definition, types substituted by `sub` -/
def populate (sub : TypeId → Action TypeId) (definition inst : TypeId) : Action Unit := do
  let d := (← get).type definition
  d.enclosing.forM fun outer => modify (·.nestIn inst outer)
  d.base.forM (instantiateBase sub inst)
  d.packing.forM fun packing => setPacking inst packing
  d.classSize.forM fun size => setClassSize inst size
  d.annotations.forM fun a => annotate inst a
  d.interfaces.forM (instantiateInterface sub inst)
  d.fields.forM (instantiateField sub inst)
  d.methods.forM (instantiateMember sub inst)

/-- the definition of an instance, any other type itself -/
def definitionOf (r : Registry) (t : TypeId) : TypeId := (r.type t).form.definition?.getD t

/-- The instance of `definition` that exists already, if there is one.  Fails unless there is an
argument for each of at least one parameter. -/
def existingInstance? (definition : TypeId) (args : List TypeId) : Action (Option TypeId) := do
  let r ← get
  let params := (r.type definition).form.genericArgs
  if params.length != args.length || params.isEmpty then
    modify (·.useNames [definition])
    throw (.typeArity (r.fullName definition) params.length args.length)
  else if params = args then
    return some definition
  else
    modify (·.useNames (definition :: args))
    return r.instances.get? (r.instanceKey (r.typeKey definition) args)

/-- adds an instance without members and makes it known -/
def addInstance (definition : TypeId) (args : List TypeId) : StateM Registry TypeId := do
  let r ← get
  let d := r.type definition
  let kind := d.form.kind?.getD .reference
  let inst ← addType
    { module := d.module, token := d.token, namespaceName := d.namespaceName, name := d.name,
      flags := d.flags, form := .instantiated kind definition args }
  let key := r.instanceKey (r.typeKey definition) args
  modify fun r => { r with instances := r.instances.insert key inst }
  return inst

/-- runs `act` with one more instantiation under way -/
def nested {α : Type} (act : Action α) : Action α := fun r =>
  match act { r with nesting := r.nesting + 1 } with
  | .ok a r' => .ok a { r' with nesting := r'.nesting - 1 }
  | .error e r' => .error e { r' with nesting := r'.nesting - 1 }

/-- how many instantiations can be under way at a time -/
def maxNesting : Nat := 64

/-- instantiation with room for `levels` further instantiations inside each other -/
def instantiateAt : Nat → TypeId → List TypeId → Action TypeId
  | 0, t, args => do
    let definition := (← get).definitionOf t
    match ← existingInstance? definition args with
    | some inst => return inst
    | none => throw (.recursionLimit maxNesting)
  | levels + 1, t, args => do
    let definition := (← get).definitionOf t
    match ← existingInstance? definition args with
    | some inst => return inst
    | none => nested do
      let inst ← addInstance definition args
      let sub (u : TypeId) := substituteWith (instantiateAt levels) ⟨args, []⟩ (u.index + 1) u
      populate sub definition inst
      return inst

def instantiate (t : TypeId) (args : List TypeId) : Action TypeId := do
  instantiateAt (maxNesting - (← get).nesting) t args

/-- `t` with the arguments of `ctx` for its parameters; parameters without argument stay -/
def substitute (ctx : GenericContext) (t : TypeId) : Action TypeId :=
  substituteWith instantiate ctx (t.index + 1) t

def declaringArgs (r : Registry) (m : MethodId) : List TypeId :=
  match (r.method m).declaring with
  | some t => (r.type t).form.genericArgs
  | none => []

def contextOf (r : Registry) (m : MethodId) : GenericContext :=
  ⟨r.declaringArgs m, (r.method m).genericArgs⟩

def instantiateMethod (m : MethodId) (args : List TypeId) : Action MethodId := do
  let r ← get
  let definition := (r.method m).genericDefinition?.getD m
  let d := r.method definition
  modify fun r => r.useNames (r.methodUses definition)
  if d.genericArgs.length != args.length || args.isEmpty then
    throw (.methodArity (r.methodName definition) d.genericArgs.length args.length)
  else
    modify (·.useNames args)
    let key := r.instanceKey (r.methodKey definition) args
    match r.methodInstances.get? key with
    | some inst => return inst
    | none =>
      let ctx : GenericContext := ⟨r.declaringArgs definition, args⟩
      let returnType ← substitute ctx d.returnType
      let params ← substituteParams (substitute ctx) d.params
      let inst ← addMethod
        { d with returnType, params, genericArgs := args, origin := .instanceOf definition,
                 body := none }
      modify fun r => { r with methodInstances := r.methodInstances.insert key inst }
      return inst

end Registry

end ProgramScan

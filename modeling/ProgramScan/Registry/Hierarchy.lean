import ProgramScan.Registry.NameUse

/-!
# Inheritance and assignability

* `ancestors`      the base of a type, the base of that, and so on;
* `isSubclassOf`   one type is a strict ancestor of another;
* `implements`     an interface is reached from a type, its ancestors and their interfaces;
* `isAssignable`   values of one type can be stored in locations of another;
* `overridden?`    the nearest ancestor method whose slot a virtual method takes over;
* `slotRoot`       the method that introduced the slot.

The names that these questions read are given by `subclassUses`, `implementsUses` and so on.

A walk over bases meets every type at most once, and a walk over overrides every method, so they take
at most as many steps as there are types or methods.  The walk over interfaces stops after `interfaceSteps` of them.
-/

namespace ProgramScan

namespace Registry

/-- the ancestors that a walk of at most `steps` bases meets; one that was `seen` before ends it -/
def ancestorsFrom (r : Registry) : Nat → List TypeId → TypeId → List TypeId
  | 0, _, _ => []
  | steps + 1, seen, t =>
    match (r.type t).base with
    | some base =>
      if seen.contains base then [] else base :: r.ancestorsFrom steps (base :: seen) base
    | none => []

/-- the strict ancestors of a type, nearest first; each is met once, also on a chain that leads back
to itself -/
def ancestors (r : Registry) (t : TypeId) : List TypeId := r.ancestorsFrom r.types.size [] t

/-- `ancestor` is a strict ancestor of `t` -/
def isSubclassOf (r : Registry) (t ancestor : TypeId) : Bool :=
  (r.ancestors t).any fun base => r.sameType base ancestor

def subclassUses (r : Registry) (t ancestor : TypeId) : List TypeId :=
  usesThrough (r.sameType · ancestor) (sameTypeUses · ancestor) (r.ancestors t)

/-- number of interfaces that a search looks at -/
def interfaceSteps : Nat := 1025

/-- the pending interfaces, last one first, lead to `iface` within `steps` interfaces -/
def interfaceWalk (r : Registry) (iface : TypeId) : Nat → List TypeId → Bool
  | 0, _ => false
  | _ + 1, [] => false
  | steps + 1, candidate :: pending =>
    r.sameType candidate iface ||
      r.interfaceWalk iface steps ((r.type candidate).interfaces.reverse ++ pending)

def interfaceWalkUses (r : Registry) (iface : TypeId) : Nat → List TypeId → List TypeId
  | 0, _ => []
  | _ + 1, [] => []
  | steps + 1, candidate :: pending =>
    sameTypeUses candidate iface ++
      if r.sameType candidate iface then []
      else r.interfaceWalkUses iface steps ((r.type candidate).interfaces.reverse ++ pending)

/-- the interfaces of a type and of its ancestors, last one first -/
def declaredInterfaces (r : Registry) (t : TypeId) : List TypeId :=
  ((t :: r.ancestors t).flatMap fun u => (r.type u).interfaces).reverse

/-- `t` implements `iface`, itself, by an ancestor, or by an interface of these -/
def implements (r : Registry) (t iface : TypeId) : Bool :=
  r.interfaceWalk iface interfaceSteps (r.declaredInterfaces t)

def implementsUses (r : Registry) (t iface : TypeId) : List TypeId :=
  r.interfaceWalkUses iface interfaceSteps (r.declaredInterfaces t)

/-- a location of type `target` can hold values of type `source` -/
def isAssignable (r : Registry) (target source : TypeId) : Bool :=
  r.sameType target source || r.isSubclassOf source target ||
    ((r.type target).form.isInterface && r.implements source target)

def assignableUses (r : Registry) (target source : TypeId) : List TypeId :=
  sameTypeUses target source ++
    if r.sameType target source then []
    else
      r.subclassUses source target ++
        if !r.isSubclassOf source target && (r.type target).form.isInterface then
          r.implementsUses source target
        else []

def paramKeys (r : Registry) (m : MethodId) : List String :=
  (r.method m).paramTypes.map r.typeKey

def similarSlot (r : Registry) (m candidate : MethodId) : Bool :=
  (r.method candidate).name == (r.method m).name && (r.method candidate).isVirtual &&
    (r.method candidate).genericArgs.length == (r.method m).genericArgs.length

/-- `candidate` is virtual and has name, generic arity and parameter types of `m` -/
def sameSlot (r : Registry) (m candidate : MethodId) : Bool :=
  r.similarSlot m candidate && r.paramKeys candidate == r.paramKeys m

/-- names of `candidate` read by `sameSlot`: none if it has another number of parameters -/
def sameSlotUses (r : Registry) (m candidate : MethodId) : List TypeId :=
  let types := (r.method candidate).paramTypes
  if r.similarSlot m candidate && types.length == (r.paramKeys m).length then
    usesThrough (fun (t, key) => r.typeKey t != key) (fun (t, _) => [t]) (types.zip (r.paramKeys m))
  else []

def overridden? (r : Registry) (m : MethodId) : Option MethodId :=
  if !(r.method m).isVirtual || (r.method m).isNewSlot then none
  else
    match (r.method m).declaring with
    | none => none
    | some declaring =>
      (r.ancestors declaring).findSome? fun base =>
        (r.type base).methods.find? (r.sameSlot m)

def overriddenUses (r : Registry) (m : MethodId) : List TypeId :=
  if !(r.method m).isVirtual || (r.method m).isNewSlot then []
  else
    match (r.method m).declaring with
    | none => []
    | some declaring =>
      (r.method m).paramTypes ++
        usesThrough (fun base => (r.type base).methods.any (r.sameSlot m))
          (fun base => usesThrough (r.sameSlot m) (r.sameSlotUses m) (r.type base).methods)
          (r.ancestors declaring)

/-- the method at the end of at most `steps` overrides; one that was `seen` before ends the walk -/
def slotRootFrom (r : Registry) : Nat → List MethodId → MethodId → MethodId
  | 0, _, m => m
  | steps + 1, seen, m =>
    match r.overridden? m with
    | some base => if seen.contains base then m else r.slotRootFrom steps (base :: seen) base
    | none => m

/-- the method whose slot `m` shares, `m` itself if it overrides nothing -/
def slotRoot (r : Registry) (m : MethodId) : MethodId := r.slotRootFrom r.methods.size [m] m

def slotRootUsesFrom (r : Registry) : Nat → List MethodId → MethodId → List TypeId
  | 0, _, _ => []
  | steps + 1, seen, m =>
    r.overriddenUses m ++
      match r.overridden? m with
      | some base => if seen.contains base then [] else r.slotRootUsesFrom steps (base :: seen) base
      | none => []

def slotRootUses (r : Registry) (m : MethodId) : List TypeId :=
  r.slotRootUsesFrom r.methods.size [m] m

def methodsCalled (r : Registry) (t : TypeId) (name : String) (isStatic : Bool) : List MethodId :=
  (r.type t).methods.filter fun m => (r.method m).name == name && (r.method m).isStatic == isStatic

def findMethod? (r : Registry) (t : TypeId) (name : String) (isStatic : Bool)
    (params : List TypeId) : Option MethodId :=
  (r.methodsCalled t name isStatic).find? fun m => r.sameTypes (r.method m).paramTypes params

def findMethodUses (r : Registry) (t : TypeId) (name : String) (isStatic : Bool)
    (params : List TypeId) : List TypeId :=
  usesThrough (fun m => r.sameTypes (r.method m).paramTypes params)
    (fun m => r.sameTypesUses (r.method m).paramTypes params) (r.methodsCalled t name isStatic)

/-- the same, on `t` and then on its ancestors -/
def findInherited? (r : Registry) (t : TypeId) (name : String) (isStatic : Bool)
    (params : List TypeId) : Option MethodId :=
  (t :: r.ancestors t).findSome? fun u => r.findMethod? u name isStatic params

def findInheritedUses (r : Registry) (t : TypeId) (name : String) (isStatic : Bool)
    (params : List TypeId) : List TypeId :=
  usesThrough (fun u => (r.findMethod? u name isStatic params).isSome)
    (fun u => r.findMethodUses u name isStatic params) (t :: r.ancestors t)

end Registry

end ProgramScan

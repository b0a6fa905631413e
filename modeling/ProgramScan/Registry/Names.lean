import ProgramScan.Registry.Basic
import ProgramScan.Text.Search

/-!
# Names and identity keys

Rendered names identify program elements.

* types: `Namespace.Name`, nested ones `Outer+Inner`, instances with their arguments in angle
  brackets, arrays with brackets, references with `&` in front and pointers with `*` behind;
* methods: return type, two blanks, declaring type, name, and the parameter types in parentheses;
  a leading parameter `aThis` is left out;
* fields: type, blank, declaring type and name.

A few helper types exist under one name in several modules; their name carries the module's.
An identity key is a rendered name together with the module.  Two elements are the same if they
have the same key.
-/

namespace ProgramScan

/-- names of helper types that several modules declare -/
def isSharedHelperName (name : String) : Bool :=
  name == "SR" || name == "PathInternal" || name == "Error" || name == "GetEndOfFile" ||
    Text.occursIn "PrivateImplementationDetails".toList name.toList

def TypeDecl.plainName (d : TypeDecl) : String :=
  if d.namespaceName.isEmpty then d.name else d.namespaceName ++ "." ++ d.name

/-- what stands around the element name of a constructed type -/
def Shape.render (shape : Shape) (element : String) : String :=
  match shape with
  | .szArray => element ++ "[]"
  | .array rank => element ++ "[" ++ String.ofList (List.replicate (rank - 1) ',') ++ "]"
  | .pointer => element ++ "*"
  | .byRef => "&" ++ element

namespace Registry

/-- the qualified name of a record, looking through at most `depth` enclosing types -/
def qualifiedNameWithin (r : Registry) : Nat → TypeDecl → String
  | 0, d => d.plainName
  | depth + 1, d =>
    match d.enclosing with
    | some outer => r.qualifiedNameWithin depth (r.type outer) ++ "+" ++ d.name
    | none => d.plainName

/-- the name of a definition with its namespace and enclosing types, without arguments -/
def qualifiedNameOf (r : Registry) (d : TypeDecl) : String :=
  r.qualifiedNameWithin (r.types.size + 1) d

def qualifiedName (r : Registry) (t : TypeId) : String := r.qualifiedNameOf (r.type t)

def fullName (r : Registry) (t : TypeId) : String := (r.type t).fullName

def nameList (r : Registry) (ts : List TypeId) : String :=
  String.intercalate ", " (ts.map r.fullName)

def moduleName (r : Registry) (m : ModuleId) : String := (r.module m).name

/-- `name` with the module in front for helper types -/
def withModuleName (r : Registry) (d : TypeDecl) (name : String) : String :=
  if isSharedHelperName d.name then
    String.ofList ((r.moduleName d.module).toList.filter (· ≠ '.')) ++ name
  else name

def render (r : Registry) (d : TypeDecl) : String :=
  match d.form with
  | .parameter _ _ => d.name
  | .constructed shape element => shape.render (r.fullName element)
  | .instantiated _ definition args =>
    r.withModuleName d (r.fullName definition ++ "<" ++ r.nameList args ++ ">")
  | .defined _ _ => r.withModuleName d (r.qualifiedNameOf d)

def typeKey (r : Registry) (t : TypeId) : String :=
  "T:" ++ r.moduleName (r.type t).module ++ ":" ++ r.fullName t

/-- the parameters that a rendered signature shows -/
def shownParams : List Param → List Param
  | [] => []
  | p :: rest => if p.name = "aThis" then rest else p :: rest

def methodName (r : Registry) (m : MethodId) : String :=
  let d := r.method m
  let result := if d.isConstructor then "System.Void" else r.fullName d.returnType
  let owner := match d.declaring with
    | some t => r.fullName t
    | none => "dynamic_method"
  let args :=
    if d.isGenericInstance && !d.genericArgs.isEmpty then "<" ++ r.nameList d.genericArgs ++ ">"
    else ""
  result ++ "  " ++ owner ++ "." ++ d.name ++ args ++
    "(" ++ r.nameList ((shownParams d.params).map (·.type)) ++ ")"

/-- the module of the type that declares a method, empty for dynamic methods -/
def methodModuleName (r : Registry) (m : MethodId) : String :=
  match (r.method m).declaring with
  | some t => r.moduleName (r.type t).module
  | none => ""

def methodKey (r : Registry) (m : MethodId) : String :=
  "M:" ++ r.methodModuleName m ++ ":" ++ r.methodName m

def fieldName (r : Registry) (f : FieldId) : String :=
  let d := r.field f
  r.fullName d.type ++ " " ++ r.fullName d.declaring ++ "." ++ d.name

def fieldKey (r : Registry) (f : FieldId) : String :=
  "F:" ++ r.moduleName (r.type (r.field f).declaring).module ++ ":" ++ r.fieldName f

def itemKey (r : Registry) : Item → String
  | .method m => r.methodKey m
  | .type t => r.typeKey t
  | .field f => r.fieldKey f

def itemName (r : Registry) : Item → String
  | .method m => r.methodName m
  | .type t => r.fullName t
  | .field f => r.fieldName f

def sameType (r : Registry) (a b : TypeId) : Bool := a = b || r.typeKey a == r.typeKey b

def sameMethod (r : Registry) (a b : MethodId) : Bool := a = b || r.methodKey a == r.methodKey b

def sameTypes (r : Registry) (as bs : List TypeId) : Bool :=
  as.length == bs.length && (as.zip bs).all fun (a, b) => r.sameType a b

def sameKnown (r : Registry) : Option TypeId → Option TypeId → Bool
  | some a, some b => r.sameType a b
  | none, none => true
  | _, _ => false

def sameKnowns (r : Registry) (as bs : List (Option TypeId)) : Bool :=
  as.length == bs.length && (as.zip bs).all fun (a, b) => r.sameKnown a b

def returnsValue (r : Registry) (m : MethodId) : Bool :=
  !(r.method m).isConstructor && r.fullName (r.method m).returnType != "System.Void"

def siteReturnsValue (r : Registry) (site : CallSite) : Bool :=
  site.returnType.any fun t => r.fullName t != "System.Void"

end Registry

end ProgramScan

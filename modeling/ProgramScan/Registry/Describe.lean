import ProgramScan.Layout.FieldTable
import ProgramScan.Registry.Instantiate
import ProgramScan.Text.Quoted

/-!
# Descriptions

One-line descriptions of program elements for a person who looks into a registry.  A description
names the kind of record, then its parts in braces or its rendered name in parentheses.
-/

namespace ProgramScan

def TypeKind.label : TypeKind → String
  | .reference => "Class"
  | .valueType => "ValueType"
  | .interface => "Interface"
  | .enum => "Enum"

def describeParts (record : String) (parts : List (String × String)) : String :=
  record ++ " \x7b " ++ String.intercalate ", " (parts.map fun p => p.1 ++ ": " ++ p.2) ++ " \x7d"

def describeNamed (record name : String) : String := record ++ "(" ++ name ++ ")"

/-- how a type comes about, in one word or with the parts that make it up -/
def TypeForm.describe : TypeForm → String
  | .defined kind _ => kind.label
  | .instantiated kind _ _ => kind.label
  | .parameter index owner =>
    describeParts "GenericParameter"
      [("index", toString index), ("method", toString (decide (owner = .method)))]
  | .constructed shape _ => shape.label

namespace Registry

def describeType (r : Registry) (t : TypeId) : String :=
  describeParts "CilType"
    [("id", toString (r.type t).id), ("name", Text.quote (r.fullName t)),
      ("flavor", (r.type t).form.describe)]

def describeTypeRef (r : Registry) (t : TypeId) : String := describeNamed "CilTypeRef" (r.fullName t)

def describeMethod (r : Registry) (m : MethodId) : String := describeNamed "Method" (r.methodName m)

def describeMethodRef (r : Registry) (m : MethodId) : String :=
  describeNamed "MethodRef" (r.methodName m)

def describeField (r : Registry) (f : FieldId) : String := describeNamed "CilField" (r.fieldName f)

/-- the descriptions of an item and of a reference to it; a method has its rendered name between them,
a field has no references -/
def describeItem (r : Registry) : Item → List String
  | .type t => [r.describeType t, r.describeTypeRef t]
  | .method m => [r.describeMethod m, r.methodName m, r.describeMethodRef m]
  | .field f => [r.describeField f]

def describeModule (r : Registry) (m : ModuleId) : String :=
  describeParts "CilModule"
    [("name", Text.quote (r.moduleName m)), ("types", toString (r.module m).types.length),
      ("tokens", toString (r.module m).tokens.size)]

end Registry

def FieldEntry.describe (e : FieldEntry) : String :=
  describeParts "FieldInfo"
    [("id", Text.quote e.id), ("offset", toString e.offset), ("size", toString e.size),
      ("is_static", toString e.isStatic)]

end ProgramScan

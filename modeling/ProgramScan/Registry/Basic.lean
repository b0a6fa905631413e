import ProgramScan.Error
import ProgramScan.Program.Element

/-!
# The registry

A `Registry` holds every module, type, method and field of a program, each at a fixed place: ids
are places, and nothing is ever removed.  Beside these it keeps

* `byName`, `byModule`   the first type defined under a qualified name, overall and per module;
* `instances`            constructed and instantiated types by their structure;
* `methodInstances`      instantiated generic methods by their structure;
* `usedNames`            types whose names were asked for, so that they stay as they are;
* `nesting`              how many instantiations are under way;
* `nextId`               the number that the next type gets.

Operations on a registry that cannot fail live in `StateM Registry`; those that can fail are
`Action`s, which keep what they did before they failed.
-/

namespace ProgramScan

/-- All elements of a program. -/
structure Registry where
  types : Array TypeDecl := #[]
  methods : Array Method := #[]
  fields : Array Field := #[]
  modules : Array Module := #[]
  byName : Table String TypeId := ∅
  byModule : Table (String × String) TypeId := ∅
  instances : Table String TypeId := ∅
  methodInstances : Table String MethodId := ∅
  usedNames : List TypeId := []
  nesting : Nat := 0
  nextId : Nat := 0

/-- An operation on a registry that can fail; a failure keeps the changes made before it. -/
abbrev Action := EStateM Error Registry

/-- An operation that cannot fail is one that can. -/
instance liftUpdate {ε σ : Type} : MonadLift (StateM σ) (EStateM ε σ) where
  monadLift x := fun s => let (a, s') := x.run s; .ok a s'

namespace Registry

def type (r : Registry) (t : TypeId) : TypeDecl := r.types.getD t.index default

def method (r : Registry) (m : MethodId) : Method := r.methods.getD m.index default

def field (r : Registry) (f : FieldId) : Field := r.fields.getD f.index default

def module (r : Registry) (m : ModuleId) : Module := r.modules.getD m.index default

def modifyType (r : Registry) (t : TypeId) (f : TypeDecl → TypeDecl) : Registry :=
  { r with types := r.types.modify t.index f }

def modifyMethod (r : Registry) (m : MethodId) (f : Method → Method) : Registry :=
  { r with methods := r.methods.modify m.index f }

def modifyModule (r : Registry) (m : ModuleId) (f : Module → Module) : Registry :=
  { r with modules := r.modules.modify m.index f }

def get? (r : Registry) (id : Nat) : Option TypeId :=
  (r.types.findIdx? fun d => d.id == id).map TypeId.mk

def find? (r : Registry) (name : String) : Option TypeId := r.byName.get? name

/-- the first type defined under a qualified name in a module -/
def findIn? (r : Registry) (moduleName name : String) : Option TypeId :=
  r.byModule.get? (moduleName, name)

def findModule? (r : Registry) (name : String) : Option ModuleId :=
  (r.modules.findIdx? fun m => m.name == name).map ModuleId.mk

def fieldNamed? (r : Registry) (t : TypeId) (name : String) : Option FieldId :=
  (r.type t).fields.find? fun f => (r.field f).name == name

def methodsNamed (r : Registry) (t : TypeId) (name : String) : List MethodId :=
  (r.type t).methods.filter fun m => (r.method m).name == name

/-- the body of a method, or else of the method it was instantiated from -/
def bodyWithin (r : Registry) : Nat → MethodId → Option Body
  | 0, m => (r.method m).body
  | steps + 1, m =>
    match (r.method m).body, (r.method m).origin with
    | some body, _ => some body
    | none, .instanceOf definition => r.bodyWithin steps definition
    | none, .memberOf definition => r.bodyWithin steps definition
    | none, .declared => none

/-- the code of a method; instances share the code of their definition -/
def body? (r : Registry) (m : MethodId) : Option Body := r.bodyWithin r.methods.size m

end Registry

end ProgramScan

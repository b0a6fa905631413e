import ProgramScan.Registry.NameUse

/-!
# Adding elements to a registry

Every operation appends.  Named types are entered in the name indices under their qualified name,
where the first one stays; parameters and constructed types are not.

* `addModule`, `addType`, `defineType`, `addParameter`   modules and types;
* `reserveToken`, `bindToken`, `addToken`                tokens of a module;
* `addField`, `addMethod`                                members;
* `setBase`, `setEnclosing`, `setBody`                   relations that can be set once.
-/

namespace ProgramScan

namespace Registry

/-- the module of a name, created if there is none -/
def addModule (name : String) : StateM Registry ModuleId := do
  let r ← get
  match r.findModule? name with
  | some m => return m
  | none =>
    set { r with modules := r.modules.push { name } }
    return ⟨r.modules.size⟩

/-- appends a type under the next number and the name it has now -/
def addType (decl : TypeDecl) : StateM Registry TypeId :=
  modifyGet fun r =>
    (⟨r.types.size⟩,
      { r with
        types := r.types.push { decl with id := r.nextId, fullName := r.render decl }
        nextId := r.nextId + 1 })

/-- enters a named type in the list of its module and in the name indices -/
def indexType (r : Registry) (t : TypeId) : Registry :=
  let home := (r.type t).module
  let name := r.qualifiedName t
  { r.modifyModule home fun m => { m with types := m.types ++ [t] } with
    byName := r.byName.insertNew name t
    byModule := r.byModule.insertNew (r.moduleName home, name) t }

def defineType (decl : TypeDecl) : StateM Registry TypeId := do
  let t ← addType decl
  modify (·.indexType t)
  return t

def addParameter (module : ModuleId) (name : String) (index : Nat) (owner : ParameterOwner) :
    StateM Registry TypeId :=
  addType { module, name, form := .parameter index owner }

/-- the next token of a metadata table of a module, not bound yet -/
def reserveToken (module : ModuleId) (table : UInt8) : StateM Registry Token :=
  modifyGet fun r =>
    let row := ((r.module module).rows.get? table).getD 0 + 1
    (Token.ofParts table row,
      r.modifyModule module fun m => { m with rows := m.rows.insert table row })

/-- binds a token of a module, in place of what it was bound to -/
def bindToken (module : ModuleId) (token : Token) (target : TokenTarget) :
    StateM Registry Unit :=
  modify fun r => r.modifyModule module fun m => { m with tokens := m.tokens.insert token target }

def addToken (module : ModuleId) (table : UInt8) (target : TokenTarget) :
    StateM Registry Token := do
  let token ← reserveToken module table
  bindToken module token target
  return token

/-- a new token for an element, a string or a signature, in the metadata table of its kind -/
def tokenFor (module : ModuleId) (target : TokenTarget) : StateM Registry Token :=
  match target with
  | .type _ => addToken module Token.typeSpecTable target
  | .method _ => addToken module Token.memberRefTable target
  | .field _ => addToken module Token.fieldTable target
  | .string _ => addToken module Token.userStringTable target
  | .signature _ => addToken module Token.signatureTable target

/-- appends a field without giving it to its type -/
def addField (decl : Field) : StateM Registry FieldId :=
  modifyGet fun r => (⟨r.fields.size⟩, { r with fields := r.fields.push decl })

def addMethod (decl : Method) : StateM Registry MethodId :=
  modifyGet fun r => (⟨r.methods.size⟩, { r with methods := r.methods.push decl })

def attachField (t : TypeId) (f : FieldId) : StateM Registry Unit :=
  modify fun r => r.modifyType t fun d => { d with fields := d.fields ++ [f] }

def attachMethod (t : TypeId) (m : MethodId) : StateM Registry Unit :=
  modify fun r => r.modifyType t fun d => { d with methods := d.methods ++ [m] }

def addInterface (t iface : TypeId) : StateM Registry Unit :=
  modify fun r => r.modifyType t fun d => { d with interfaces := d.interfaces ++ [iface] }

def annotate (t : TypeId) (mark : Annotation) : StateM Registry Unit :=
  modify fun r => r.modifyType t fun d => { d with annotations := d.annotations ++ [mark] }

/-- sets the base of a type; false if it has one already -/
def setBase (t base : TypeId) : StateM Registry Bool :=
  modifyGet fun r =>
    if (r.type t).base.isSome then (false, r)
    else (true, r.modifyType t fun d => { d with base := some base })

def nestIn (r : Registry) (t outer : TypeId) : Registry :=
  r.modifyType t fun d => { d with enclosing := some outer }

/-- nests a type in another, and names follow unless they are in use; false if it is nested
already -/
def setEnclosing (t outer : TypeId) : StateM Registry Bool :=
  modifyGet fun r =>
    if (r.type t).enclosing.isSome then (false, r)
    else (true, (r.nestIn t outer).refreshNames)

/-- sets the declared packing of a type that has none -/
def setPacking (t : TypeId) (packing : UInt16) : StateM Registry Unit :=
  modify fun r => r.modifyType t fun d => { d with packing := d.packing.or (some packing) }

/-- sets the declared size of a type that has none -/
def setClassSize (t : TypeId) (size : UInt32) : StateM Registry Unit :=
  modify fun r => r.modifyType t fun d => { d with classSize := d.classSize.or (some size) }

/-- gives a method its body; false if it has one already -/
def setBody (m : MethodId) (body : Body) : StateM Registry Bool :=
  modifyGet fun r =>
    if (r.method m).body.isSome then (false, r)
    else (true, r.modifyMethod m fun d => { d with body := some body })

def wellKnown (name : String) : Action TypeId := do
  match (← get).find? name with
  | some t => return t
  | none => throw (.typeNotFound name)

end Registry

end ProgramScan

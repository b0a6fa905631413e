import ProgramScan.Instruction.Decode
import ProgramScan.Scan.Basic

/-!
# Reaching elements

Looking into an element puts what it refers to into the queue.

* a method refers to the types of its parameters, its declaring type, its return type, its plug and,
  if it has no plug, to the operands of its code;
* a type refers to its base, its type constructors, the array helpers if it is an array, the types of
  its instance fields and its interfaces;
* a field refers to nothing.

The code of a replaced method is never decoded: that of its plug is.  Code without managed body that
nothing replaces ends the scan.
-/

namespace ProgramScan

/-- An element that is referred to, and why. -/
structure Reference where
  item : Item
  reason : Reason

namespace Registry

/-- what the signature of a method refers to; a plug does not pull in its declaring type -/
def signatureReferences (r : Registry) (m : MethodId) (asPlug : Bool) : List Reference :=
  let d := r.method m
  let declaring := if asPlug then [] else d.declaring.toList
  let result := if d.isConstructor then [] else [d.returnType]
  d.paramTypes.map (fun t => ⟨.type t, .parameter⟩) ++
    declaring.map (fun t => ⟨.type t, .declaringType⟩) ++
    result.map (fun t => ⟨.type t, .returnType⟩)

def fieldReferences (r : Registry) (f : FieldId) : List Reference :=
  ⟨.type (r.field f).declaring, .opcodeValue⟩ ::
    (if (r.field f).isStatic then [⟨.field f, .opcodeValue⟩] else [])

def operandReferences (r : Registry) : Operand → List Reference
  | .method m _ => [⟨.method m, .call⟩]
  | .type t => [⟨.type t, .opcodeValue⟩]
  | .field f => r.fieldReferences f
  | .token (.field f) => r.fieldReferences f
  | .token item => [⟨item, .opcodeValue⟩]
  | _ => []

def codeReferences (r : Registry) (code : List Instruction) : List Reference :=
  code.flatMap fun i => r.operandReferences i.operand

/-- the base and the type constructors of a type -/
def baseReferences (r : Registry) (t : TypeId) : List Reference :=
  (r.type t).base.toList.map (fun b => ⟨.type b, .baseType⟩) ++
    ((r.type t).methods.filter fun m => (r.method m).isTypeConstructor).map
      (fun m => ⟨.method m, .staticConstructor⟩)

/-- the types of the instance fields of a type, and its interfaces -/
def memberReferences (r : Registry) (t : TypeId) : List Reference :=
  ((r.type t).fields.filter fun f => !(r.field f).isStatic).map
      (fun f => ⟨.type (r.field f).type, .fieldType⟩) ++
    (r.type t).interfaces.map (fun i => ⟨.type i, .implementedInterface⟩)

/-- the element type of an array that has helpers: one that derives from the array class and does not
hold pointers -/
def helpedElement? (r : Registry) (t : TypeId) : Option TypeId :=
  if (r.type t).base.any fun b => r.fullName b == "System.Array" then
    (r.type t).form.element?.filter fun e => !(r.type e).form.isPointer
  else none

/-- helpers are the hidden instance methods with one generic parameter -/
def isArrayHelper (r : Registry) (m : MethodId) : Bool :=
  let d := r.method m
  !d.isStatic && !d.isPublic && d.isGenericDefinition && d.genericArgs.length == 1

end Registry

namespace Scan

def follow (source : String) (references : List Reference) : Scan Unit :=
  references.forM fun ref => enqueue ref.item ref.reason (some source)

/-- an operand that names a method names the one that is in the queue, and has its number -/
def stampOperand : Operand → Scan Operand
  | .method m _ => do
    identify (.method m)
    let run ← get
    let target := (run.scanner.queue.canonicalMethod? run.registry m).getD m
    return .method target (some (← methodUid target))
  | operand => return operand

def stamp (code : List Instruction) : Scan (List Instruction) :=
  code.mapM fun i => return { i with operand := ← stampOperand i.operand }

def decodeStamped (m : MethodId) : Scan (List Instruction) := do
  stamp (← onRegistry (Registry.decode m))

/-- looks into the code of a method that is not replaced; inline methods are expanded where they are
called -/
def scanCode (m : MethodId) : Scan Unit := do
  let r ← registry
  if (r.method m).needsNativeCode then
    throw (.nativeCodeNeedsPlug (r.methodName m))
  else if !(r.method m).isInline then
    let code ← decodeStamped m
    let r ← registry
    follow (r.methodName m) (r.codeReferences code)

def scanPlug (plug : MethodId) : Scan Unit := do
  identify (.method plug)
  let r ← registry
  follow (r.methodName plug) (r.signatureReferences plug true)
  scanCode plug

/-- looks into a method, through its plug if it has one; nothing replaces a dynamic method -/
def scanMethod (m : MethodId) : Scan Unit := do
  let r ← registry
  follow (r.methodName m) (r.signatureReferences m false)
  if (r.method m).isDynamic then
    scanCode m
  else
    match ← resolvePlug m with
    | none => scanCode m
    | some plug =>
      scanPlug plug
      if !(r.method m).isInline then
        enqueue (.method plug) .plugMethod (some (r.methodName m))

def enqueueHelpers (source : String) (element : TypeId) : Scan Unit := do
  let run ← get
  match run.registry.find? run.scanner.config.arrayHelper with
  | none => return ()
  | some helper =>
    ((run.registry.type helper).methods.filter run.registry.isArrayHelper).forM fun m => do
      let made ← onRegistry (Registry.instantiateMethod m [element])
      enqueue (.method made) .arrayHelper (some source)

def markUsed (m : ModuleId) : Scan Unit :=
  modify fun run =>
    run.modifyScanner fun s =>
      if s.usedModules.contains m then s else { s with usedModules := s.usedModules ++ [m] }

def scanType (t : TypeId) : Scan Unit := do
  let r ← registry
  follow (r.fullName t) (r.baseReferences t)
  (r.helpedElement? t).forM (enqueueHelpers (r.fullName t))
  let r ← registry
  follow (r.fullName t) (r.memberReferences t)
  markUsed (r.type t).module

def scanItem : Item → Scan Unit
  | .method m => scanMethod m
  | .type t => scanType t
  | .field _ => return ()

/-- looks into the pending elements, at most `budget` of them -/
def drain : Nat → Scan Unit
  | 0 => do
    if (← get).scanner.queue.pending ≠ 0 then
      throw .scanUnfinished
  | budget + 1 => do
    match ← dequeue with
    | none => return ()
    | some entry =>
      scanItem entry.item
      drain budget

end Scan

end ProgramScan

import ProgramScan.Instruction.Basic
import ProgramScan.Registry.Instantiate

/-!
# Stack effects

How many values an instruction pops and pushes follows from its opcode and operand, and so do the
types of pushed values for many opcodes.

* `PushRule`       where the type of a pushed value comes from;
* `StackRule`      what an opcode pops and pushes;
* `stackRule`      the rule of every general opcode;
* `stackEffect`    the rule applied to an instruction of a method.
-/

namespace ProgramScan

/-- Where the type of a pushed value comes from. -/
inductive PushRule
  | unknown
  /-- the type of a qualified name -/
  | named (name : String)
  | argument
  | argumentRef
  | localVar
  | localRef
  | typeOperand
  | typeRef
  /-- the vector type over the type operand -/
  | typeArray
  | fieldValue
  | fieldRef
  /-- the handle type for the kind of the token operand -/
  | handle

inductive StackRule
  | fixed (pops : Nat) (pushes : List PushRule)
  /-- pops what the called method takes, pushes its result -/
  | call
  /-- pops what the constructor takes, pushes the new object -/
  | construct
  /-- pops what the signature takes and the callee, pushes the result -/
  | indirectCall
  /-- pops the result of the method that returns, if it has one -/
  | result

def StackRule.consume (pops : Nat) : StackRule := .fixed pops []

/-- pops `pops` values and pushes one of a named type -/
def StackRule.yield (pops : Nat) (name : String) : StackRule := .fixed pops [.named name]

/-- the rule of an opcode; short forms have none of their own -/
def stackRule : Opcode → StackRule
  | .nop | .breakpoint | .jmp | .br | .leave | .endfinally | .rethrow | .unaligned | .volatile
  | .tail | .constrained | .readonly | .no => .consume 0
  | .ldarg => .fixed 0 [.argument]
  | .ldarga => .fixed 0 [.argumentRef]
  | .ldloc => .fixed 0 [.localVar]
  | .ldloca => .fixed 0 [.localRef]
  | .starg | .stloc | .pop => .consume 1
  | .ldnull => .yield 0 "System.Object"
  | .ldcI4 => .yield 0 "System.Int32"
  | .ldcI8 => .yield 0 "System.Int64"
  | .ldcR4 => .yield 0 "System.Single"
  | .ldcR8 => .yield 0 "System.Double"
  | .ldstr => .yield 0 "System.String"
  | .dup => .fixed 1 [.unknown, .unknown]
  | .call | .callvirt => .call
  | .newobj => .construct
  | .calli => .indirectCall
  | .ret => .result
  | .brfalse | .brtrue | .switch => .consume 1
  | .beq | .bge | .bgt | .ble | .blt | .bneUn | .bgeUn | .bgtUn | .bleUn | .bltUn => .consume 2
  | .ldindI1 | .ldindU1 | .ldindI2 | .ldindU2 | .ldindI4 | .ldindU4 => .yield 1 "System.Int32"
  | .ldindI8 => .yield 1 "System.Int64"
  | .ldindI => .yield 1 "System.IntPtr"
  | .ldindR4 => .yield 1 "System.Single"
  | .ldindR8 => .yield 1 "System.Double"
  | .ldindRef => .yield 1 "System.Object"
  | .stindRef | .stindI1 | .stindI2 | .stindI4 | .stindI8 | .stindR4 | .stindR8 | .stindI =>
    .consume 2
  | .add | .sub | .mul | .div | .divUn | .rem | .remUn | .and | .or | .xor | .shl | .shr | .shrUn
  | .addOvf | .addOvfUn | .mulOvf | .mulOvfUn | .subOvf | .subOvfUn => .fixed 2 [.unknown]
  | .neg | .not | .ckfinite => .fixed 1 [.unknown]
  | .ceq | .cgt | .cgtUn | .clt | .cltUn => .yield 2 "System.Int32"
  | .convI1 | .convI2 | .convI4 | .convU1 | .convU2 | .convU4 | .convOvfI1 | .convOvfU1 | .convOvfI2
  | .convOvfU2 | .convOvfI4 | .convOvfU4 | .convOvfI1Un | .convOvfI2Un | .convOvfI4Un
  | .convOvfU1Un | .convOvfU2Un | .convOvfU4Un => .yield 1 "System.Int32"
  | .convI8 | .convOvfI8 | .convOvfI8Un => .yield 1 "System.Int64"
  | .convU8 | .convOvfU8 | .convOvfU8Un => .yield 1 "System.UInt64"
  | .convR4 => .yield 1 "System.Single"
  | .convR8 | .convRUn => .yield 1 "System.Double"
  | .convI | .convOvfI | .convOvfIUn => .yield 1 "System.IntPtr"
  | .convU | .convOvfU | .convOvfUUn => .yield 1 "System.UIntPtr"
  | .cpobj | .stobj => .consume 2
  | .ldobj | .castclass | .isinst | .unboxAny => .fixed 1 [.typeOperand]
  | .unbox | .refanyval => .fixed 1 [.typeRef]
  | .box => .yield 1 "System.Object"
  | .throw | .endfilter | .initobj => .consume 1
  | .ldfld => .fixed 1 [.fieldValue]
  | .ldflda => .fixed 1 [.fieldRef]
  | .stfld => .consume 2
  | .ldsfld => .fixed 0 [.fieldValue]
  | .ldsflda => .fixed 0 [.fieldRef]
  | .stsfld => .consume 1
  | .newarr => .fixed 1 [.typeArray]
  | .ldlen => .yield 1 "System.UIntPtr"
  | .ldelema => .fixed 2 [.typeRef]
  | .ldelem => .fixed 2 [.typeOperand]
  | .ldelemI1 | .ldelemU1 | .ldelemI2 | .ldelemU2 | .ldelemI4 | .ldelemU4 => .yield 2 "System.Int32"
  | .ldelemI8 => .yield 2 "System.Int64"
  | .ldelemI => .yield 2 "System.IntPtr"
  | .ldelemR4 => .yield 2 "System.Single"
  | .ldelemR8 => .yield 2 "System.Double"
  | .ldelemRef => .yield 2 "System.Object"
  | .stelem | .stelemI | .stelemI1 | .stelemI2 | .stelemI4 | .stelemI8 | .stelemR4 | .stelemR8
  | .stelemRef | .cpblk | .initblk => .consume 3
  | .mkrefany => .yield 1 "System.TypedReference"
  | .refanytype => .yield 1 "System.RuntimeTypeHandle"
  | .ldtoken => .fixed 0 [.handle]
  | .arglist => .yield 0 "System.RuntimeArgumentHandle"
  | .ldftn => .yield 0 "System.IntPtr"
  | .ldvirtftn => .yield 1 "System.IntPtr"
  | .localloc => .yield 1 "System.IntPtr"
  | .sizeof => .yield 0 "System.UInt32"
  | _ => .consume 0

def handleTypeName : Item → String
  | .type _ => "System.RuntimeTypeHandle"
  | .method _ => "System.RuntimeMethodHandle"
  | .field _ => "System.RuntimeFieldHandle"

namespace Operand

def var? : Operand → Option Nat
  | .var index => some index
  | _ => Option.none

def type? : Operand → Option TypeId
  | .type t => some t
  | _ => Option.none

def field? : Operand → Option FieldId
  | .field f => some f
  | _ => Option.none

end Operand

namespace Registry

/-- the type constructed over a type that may be unknown -/
def constructKnown (shape : Shape) : Option TypeId → StateM Registry (Option TypeId)
  | some t => return some (← construct shape t)
  | none => return none

/-- The type of an argument of `m`.  Argument 0 of an instance method is the instance, which value
types pass by reference. -/
def argumentType (m : MethodId) (index : Nat) : StateM Registry (Option TypeId) := do
  let r ← get
  let d := r.method m
  match d.isStatic, index with
  | true, _ => return d.paramTypes[index]?
  | false, 0 =>
    match d.declaring with
    | none => return none
    | some t => if (r.type t).form.isValueType then constructKnown .byRef (some t) else return some t
  | false, position + 1 => return d.paramTypes[position]?

def selectedArgument (m : MethodId) (operand : Operand) : StateM Registry (Option TypeId) :=
  match operand.var? with
  | some index => argumentType m index
  | none => return none

def fieldOperandType? (r : Registry) (operand : Operand) : Option TypeId :=
  operand.field?.map fun f => (r.field f).type

/-- the type of a value pushed by an instruction of `m` with the given local variables -/
def pushedType (m : MethodId) (locals : List TypeId) (operand : Operand) :
    PushRule → StateM Registry (Option TypeId)
  | .unknown => return none
  | .named name => return (← get).find? name
  | .argument => selectedArgument m operand
  | .argumentRef => do constructKnown .byRef (← selectedArgument m operand)
  | .localVar => return operand.var?.bind (locals[·]?)
  | .localRef => constructKnown .byRef (operand.var?.bind (locals[·]?))
  | .typeOperand => return operand.type?
  | .typeRef => constructKnown .byRef operand.type?
  | .typeArray => constructKnown .szArray operand.type?
  | .fieldValue => return (← get).fieldOperandType? operand
  | .fieldRef => do constructKnown .byRef ((← get).fieldOperandType? operand)
  | .handle =>
    match operand with
    | .token item => return (← get).find? (handleTypeName item)
    | _ => return none

def callEffect (r : Registry) (callee : MethodId) : StackEffect :=
  let d := r.method callee
  { pops := d.params.length + (if d.isStatic then 0 else 1)
    pushTypes := if r.returnsValue callee then [some d.returnType] else [] }

def constructEffect (r : Registry) (constructor : MethodId) : StackEffect :=
  { pops := (r.method constructor).params.length
    pushTypes := [(r.method constructor).declaring] }

def indirectEffect (r : Registry) (site : CallSite) : StackEffect :=
  { pops := site.paramCount + (if site.hasThis then 1 else 0) + 1
    pushTypes := if r.siteReturnsValue site then [site.returnType] else [] }

def applyRule (m : MethodId) (locals : List TypeId) (operand : Operand) :
    StackRule → StateM Registry StackEffect
  | .fixed pops pushes => do
    let pushTypes ← pushes.mapM (pushedType m locals operand)
    return { pops, pushTypes }
  | .call => do
    match operand with
    | .method callee _ => return (← get).callEffect callee
    | _ => return {}
  | .construct => do
    match operand with
    | .method constructor _ => return (← get).constructEffect constructor
    | _ => return { pushTypes := [none] }
  | .indirectCall => do
    match operand with
    | .signature site => return (← get).indirectEffect site
    | _ => return { pops := 1 }
  | .result => return { pops := if (← get).returnsValue m then 1 else 0 }

def withStackEffect (m : MethodId) (locals : List TypeId) (i : Instruction) :
    StateM Registry Instruction := do
  let stack ← applyRule m locals i.operand (stackRule i.opcode)
  return { i with stack }

/-- the types whose names tell whether a call returns a value, or `m` itself where it returns -/
def effectUses (r : Registry) (m : MethodId) (i : Instruction) : List TypeId :=
  match stackRule i.opcode, i.operand with
  | .call, .method callee _ => r.resultUses callee
  | .indirectCall, .signature site => site.returnType.toList
  | .result, _ => r.resultUses m
  | _, _ => []

/-- the code of `m` with stack effects, in order; locals have their declared types -/
def withStackEffects (m : MethodId) (code : List Instruction) :
    StateM Registry (List Instruction) := do
  modify fun r => r.useNames (code.flatMap (r.effectUses m))
  let locals := match (← get).body? m with
    | some body => body.locals
    | none => []
  code.mapM (withStackEffect m locals)

end Registry

end ProgramScan
